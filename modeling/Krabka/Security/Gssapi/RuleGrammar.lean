import Krabka.Security.Gssapi.Rules

/-!
# `Security.Gssapi.RuleGrammar` — the texts of a rule

The grammar of a rule beside its parser. A text is a rule in one way only, since no part can begin the way
the next one does, so the parser accepts exactly the texts of the grammar and finds their parts. The printer
writes one text of each rule, and that one is read back.
-/

namespace Krabka.Security.Gssapi

open Text

/-! ## The grammar

A rule with its parts as they are spelled. Numbers may have leading zeros and a sign. -/

/-- `(match)`. -/
structure MatchText where
  source : List Char
  closed : ')' ∉ source

def MatchText.text (m : MatchText) : List Char := '(' :: (m.source ++ [')'])

/-- `s/from/to/g?`. -/
structure SubstText where
  source : List Char
  toText : List Char
  global : Bool
  sourceClosed : '/' ∉ source
  toClosed : '/' ∉ toText

def SubstText.text (s : SubstText) : List Char :=
  ['s', '/'] ++ (s.source ++ '/' :: (s.toText ++ '/' :: if s.global then ['g'] else []))

def Case.flag : Case → List Char
  | .preserve => []
  | .lower => ['L']
  | .upper => ['U']

/-- `/?(L|U)?`. -/
def caseText (slash : Bool) (case : Case) : List Char := (if slash then ['/'] else []) ++ case.flag

/-- `RULE:[<digits>:<format>](<match>)?(s/<from>/<to>/g?)?/?(L|U)?`. -/
structure RuleText where
  digits : List Char
  format : List Char
  matchText : Option MatchText
  subst : Option SubstText
  slash : Bool
  case : Case
  isDigit : ∀ c ∈ digits, c.isDigit = true
  counted : digits ≠ []
  formatClosed : ']' ∉ format

namespace RuleText

variable (t : RuleText)

def matchPart : List Char := t.matchText.elim [] MatchText.text

def substPart : List Char := t.subst.elim [] SubstText.text

def text : List Char :=
  rulePrefix ++ (t.digits ++ ':' :: (t.format ++ ']' ::
    (t.matchPart ++ (t.substPart ++ caseText t.slash t.case))))

/-- The number that the digits spell. -/
def count : Nat := Nat.ofDigitChars 10 t.digits 0

end RuleText

variable {R : RegexCrate}

def MatchText.Compiles (m : MatchText) (re : JavaPattern R) : Prop := JavaPattern.new R m.source = .ok re

structure SubstText.Compiles (s : SubstText) (subst : Subst R) : Prop where
  fromRe : JavaPattern.new R s.source = .ok subst.fromRe
  toText : subst.toText = s.toText
  global : subst.global = s.global

/-- The parts of a rule are those of its text. -/
structure RuleText.Spells (t : RuleText) (rule : Translate R) : Prop where
  count : rule.numComponents.toNat = t.count
  format : rule.format = t.format
  matchRe : Option.Rel MatchText.Compiles t.matchText rule.matchRe
  subst : Option.Rel SubstText.Compiles t.subst rule.subst
  case : rule.case = t.case

/-! ## The count

What the number in front is read from. -/

/-- A count of digits alone, of any length, with leading zeros or not. -/
theorem parseU64_digits {ds : List Char} (h : ∀ c ∈ ds, c.isDigit = true) {n : UInt64} :
    parseU64 (String.ofList ds) = .ok n ↔ ds ≠ [] ∧ n.toNat = Nat.ofDigitChars 10 ds 0 := by
  rw [parseU64_eq_ok, String.toList_ofList, digitsOf_of_isDigit h]
  exact and_congr_right' ((and_iff_right h).trans eq_comm)

/-- The count ends at its colon. -/
theorem takeWhile_digits {ds : List Char} (h : ∀ c ∈ ds, c.isDigit = true) (rest : List Char) :
    (ds ++ ':' :: rest).takeWhile Char.isDigit = ds := by
  rw [List.takeWhile_append_of_pos h]
  simp

theorem dropWhile_digits {ds : List Char} (h : ∀ c ∈ ds, c.isDigit = true) (rest : List Char) :
    (ds ++ ':' :: rest).dropWhile Char.isDigit = ':' :: rest := by
  rw [List.dropWhile_append_of_pos h]
  simp

/-! ## The optional parts

Each parser takes a part off if it is there as a whole. -/

/-- A pattern is accepted where it compiles. -/
theorem compilePattern_eq_ok {spec source : List Char} {re : JavaPattern R} :
    compilePattern R spec source = .ok re ↔ JavaPattern.new R source = .ok re := Results.mapError_eq_ok

theorem stripPrefix_of_head {c : Char} {s : List Char} (h : s.head? ≠ some c) (p : List Char) :
    stripPrefix (c :: p) s = none := by
  rw [stripPrefix_eq_none]
  rintro rest rfl
  exact h rfl

/-- A printed match part is parsed back, where no other one follows. -/
theorem parseMatch_text {spec rest : List Char} {m : Option MatchText} {re : Option (JavaPattern R)}
    (hre : Option.Rel MatchText.Compiles m re) (hrest : rest.head? ≠ some '(') :
    parseMatch R spec (m.elim [] MatchText.text ++ rest) = .ok (re, rest) := by
  unfold parseMatch
  cases hre with
  | none =>
      rw [Option.elim_none, List.nil_append, stripPrefix_of_head hrest]
      rfl
  | some hre =>
      rename_i m re
      have hcut : (stripPrefix ['('] ((some m).elim [] MatchText.text ++ rest)).bind (splitOnceAt ')') =
          some (m.source, rest) := by
        rw [Option.bind_eq_some_iff]
        refine ⟨m.source ++ ')' :: rest, stripPrefix_eq_some.mpr ?_, splitOnceAt_append m.closed⟩
        simp [MatchText.text]
      rw [hcut]
      dsimp only
      rw [compilePattern_eq_ok.mpr hre]
      rfl

/-- What is parsed as a match part has the text of one. -/
theorem parseMatch_eq_ok {spec rest after : List Char} {re : Option (JavaPattern R)}
    (h : parseMatch R spec rest = .ok (re, after)) :
    ∃ m, rest = m.elim [] MatchText.text ++ after ∧ Option.Rel MatchText.Compiles m re := by
  unfold parseMatch at h
  split at h
  · rename_i source cut hcut
    obtain ⟨p, hp, h⟩ := Results.bind_eq_ok.mp h
    cases h
    obtain ⟨mid, hmid, hcut⟩ := Option.bind_eq_some_iff.mp hcut
    obtain ⟨hclosed, rfl⟩ := splitOnceAt_eq_some.mp hcut
    refine ⟨some ⟨source, hclosed⟩, ?_, .some (compilePattern_eq_ok.mp hp)⟩
    rw [stripPrefix_eq_some.mp hmid]
    simp [MatchText.text]
  · cases h
    exact ⟨none, rfl, .none⟩

/-- A substitution is cut at its three slashes. -/
theorem cutSubst_eq_some {rest source toText after : List Char} :
    cutSubst rest = some (source, toText, after) ↔
      '/' ∉ source ∧ '/' ∉ toText ∧ rest = ['s', '/'] ++ (source ++ '/' :: (toText ++ '/' :: after)) := by
  unfold cutSubst
  simp only [Option.bind_eq_bind, Option.bind_eq_some_iff, stripPrefix_eq_some, splitOnceAt_eq_some,
    Prod.exists, Option.pure_def, Option.some.injEq, Prod.mk.injEq]
  constructor
  · rintro ⟨_, _, ⟨_, rfl, hsource, rfl⟩, _, _, ⟨htext, rfl⟩, rfl, rfl, rfl⟩
    exact ⟨hsource, htext, rfl⟩
  · rintro ⟨hsource, htext, rfl⟩
    exact ⟨source, _, ⟨_, rfl, hsource, rfl⟩, toText, after, ⟨htext, rfl⟩, rfl, rfl, rfl⟩

/-- What is cut off behind the substitution tells its flag. -/
theorem strip_global (global : Bool) {rest : List Char} (h : rest.head? ≠ some 'g') :
    ((stripPrefix ['g'] ((if global then ['g'] else []) ++ rest)).elim
      (false, (if global then ['g'] else []) ++ rest) fun after => (true, after)) = (global, rest) := by
  cases global with
  | false => rw [if_neg (by decide), List.nil_append, stripPrefix_of_head h, Option.elim_none]
  | true => rw [if_pos rfl, stripPrefix_append, Option.elim_some]

/-- A printed substitution is parsed back. -/
theorem parseSubst_text {spec rest : List Char} {s : Option SubstText} {subst : Option (Subst R)}
    (hsubst : Option.Rel SubstText.Compiles s subst) (hs : rest.head? ≠ some 's')
    (hg : rest.head? ≠ some 'g') :
    parseSubst R spec (s.elim [] SubstText.text ++ rest) = .ok (subst, rest) := by
  unfold parseSubst
  cases hsubst with
  | none =>
      have hcut : cutSubst rest = none := by
        unfold cutSubst
        rw [stripPrefix_of_head hs]
        rfl
      rw [Option.elim_none, List.nil_append, hcut]
  | some hcompiles =>
      rename_i s subst
      have hcut : cutSubst ((some s).elim [] SubstText.text ++ rest) =
          some (s.source, s.toText, (if s.global then ['g'] else []) ++ rest) := by
        rw [cutSubst_eq_some]
        exact ⟨s.sourceClosed, s.toClosed, by simp [SubstText.text]⟩
      rw [hcut]
      dsimp only
      rw [strip_global s.global hg, compilePattern_eq_ok.mpr hcompiles.fromRe, ← hcompiles.toText,
        ← hcompiles.global]
      rfl

/-- What is parsed as a substitution has the text of one. -/
theorem parseSubst_eq_ok {spec rest after : List Char} {subst : Option (Subst R)}
    (h : parseSubst R spec rest = .ok (subst, after)) :
    ∃ s, rest = s.elim [] SubstText.text ++ after ∧ Option.Rel SubstText.Compiles s subst := by
  unfold parseSubst at h
  split at h
  · rename_i source toText cut hcut
    obtain ⟨hsource, htext, rfl⟩ := cutSubst_eq_some.mp hcut
    cases hg : stripPrefix ['g'] cut with
    | none =>
        rw [hg, Option.elim_none] at h
        obtain ⟨p, hp, h⟩ := Results.bind_eq_ok.mp h
        cases h
        refine ⟨some ⟨source, toText, false, hsource, htext⟩, by simp [SubstText.text], .some ?_⟩
        exact ⟨compilePattern_eq_ok.mp hp, rfl, rfl⟩
    | some behind =>
        rw [hg, Option.elim_some] at h
        obtain ⟨p, hp, h⟩ := Results.bind_eq_ok.mp h
        cases h
        refine ⟨some ⟨source, toText, true, hsource, htext⟩, ?_, .some ?_⟩
        · rw [stripPrefix_eq_some.mp hg]
          simp [SubstText.text]
        · exact ⟨compilePattern_eq_ok.mp hp, rfl, rfl⟩
  · cases h
    exact ⟨none, rfl, .none⟩

/-- The end of a rule is one of the flags. -/
theorem parseCase_eq_some {rest : List Char} {case : Case} :
    parseCase rest = some case ↔ rest = case.flag := by
  unfold parseCase
  cases case with
  | preserve => simp [Case.flag]; grind
  | lower => simp [Case.flag]; grind
  | upper => simp [Case.flag]; grind

/-- The optional slash. -/
theorem parseCase_strip {rest : List Char} {case : Case} :
    parseCase ((stripPrefix ['/'] rest).getD rest) = some case ↔ ∃ slash, rest = caseText slash case := by
  rw [parseCase_eq_some]
  cases hstrip : stripPrefix ['/'] rest with
  | none =>
      rw [Option.getD_none]
      constructor
      · intro h
        exact ⟨false, h⟩
      · rintro ⟨slash, rfl⟩
        cases slash with
        | false => rfl
        | true => exact absurd rfl (stripPrefix_eq_none.mp hstrip _)
  | some after =>
      rw [Option.getD_some]
      rw [stripPrefix_eq_some.mp hstrip]
      constructor
      · rintro rfl
        exact ⟨true, rfl⟩
      · rintro ⟨slash, h⟩
        cases slash with
        | true => exact List.append_cancel_left h
        | false => cases case <;> cases h

/-! ## What a part begins with

No two parts begin alike, so the parser never has a choice. -/

/-- What the flag of a case can start with. -/
theorem head_caseText {c : Char} (hc : c ≠ '/' ∧ c ≠ 'L' ∧ c ≠ 'U') (slash : Bool) (case : Case) :
    (caseText slash case).head? ≠ some c := by
  obtain ⟨hslash, hlower, hupper⟩ := hc
  cases slash <;> cases case <;> simp [caseText, Case.flag, hslash.symm, hlower.symm, hupper.symm]

/-- No substitution starts like a match part. -/
theorem head_substPart (t : RuleText) : (t.substPart ++ caseText t.slash t.case).head? ≠ some '(' := by
  unfold RuleText.substPart
  cases t.subst with
  | none => exact head_caseText (by decide) t.slash t.case
  | some s => simp [SubstText.text]

/-! ## The parser and the grammar

Both directions, part by part. -/

/-- A rule as the text that is left of a spec spells it. -/
inductive Spelled (trimmed : List Char) : Rule R → Prop
  | default (h : trimmed = defaultRule) : Spelled trimmed .default
  | translate {t : RuleText} {rule : Translate R} (h : trimmed = t.text) (ht : t.Spells rule) :
      Spelled trimmed (.translate rule)

/-- No rule text is the word `DEFAULT`. -/
theorem text_ne_default (t : RuleText) : t.text ≠ defaultRule := by
  intro h
  have hhead := congrArg List.head? h
  cases hhead

/-- What spells a rule is parsed to it. -/
theorem parse_spelled {spec : List Char} {rule : Rule R} (h : Spelled (trimMatches isWhitespace spec) rule) :
    Rule.parse R spec = .ok rule := by
  unfold Rule.parse
  dsimp only
  cases h with
  | default h =>
      rw [if_pos h]
      rfl
  | @translate t rule h ht =>
      have hcount (g : ParseIntError → RuleError R) :
          (parseU64 (String.ofList t.digits)).mapError g = .ok rule.numComponents :=
        Results.mapError_eq_ok.mpr ((parseU64_digits t.isDigit).mpr ⟨t.counted, ht.count⟩)
      have hcolon (rest : List Char) : stripPrefix [':'] (':' :: rest) = some rest :=
        stripPrefix_append [':'] rest
      have hcase : parseCase ((stripPrefix ['/'] (caseText t.slash t.case)).getD (caseText t.slash t.case)) =
          some t.case := parseCase_strip.mpr ⟨t.slash, rfl⟩
      rw [h, if_neg (text_ne_default t), RuleText.text, stripPrefix_append, Results.okOr_some, Results.ok_bind,
        takeWhile_digits t.isDigit, hcount, Results.ok_bind, dropWhile_digits t.isDigit, hcolon,
        Results.okOr_some, Results.ok_bind, splitOnceAt_append t.formatClosed, Results.okOr_some,
        Results.ok_bind]
      dsimp only
      rw [RuleText.matchPart, parseMatch_text ht.matchRe (head_substPart t), Results.ok_bind]
      dsimp only
      rw [RuleText.substPart, parseSubst_text ht.subst (head_caseText (by decide) _ _)
        (head_caseText (by decide) _ _), Results.ok_bind]
      dsimp only
      rw [hcase, ← ht.format, ← ht.case]
      rfl

/-- What is parsed spells the rule. -/
theorem spelled_of_parse {spec : List Char} {rule : Rule R} (h : Rule.parse R spec = .ok rule) :
    Spelled (trimMatches isWhitespace spec) rule := by
  unfold Rule.parse at h
  dsimp only at h
  split at h
  · rename_i hdefault
    cases h
    exact .default hdefault
  · obtain ⟨rest, hrest, h⟩ := Results.bind_eq_ok.mp h
    obtain ⟨n, hn, h⟩ := Results.bind_eq_ok.mp h
    obtain ⟨behind, hbehind, h⟩ := Results.bind_eq_ok.mp h
    obtain ⟨⟨format, parts⟩, hformat, h⟩ := Results.bind_eq_ok.mp h
    obtain ⟨⟨matchRe, afterMatch⟩, hmatch, h⟩ := Results.bind_eq_ok.mp h
    obtain ⟨⟨subst, afterSubst⟩, hsubst, h⟩ := Results.bind_eq_ok.mp h
    obtain ⟨case, hcase, h⟩ := Results.bind_eq_ok.mp h
    cases h
    dsimp only at hmatch hsubst hcase
    have hdigits : ∀ c ∈ rest.takeWhile Char.isDigit, c.isDigit = true := fun c hc => List.mem_takeWhile_imp hc
    obtain ⟨hcounted, hcount⟩ := (parseU64_digits hdigits).mp (Results.mapError_eq_ok.mp hn)
    have hbehind := stripPrefix_eq_some.mp (Results.okOr_eq_ok.mp hbehind)
    obtain ⟨hclosed, rfl⟩ := splitOnceAt_eq_some.mp (Results.okOr_eq_ok.mp hformat)
    obtain ⟨m, rfl, hm⟩ := parseMatch_eq_ok hmatch
    obtain ⟨s, rfl, hs⟩ := parseSubst_eq_ok hsubst
    obtain ⟨slash, rfl⟩ := parseCase_strip.mp (Results.okOr_eq_ok.mp hcase)
    refine .translate (t := ⟨_, format, m, s, slash, case, hdigits, hcounted, hclosed⟩) ?_
      ⟨hcount, rfl, hm, hs, rfl⟩
    rw [stripPrefix_eq_some.mp (Results.okOr_eq_ok.mp hrest), RuleText.text]
    refine congrArg (rulePrefix ++ ·) ?_
    calc rest = rest.takeWhile Char.isDigit ++ rest.dropWhile Char.isDigit :=
          List.takeWhile_append_dropWhile.symm
      _ = _ := by rw [hbehind]; rfl

/-- **The parser accepts the texts of the grammar**, and finds their parts. -/
theorem parse_iff_spelled {spec : List Char} {rule : Rule R} :
    Rule.parse R spec = .ok rule ↔ Spelled (trimMatches isWhitespace spec) rule :=
  ⟨spelled_of_parse, parse_spelled⟩

/-- The number fits a `usize` and the patterns compile. -/
structure RuleText.Valid (R : RegexCrate) (t : RuleText) : Prop where
  fits : t.count < 2 ^ 64
  matchRe : ∀ m ∈ t.matchText, ∃ re, JavaPattern.new R m.source = .ok re
  fromRe : ∀ s ∈ t.subst, ∃ re, JavaPattern.new R s.source = .ok re

/-- A rule text stands for a rule exactly where its parts are valid. -/
theorem exists_spells {t : RuleText} : (∃ rule : Translate R, t.Spells rule) ↔ t.Valid R := by
  constructor
  · rintro ⟨⟨n, format, re, subst, case⟩, hcount, _, hmatch, hsubst, _⟩
    dsimp only at hcount hmatch hsubst
    refine ⟨hcount ▸ n.toNat_lt, ?_, ?_⟩
    · intro m hm
      rw [Option.mem_def.mp hm] at hmatch
      cases hmatch with
      | some hre => exact ⟨_, hre⟩
    · intro s hs
      rw [Option.mem_def.mp hs] at hsubst
      cases hsubst with
      | some hcompiles => exact ⟨_, hcompiles.fromRe⟩
  · rintro ⟨hfits, hmatch, hsubst⟩
    have hre : ∃ re, Option.Rel (MatchText.Compiles (R := R)) t.matchText re := by
      cases hm : t.matchText with
      | none => exact ⟨none, .none⟩
      | some m =>
          obtain ⟨re, hre⟩ := hmatch m hm
          exact ⟨some re, .some hre⟩
    have hfrom : ∃ subst, Option.Rel (SubstText.Compiles (R := R)) t.subst subst := by
      cases hs : t.subst with
      | none => exact ⟨none, .none⟩
      | some s =>
          obtain ⟨re, hre⟩ := hsubst s hs
          exact ⟨some ⟨re, s.toText, s.global⟩, .some ⟨hre, rfl, rfl⟩⟩
    obtain ⟨re, hre⟩ := hre
    obtain ⟨subst, hfrom⟩ := hfrom
    refine ⟨⟨UInt64.ofNat t.count, t.format, re, subst, t.case⟩, ?_, rfl, hre, hfrom, rfl⟩
    rw [UInt64.toNat_ofNat', Nat.mod_eq_of_lt hfits]

/-! ## The printer

The text of a rule in its one printed form, and what it ends with. -/

/-- The text that the printer writes of a rule: its number in decimal, and a slash in front of a flag only. -/
def RuleText.printed (t : RuleText) (n : UInt64) : RuleText where
  digits := (showU64 n).toList
  format := t.format
  matchText := t.matchText
  subst := t.subst
  slash := t.case ≠ .preserve
  case := t.case
  isDigit := fun _ hc => showU64_isDigit hc
  counted := fun h => showU64_ne_empty n (String.toList_eq_nil_iff.mp h)
  formatClosed := t.formatClosed

/-- A printed rule spells the same rule. -/
theorem spells_printed {t : RuleText} {rule : Translate R} (h : t.Spells rule) :
    (t.printed rule.numComponents).Spells rule where
  count := by
    show _ = Nat.ofDigitChars 10 (Nat.repr _).toList 0
    rw [Nat.toList_repr, Nat.ofDigitChars_ten_toDigits]
  format := h.format
  matchRe := h.matchRe
  subst := h.subst
  case := h.case

/-- A case is printed as its flag. -/
theorem display_case (case : Case) : case.display = caseText (case ≠ .preserve) case := by
  cases case with
  | preserve => rfl
  | lower => rfl
  | upper => rfl

/-- A match part is printed as it was read. -/
theorem display_match {m : Option MatchText} {re : Option (JavaPattern R)}
    (h : Option.Rel MatchText.Compiles m re) :
    (re.elim [] fun re => ['('] ++ re.asStr ++ [')']) = m.elim [] MatchText.text := by
  cases h with
  | none => rfl
  | some h =>
      rw [Option.elim_some, asStr_new h]
      rfl

/-- A substitution is printed as it was read. -/
theorem display_subst {s : Option SubstText} {subst : Option (Subst R)}
    (h : Option.Rel SubstText.Compiles s subst) :
    subst.elim [] Subst.display = s.elim [] SubstText.text := by
  cases h with
  | none => rfl
  | some h =>
      rw [Option.elim_some, Subst.display, asStr_new h.fromRe, h.toText, h.global, Option.elim_some,
        SubstText.text]
      simp only [List.append_assoc, List.cons_append, List.nil_append]

/-- A rule is printed as its text, with its count in plain digits. -/
theorem display_spelled {t : RuleText} {rule : Translate R} (h : t.Spells rule) :
    (Rule.translate rule).display = (t.printed rule.numComponents).text := by
  rw [Rule.display, display_match h.matchRe, display_subst h.subst, display_case, h.case, h.format]
  unfold RuleText.text RuleText.matchPart RuleText.substPart
  simp only [List.append_assoc, List.cons_append, RuleText.printed]
  rfl

/-- No text of a rule ends in white space. -/
def Ends (s : List Char) : Prop := ∀ c ∈ s.getLast?, isWhitespace c = false

/-- Texts that end well do so together. -/
theorem Ends.append {a b : List Char} (ha : Ends a) (hb : Ends b) : Ends (a ++ b) := by
  intro c hc
  rw [List.getLast?_append, Option.mem_def, Option.or_eq_some_iff] at hc
  rcases hc with hc | ⟨_, hc⟩
  · exact hb c hc
  · exact ha c hc

theorem ends_concat (s : List Char) {c : Char} (h : isWhitespace c = false) : Ends (s ++ [c]) := by
  intro d hd
  rw [List.getLast?_concat, Option.mem_def, Option.some.injEq] at hd
  exact hd ▸ h

theorem ends_nil : Ends [] := fun _ hc => by cases hc

theorem ends_matchPart (t : RuleText) : Ends t.matchPart := by
  unfold RuleText.matchPart
  cases t.matchText with
  | none => exact ends_nil
  | some m => exact ends_concat ('(' :: m.source) (by decide)

theorem ends_substPart (t : RuleText) : Ends t.substPart := by
  unfold RuleText.substPart
  cases t.subst with
  | none => exact ends_nil
  | some s =>
      have hclosed : Ends ((['s', '/'] ++ (s.source ++ '/' :: s.toText)) ++ ['/']) := ends_concat _ (by decide)
      have hglobal : Ends (if s.global then ['g'] else []) := by
        split
        · exact ends_concat [] (by decide)
        · exact ends_nil
      have h := hclosed.append hglobal
      simp only [List.append_assoc, List.cons_append] at h
      exact h

theorem ends_caseText (slash : Bool) (case : Case) : Ends (caseText slash case) := by
  have hslash : Ends (if slash then ['/'] else []) := by
    split
    · exact ends_concat [] (by decide)
    · exact ends_nil
  refine hslash.append ?_
  cases case with
  | preserve => exact ends_nil
  | lower => exact ends_concat [] (by decide)
  | upper => exact ends_concat [] (by decide)

/-- A rule text ends in no space. -/
theorem ends_text (t : RuleText) : Ends t.text := by
  have hformat : Ends ((rulePrefix ++ (t.digits ++ ':' :: t.format)) ++ [']']) := ends_concat _ (by decide)
  have h := hformat.append
    ((ends_matchPart t).append ((ends_substPart t).append (ends_caseText t.slash t.case)))
  simp only [List.append_assoc, List.cons_append] at h
  exact h

/-- Trimming leaves a rule text alone. -/
theorem trim_text (t : RuleText) : trimMatches isWhitespace t.text = t.text := by
  refine trimMatches_of_ends ?_ (ends_text t)
  intro c hc
  cases hc
  decide

/-- **A printed rule is parsed back.** -/
theorem parse_display {spec : List Char} {rule : Rule R} (h : Rule.parse R spec = .ok rule) :
    Rule.parse R rule.display = .ok rule := by
  refine parse_iff_spelled.mpr ?_
  cases parse_iff_spelled.mp h with
  | default _ =>
      have htrim : trimMatches isWhitespace defaultRule = defaultRule := by decide
      exact .default htrim
  | @translate t rule h ht =>
      rw [display_spelled ht, trim_text]
      exact .translate rfl (spells_printed ht)

/-- **Rules are parsed by their grammar and read back from their print**, whatever compiles. -/
theorem parse_grammar (R : RegexCrate) (spec : List Char) :
    ((∃ rule, Rule.parse R spec = .ok rule) ↔
      trimMatches isWhitespace spec = defaultRule ∨
        ∃ t : RuleText, trimMatches isWhitespace spec = t.text ∧ t.Valid R) ∧
    (∀ rule, Rule.parse R spec = .ok rule ↔ Spelled (trimMatches isWhitespace spec) rule) ∧
    ∀ rule, Rule.parse R spec = .ok rule → Rule.parse R rule.display = .ok rule := by
  refine ⟨⟨?_, ?_⟩, fun rule => parse_iff_spelled, fun rule => parse_display⟩
  · rintro ⟨rule, h⟩
    cases parse_iff_spelled.mp h with
    | default hdefault => exact .inl hdefault
    | @translate t rule htext ht => exact .inr ⟨t, htext, exists_spells.mp ⟨rule, ht⟩⟩
  · rintro (hdefault | ⟨t, htext, hvalid⟩)
    · exact ⟨.default, parse_spelled (.default hdefault)⟩
    · obtain ⟨rule, ht⟩ := exists_spells.mpr hvalid
      exact ⟨.translate rule, parse_spelled (.translate htext ht)⟩

/-- A crate that compiles everything. -/
def anyRegex : RegexCrate := ⟨List Char, Unit, fun source => .ok source, fun c => ['\\', c]⟩

theorem parse_grammar_lower :
    ∃ rule, Rule.parse anyRegex "RULE:[1:$1]/L".toList = .ok rule ∧
      Rule.parse anyRegex rule.display = .ok rule := by
  have h : Rule.parse anyRegex "RULE:[1:$1]/L".toList =
      .ok (.translate ⟨1, ['$', '1'], none, none, .lower⟩) := by rfl
  exact ⟨_, h, (parse_grammar anyRegex _).2.2 _ h⟩

end Krabka.Security.Gssapi
