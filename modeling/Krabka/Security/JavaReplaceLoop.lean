import Krabka.Security.JavaReference

/-!
# `Security.JavaReplaceLoop` — the loop of `JavaPattern::replace`

The loop keeps three positions: up to where the text has been put out, from where to search, and how many matches
it has replaced. From any of its states it puts out what the reference says is left (`finish_eq`). So `replace_all`
and `replace_first` are Java's, no offset is ever bad and no group number overflows.
-/

namespace Krabka.Security

open Text Results WhileLoop

section
variable {R : RegexCrate} {search : RegexSearch R} {p : JavaPattern R} {text replacement : List Char}

/-- A turn at a match. -/
theorem replaceTurn_found {s : Replacing} {captures : Captures} {between : List Char}
    (hcount : p.groupCount search ≤ usizeMax / 10 - 1)
    (hfound : search.capturesAt p.unanchored text s.search = some captures)
    (hbetween : getRange text s.appended captures.whole.start = some between) :
    p.replaceTurn search text replacement s =
      ((p.expanded search text replacement captures).mapError .returned >>= fun replaced =>
        if captures.whole.start = captures.whole.stop then do
          let rest ← okOr (.returned (.matchOffset captures.whole.stop)) (getFrom text captures.whole.stop)
          let t := { s with
            out := s.out ++ between ++ replaced, appended := captures.whole.stop, replaced := s.replaced + 1 }
          if rest = [] then .ok { t with broken := true }
          else .ok { t with search := resume text captures.whole }
        else .ok { s with
          out := s.out ++ between ++ replaced, appended := captures.whole.stop, replaced := s.replaced + 1,
          search := resume text captures.whole }) := by
  unfold JavaPattern.replaceTurn
  simp only [hfound, hbetween, okOr_some, ok_bind, expand_eq hcount]
  unfold JavaPattern.expanded
  cases readTemplate (p.groupCount search) (search.captureNames p.unanchored) replacement with
  | error e => rfl
  | ok pieces =>
      show (if captures.whole.start = captures.whole.stop then _ else _) =
        (if captures.whole.start = captures.whole.stop then _ else _)
      unfold resume
      by_cases hempty : captures.whole.start = captures.whole.stop
      · rw [if_pos hempty, if_pos hempty]
        cases getFrom text captures.whole.stop with
        | none => rfl
        | some rest =>
            cases rest with
            | nil => rfl
            | cons next rest =>
                simp [hempty]
      · rw [if_neg hempty, if_neg hempty, if_neg hempty]

/-- The rest of the loop from a state, and the tail. -/
def finish (search : RegexSearch R) (p : JavaPattern R) (text replacement : List Char) (limit : Nat)
    (s : Replacing) : Except Failure (List Char) := do
  let s ← whileLoop (replacing text limit) (p.replaceTurn search text replacement) _
    (replaceTurn_falls search p text replacement limit) s
  s.appendTail text

theorem finish_of_not {limit : Nat} {s : Replacing} {tail : List Char} (hcond : replacing text limit s = false)
    (htail : getFrom text s.appended = some tail) :
    finish search p text replacement limit s = .ok (s.out ++ tail) := by
  unfold finish
  rw [whileLoop_stop hcond, ok_bind]
  unfold Replacing.appendTail
  rw [htail]
  rfl

theorem finish_of_turn {limit : Nat} {s t : Replacing} (hcond : replacing text limit s = true)
    (hturn : p.replaceTurn search text replacement s = .ok t) :
    finish search p text replacement limit s = finish search p text replacement limit t := by
  unfold finish
  rw [whileLoop_turn hcond hturn]

theorem finish_of_fail {limit : Nat} {s : Replacing} {e : Failure} (hcond : replacing text limit s = true)
    (hturn : p.replaceTurn search text replacement s = .error e) :
    finish search p text replacement limit s = .error e := by
  unfold finish
  rw [whileLoop_fail hcond hturn]
  rfl

theorem map_spliced_nil {expanded : Captures → Except JavaReplacementError (List Char)} {appended : Nat}
    {tail : List Char} (h : getFrom text appended = some tail) (out : List Char) :
    ((spliced text expanded appended []).map (out ++ ·)).mapError Failure.returned = .ok (out ++ tail) := by
  unfold spliced
  rw [h]
  rfl

theorem map_spliced_cons {expanded : Captures → Except JavaReplacementError (List Char)} {appended : Nat}
    {captures : Captures} {between replaced : List Char} (hexpanded : expanded captures = .ok replaced)
    (hbetween : getRange text appended captures.whole.start = some between) (found : List Captures)
    (out : List Char) :
    (spliced text expanded appended (captures :: found)).map (out ++ ·) =
      (spliced text expanded captures.whole.stop found).map (out ++ between ++ replaced ++ ·) := by
  rw [spliced, hexpanded, ok_bind]
  cases spliced text expanded captures.whole.stop found with
  | error e => rfl
  | ok rest =>
      rw [ok_bind, hbetween]
      show Except.ok (out ++ (between ++ (replaced ++ rest))) = Except.ok (out ++ between ++ replaced ++ rest)
      simp only [List.append_assoc]

/-- A turn at a match that the replacement expands for: its text is put out and the search resumes behind it. An
    empty match at the end of the text leaves the loop, which would find nothing further either way. -/
theorem finish_found (h : search.Lawful p.unanchored) {limit : Nat} {captures : Captures}
    {out between piece : List Char} {appended pos replaced : Nat}
    (hcond : replacing text limit ⟨out, appended, pos, replaced, false⟩ = true)
    (hfound : search.capturesAt p.unanchored text pos = some captures)
    (hbetween : getRange text appended captures.whole.start = some between)
    (hexpanded : p.expanded search text replacement captures = .ok piece) :
    finish search p text replacement limit ⟨out, appended, pos, replaced, false⟩ =
      finish search p text replacement limit
        ⟨out ++ between ++ piece, captures.whole.stop, resume text captures.whole, replaced + 1, false⟩ := by
  have hpos : pos ≤ String.utf8Len text := (replacing_eq_true.mp hcond).2.2
  have hlast := (h.boundary text pos captures 0 captures.whole hpos hfound rfl).2
  have hturn : p.replaceTurn search text replacement ⟨out, appended, pos, replaced, false⟩ = _ :=
    replaceTurn_found h.groupCount_le hfound hbetween
  rw [hexpanded] at hturn
  by_cases hempty : captures.whole.start = captures.whole.stop
  · obtain ⟨rest, hrest, hend⟩ := getFrom_of_boundary hlast
    have hbody := hturn.trans (if_pos hempty)
    rw [hrest, okOr_some, ok_bind] at hbody
    by_cases hatEnd : rest = []
    · have hpast : String.utf8Len text < resume text captures.whole := by
        rw [← hend hatEnd, ← hempty]
        exact lt_resume (Nat.le_refl _)
      have hleft : ¬replacing text limit ⟨out ++ between ++ piece, captures.whole.stop,
          resume text captures.whole, replaced + 1, false⟩ = true :=
        fun hmore => absurd (replacing_eq_true.mp hmore).2.2 (Nat.not_le_of_lt hpast)
      rw [finish_of_turn hcond (hbody.trans (if_pos hatEnd)), finish_of_not rfl hrest,
        finish_of_not (Bool.eq_false_iff.mpr hleft) hrest]
    · exact finish_of_turn hcond (hbody.trans (if_neg hatEnd))
  · exact finish_of_turn hcond (hturn.trans (if_neg hempty))

/-- **The loop computes the reference.** Whatever has been put out stays in front, and of the matches from here on
    as many are replaced as the limit leaves. -/
theorem finish_eq (h : search.Lawful p.unanchored) {pos : Nat} {found : List Captures} (limit : Nat)
    (hfinds : Finds search p.unanchored text pos found) (out : List Char) (appended replaced : Nat)
    (hboundary : IsBoundary text appended) (hle : appended ≤ pos) :
    finish search p text replacement limit ⟨out, appended, pos, replaced, false⟩ =
      ((spliced text (p.expanded search text replacement) appended (found.take (limit - replaced))).map
        (out ++ ·)).mapError .returned := by
  induction hfinds generalizing out appended replaced with
  | @stop pos hstop =>
      obtain ⟨tail, htail, -⟩ := getFrom_of_boundary hboundary
      rw [List.take_nil, map_spliced_nil htail]
      by_cases hcond : replacing text limit ⟨out, appended, pos, replaced, false⟩ = true
      · rcases hstop with hlt | hfound
        · exact absurd (replacing_eq_true.mp hcond).2.2 (Nat.not_le_of_lt hlt)
        · have hturn : p.replaceTurn search text replacement ⟨out, appended, pos, replaced, false⟩ =
              .ok ⟨out, appended, pos, replaced, true⟩ := by
            unfold JavaPattern.replaceTurn
            simp only [hfound]
          rw [finish_of_turn hcond hturn, finish_of_not rfl htail]
      · rw [finish_of_not (Bool.eq_false_iff.mpr hcond) htail]
  | @found pos captures found hpos hfound _ ih =>
      by_cases hlimit : replaced < limit
      · have hcond : replacing text limit ⟨out, appended, pos, replaced, false⟩ = true :=
          replacing_eq_true.mpr ⟨rfl, hlimit, hpos⟩
        have hstart := h.le_start text pos captures hpos hfound
        obtain ⟨hfirst, hlast⟩ := h.boundary text pos captures 0 captures.whole hpos hfound rfl
        obtain ⟨between, -, hbetween, -⟩ := getFrom_eq_append hboundary hfirst (Nat.le_trans hle hstart)
        have hleft : limit - replaced = limit - (replaced + 1) + 1 := by omega
        rw [hleft, List.take_succ_cons]
        cases hexpanded : p.expanded search text replacement captures with
        | error e =>
            have hturn : p.replaceTurn search text replacement ⟨out, appended, pos, replaced, false⟩ = _ :=
              replaceTurn_found h.groupCount_le hfound hbetween
            rw [hexpanded] at hturn
            rw [finish_of_fail hcond hturn, spliced, hexpanded]
            rfl
        | ok piece =>
            rw [finish_found h hcond hfound hbetween hexpanded, map_spliced_cons hexpanded hbetween]
            exact ih (out ++ between ++ piece) captures.whole.stop (replaced + 1) hlast (le_resume _)
      · have hcond : ¬replacing text limit ⟨out, appended, pos, replaced, false⟩ = true :=
          fun hcond => hlimit (replacing_eq_true.mp hcond).2.1
        obtain ⟨tail, htail, -⟩ := getFrom_of_boundary hboundary
        rw [Nat.sub_eq_zero_of_le (Nat.le_of_not_lt hlimit), List.take_zero, map_spliced_nil htail,
          finish_of_not (Bool.eq_false_iff.mpr hcond) htail]

/-- The search moves on with every turn, or the loop is left. -/
theorem replaceTurn_advances (h : search.Lawful p.unanchored) (limit : Nat) :
    Falls (replacing text limit) (p.replaceTurn search text replacement)
      (fun s => if s.broken then 0 else String.utf8Len text + 1 - s.search) := by
  intro s t hcond hturn
  obtain ⟨hbroken, -, hsearch⟩ := replacing_eq_true.mp hcond
  dsimp only
  rw [hbroken, if_neg Bool.false_ne_true]
  rcases replaceTurn_cases search hturn with ⟨-, rfl⟩ | ⟨captures, hfound, -, hresumes⟩
  · rw [if_pos rfl]
    omega
  · have hstart := h.le_start text s.search captures hsearch hfound
    have hle := captures.whole.start_le_stop
    unfold Resumes at hresumes
    by_cases hempty : captures.whole.start = captures.whole.stop
    · rw [if_pos hempty] at hresumes
      rcases hresumes with ⟨next, rest, -, ht, -⟩ | ⟨-, ht⟩
      · have hsize := next.utf8Size_pos
        rw [ht]
        split <;> omega
      · rw [ht, if_pos rfl]
        omega
    · rw [if_neg hempty] at hresumes
      rw [hresumes.1]
      split <;> omega

/-- `$0`, where no digit follows. -/
theorem groupReference_zero (groupCount : Nat) (names : List (Option (List Char))) {rest : List Char}
    (h : rest.takeWhile Char.isDigit = []) : groupReference groupCount names ('0' :: rest) = .ok (0, rest) := by
  have hdigits : ('0' :: rest).takeWhile Char.isDigit = ['0'] := by
    rw [List.takeWhile_cons_of_pos (by decide), h]
  have hone : longestGroup groupCount 0 ['0'] = 1 := longestGroup_cons_of_le (Nat.zero_le _) []
  unfold groupReference numberReference
  rw [if_neg (List.cons_ne_nil _ _), if_neg (by rw [List.head?_cons]; decide), hdigits]
  dsimp only
  rw [hone, if_neg (by decide), if_neg (by decide)]
  rfl

theorem readTemplate_dollarZero (groupCount : Nat) (names : List (Option (List Char))) {rest : List Char}
    (h : rest.takeWhile Char.isDigit = []) :
    readTemplate groupCount names ('$' :: '0' :: rest) =
      (readTemplate groupCount names rest).map (.group 0 :: ·) := by
  conv_lhs => rw [readTemplate.eq_def]
  dsimp only
  rw [if_neg (by decide), if_pos rfl, groupReference_zero groupCount names h]

/-- Reading `$0` gives the whole match. -/
theorem expanded_dollarZero (captures : Captures) :
    p.expanded search text ['$', '0'] captures = .ok (captures.whole.asStr text) := by
  unfold JavaPattern.expanded
  rw [readTemplate_dollarZero _ _ rfl, readTemplate]
  show Except.ok (captures.groupText text 0 ++ []) = _
  rw [List.append_nil]
  rfl

/-- Every match put back as it was leaves the text as it was. -/
theorem spliced_whole {re : R.Regex} (h : search.Lawful re)
    {expanded : Captures → Except JavaReplacementError (List Char)}
    (hexpanded : ∀ captures, expanded captures = .ok (captures.whole.asStr text)) {pos : Nat}
    {found : List Captures} (hfinds : Finds search re text pos found) {appended : Nat}
    (hboundary : IsBoundary text appended) (hle : appended ≤ pos) :
    spliced text expanded appended found = .ok ((getFrom text appended).getD []) := by
  induction hfinds generalizing appended with
  | stop _ => rfl
  | @found pos captures found hpos hfound _ ih =>
      have hstart := h.le_start text pos captures hpos hfound
      obtain ⟨hfirst, hlast⟩ := h.boundary text pos captures 0 captures.whole hpos hfound rfl
      obtain ⟨between, t, hbetween, ht, hfrom⟩ := getFrom_eq_append hboundary hfirst (Nat.le_trans hle hstart)
      obtain ⟨whole, tail, hwhole, htail, hrest⟩ := getFrom_eq_append hfirst hlast captures.whole.start_le_stop
      have hstr : captures.whole.asStr text = whole := by
        unfold Match.asStr
        rw [hwhole, Option.getD_some]
      rw [spliced, hexpanded, ok_bind, ih hlast (le_resume _), ok_bind, hbetween, hstr, htail, hfrom,
        Option.some.inj (ht.symm.trans hrest)]
      rfl

/-- A `str` has at most `isize::MAX` bytes. -/
structure Str where
  chars : List Char
  length_le : String.utf8Len chars ≤ 2 ^ 63 - 1

theorem replace_eq_spliced (h : search.Lawful p.unanchored) {found : List Captures}
    (hfinds : Finds search p.unanchored text 0 found) (limit : Nat) :
    p.replace search text replacement limit =
      (spliced text (p.expanded search text replacement) 0 (found.take limit)).mapError .returned := by
  have hfinish : p.replace search text replacement limit =
      finish search p text replacement limit ⟨[], 0, 0, 0, false⟩ := rfl
  rw [hfinish, finish_eq h limit hfinds [] 0 0 (isBoundary_zero text) (Nat.le_refl 0), Nat.sub_zero]
  cases spliced text (p.expanded search text replacement) 0 (found.take limit) with
  | error e => rfl
  | ok out => rfl

/-- A turn for every position of the text, and one more. -/
theorem replace_ends (h : search.Lawful p.unanchored) (limit : Nat) :
    ∃ turns ≤ String.utf8Len text + 1, ∃ r,
      Ends (replacing text limit) (p.replaceTurn search text replacement) turns ⟨[], 0, 0, 0, false⟩ r ∧
      p.replace search text replacement limit = r >>= Replacing.appendTail text := by
  obtain ⟨turns, hends⟩ := whileLoop_ends (replaceTurn_falls search p text replacement limit)
    ⟨[], 0, 0, 0, false⟩
  have hpos (s : Replacing) (hcond : replacing text limit s = true) :
      0 < if s.broken then 0 else String.utf8Len text + 1 - s.search := by
    obtain ⟨hbroken, -, hsearch⟩ := replacing_eq_true.mp hcond
    rw [hbroken, if_neg Bool.false_ne_true]
    omega
  exact ⟨turns, hends.turns_le (replaceTurn_advances h limit) hpos, _, hends, rfl⟩

/-- What fails is the expansion of the replacement text, and there is a match that it was expanded for. -/
theorem failed_of_replace (h : search.Lawful p.unanchored) {found : List Captures}
    (hfinds : Finds search p.unanchored text 0 found) {limit : Nat} {e : Failure}
    (he : p.replace search text replacement limit = .error e) :
    found ≠ [] ∧ ∃ e', e = .returned e' ∧ NotOffset e' := by
  rw [replace_eq_spliced h hfinds] at he
  cases hspliced : spliced text (p.expanded search text replacement) 0 (found.take limit) with
  | ok out =>
      rw [hspliced] at he
      cases he
  | error e' =>
      rw [hspliced] at he
      refine ⟨?_, e', (Except.error.inj he).symm, ?_⟩
      · rintro rfl
        rw [List.take_nil] at hspliced
        cases hspliced
      · exact spliced_failsAs (fun captures => (readTemplate_failsAs _ _ replacement).map) 0 _ e' hspliced

end

/-- **Replacement follows `java.util.regex`.** -/
theorem replacement_follows_java {R : RegexCrate} (search : RegexSearch R) (p : JavaPattern R)
    (h : search.Lawful p.unanchored) (text : Str) (replacement : List Char) :
    ∃ found, (∀ found', Finds search p.unanchored text.chars 0 found' ↔ found' = found) ∧
      p.replaceAll search text.chars replacement =
        (spliced text.chars (p.expanded search text.chars replacement) 0 found).mapError .returned ∧
      p.replaceFirst search text.chars replacement =
        (spliced text.chars (p.expanded search text.chars replacement) 0 (found.take 1)).mapError .returned ∧
      (∀ limit, ∃ turns ≤ String.utf8Len text.chars + 1, ∃ r,
        Ends (replacing text.chars limit) (p.replaceTurn search text.chars replacement) turns
          ⟨[], 0, 0, 0, false⟩ r ∧
        p.replace search text.chars replacement limit = r >>= Replacing.appendTail text.chars) ∧
      (∀ limit e, p.replace search text.chars replacement limit = .error e →
        found ≠ [] ∧ ∃ e', e = .returned e' ∧ NotOffset e') ∧
      p.replaceAll search text.chars ['$', '0'] = .ok text.chars := by
  obtain ⟨found, hfinds, hlen⟩ := exists_finds h text.chars 0
  have hshort : found.length ≤ usizeMax := by
    have htext := text.length_le
    unfold usizeMax
    omega
  refine ⟨found, fun found' => ⟨fun h' => h'.unique hfinds, fun h' => h' ▸ hfinds⟩, ?_,
    replace_eq_spliced h hfinds 1, replace_ends h, fun limit e he => failed_of_replace h hfinds he, ?_⟩
  · unfold JavaPattern.replaceAll
    rw [replace_eq_spliced h hfinds, List.take_of_length_le hshort]
  · have hzero : ∀ captures, p.expanded search text.chars ['$', '0'] captures =
        .ok (captures.whole.asStr text.chars) := expanded_dollarZero
    have hwhole := spliced_whole h hzero hfinds (isBoundary_zero text.chars) (Nat.le_refl 0)
    have htext : getFrom text.chars 0 = some text.chars := getFrom_append [] text.chars
    unfold JavaPattern.replaceAll
    rw [replace_eq_spliced h hfinds, List.take_of_length_le hshort, hwhole, htext]
    rfl

/-! ## The search of `x*`

A search that finds runs of one letter, empty ones included, so that every rule about the next place to search
is met. -/

def starCrate : RegexCrate := ⟨List Char, Unit, fun source => .ok source, fun c => ['\\', c]⟩

def isX (c : Char) : Bool := c == 'x'

/-- From a position, `x*` matches the `x` that stand there, if only none. -/
def starSearch : RegexSearch starCrate where
  capturesAt _ text pos := (getFrom text pos).map fun rest =>
    ⟨⟨pos, pos + (rest.takeWhile isX).length, Nat.le_add_right _ _⟩, []⟩
  capturesLen _ := 1
  captureNames _ := [none]

def starPattern : JavaPattern starCrate := ⟨['x', '*'], ['x', '*'], "\\A(?:x*)\\z".toList⟩

theorem utf8Len_takeWhile (rest : List Char) :
    String.utf8Len (rest.takeWhile isX) = (rest.takeWhile isX).length := by
  induction rest with
  | nil => rfl
  | cons c rest ih =>
      by_cases hc : isX c = true
      · rw [List.takeWhile_cons_of_pos hc, String.utf8Len_cons, List.length_cons, ih, beq_iff_eq.mp hc]
        rfl
      · rw [List.takeWhile_cons_of_neg hc]
        rfl

theorem starSearch_lawful (re : starCrate.Regex) : starSearch.Lawful re where
  le_start text pos captures _ hfound := by
    obtain ⟨rest, -, rfl⟩ := Option.map_eq_some_iff.mp hfound
    exact Nat.le_refl pos
  boundary text pos captures group m _ hfound hget := by
    obtain ⟨rest, hrest, rfl⟩ := Option.map_eq_some_iff.mp hfound
    obtain ⟨before, hbefore, rfl⟩ := Option.map_eq_some_iff.mp hrest
    obtain ⟨⟨rest, rfl⟩, rfl⟩ := charsTo_eq_some_iff.mp hbefore
    cases group with
    | zero =>
        cases hget
        rw [List.drop_left]
        refine ⟨⟨before, rest, rfl, rfl⟩, before ++ rest.takeWhile isX, rest.dropWhile isX, ?_, ?_⟩
        · rw [List.append_assoc, List.takeWhile_append_dropWhile]
        · rw [String.utf8Len_append, utf8Len_takeWhile]
    | succ group => cases hget
  groupCount_le := Nat.zero_le _

/-- `x*` over `xx`, each match in brackets: the empty match behind the other one counts. -/
theorem replacement_follows_java_star :
    starPattern.replaceAll starSearch ['x', 'x'] ['[', '$', '0', ']'] = .ok ['[', 'x', 'x', ']', '[', ']'] := by
  obtain ⟨found, hfinds, hall, -⟩ := replacement_follows_java starSearch starPattern (starSearch_lawful _)
    ⟨['x', 'x'], by decide⟩ ['[', '$', '0', ']']
  have hfound : [⟨⟨0, 2, by decide⟩, []⟩, ⟨⟨2, 2, by decide⟩, []⟩] = found :=
    (hfinds _).mp (.found (by decide) rfl (.found (by decide) rfl (.stop (Or.inl (by decide)))))
  have hread : readTemplate 0 [none] ['[', '$', '0', ']'] = .ok [.literal '[', .group 0, .literal ']'] := by
    rw [readTemplate_literal (by decide) (by decide), readTemplate_dollarZero _ _ (by decide),
      readTemplate_literal (by decide) (by decide), readTemplate]
    rfl
  rw [hall, ← hfound]
  unfold spliced JavaPattern.expanded
  rw [show readTemplate (starPattern.groupCount starSearch) (starSearch.captureNames starPattern.unanchored)
    ['[', '$', '0', ']'] = _ from hread]
  rfl

end Krabka.Security
