import Krabka.Security.JavaReplacement

/-!
# `Security.JavaReference` — what `java.util.regex` says a replacement is

A replacement text is read once, as pieces: characters and group numbers (`readTemplate`). The matches are what
repeated finding gives (`Finds`). The text with the matches replaced is the text between them, each match as the
pieces say, and the tail (`spliced`). Expanding a replacement text character by character is reading its pieces
and putting them down (`expand_eq`), and finding again and again comes to an end (`exists_finds`).
-/

namespace Krabka.Security

open Text Results WhileLoop

/-! ## The replacement text

Digits are taken as long as a group of that number is there. -/

inductive Piece where
  | literal (c : Char)
  | group (n : Nat)

/-- The number that the digits write. -/
def digitsValue (start : Nat) (digits : List Char) : Nat :=
  digits.foldl (fun v c => v * 10 + (c.toNat - 48)) start

/-- How many of the digits make the longest number that is still a group, when `start` is written before them. -/
def longestGroup (groupCount start : Nat) (digits : List Char) : Nat :=
  Nat.findGreatest (fun n => digitsValue start (digits.take n) ≤ groupCount) digits.length

/-- A name in braces. -/
def namedReference (names : List (Option (List Char))) (chars : List Char) :
    Except JavaReplacementError (Nat × List Char) :=
  let name := chars.takeWhile Char.isAlphanum
  let rest := chars.dropWhile Char.isAlphanum
  if name = [] then .error .emptyGroupName
  else if rest.head? ≠ some '}' then .error .unterminatedGroupName
  else if name.head?.any Char.isDigit then .error (.groupNameStartsWithDigit name)
  else do
    let group ← okOr (.noGroupNamed name) (names.findIdx? fun candidate => candidate = some name)
    .ok (group, rest.tail)

/-- The longest digit run that is still a group number. -/
def numberReference (groupCount : Nat) (chars : List Char) : Except JavaReplacementError (Nat × List Char) :=
  let digits := chars.takeWhile Char.isDigit
  let n := longestGroup groupCount 0 digits
  if digits = [] then .error .illegalGroupReference
  else if n = 0 then .error (.noGroup (digitsValue 0 (digits.take 1)))
  else .ok (digitsValue 0 (digits.take n), chars.drop n)

/-- What stands behind a `$`. -/
def groupReference (groupCount : Nat) (names : List (Option (List Char))) (chars : List Char) :
    Except JavaReplacementError (Nat × List Char) :=
  if chars = [] then .error .missingGroupIndex
  else if chars.head? = some '{' then namedReference names chars.tail
  else numberReference groupCount chars

/-- A digit is worth its distance from zero. -/
theorem toDigit_of_isDigit {c : Char} (h : c.isDigit = true) : toDigit c = some (c.toNat - 48) := by
  unfold toDigit
  rw [if_pos h]

theorem toDigit_of_not_isDigit {c : Char} (h : ¬c.isDigit = true) : toDigit c = none := by
  unfold toDigit
  rw [if_neg h]

/-- One more digit in front. -/
theorem digitsValue_cons (start : Nat) (c : Char) (digits : List Char) :
    digitsValue start (c :: digits) = digitsValue (start * 10 + (c.toNat - 48)) digits := by
  unfold digitsValue
  rw [List.foldl_cons]

/-- More digits are never worth less. -/
theorem le_digitsValue (start : Nat) (digits : List Char) : start ≤ digitsValue start digits := by
  induction digits generalizing start with
  | nil => exact Nat.le_refl _
  | cons c digits ih =>
      rw [digitsValue_cons]
      have hrest := ih (start * 10 + (c.toNat - 48))
      omega

theorem digit_le_nine {c : Char} (h : c.isDigit = true) : c.toNat - 48 ≤ 9 := by
  have hle : c.toNat ≤ 57 := (Char.isDigit_iff_toNat.mp h).2
  omega

section
variable {groupCount start : Nat}

/-- Digits make a number no smaller. -/
theorem longestGroup_of_lt (h : groupCount < start) (digits : List Char) :
    longestGroup groupCount start digits = 0 := by
  unfold longestGroup
  rw [Nat.findGreatest_eq_zero_iff]
  intro n _ _ hle
  exact absurd h (Nat.not_lt_of_le (Nat.le_trans (le_digitsValue start _) hle))

/-- A digit that leads beyond the groups is not taken. -/
theorem longestGroup_cons_of_lt {c : Char} (h : groupCount < start * 10 + (c.toNat - 48)) (digits : List Char) :
    longestGroup groupCount start (c :: digits) = 0 := by
  unfold longestGroup
  rw [Nat.findGreatest_eq_zero_iff]
  intro n hpos _ hle
  obtain ⟨m, rfl⟩ := Nat.exists_eq_succ_of_ne_zero (Nat.ne_of_gt hpos)
  rw [List.take_succ_cons, digitsValue_cons] at hle
  exact absurd h (Nat.not_lt_of_le (Nat.le_trans (le_digitsValue _ _) hle))

/-- A digit that stays within the groups is taken. -/
theorem longestGroup_cons_of_le {c : Char} (h : start * 10 + (c.toNat - 48) ≤ groupCount) (digits : List Char) :
    longestGroup groupCount start (c :: digits) =
      longestGroup groupCount (start * 10 + (c.toNat - 48)) digits + 1 := by
  unfold longestGroup
  rw [Nat.findGreatest_eq_iff]
  refine ⟨Nat.succ_le_succ (Nat.findGreatest_le _), fun _ => ?_, fun n hlt hle => ?_⟩
  · rw [List.take_succ_cons, digitsValue_cons]
    exact Nat.findGreatest_spec (P := fun n => digitsValue _ (digits.take n) ≤ groupCount) (Nat.zero_le _) h
  · obtain ⟨m, rfl⟩ := Nat.exists_eq_succ_of_ne_zero (Nat.ne_of_gt (Nat.lt_of_le_of_lt (Nat.zero_le _) hlt))
    rw [List.take_succ_cons, digitsValue_cons]
    exact Nat.findGreatest_is_greatest (P := fun n => digitsValue _ (digits.take n) ≤ groupCount)
      (Nat.lt_of_succ_lt_succ hlt) (Nat.le_of_succ_le_succ hle)

/-- The number that is taken is one of the groups. -/
theorem digitsValue_longestGroup (h : start ≤ groupCount) (digits : List Char) :
    digitsValue start (digits.take (longestGroup groupCount start digits)) ≤ groupCount :=
  Nat.findGreatest_spec (P := fun n => digitsValue start (digits.take n) ≤ groupCount) (Nat.zero_le _) h

end

/-- **The digit loop.** It takes the longest number that is still a group, and no number on the way overflows. -/
theorem readDigits_eq {groupCount : Nat} (hcount : groupCount ≤ usizeMax / 10 - 1) {group : Nat}
    {chars : List Char} (hgroup : group ≤ max 9 groupCount) :
    readDigits groupCount group chars =
      .ok (digitsValue group ((chars.takeWhile Char.isDigit).take
          (longestGroup groupCount group (chars.takeWhile Char.isDigit))),
        chars.drop (longestGroup groupCount group (chars.takeWhile Char.isDigit))) := by
  induction chars generalizing group with
  | nil => rfl
  | cons next chars ih =>
      unfold readDigits
      by_cases hdigit : next.isDigit = true
      · have hnine := digit_le_nine hdigit
        have hfits : group * 10 + (next.toNat - 48) ≤ usizeMax := by
          unfold usizeMax at *
          omega
        rw [toDigit_of_isDigit hdigit, List.takeWhile_cons_of_pos hdigit]
        dsimp only
        rw [if_neg (Nat.not_lt_of_le hfits)]
        by_cases hlonger : group * 10 + (next.toNat - 48) > groupCount
        · rw [if_pos hlonger, longestGroup_cons_of_lt hlonger]
          rfl
        · rw [if_neg hlonger, longestGroup_cons_of_le (Nat.le_of_not_lt hlonger), List.take_succ_cons,
            digitsValue_cons, List.drop_succ_cons]
          exact ih (Nat.le_trans (Nat.le_of_not_lt hlonger) (Nat.le_max_right _ _))
      · rw [toDigit_of_not_isDigit hdigit, List.takeWhile_cons_of_neg hdigit]
        rfl

/-- A name is the letters and digits that come next. -/
theorem readName_eq (name chars : List Char) :
    readName name chars = (name ++ chars.takeWhile Char.isAlphanum, chars.dropWhile Char.isAlphanum) := by
  induction chars generalizing name with
  | nil =>
      unfold readName
      rw [List.takeWhile_nil, List.dropWhile_nil, List.append_nil]
  | cons next chars ih =>
      unfold readName
      by_cases hnext : next.isAlphanum = true
      · rw [if_pos hnext, ih, List.takeWhile_cons_of_pos hnext, List.dropWhile_cons_of_pos hnext,
          List.append_assoc]
        rfl
      · rw [if_neg hnext, List.takeWhile_cons_of_neg hnext, List.dropWhile_cons_of_neg hnext, List.append_nil]

/-- A named reference, read as Java reads it. -/
theorem readNamed_eq (names : List (Option (List Char))) (chars : List Char) :
    readNamed names chars = (namedReference names chars).mapError .returned := by
  unfold readNamed namedReference
  rw [readName_eq, List.nil_append]
  dsimp only
  split
  · rfl
  · split
    · rfl
    · split
      · rfl
      · cases names.findIdx? fun candidate => candidate = some (chars.takeWhile Char.isAlphanum) with
        | none => rfl
        | some group => rfl

/-- **A numbered reference takes as many digits as name a group**, and no product overflows on the way. -/
theorem readNumber_eq {groupCount : Nat} (hcount : groupCount ≤ usizeMax / 10 - 1) (first : Char)
    (chars : List Char) :
    readNumber groupCount first chars = (numberReference groupCount (first :: chars)).mapError .returned := by
  unfold readNumber numberReference
  by_cases hdigit : first.isDigit = true
  · have hnine := digit_le_nine hdigit
    have hread : readDigits groupCount (first.toNat - 48) chars = _ :=
      readDigits_eq hcount (Nat.le_trans hnine (Nat.le_max_left 9 groupCount))
    have hone : digitsValue 0 [first] = first.toNat - 48 := by
      unfold digitsValue
      simp
    rw [toDigit_of_isDigit hdigit, okOr_some, ok_bind, hread, ok_bind, List.takeWhile_cons_of_pos hdigit]
    dsimp only
    rw [if_neg (List.cons_ne_nil _ _), List.take_succ_cons, List.take_zero, hone]
    by_cases hgroup : first.toNat - 48 ≤ groupCount
    · have hle : 0 * 10 + (first.toNat - 48) ≤ groupCount := by omega
      have hcons := longestGroup_cons_of_le hle (chars.takeWhile Char.isDigit)
      rw [Nat.zero_mul, Nat.zero_add] at hcons
      rw [hcons, if_neg (Nat.succ_ne_zero _), List.take_succ_cons, digitsValue_cons, Nat.zero_mul, Nat.zero_add,
        List.drop_succ_cons, if_neg (Nat.not_lt_of_le (digitsValue_longestGroup hgroup _))]
      rfl
    · have hlt := Nat.lt_of_not_le hgroup
      rw [longestGroup_of_lt hlt, longestGroup_cons_of_lt (by omega), if_pos rfl, List.take_zero]
      exact if_pos hlt
  · rw [toDigit_of_not_isDigit hdigit, List.takeWhile_cons_of_neg hdigit]
    rfl

/-- The reference behind a `$` is read as Java says. -/
theorem readGroup_eq {groupCount : Nat} (hcount : groupCount ≤ usizeMax / 10 - 1)
    (names : List (Option (List Char))) (chars : List Char) :
    readGroup groupCount names chars = (groupReference groupCount names chars).mapError .returned := by
  cases chars with
  | nil => rfl
  | cons first chars =>
      unfold readGroup groupReference
      dsimp only
      rw [if_neg (List.cons_ne_nil _ _), List.head?_cons, List.tail_cons]
      by_cases hbrace : first = '{'
      · rw [if_pos hbrace, if_pos (congrArg some hbrace), readNamed_eq]
      · rw [if_neg hbrace, if_neg (fun h => hbrace (Option.some.inj h)), readNumber_eq hcount]

/-- A reference is read forwards. -/
theorem length_groupReference {groupCount group : Nat} {names : List (Option (List Char))}
    {chars rest : List Char} (h : groupReference groupCount names chars = .ok (group, rest)) :
    rest.length ≤ chars.length := by
  unfold groupReference namedReference numberReference at h
  split at h
  · cases h
  · split at h
    · have hdrop := (List.dropWhile_suffix (l := chars.tail) Char.isAlphanum).length_le
      dsimp only at h
      split at h
      · cases h
      · split at h
        · cases h
        · split at h
          · cases h
          · obtain ⟨group', -, h⟩ := bind_eq_ok.mp h
            cases h
            rw [List.length_tail] at hdrop ⊢
            omega
    · dsimp only at h
      split at h
      · cases h
      · split at h
        · cases h
        · cases h
          rw [List.length_drop]
          exact Nat.sub_le _ _

/-- A replacement text as pieces: an escaped character, a group, or any other character. -/
def readTemplate (groupCount : Nat) (names : List (Option (List Char))) (chars : List Char) :
    Except JavaReplacementError (List Piece) :=
  match chars with
  | [] => .ok []
  | character :: chars =>
      if character = '\\' then
        match chars with
        | [] => .error .missingEscapedCharacter
        | escaped :: chars => (readTemplate groupCount names chars).map (.literal escaped :: ·)
      else if character = '$' then
        match _hgroup : groupReference groupCount names chars with
        | .error e => .error e
        | .ok (group, rest) => (readTemplate groupCount names rest).map (.group group :: ·)
      else (readTemplate groupCount names chars).map (.literal character :: ·)
termination_by chars.length
decreasing_by
  · simp only [List.length_cons]
    omega
  · exact Nat.lt_succ_of_le (length_groupReference _hgroup)
  · exact Nat.lt_succ_self _

/-- A plain character stands for itself. -/
theorem readTemplate_literal {groupCount : Nat} {names : List (Option (List Char))} {c : Char}
    (hescape : c ≠ '\\') (hgroup : c ≠ '$') (chars : List Char) :
    readTemplate groupCount names (c :: chars) = (readTemplate groupCount names chars).map (.literal c :: ·) := by
  rw [readTemplate.eq_def]
  dsimp only
  rw [if_neg hescape, if_neg hgroup]

/-- What a piece stands for at a match. -/
def Piece.render (text : List Char) (captures : Captures) : Piece → List Char
  | .literal c => [c]
  | .group n => captures.groupText text n

def render (text : List Char) (captures : Captures) (pieces : List Piece) : List Char :=
  pieces.flatMap (Piece.render text captures)

/-- A piece in front is put down in front. -/
theorem render_cons (text : List Char) (captures : Captures) (out : List Char) (piece : Piece)
    (read : Except JavaReplacementError (List Piece)) :
    (read.map (piece :: ·)).map (fun pieces => out ++ render text captures pieces) =
      read.map fun pieces => (out ++ piece.render text captures) ++ render text captures pieces := by
  cases read with
  | error e => rfl
  | ok pieces =>
      show Except.ok (out ++ render text captures (piece :: pieces)) = Except.ok _
      unfold render
      rw [List.flatMap_cons, ← List.append_assoc]

/-- **Expanding is reading the pieces and putting them down.** -/
theorem expand_eq {groupCount : Nat} (hcount : groupCount ≤ usizeMax / 10 - 1) (names : List (Option (List Char)))
    (text : List Char) (captures : Captures) (chars out : List Char) :
    expand groupCount names text captures chars out =
      ((readTemplate groupCount names chars).map fun pieces => out ++ render text captures pieces).mapError
        .returned := by
  induction hlen : chars.length using Nat.strong_induction_on generalizing chars out with
  | _ n ih =>
      have hrec : ∀ rest : List Char, rest.length < chars.length → ∀ out,
          expand groupCount names text captures rest out =
            ((readTemplate groupCount names rest).map fun pieces => out ++ render text captures pieces).mapError
              .returned := fun rest hlt out => ih rest.length (hlen ▸ hlt) rest out rfl
      cases chars with
      | nil =>
          rw [expand, readTemplate]
          show Except.ok out = Except.ok (out ++ [])
          rw [List.append_nil]
      | cons character chars =>
          rw [expand.eq_def, readTemplate.eq_def]
          dsimp only
          by_cases hescape : character = '\\'
          · rw [if_pos hescape, if_pos hescape]
            cases chars with
            | nil => rfl
            | cons escaped chars =>
                dsimp only
                rw [hrec chars (by simp only [List.length_cons]; omega), render_cons]
                rfl
          · rw [if_neg hescape, if_neg hescape]
            by_cases hgroup : character = '$'
            · rw [if_pos hgroup, if_pos hgroup, readGroup_eq hcount]
              cases href : groupReference groupCount names chars with
              | error e => rfl
              | ok read =>
                  obtain ⟨group, rest⟩ := read
                  have hlt := Nat.lt_succ_of_le (length_groupReference href)
                  show expand groupCount names text captures rest (out ++ captures.groupText text group) = _
                  rw [hrec rest hlt, render_cons]
                  rfl
            · rw [if_neg hgroup, if_neg hgroup, hrec chars (Nat.lt_succ_self _), render_cons]
              rfl

/-! ## The matches

The search goes on behind a match, or one further behind an empty one. -/

section
variable {R : RegexCrate} (search : RegexSearch R)

/-- What is known of a search: a match starts at or behind the position, its offsets fall between characters, and
    a group number has room for one more digit. -/
structure RegexSearch.Lawful (re : R.Regex) : Prop where
  le_start : ∀ text pos captures, pos ≤ String.utf8Len text → search.capturesAt re text pos = some captures →
    pos ≤ captures.whole.start
  boundary : ∀ text pos captures group m, pos ≤ String.utf8Len text →
    search.capturesAt re text pos = some captures → captures.get group = some m →
      IsBoundary text m.start ∧ IsBoundary text m.stop
  groupCount_le : search.capturesLen re - 1 ≤ usizeMax / 10 - 1

/-- Where `find` resumes: at the end of the match, one character further behind an empty one. -/
def resume (text : List Char) (m : Match) : Nat :=
  if m.start = m.stop then m.stop + (((getFrom text m.stop).bind List.head?).map Char.utf8Size).getD 1 else m.stop

/-- Finding again and again, from `pos` on. -/
inductive Finds (re : R.Regex) (text : List Char) : Nat → List Captures → Prop where
  | stop {pos : Nat} :
      String.utf8Len text < pos ∨ search.capturesAt re text pos = none → Finds re text pos []
  | found {pos : Nat} {captures : Captures} {found : List Captures} :
      pos ≤ String.utf8Len text → search.capturesAt re text pos = some captures →
      Finds re text (resume text captures.whole) found → Finds re text pos (captures :: found)

/-- The text with the matches replaced: what is between them, what each is replaced by, and the tail. -/
def spliced (text : List Char) (expanded : Captures → Except JavaReplacementError (List Char)) :
    Nat → List Captures → Except JavaReplacementError (List Char)
  | appended, [] => .ok ((getFrom text appended).getD [])
  | appended, captures :: found => do
      let replaced ← expanded captures
      let rest ← spliced text expanded captures.whole.stop found
      .ok ((getRange text appended captures.whole.start).getD [] ++ (replaced ++ rest))

/-- What Java makes of the replacement text at a match. -/
def JavaPattern.expanded (p : JavaPattern R) (text replacement : List Char) (captures : Captures) :
    Except JavaReplacementError (List Char) :=
  (readTemplate (p.groupCount search) (search.captureNames p.unanchored) replacement).map (render text captures)

variable {search} {re : R.Regex} {text : List Char}

/-- The search goes on behind the match. -/
theorem le_resume (m : Match) : m.stop ≤ resume text m := by
  unfold resume
  split
  · exact Nat.le_add_right _ _
  · exact Nat.le_refl _

/-- It goes on by at least one character. -/
theorem lt_resume {pos : Nat} {m : Match} (h : pos ≤ m.start) : pos < resume text m := by
  have hle := m.start_le_stop
  unfold resume
  split
  · have hsize : 0 < (((getFrom text m.stop).bind List.head?).map Char.utf8Size).getD 1 := by
      cases (getFrom text m.stop).bind List.head? with
      | none => exact Nat.one_pos
      | some c => exact c.utf8Size_pos
    omega
  · omega

/-- **Finding ends.** Every match takes the search further, so there are no more than positions. -/
theorem exists_finds (h : search.Lawful re) (text : List Char) (pos : Nat) :
    ∃ found, Finds search re text pos found ∧ found.length ≤ String.utf8Len text + 1 - pos := by
  induction hleft : String.utf8Len text + 1 - pos using Nat.strong_induction_on generalizing pos with
  | _ left ih =>
      by_cases hpos : pos ≤ String.utf8Len text
      · cases hfound : search.capturesAt re text pos with
        | none => exact ⟨[], .stop (Or.inr hfound), Nat.zero_le _⟩
        | some captures =>
            have hlt : pos < resume text captures.whole := lt_resume (h.le_start text pos captures hpos hfound)
            obtain ⟨found, hfinds, hlen⟩ := ih (String.utf8Len text + 1 - resume text captures.whole) (by omega)
              (resume text captures.whole) rfl
            refine ⟨captures :: found, .found hpos hfound hfinds, ?_⟩
            rw [List.length_cons]
            omega
      · exact ⟨[], .stop (Or.inl (Nat.lt_of_not_le hpos)), Nat.zero_le _⟩

/-- There is one list of matches. -/
theorem Finds.unique {pos : Nat} {found found' : List Captures} (h : Finds search re text pos found)
    (h' : Finds search re text pos found') : found = found' := by
  induction h generalizing found' with
  | stop hstop =>
      cases h' with
      | stop _ => rfl
      | found hpos hfound _ =>
          rcases hstop with hlt | hnone
          · exact absurd hpos (Nat.not_le_of_lt hlt)
          · cases hnone.symm.trans hfound
  | found hpos hfound _ ih =>
      cases h' with
      | stop hstop =>
          rcases hstop with hlt | hnone
          · exact absurd hpos (Nat.not_le_of_lt hlt)
          · cases hnone.symm.trans hfound
      | found _ hfound' hrest =>
          cases Option.some.inj (hfound.symm.trans hfound')
          rw [ih hrest]

end

/-! ## Errors

A replacement text is wrong or right for itself; no match can make an offset bad. -/

/-- A replacement text is never to blame for a match offset. -/
def NotOffset (e : JavaReplacementError) : Prop := ∀ offset, e ≠ .matchOffset offset

/-- A reference never fails for an offset. -/
theorem groupReference_failsAs (groupCount : Nat) (names : List (Option (List Char))) (chars : List Char) :
    FailsAs NotOffset (groupReference groupCount names chars) := by
  unfold groupReference namedReference numberReference
  dsimp only
  split
  · exact FailsAs.error (fun _ h => by cases h)
  · split
    · split
      · exact FailsAs.error (fun _ h => by cases h)
      · split
        · exact FailsAs.error (fun _ h => by cases h)
        · split
          · exact FailsAs.error (fun _ h => by cases h)
          · exact (FailsAs.okOr (fun _ h => by cases h) _).bind fun _ _ => FailsAs.ok _
    · split
      · exact FailsAs.error (fun _ h => by cases h)
      · split
        · exact FailsAs.error (fun _ h => by cases h)
        · exact FailsAs.ok _

/-- Nor does a template. -/
theorem readTemplate_failsAs (groupCount : Nat) (names : List (Option (List Char))) (chars : List Char) :
    FailsAs NotOffset (readTemplate groupCount names chars) := by
  induction hlen : chars.length using Nat.strong_induction_on generalizing chars with
  | _ n ih =>
      have hrec : ∀ rest : List Char, rest.length < chars.length →
          FailsAs NotOffset (readTemplate groupCount names rest) := fun rest hlt => ih _ (hlen ▸ hlt) rest rfl
      cases chars with
      | nil =>
          rw [readTemplate]
          exact FailsAs.ok []
      | cons character chars =>
          rw [readTemplate.eq_def]
          dsimp only
          by_cases hescape : character = '\\'
          · rw [if_pos hescape]
            cases chars with
            | nil => exact FailsAs.error (fun _ h => by cases h)
            | cons escaped chars => exact (hrec chars (by simp only [List.length_cons]; omega)).map
          · rw [if_neg hescape]
            by_cases hgroup : character = '$'
            · rw [if_pos hgroup]
              cases href : groupReference groupCount names chars with
              | error e => exact FailsAs.error (groupReference_failsAs groupCount names chars e href)
              | ok read => exact (hrec read.2 (Nat.lt_succ_of_le (length_groupReference href))).map
            · rw [if_neg hgroup]
              exact (hrec chars (Nat.lt_succ_self _)).map

/-- Nor does the splicing, where the expansions do not. -/
theorem spliced_failsAs {text : List Char} {expanded : Captures → Except JavaReplacementError (List Char)}
    (h : ∀ captures, FailsAs NotOffset (expanded captures)) (appended : Nat) (found : List Captures) :
    FailsAs NotOffset (spliced text expanded appended found) := by
  induction found generalizing appended with
  | nil => exact FailsAs.ok _
  | cons captures found ih => exact (h captures).bind fun _ _ => (ih _).bind fun _ _ => FailsAs.ok _

end Krabka.Security
