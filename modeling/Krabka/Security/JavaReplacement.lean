import Krabka.Lib.TextRange
import Krabka.Lib.WhileLoop
import Krabka.Security.JavaPattern

/-!
# `Security.JavaReplacement` — `Matcher.replaceAll` and `Matcher.replaceFirst`

The replacement of `JavaPattern` (`java_regex.rs`): a loop over the matches with four positions, and the expansion
of the replacement text against one match. What the pattern finds is up to the `regex` crate, so the search is a
parameter. A group number is a `usize`, and an overflow of it would stop the program.
-/

namespace Krabka.Security

open Text Results WhileLoop

def usizeMax : Nat := 2 ^ 64 - 1

/-! ## What is found

A match is a range of characters of the text with its groups. -/

/-- `regex::Match`, as byte offsets. -/
structure Match where
  start : Nat
  stop : Nat
  start_le_stop : start ≤ stop

/-- `regex::Captures`: the whole match is group 0, and the groups behind it may be without one. -/
structure Captures where
  whole : Match
  groups : List (Option Match)

def Captures.get (captures : Captures) : Nat → Option Match
  | 0 => some captures.whole
  | group + 1 => captures.groups[group]?.join

/-- `m.as_str()`. The offsets of a match are character boundaries. -/
def Match.asStr (text : List Char) (m : Match) : List Char := (getRange text m.start m.stop).getD []

/-- What a group puts down. One that took no part puts down nothing. -/
def Captures.groupText (text : List Char) (captures : Captures) (group : Nat) : List Char :=
  ((captures.get group).map (Match.asStr text)).getD []

/-- What the replacement takes from the `regex` crate: `captures_at`, `captures_len` and `capture_names`. -/
structure RegexSearch (R : RegexCrate) where
  capturesAt : R.Regex → List Char → Nat → Option Captures
  capturesLen : R.Regex → Nat
  captureNames : R.Regex → List (Option (List Char))

inductive JavaReplacementError where
  | missingEscapedCharacter
  | missingGroupIndex
  | illegalGroupReference
  | emptyGroupName
  | unterminatedGroupName
  | groupNameStartsWithDigit (name : List Char)
  | noGroupNamed (name : List Char)
  | noGroup (group : Nat)
  | matchOffset (offset : Nat)
deriving DecidableEq, Repr

/-- What ends a replacement early: the arithmetic of a group number overflows, or an error is returned. -/
inductive Failure where
  | overflow
  | returned (e : JavaReplacementError)
deriving DecidableEq, Repr

/-! ## `expand`

A dollar sign starts a group, by number or by name, and a backslash takes the next character as it is. -/

/-- `c.to_digit(10)`. -/
def toDigit (c : Char) : Option Nat := if c.isDigit then some (c.toNat - 48) else none

/-- The name behind `${`: letters and digits of ASCII. -/
def readName (name : List Char) : List Char → List Char × List Char
  | [] => (name, [])
  | next :: chars => if next.isAlphanum then readName (name ++ [next]) chars else (name, next :: chars)

/-- "Capture the largest legal group string." -/
def readDigits (groupCount group : Nat) : List Char → Except Failure (Nat × List Char)
  | [] => .ok (group, [])
  | next :: chars =>
      match toDigit next with
      | none => .ok (group, next :: chars)
      | some digit =>
          let longer := group * 10 + digit
          if longer > usizeMax then .error .overflow
          else if longer > groupCount then .ok (group, next :: chars)
          else readDigits groupCount longer chars

/-- A group by its name, behind `${`. -/
def readNamed (names : List (Option (List Char))) (chars : List Char) : Except Failure (Nat × List Char) :=
  let (name, rest) := readName [] chars
  if name = [] then .error (.returned .emptyGroupName)
  else if rest.head? ≠ some '}' then .error (.returned .unterminatedGroupName)
  else if name.head?.any Char.isDigit then .error (.returned (.groupNameStartsWithDigit name))
  else do
    let group ← okOr (.returned (.noGroupNamed name)) (names.findIdx? fun candidate => candidate = some name)
    .ok (group, rest.tail)

/-- A group by its number. -/
def readNumber (groupCount : Nat) (first : Char) (chars : List Char) : Except Failure (Nat × List Char) := do
  let group ← okOr (.returned .illegalGroupReference) (toDigit first)
  let (group, rest) ← readDigits groupCount group chars
  if group > groupCount then .error (.returned (.noGroup group)) else .ok (group, rest)

/-- The group that a `$` refers to, and what is left behind the reference. -/
def readGroup (groupCount : Nat) (names : List (Option (List Char))) :
    List Char → Except Failure (Nat × List Char)
  | [] => .error (.returned .missingGroupIndex)
  | first :: chars => if first = '{' then readNamed names chars else readNumber groupCount first chars

theorem length_readName (name chars : List Char) : (readName name chars).2.length ≤ chars.length := by
  induction chars generalizing name with
  | nil => exact Nat.le_refl _
  | cons next chars ih =>
      unfold readName
      split
      · exact Nat.le_succ_of_le (ih _)
      · exact Nat.le_refl _

theorem length_readDigits {groupCount group group' : Nat} {chars rest : List Char}
    (h : readDigits groupCount group chars = .ok (group', rest)) : rest.length ≤ chars.length := by
  induction chars generalizing group with
  | nil =>
      cases h
      exact Nat.le_refl _
  | cons next chars ih =>
      unfold readDigits at h
      split at h
      · cases h
        exact Nat.le_refl _
      · dsimp only at h
        split at h
        · cases h
        · split at h
          · cases h
            exact Nat.le_refl _
          · exact Nat.le_succ_of_le (ih h)

theorem length_readNamed {group : Nat} {names : List (Option (List Char))} {chars rest : List Char}
    (h : readNamed names chars = .ok (group, rest)) : rest.length ≤ chars.length := by
  have hlen := length_readName [] chars
  unfold readNamed at h
  dsimp only at h
  split at h
  · cases h
  · split at h
    · cases h
    · split at h
      · cases h
      · obtain ⟨group', -, h⟩ := bind_eq_ok.mp h
        cases h
        rw [List.length_tail]
        omega

theorem length_readNumber {groupCount group : Nat} {first : Char} {chars rest : List Char}
    (h : readNumber groupCount first chars = .ok (group, rest)) : rest.length ≤ chars.length := by
  obtain ⟨digit, -, h⟩ := bind_eq_ok.mp h
  obtain ⟨⟨group', rest'⟩, hdigits, h⟩ := bind_eq_ok.mp h
  dsimp only at h
  split at h
  · cases h
  · cases h
    exact length_readDigits hdigits

theorem length_readGroup {groupCount group : Nat} {names : List (Option (List Char))} {chars rest : List Char}
    (h : readGroup groupCount names chars = .ok (group, rest)) : rest.length ≤ chars.length := by
  cases chars with
  | nil => cases h
  | cons first chars =>
      unfold readGroup at h
      dsimp only at h
      split at h
      · exact Nat.le_succ_of_le (length_readNamed h)
      · exact Nat.le_succ_of_le (length_readNumber h)

/-- `Matcher.appendExpandedReplacement`, on the characters that are left and the output so far. -/
def expand (groupCount : Nat) (names : List (Option (List Char))) (text : List Char) (captures : Captures)
    (chars out : List Char) : Except Failure (List Char) :=
  match chars with
  | [] => .ok out
  | character :: chars =>
      if character = '\\' then
        match chars with
        | [] => .error (.returned .missingEscapedCharacter)
        | escaped :: chars => expand groupCount names text captures chars (out ++ [escaped])
      else if character = '$' then
        match _hgroup : readGroup groupCount names chars with
        | .error e => .error e
        | .ok (group, rest) =>
            expand groupCount names text captures rest (out ++ captures.groupText text group)
      else expand groupCount names text captures chars (out ++ [character])
termination_by chars.length
decreasing_by
  · simp only [List.length_cons]
    omega
  · exact Nat.lt_succ_of_le (length_readGroup _hgroup)
  · exact Nat.lt_succ_self _

/-! ## `replace`

The loop searches from a place of its own, since an empty match must not be found again. -/

section
variable {R : RegexCrate} (search : RegexSearch R)

/-- Java's `Matcher.groupCount()`. -/
def JavaPattern.groupCount (p : JavaPattern R) : Nat := search.capturesLen p.unanchored - 1

/-- The variables of the loop, and whether a `break` has left it. -/
structure Replacing where
  out : List Char
  appended : Nat
  search : Nat
  replaced : Nat
  broken : Bool

/-- `while replaced < limit && search <= text.len()`. -/
def replacing (text : List Char) (limit : Nat) (s : Replacing) : Bool :=
  !s.broken && decide (s.replaced < limit ∧ s.search ≤ String.utf8Len text)

/-- One turn of the loop. -/
def JavaPattern.replaceTurn (p : JavaPattern R) (text replacement : List Char) (s : Replacing) :
    Except Failure Replacing :=
  match search.capturesAt p.unanchored text s.search with
  | none => .ok { s with broken := true }
  | some captures => do
      let whole := captures.whole
      let between ← okOr (.returned (.matchOffset whole.start)) (getRange text s.appended whole.start)
      let out ← expand (p.groupCount search) (search.captureNames p.unanchored) text captures replacement
        (s.out ++ between)
      let s := { s with out, appended := whole.stop, replaced := s.replaced + 1 }
      -- `Matcher.find` resumes at the previous end, one character further when the match was empty
      if whole.start = whole.stop then do
        let rest ← okOr (.returned (.matchOffset whole.stop)) (getFrom text whole.stop)
        match rest with
        | next :: _ => .ok { s with search := whole.stop + next.utf8Size }
        | [] => .ok { s with broken := true }
      else .ok { s with search := whole.stop }

/-- Where the search goes on: the end of the match, one character further behind an empty one. At the end of the
    text that is nowhere. -/
def Resumes (text : List Char) (m : Match) (s t : Replacing) : Prop :=
  if m.start = m.stop then
    (∃ next rest, getFrom text m.stop = some (next :: rest) ∧ t.search = m.stop + next.utf8Size ∧
      t.broken = s.broken) ∨ (getFrom text m.stop = some [] ∧ t.broken = true)
  else t.search = m.stop ∧ t.broken = s.broken

/-- What a turn can do. -/
theorem replaceTurn_cases {p : JavaPattern R} {text replacement : List Char} {s t : Replacing}
    (h : p.replaceTurn search text replacement s = .ok t) :
    (search.capturesAt p.unanchored text s.search = none ∧ t = { s with broken := true }) ∨
    ∃ captures, search.capturesAt p.unanchored text s.search = some captures ∧ t.replaced = s.replaced + 1 ∧
      Resumes text captures.whole s t := by
  unfold JavaPattern.replaceTurn at h
  cases hfound : search.capturesAt p.unanchored text s.search with
  | none =>
      rw [hfound] at h
      exact Or.inl ⟨rfl, (Except.ok.inj h).symm⟩
  | some captures =>
      rw [hfound] at h
      refine Or.inr ⟨captures, rfl, ?_⟩
      obtain ⟨between, -, h⟩ := bind_eq_ok.mp h
      obtain ⟨out, -, h⟩ := bind_eq_ok.mp h
      unfold Resumes
      by_cases hempty : captures.whole.start = captures.whole.stop
      · rw [if_pos hempty] at h
        obtain ⟨rest, hrest, h⟩ := bind_eq_ok.mp h
        rw [okOr_eq_ok] at hrest
        rw [if_pos hempty]
        cases rest with
        | nil =>
            cases h
            exact ⟨rfl, Or.inr ⟨hrest, rfl⟩⟩
        | cons next rest =>
            cases h
            exact ⟨rfl, Or.inl ⟨next, rest, hrest, rfl, rfl⟩⟩
      · rw [if_neg hempty] at h
        rw [if_neg hempty]
        cases h
        exact ⟨rfl, rfl, rfl⟩

theorem replacing_eq_true {text : List Char} {limit : Nat} {s : Replacing} :
    replacing text limit s = true ↔
      s.broken = false ∧ s.replaced < limit ∧ s.search ≤ String.utf8Len text := by
  unfold replacing
  rw [Bool.and_eq_true, Bool.not_eq_true', decide_eq_true_iff]

/-- Whatever the search answers: a turn takes one of the replacements that are left, or leaves the loop. -/
theorem replaceTurn_falls (p : JavaPattern R) (text replacement : List Char) (limit : Nat) :
    Falls (replacing text limit) (p.replaceTurn search text replacement)
      (fun s => limit - s.replaced + (if s.broken then 0 else 1)) := by
  intro s t hcond h
  obtain ⟨hbroken, hlimit, -⟩ := replacing_eq_true.mp hcond
  dsimp only
  rcases replaceTurn_cases search h with ⟨-, rfl⟩ | ⟨captures, -, hreplaced, -⟩
  · rw [hbroken, if_pos rfl, if_neg Bool.false_ne_true]
    exact Nat.lt_succ_self (limit - s.replaced)
  · rw [hreplaced, hbroken, if_neg Bool.false_ne_true]
    split <;> omega

/-- What is left behind the last match goes to the end. -/
def Replacing.appendTail (text : List Char) (s : Replacing) : Except Failure (List Char) := do
  let tail ← okOr (.returned (.matchOffset s.appended)) (getFrom text s.appended)
  .ok (s.out ++ tail)

def JavaPattern.replace (p : JavaPattern R) (text replacement : List Char) (limit : Nat) :
    Except Failure (List Char) := do
  let s ← whileLoop (replacing text limit) (p.replaceTurn search text replacement) _
    (replaceTurn_falls search p text replacement limit) ⟨[], 0, 0, 0, false⟩
  s.appendTail text

/-- Java's `Matcher.replaceAll(replacement)`. -/
def JavaPattern.replaceAll (p : JavaPattern R) (text replacement : List Char) : Except Failure (List Char) :=
  p.replace search text replacement usizeMax

/-- Java's `Matcher.replaceFirst(replacement)`. -/
def JavaPattern.replaceFirst (p : JavaPattern R) (text replacement : List Char) : Except Failure (List Char) :=
  p.replace search text replacement 1

end

end Krabka.Security
