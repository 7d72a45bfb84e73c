import Krabka.Lib.WhileLoop
import Krabka.TraceContext.Soundness

/-!
# `TraceContext.ScanLoops` — every scan ends

The loops of the scanner, one turn of each. The state of a loop is what it carries and the characters that it
has not read; a `return` out of the middle of the loop fails the turn with what it returns. Each loop ends after
at most as many turns as there are characters left, with what the scanner's function of the same name answers.
-/

namespace Krabka
namespace TraceContext

open WhileLoop

section
variable {α : Type}

/-- What a scan carries, such as how far it is, and what is left to scan. -/
abbrev Cursor (α : Type) : Type := α × List Char

def Cursor.more (s : Cursor α) : Bool := !s.2.isEmpty

def Cursor.left (s : Cursor α) : Nat := s.2.length

/-- A scan is judged by what it does at its end, and by one turn of it. -/
theorem Cursor.computes {ε Out : Type} {body : Cursor α → Except ε (Cursor α)} {out : Except ε (Cursor α) → Out}
    {f : Cursor α → Out} (hnil : ∀ x, out (.ok (x, [])) = f (x, []))
    (hcons : ∀ x c cs, Meets body Cursor.left out f (x, c :: cs)) :
    Computes Cursor.more body Cursor.left out f := by
  refine WhileLoop.computes ?_ ?_ ?_
  · rintro ⟨x, cs⟩ hmore
    cases cs with
    | nil => cases hmore
    | cons c cs => exact Nat.succ_pos _
  · rintro ⟨x, cs⟩ hmore
    cases cs with
    | nil => exact hnil x
    | cons c cs => cases hmore
  · rintro ⟨x, cs⟩ hmore
    cases cs with
    | nil => cases hmore
    | cons c cs => exact hcons x c cs

end

/-! ## The scan of the statement

The state is the place that the scan has reached. -/

/-- One turn of `scan_comments`. -/
def scanTurn : Cursor Nat → Except (Option SqlCommenterTrace) (Cursor Nat)
  | (index, []) => .ok (index, [])
  | (index, c :: rest) =>
      match turn index c rest with
      | .stop => .error none
      | .found trace => .error (some trace)
      | .skip n => .ok (index + 1 + n, rest.drop n)

theorem scanComments_computes :
    Computes Cursor.more scanTurn Cursor.left (fun r => (returned r).join) (fun s => scanComments s.1 s.2) := by
  refine Cursor.computes (fun index => by rw [scanComments]; rfl) fun index c rest => ?_
  cases hturn : turn index c rest with
  | stop => exact .inl ⟨none, by simp only [scanTurn, hturn], (scan_stop hturn).symm⟩
  | found trace => exact .inl ⟨some trace, by simp only [scanTurn, hturn], (scan_found hturn).symm⟩
  | skip n =>
      refine .inr ⟨(index + 1 + n, rest.drop n), by simp only [scanTurn, hturn], ?_, (scan_skip hturn).symm⟩
      show (rest.drop n).length < (c :: rest).length
      rw [List.length_drop, List.length_cons]
      omega

/-! ## Quotes

A doubled quote is two characters of one turn. -/

theorem skipQuoted_cons {quote c : Char} (h : c ≠ quote) (rest : List Char) :
    skipQuoted quote (c :: rest) = (skipQuoted quote rest).map (· + 1) := by
  cases rest with
  | nil =>
      unfold skipQuoted
      rw [if_pos h]
      rfl
  | cons d cs =>
      conv_lhs => unfold skipQuoted
      rw [if_pos h]

theorem skipQuoted_quote_quote (quote : Char) (rest : List Char) :
    skipQuoted quote (quote :: quote :: rest) = (skipQuoted quote rest).map (· + 2) := by
  conv_lhs => unfold skipQuoted
  rw [if_neg (not_not_intro rfl), if_pos rfl]

theorem skipQuoted_quote {quote : Char} {tail : List Char} (h : tail.head? ≠ some quote) :
    skipQuoted quote (quote :: tail) = some 1 := by
  unfold skipQuoted
  cases tail with
  | nil =>
      dsimp only
      rw [if_neg (not_not_intro rfl)]
  | cons d tail =>
      dsimp only
      rw [if_neg (not_not_intro rfl), if_neg (fun hd => h (congrArg some hd))]

/-- One turn of `skip_quoted`. -/
def quotedTurn (quote : Char) : Cursor Nat → Except Nat (Cursor Nat)
  | (n, []) => .ok (n, [])
  | (n, c :: cs) =>
      if c ≠ quote then .ok (n + 1, cs)
      else if cs.head? = some quote then .ok (n + 2, cs.tail)
      else .error (n + 1)

theorem skipQuoted_computes (quote : Char) :
    Computes Cursor.more (quotedTurn quote) Cursor.left returned
      (fun s => (skipQuoted quote s.2).map (s.1 + ·)) := by
  refine Cursor.computes (fun n => rfl) fun n c cs => ?_
  by_cases hc : c = quote
  · subst hc
    by_cases hnext : cs.head? = some c
    · obtain ⟨cs, rfl⟩ := exists_tail_of_head? hnext
      refine .inr ⟨(n + 2, cs), by simp [quotedTurn], ?_, ?_⟩
      · show cs.length < cs.length + 2
        omega
      · show (skipQuoted c cs).map (n + 2 + ·) = (skipQuoted c (c :: c :: cs)).map (n + ·)
        rw [skipQuoted_quote_quote, Option.map_map]
        congr 1
        funext m
        show n + 2 + m = n + (m + 2)
        omega
    · refine .inl ⟨n + 1, by simp [quotedTurn, hnext], ?_⟩
      show some (n + 1) = (skipQuoted c (c :: cs)).map (n + ·)
      rw [skipQuoted_quote hnext, Option.map_some]
  · refine .inr ⟨(n + 1, cs), by simp [quotedTurn, hc], Nat.lt_succ_self _, ?_⟩
    show (skipQuoted quote cs).map (n + 1 + ·) = (skipQuoted quote (c :: cs)).map (n + ·)
    rw [skipQuoted_cons hc, Option.map_map]
    congr 1
    funext m
    show n + 1 + m = n + (m + 1)
    omega

/-! ## Block comments

The state has the depth of the nesting. -/

theorem blockCommentEnd_open (depth : Nat) (cs : List Char) :
    blockCommentEnd depth ('/' :: '*' :: cs) =
      ((blockCommentEnd (depth + 1) cs).1 + 2, (blockCommentEnd (depth + 1) cs).2) := by
  rw [blockCommentEnd, if_pos ⟨rfl, rfl⟩]

theorem blockCommentEnd_close {depth : Nat} (h : depth - 1 ≠ 0) (cs : List Char) :
    blockCommentEnd depth ('*' :: '/' :: cs) =
      ((blockCommentEnd (depth - 1) cs).1 + 2, (blockCommentEnd (depth - 1) cs).2) := by
  rw [blockCommentEnd, if_neg (fun h => absurd h.1 (by decide)), if_pos ⟨rfl, rfl⟩, if_neg h]

theorem blockCommentEnd_last {depth : Nat} (h : depth - 1 = 0) (cs : List Char) :
    blockCommentEnd depth ('*' :: '/' :: cs) = (2, true) := by
  rw [blockCommentEnd, if_neg (fun h => absurd h.1 (by decide)), if_pos ⟨rfl, rfl⟩, if_pos h]

theorem blockCommentEnd_char {c : Char} {cs : List Char} (hopen : ¬(c = '/' ∧ cs.head? = some '*'))
    (hclose : ¬(c = '*' ∧ cs.head? = some '/')) (depth : Nat) :
    blockCommentEnd depth (c :: cs) = ((blockCommentEnd depth cs).1 + 1, (blockCommentEnd depth cs).2) := by
  cases cs with
  | nil => rfl
  | cons d cs =>
      conv_lhs => rw [blockCommentEnd]
      rw [if_neg (fun h => hopen ⟨h.1, congrArg some h.2⟩), if_neg (fun h => hclose ⟨h.1, congrArg some h.2⟩)]

/-- One turn of `block_comment_end`, which carries the depth and how far it is. -/
def commentTurn : Cursor (Nat × Nat) → Except Nat (Cursor (Nat × Nat))
  | (x, []) => .ok (x, [])
  | ((depth, n), c :: cs) =>
      if c = '/' ∧ cs.head? = some '*' then .ok ((depth + 1, n + 2), cs.tail)
      else if c = '*' ∧ cs.head? = some '/' then
        if depth - 1 = 0 then .error (n + 2) else .ok ((depth - 1, n + 2), cs.tail)
      else .ok ((depth, n + 1), cs)

/-- `(cursor, closed)`. -/
def commentEnd : Except Nat (Cursor (Nat × Nat)) → Nat × Bool
  | .error cursor => (cursor, true)
  | .ok s => (s.1.2, false)

theorem blockCommentEnd_computes :
    Computes Cursor.more commentTurn Cursor.left commentEnd
      (fun s => ((blockCommentEnd s.1.1 s.2).1 + s.1.2, (blockCommentEnd s.1.1 s.2).2)) := by
  refine Cursor.computes ?_ ?_
  · rintro ⟨depth, n⟩
    show (n, false) = (0 + n, false)
    rw [Nat.zero_add]
  rintro ⟨depth, n⟩ c cs
  by_cases hopen : c = '/' ∧ cs.head? = some '*'
  · obtain ⟨rfl, hnext⟩ := hopen
    obtain ⟨cs, rfl⟩ := exists_tail_of_head? hnext
    refine .inr ⟨((depth + 1, n + 2), cs), by simp [commentTurn], ?_, ?_⟩
    · show cs.length < cs.length + 2
      omega
    · dsimp only
      rw [blockCommentEnd_open]
      refine Prod.ext ?_ rfl
      show _ + (n + 2) = _ + 2 + n
      omega
  by_cases hclose : c = '*' ∧ cs.head? = some '/'
  · obtain ⟨rfl, hnext⟩ := hclose
    obtain ⟨cs, rfl⟩ := exists_tail_of_head? hnext
    by_cases hlast : depth - 1 = 0
    · refine .inl ⟨n + 2, by simp [commentTurn, hlast], ?_⟩
      dsimp only [commentEnd]
      rw [blockCommentEnd_last hlast, Nat.add_comm]
    · refine .inr ⟨((depth - 1, n + 2), cs), by simp [commentTurn, hlast], ?_, ?_⟩
      · show cs.length < cs.length + 2
        omega
      · dsimp only
        rw [blockCommentEnd_close hlast]
        refine Prod.ext ?_ rfl
        show _ + (n + 2) = _ + 2 + n
        omega
  · refine .inr ⟨((depth, n + 1), cs), by simp only [commentTurn, if_neg hopen, if_neg hclose],
      Nat.lt_succ_self _, ?_⟩
    dsimp only
    rw [blockCommentEnd_char hopen hclose]
    refine Prod.ext ?_ rfl
    show _ + (n + 1) = _ + 1 + n
    omega

/-! ## Runs of characters

The loops that skip blanks or letters. -/

/-- `while bytes.get(cursor).is_some_and(p) { cursor += 1; }`. -/
theorem takeWhile_computes (p : Char → Bool) :
    Computes (fun s : Cursor Nat => s.2.head?.any p) (fun s => .ok (s.1 + 1, s.2.tail)) Cursor.left
      (fun r => (finished r).1) (fun s => s.1 + (s.2.takeWhile p).length) := by
  refine computes ?_ ?_ ?_
  · rintro ⟨n, cs⟩ hmore
    cases cs with
    | nil => cases hmore
    | cons c cs => exact Nat.succ_pos _
  · rintro ⟨n, cs⟩ hend
    cases cs with
    | nil => rfl
    | cons c cs =>
        have hc : ¬p c = true := Bool.eq_false_iff.mp hend
        show n = n + ((c :: cs).takeWhile p).length
        rw [List.takeWhile_cons_of_neg hc]
        rfl
  · rintro ⟨n, cs⟩ hmore
    cases cs with
    | nil => cases hmore
    | cons c cs =>
        have hc : p c = true := hmore
        refine .inr ⟨(n + 1, cs), rfl, Nat.lt_succ_self _, ?_⟩
        show n + 1 + (cs.takeWhile p).length = n + ((c :: cs).takeWhile p).length
        rw [List.takeWhile_cons_of_pos hc, List.length_cons]
        omega

/-! ## The search for a field

Every turn tries the key at one place. -/

/-- One turn of `find_field`. -/
def fieldTurn (content : Slice) (key : Key) (offset : Nat) : Except Slice Nat :=
  match Text.find key.text (content.text.drop offset) with
  | none => .ok offset
  | some skipped =>
      match valueAt content key (offset + skipped) with
      | some value => .error value
      | none => .ok (offset + skipped + key.text.length)

theorem findFieldFrom_computes (content : Slice) (key : Key) :
    Computes (fun offset => (Text.find key.text (content.text.drop offset)).isSome) (fieldTurn content key)
      (content.text.length - ·) returned (findFieldFrom content key) := by
  have hleft {offset skipped : Nat} (h : Text.find key.text (content.text.drop offset) = some skipped) :
      skipped + key.text.length ≤ content.text.length - offset := by
    have hle := Text.add_le_of_find h
    rwa [List.length_drop] at hle
  have hkey : 0 < key.text.length := List.length_pos_iff.mpr key.ne_nil
  refine computes (fun offset hmore => ?_) (fun offset hend => ?_) (fun offset hmore => ?_)
  · obtain ⟨skipped, hfind⟩ := Option.isSome_iff_exists.mp hmore
    have := hleft hfind
    show 0 < content.text.length - offset
    omega
  · rw [Option.isSome_eq_false_iff, Option.isNone_iff_eq_none] at hend
    rw [findFieldFrom_eq, hend]
    rfl
  · obtain ⟨skipped, hfind⟩ := Option.isSome_iff_exists.mp hmore
    cases hvalue : valueAt content key (offset + skipped) with
    | some value =>
        refine .inl ⟨value, by simp only [fieldTurn, hfind, hvalue], ?_⟩
        rw [findFieldFrom_eq, hfind, Option.bind_some, hvalue]
        rfl
    | none =>
        have := hleft hfind
        refine .inr ⟨offset + skipped + key.text.length, by simp only [fieldTurn, hfind, hvalue], ?_, ?_⟩
        · show content.text.length - (offset + skipped + key.text.length) < content.text.length - offset
          omega
        · rw [findFieldFrom_eq content key offset, hfind, Option.bind_some, hvalue, Option.none_or]

end TraceContext
end Krabka
