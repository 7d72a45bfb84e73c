import Krabka.Lib.ByteStream

/-!
# `Lib.ChunkedInput` — byte input that arrives in pieces

The `Buf` interface of the `bytes` crate: how many bytes are left, the contiguous run at the cursor, and
a way to move the cursor. `LawfulBuf` says what an implementation promises over the byte string it stands
for, its `content`. A contiguous slice and a list of chunks are both lawful, so a function that is generic
over `Buf` and agrees with its run on `content` cannot tell where the input was cut.
-/

namespace ByteStream

class Buf (β : Type) where
  remaining : β → Nat
  chunk : β → Bytes
  advance : β → Nat → β

/-- An input that stands for a byte string. A chunk is empty only when nothing is left. -/
class LawfulBuf (β : Type) extends Buf β where
  content : β → Bytes
  remaining_eq : ∀ b, remaining b = (content b).length
  chunk_isPrefix : ∀ b, chunk b <+: content b
  chunk_ne_nil : ∀ b, content b ≠ [] → chunk b ≠ []
  content_advance : ∀ b n, n ≤ remaining b → content (advance b n) = (content b).drop n

namespace Buf

variable {β : Type}

/-- Copies `n` bytes chunk by chunk. Each round takes at least one byte, so `n` rounds are enough. -/
def copyLoop [Buf β] : Nat → Nat → β → Bytes × β
  | 0, _, b => ([], b)
  | fuel + 1, n, b =>
      if n = 0 then ([], b)
      else
        let src := (chunk b).take n
        let rest := copyLoop fuel (n - src.length) (advance b src.length)
        (src ++ rest.1, rest.2)

/-- `buf.copy_to_slice(&mut dst)` for a `dst` of `n` bytes. -/
def copyToSlice [Buf β] (b : β) (n : Nat) : Bytes × β := copyLoop n n b

variable [LawfulBuf β]

open LawfulBuf

theorem copyLoop_spec :
    ∀ (fuel n : Nat) (b : β), n ≤ fuel → n ≤ (content b).length →
      (copyLoop fuel n b).1 = (content b).take n ∧
      content (copyLoop fuel n b).2 = (content b).drop n := by
  intro fuel
  induction fuel with
  | zero =>
      intro n b hf _
      have : n = 0 := by omega
      subst this
      exact ⟨rfl, rfl⟩
  | succ fuel ih =>
      intro n b hf hn
      unfold copyLoop
      by_cases hzero : n = 0
      · subst hzero
        rw [if_pos rfl]
        exact ⟨rfl, rfl⟩
      · rw [if_neg hzero]
        -- the chunk is a non-empty prefix `c` of the content, of which `k` bytes are taken
        obtain ⟨rest, hrest⟩ := chunk_isPrefix b
        have hne : chunk b ≠ [] := chunk_ne_nil b (by
          rintro hnil
          rw [hnil] at hn
          exact hzero (Nat.le_zero.mp hn))
        have hpos : 0 < (chunk b).length := List.length_pos_of_ne_nil hne
        set k := ((chunk b).take n).length with hk
        have hkval : k = min n (chunk b).length := List.length_take
        have hlen : (content b).length = (chunk b).length + rest.length := by
          rw [← hrest, List.length_append]
        have htake : (chunk b).take n = (content b).take k := by
          rw [← hrest, hkval, List.take_append_of_le_length (by omega)]
          rcases Nat.le_total n (chunk b).length with h | h
          · rw [Nat.min_eq_left h]
          · rw [Nat.min_eq_right h, List.take_of_length_le h, List.take_length]
        have hadv : content (advance b k) = (content b).drop k :=
          content_advance b k (by rw [remaining_eq]; omega)
        obtain ⟨h1, h2⟩ := ih (n - k) (advance b k) (by omega) (by
          rw [hadv, List.length_drop]
          omega)
        constructor
        · change (chunk b).take n ++ (copyLoop fuel (n - k) (advance b k)).1 = _
          rw [h1, hadv, htake, ← List.take_add]
          congr 1
          omega
        · change content (copyLoop fuel (n - k) (advance b k)).2 = _
          rw [h2, hadv, List.drop_drop]
          congr 1
          omega

/-- A copy takes the bytes off the front of the content. -/
theorem copyToSlice_spec {b : β} {n : Nat} (h : n ≤ (content b).length) :
    (copyToSlice b n).1 = (content b).take n ∧
    content (copyToSlice b n).2 = (content b).drop n :=
  copyLoop_spec n n b (Nat.le_refl n) h

end Buf

/-! ## A contiguous slice

The whole rest is at the cursor. -/

instance : LawfulBuf Bytes where
  remaining := List.length
  chunk := id
  advance b n := b.drop n
  content := id
  remaining_eq _ := rfl
  chunk_isPrefix b := List.prefix_refl b
  chunk_ne_nil _ h := h
  content_advance _ _ _ := rfl

/-- A slice is its own content. -/
theorem content_bytes (bs : Bytes) : LawfulBuf.content bs = bs := rfl

/-! ## A list of chunks

The run at the cursor is the first chunk that is not empty. -/

/-- Input in pieces, any of which may be empty. -/
structure Chunks where
  parts : List Bytes

namespace Chunks

/-- The first piece with something in it. -/
def firstPart : List Bytes → Bytes
  | [] => []
  | [] :: cs => firstPart cs
  | (b :: bs) :: _ => b :: bs

/-- Drops `n` bytes, through as many pieces as they span. -/
def dropParts : List Bytes → Nat → List Bytes
  | [], _ => []
  | c :: cs, n => if n < c.length then c.drop n :: cs else dropParts cs (n - c.length)

theorem firstPart_prefix (cs : List Bytes) : firstPart cs <+: cs.flatten := by
  induction cs with
  | nil => exact List.prefix_refl []
  | cons c cs ih =>
      cases c with
      | nil => simpa [firstPart] using ih
      | cons b bs =>
          rw [List.flatten_cons]
          exact List.prefix_append _ _

theorem firstPart_ne_nil {cs : List Bytes} (h : cs.flatten ≠ []) : firstPart cs ≠ [] := by
  induction cs with
  | nil => exact absurd rfl h
  | cons c cs ih =>
      cases c with
      | nil => exact ih (by simpa using h)
      | cons b bs => exact List.cons_ne_nil b bs

theorem flatten_dropParts (cs : List Bytes) (n : Nat) :
    (dropParts cs n).flatten = cs.flatten.drop n := by
  induction cs generalizing n with
  | nil => simp [dropParts]
  | cons c cs ih =>
      unfold dropParts
      rw [List.flatten_cons, List.drop_append]
      split
      · rename_i h
        rw [List.flatten_cons, show n - c.length = 0 by omega, List.drop_zero]
      · rename_i h
        rw [ih, List.drop_eq_nil_of_le (by omega : c.length ≤ n), List.nil_append]

end Chunks

instance : LawfulBuf Chunks where
  remaining b := b.parts.flatten.length
  chunk b := Chunks.firstPart b.parts
  advance b n := ⟨Chunks.dropParts b.parts n⟩
  content b := b.parts.flatten
  remaining_eq _ := rfl
  chunk_isPrefix b := Chunks.firstPart_prefix b.parts
  chunk_ne_nil _ h := Chunks.firstPart_ne_nil h
  content_advance b n _ := Chunks.flatten_dropParts b.parts n

theorem content_chunks (b : Chunks) : LawfulBuf.content b = b.parts.flatten := rfl

end ByteStream
