import Krabka.Lib.ByteStream

/-!
# `Lib.Scratch` — blocks written through a scratch area

A writer grows its buffer by the worst case, lets a function fill the grown part, and cuts the buffer back to
what was filled. What a call on a `&mut [u8]` leaves behind is a `Filled`: as many bytes as there were, and how
many of them it says it wrote.
-/

namespace Scratch

open ByteStream

/-! ## Cutting a list in pieces

Pieces of one length, and a shorter one at the end. -/

section
variable {α : Type}

/-- `slice::chunks(n)`. -/
def chunks (n : Nat) (xs : List α) : List (List α) :=
  if _h : n = 0 ∨ xs = [] then [] else xs.take n :: chunks n (xs.drop n)
termination_by xs.length
decreasing_by
  rw [not_or] at _h
  have hpos := List.length_pos_of_ne_nil _h.2
  rw [List.length_drop]
  omega

@[simp] theorem chunks_nil (n : Nat) : chunks n ([] : List α) = [] := by
  rw [chunks, dif_pos (Or.inr rfl)]

theorem chunks_of_ne_nil {n : Nat} {xs : List α} (hn : 0 < n) (h : xs ≠ []) :
    chunks n xs = xs.take n :: chunks n (xs.drop n) := by
  conv_lhs => rw [chunks]
  rw [dif_neg (by rw [not_or]; exact ⟨by omega, h⟩)]

theorem chunks_of_length_le {n : Nat} {xs : List α} (h : xs ≠ []) (hle : xs.length ≤ n) :
    chunks n xs = [xs] := by
  have hpos := List.length_pos_of_ne_nil h
  rw [chunks_of_ne_nil (by omega) h, List.take_of_length_le hle, List.drop_of_length_le hle, chunks_nil]

/-- The pieces in turn are the whole. -/
theorem flatten_chunks {n : Nat} (hn : 0 < n) (xs : List α) : (chunks n xs).flatten = xs := by
  induction xs using chunks.induct n with
  | case1 xs h =>
      rcases h with h | h
      · omega
      · rw [h, chunks_nil, List.flatten_nil]
  | case2 xs h ih =>
      rw [not_or] at h
      rw [chunks_of_ne_nil hn h.2, List.flatten_cons, ih, List.take_append_drop]

/-- No piece is empty, and none is longer than `n`. -/
theorem bounds_of_mem_chunks {n : Nat} {xs piece : List α} (h : piece ∈ chunks n xs) :
    piece ≠ [] ∧ piece.length ≤ n := by
  induction xs using chunks.induct n with
  | case1 xs hstop =>
      rw [chunks, dif_pos hstop] at h
      cases h
  | case2 xs hgo ih =>
      rw [chunks, dif_neg hgo] at h
      rw [not_or] at hgo
      rcases List.mem_cons.mp h with rfl | h
      · refine ⟨?_, List.length_take_le n xs⟩
        rw [ne_eq, List.take_eq_nil_iff, not_or]
        exact hgo
      · exact ih h

/-- `slice.split_at_checked(n)`, and `split_first_chunk::<n>`. -/
def splitAtChecked (n : Nat) (xs : List α) : Option (List α × List α) :=
  if n ≤ xs.length then some (xs.take n, xs.drop n) else none

theorem splitAtChecked_eq_some {n : Nat} {xs head tail : List α} :
    splitAtChecked n xs = some (head, tail) ↔ xs = head ++ tail ∧ head.length = n := by
  unfold splitAtChecked
  constructor
  · intro h
    rw [Option.ite_none_right_eq_some, Option.some.injEq, Prod.mk.injEq] at h
    obtain ⟨hle, rfl, rfl⟩ := h
    exact ⟨(List.take_append_drop n xs).symm, List.length_take_of_le hle⟩
  · rintro ⟨rfl, rfl⟩
    rw [if_pos (by rw [List.length_append]; exact Nat.le_add_right _ _), List.take_left, List.drop_left]

end

/-! ## The scratch area

The buffer is grown, one slot of it is filled, and it is cut back. -/

/-- What a call that writes into `scratch` leaves there, and how many bytes it reports. -/
structure Filled (scratch : Bytes) where
  bytes : Bytes
  count : Nat
  length_bytes : bytes.length = scratch.length

/-- The bytes that the call reports. -/
def Filled.written {scratch : Bytes} (w : Filled scratch) : Bytes := w.bytes.take w.count

theorem Filled.length_written {scratch : Bytes} (w : Filled scratch) (h : w.count ≤ scratch.length) :
    w.written.length = w.count := by
  unfold Filled.written
  rw [List.length_take, w.length_bytes]
  omega

/-- A call that writes `bs` and leaves the rest as it was. -/
def Filled.ofBytes (scratch bs : Bytes) (h : bs.length ≤ scratch.length) : Filled scratch where
  bytes := bs ++ scratch.drop bs.length
  count := bs.length
  length_bytes := by
    rw [List.length_append, List.length_drop]
    omega

@[simp] theorem Filled.written_ofBytes {scratch bs : Bytes} (h : bs.length ≤ scratch.length) :
    (Filled.ofBytes scratch bs h).written = bs := List.take_left

/-- `buf.resize(len, 0)`. -/
def resize (buf : Bytes) (len : Nat) : Bytes := buf.take len ++ List.replicate (len - buf.length) 0

theorem resize_add (buf : Bytes) (n : Nat) :
    resize buf (buf.length + n) = buf ++ List.replicate n 0 := by
  unfold resize
  rw [List.take_of_length_le (Nat.le_add_right _ _), Nat.add_sub_cancel_left]

/-- `buf.split_at_mut_checked(header)`, and `split_first_chunk_mut::<4>` of its second half: what is before the
    slot, the slot, and the scratch area behind it. -/
def splitSlot (buf : Bytes) (header : Nat) : Option (Bytes × Bytes × Bytes) :=
  if header + 4 ≤ buf.length then
    some (buf.take header, (buf.drop header).take 4, (buf.drop header).drop 4)
  else none

theorem splitSlot_resize (buf : Bytes) (n : Nat) :
    splitSlot (resize buf (buf.length + 4 + n)) buf.length =
      some (buf, List.replicate 4 0, List.replicate n 0) := by
  rw [Nat.add_assoc, resize_add]
  unfold splitSlot
  rw [if_pos (by rw [List.length_append, List.length_replicate]; omega), List.take_left, List.drop_left,
    List.take_replicate, List.drop_replicate, Nat.min_eq_left (Nat.le_add_right 4 n), Nat.add_sub_cancel_left]

/-- Cutting the buffer back leaves what was there, the slot and the front of the area. -/
theorem take_slot {buf slot : Bytes} (hslot : slot.length = 4) (area : Bytes) (n : Nat) :
    (buf ++ slot ++ area).take (buf.length + 4 + n) = buf ++ slot ++ area.take n := by
  rw [← hslot, ← List.length_append, List.take_length_add_append]

end Scratch
