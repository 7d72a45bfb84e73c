import Krabka.Protocol.TaggedFields

/-!
# `Protocol.SizedPrimitives` — what the primitive writers append

Every primitive writer checks that a length fits its prefix and fails otherwise, so a writer that finishes
has appended as many bytes as its length function says, whatever the value. The lemmas need none of the
length bounds of an exact codec.
-/

namespace Krabka.Protocol

open ByteStream Output

/-! ## Length prefixes

A prefix is as long as its number takes, or the writer fails. -/

/-- The announced length of a varint is its own. -/
theorem length_putUvarint (v : UInt32) : (putUvarint v).length = uvarintLen v :=
  WireInt.length_putVarint (by decide) v.toBitVec

/-- A compact length is announced with one added. -/
theorem sized_putCompactLength (len : Nat) (what : String) :
    Sized (putCompactLength len what) (usizeUvarintLen (len + 1)) := by
  unfold putCompactLength
  cases h : FixedWidth.u32OfLen (len + 1) with
  | none => exact Sized.fail
  | some n =>
      refine Sized.put ?_
      rw [length_putUvarint, uvarintLen_eq (FixedWidth.u32OfLen_eq_some.mp h)]

theorem sized_putVarintLength (len : Nat) (what : String) :
    Sized (putVarintLength len what) (usizeUvarintLen len) := by
  unfold putVarintLength
  cases h : FixedWidth.u32OfLen len with
  | none => exact Sized.fail
  | some n =>
      refine Sized.put ?_
      rw [length_putUvarint, uvarintLen_eq (FixedWidth.u32OfLen_eq_some.mp h)]

theorem sized_putShortLength (len : Nat) (what : String) : Sized (putShortLength len what) 2 := by
  unfold putShortLength
  cases FixedWidth.i16OfLen len with
  | none => exact Sized.fail
  | some n => exact Sized.put (length_putI16 n)

theorem sized_putLongLength (len : Nat) (what : String) : Sized (putLongLength len what) 4 := by
  unfold putLongLength
  cases FixedWidth.i32OfLen len with
  | none => exact Sized.fail
  | some n => exact Sized.put (length_putI32 n)

theorem sized_putInt32Length (len : Nat) : Sized (putInt32Length len) 4 := by
  unfold putInt32Length
  cases FixedWidth.i32OfLen len with
  | none => exact Sized.fail
  | some n => exact Sized.put (length_putI32 n)

theorem sized_putArrayLen (len : Nat) (flexible : Bool) :
    Sized (putArrayLen len flexible) (arrayLenPrefixLen len flexible) :=
  (sized_putCompactLength len "array").ite (sized_putInt32Length len)

theorem sized_putNullableArrayLen (len : Option Nat) (flexible : Bool) :
    Sized (putNullableArrayLen len flexible) (nullableArrayLenPrefixLen len flexible) := by
  cases flexible with
  | false =>
      cases len with
      | none => exact Sized.put (length_putI32 (-1))
      | some n => exact sized_putInt32Length n
  | true =>
      cases len with
      | none => exact Sized.put (length_putUvarint 0)
      | some n => exact sized_putCompactLength n "array"

/-! ## Strings and byte strings

A prefix and the bytes behind it. -/

/-- A string, prefix and text together. -/
theorem sized_putString (s : String) : Sized (putString s) (stringLen s) :=
  (sized_putShortLength s.utf8ByteSize "STRING").bind (Sized.put (length_utf8Bytes s))

/-- A null has a prefix only. -/
theorem sized_putNullableString (s : Option String) :
    Sized (putNullableString s) (nullableStringLen s) := by
  cases s with
  | none => exact Sized.put (length_putI16 (-1))
  | some s => exact sized_putString s

theorem sized_putCompactString (s : String) : Sized (putCompactString s) (compactStringLen s) :=
  (sized_putCompactLength s.utf8ByteSize "COMPACT_STRING").bind (Sized.put (length_utf8Bytes s))

theorem sized_putCompactNullableString (s : Option String) :
    Sized (putCompactNullableString s) (compactNullableStringLen s) := by
  cases s with
  | none => exact Sized.put (length_putUvarint 0)
  | some s => exact sized_putCompactString s

/-- Bytes, prefix and all. -/
theorem sized_putBytes (b : Bytes) : Sized (putBytes b) (bytesLen b) :=
  (sized_putLongLength b.length "BYTES").bind (Sized.put rfl)

theorem sized_putCompactBytes (b : Bytes) : Sized (putCompactBytes b) (compactBytesLen b) :=
  (sized_putCompactLength b.length "COMPACT_BYTES").bind (Sized.put rfl)

/-! ## Arrays and trailers

Sums over the elements. -/

/-- **An array is as long as its elements announce**, behind its count. -/
theorem sized_encodeArray {α : Type} {flexible : Bool} {f : α → Encode} {len : α → Nat} {as : List α}
    (h : ∀ a ∈ as, Sized (f a) (len a)) :
    Sized (encodeArray flexible f as) (arrayLen flexible len as) :=
  (sized_putArrayLen as.length flexible).bind (Sized.each h)

/-- So is one that may be null. -/
theorem sized_encodeNullableArray {α : Type} {flexible : Bool} {f : α → Encode} {len : α → Nat}
    {as : Option (List α)} (h : ∀ a ∈ as.getD [], Sized (f a) (len a)) :
    Sized (encodeNullableArray flexible f as) (nullableArrayLen flexible len as) :=
  (sized_putNullableArrayLen (as.map List.length) flexible).bind (Sized.each h)

/-- A tagged field states its tag and its size. -/
theorem sized_putTaggedField (e : UInt32 × Bytes) :
    Sized (putTaggedField e) (taggedFieldLen e.1 e.2.length) := by
  refine Sized.len ((Sized.put (length_putUvarint e.1)).bind
    ((sized_putVarintLength e.2.length "tagged field").bind (Sized.put rfl))) ?_
  exact (Nat.add_assoc _ _ _).symm

/-- The trailer, whatever its tags: sorting the entries does not change what they take. -/
theorem sized_writeTaggedFields (entries : List (UInt32 × Bytes)) (unknown : UnknownTaggedFields) :
    Sized (writeTaggedFields entries unknown)
      (taggedFieldsLen (entries.map fun e => (e.1, e.2.length)) unknown) := by
  have hperm := sortedFields_perm entries unknown
  have hcount : (sortedFields entries unknown).length = entries.length + unknown.length := by
    rw [hperm.length_eq, List.length_append, List.length_map]
  have hsum : ((sortedFields entries unknown).map fun e => taggedFieldLen e.1 e.2.length).sum =
      (entries.map fun e => taggedFieldLen e.1 e.2.length).sum +
        (unknown.map fun u => taggedFieldLen u.tag u.bytes.length).sum := by
    rw [(hperm.map _).sum_eq, List.map_append, List.sum_append, List.map_map]
    rfl
  have hwrite := (sized_putVarintLength (sortedFields entries unknown).length "tagged-field count").bind
    (Sized.each fun e (_ : e ∈ sortedFields entries unknown) => sized_putTaggedField e)
  refine hwrite.len ?_
  unfold taggedFieldsLen
  rw [hcount, hsum, List.length_map, List.map_map, Nat.add_assoc]
  rfl

end Krabka.Protocol
