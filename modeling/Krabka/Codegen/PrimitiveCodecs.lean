import Krabka.Codegen.Flavours
import Krabka.Lib.ShortestVarint

/-!
# `Codegen.PrimitiveCodecs` — the laws of the primitive codecs

Every message is built from varints, strings and byte strings. Here is what each of them promises: a varint is
read back in front of any suffix and takes the fewest groups that hold its number (`VarintCodec`); a string or
byte string whose length fits its prefix is written, is as long as predicted, and is read back
(`LengthCodec`); and on every input, well formed or not, the borrowed getters answer what the owned ones do.
-/

namespace Krabka.Codegen

open ByteStream Reader Output Krabka.Protocol

/-! ## Unsigned varlongs

The 64-bit varint, with the loop of the 32-bit one. -/

def putUvarlong (v : UInt64) : Bytes := WireInt.putVarint v.toBitVec

def getUvarlong : Decode UInt64 := do
  let v ← WireInt.getVarint (.unexpectedEof 1) (.varintTooLong maxVarlongBytes) maxVarlongBytes
  return UInt64.ofBitVec v

def uvarlongLen (v : UInt64) : Nat := WireInt.varintLen v.toBitVec

theorem reads_putUvarlong (v : UInt64) : Reads getUvarlong (putUvarlong v) v :=
  (WireInt.reads_putVarint _ _ (by decide) (by decide) v.toBitVec).map UInt64.ofBitVec

/-! ## Varints

The signed kinds are the unsigned ones behind zigzag. -/

section
variable {α : Type}

/-- A number is read back whatever follows it, and takes the fewest groups of seven bits that hold `code`. -/
def VarintCodec (write : α → Bytes) (read : Decode α) (len : α → Nat) (code : α → ℕ) : Prop :=
  ∀ v, (∀ suffix, read (write v ++ suffix) = .ok (v, suffix)) ∧ (write v).length = len v ∧
    IsLeast {k : ℕ | 0 < k ∧ code v < 128 ^ k} (len v)

theorem varintCodec_uvarint : VarintCodec putUvarint getUvarint uvarintLen UInt32.toNat := by
  intro v
  exact ⟨reads_putUvarint v, length_putUvarint v, WireInt.isLeast_varintLen (by decide) v.toBitVec⟩

theorem varintCodec_varint :
    VarintCodec putVarint getVarint varintLen fun v => WireInt.zigzagCode v.toInt := by
  intro v
  refine ⟨reads_putVarint v, length_putVarint v, ?_⟩
  have h := WireInt.isLeast_varintLen (by decide) (WireInt.zigzag v.toBitVec)
  rw [WireInt.toNat_zigzag (by decide)] at h
  exact h

theorem varintCodec_uvarlong : VarintCodec putUvarlong getUvarlong uvarlongLen UInt64.toNat := by
  intro v
  exact ⟨reads_putUvarlong v, WireInt.length_putVarint (by decide) _,
    WireInt.isLeast_varintLen (by decide) v.toBitVec⟩

theorem varintCodec_varlong :
    VarintCodec putVarlong getVarlong varlongLen fun v => WireInt.zigzagCode v.toInt := by
  intro v
  refine ⟨reads_putVarlong v, length_putVarlong v, ?_⟩
  have h := WireInt.isLeast_varintLen (by decide) (WireInt.zigzag v.toBitVec)
  rw [WireInt.toNat_zigzag (by decide)] at h
  exact h

/-! ## Strings and byte strings

The eight codecs have a prefix in one of two forms and may have a null. -/

/-- A value that fits its prefix is written, has the predicted length, and is read back whatever follows. -/
def LengthCodec (fits : α → Prop) (write : α → Encode) (read : Decode α) (len : α → Nat) : Prop :=
  ∀ a, fits a → ∃ w, Wrote (write a) w ∧ w.length = len a ∧ ∀ suffix, read (w ++ suffix) = .ok (a, suffix)

theorem lengthCodec_of_exact {fits : α → Prop} {write : α → Encode} {read : Decode α} {len : α → Nat}
    (h : ∀ a, fits a → Exact (write a) (len a) read a) : LengthCodec fits write read len := by
  intro a ha
  obtain ⟨w, hw, hlen, hreads, -⟩ := h a ha
  exact ⟨w, hw, hlen, hreads⟩

/-- Null fits every prefix. -/
def NullOr (fits : α → Prop) (o : Option α) : Prop := ∀ a ∈ o, fits a

end

def FitsString (s : String) : Prop := s.utf8ByteSize < 2 ^ 15

def FitsCompactString (s : String) : Prop := s.utf8ByteSize + 1 < 2 ^ 32

def FitsBytes (b : Bytes) : Prop := b.length < 2 ^ 31

def FitsCompactBytes (b : Bytes) : Prop := b.length + 1 < 2 ^ 32

theorem lengthCodecs :
    LengthCodec FitsString putString getStringOwned stringLen ∧
      LengthCodec (NullOr FitsString) putNullableString getNullableStringOwned nullableStringLen ∧
      LengthCodec FitsCompactString putCompactString getCompactStringOwned compactStringLen ∧
      LengthCodec (NullOr FitsCompactString) putCompactNullableString getCompactNullableStringOwned
        compactNullableStringLen ∧
      LengthCodec FitsBytes putBytes getBytesOwned bytesLen ∧
      LengthCodec (NullOr FitsBytes) putNullableBytes getNullableBytesOwned nullableBytesLen ∧
      LengthCodec FitsCompactBytes putCompactBytes getCompactBytesOwned compactBytesLen ∧
      LengthCodec (NullOr FitsCompactBytes) putCompactNullableBytes getCompactNullableBytesOwned
        compactNullableBytesLen :=
  ⟨lengthCodec_of_exact fun _ => exact_putString, lengthCodec_of_exact fun _ => exact_putNullableString,
    lengthCodec_of_exact fun _ => exact_putCompactString,
    lengthCodec_of_exact fun _ => exact_putCompactNullableString,
    lengthCodec_of_exact fun _ => exact_putBytes, lengthCodec_of_exact fun _ => exact_putNullableBytes,
    lengthCodec_of_exact fun _ => exact_putCompactBytes,
    lengthCodec_of_exact fun _ => exact_putCompactNullableBytes⟩

/-! ## Owned and borrowed

The two getters of a kind differ in what they hand out, and a borrowed text is compared by its bytes. -/

theorem alike_getters :
    Alike getStringBorrowed getStringOwned ∧
      Alike getNullableStringBorrowed getNullableStringOwned ∧
      Alike getCompactStringBorrowed getCompactStringOwned ∧
      Alike getCompactNullableStringBorrowed getCompactNullableStringOwned ∧
      Alike getBytesBorrowed getBytesOwned ∧
      Alike getNullableBytesBorrowed getNullableBytesOwned ∧
      Alike getCompactBytesBorrowed getCompactBytesOwned ∧
      Alike getCompactNullableBytesBorrowed getCompactNullableBytesOwned := by
  rw [getStringBorrowed_eq, getCompactStringBorrowed_eq, getBytesBorrowed_eq, getCompactBytesBorrowed_eq]
  exact ⟨Alike.refl _, Alike.refl _, Alike.refl _, Alike.refl _, Alike.refl _, Alike.refl _, Alike.refl _,
    Alike.refl _⟩

/-- **The primitive codecs keep their laws**: the four varints, the eight codecs of strings and byte strings,
and the eight pairs of an owned and a borrowed getter. -/
theorem primitiveCodecs_lawful :
    (VarintCodec putUvarint getUvarint uvarintLen UInt32.toNat ∧
      VarintCodec putVarint getVarint varintLen (fun v => WireInt.zigzagCode v.toInt) ∧
      VarintCodec putUvarlong getUvarlong uvarlongLen UInt64.toNat ∧
      VarintCodec putVarlong getVarlong varlongLen (fun v => WireInt.zigzagCode v.toInt)) ∧
    (LengthCodec FitsString putString getStringOwned stringLen ∧
      LengthCodec (NullOr FitsString) putNullableString getNullableStringOwned nullableStringLen ∧
      LengthCodec FitsCompactString putCompactString getCompactStringOwned compactStringLen ∧
      LengthCodec (NullOr FitsCompactString) putCompactNullableString getCompactNullableStringOwned
        compactNullableStringLen ∧
      LengthCodec FitsBytes putBytes getBytesOwned bytesLen ∧
      LengthCodec (NullOr FitsBytes) putNullableBytes getNullableBytesOwned nullableBytesLen ∧
      LengthCodec FitsCompactBytes putCompactBytes getCompactBytesOwned compactBytesLen ∧
      LengthCodec (NullOr FitsCompactBytes) putCompactNullableBytes getCompactNullableBytesOwned
        compactNullableBytesLen) ∧
    (Alike getStringBorrowed getStringOwned ∧
      Alike getNullableStringBorrowed getNullableStringOwned ∧
      Alike getCompactStringBorrowed getCompactStringOwned ∧
      Alike getCompactNullableStringBorrowed getCompactNullableStringOwned ∧
      Alike getBytesBorrowed getBytesOwned ∧
      Alike getNullableBytesBorrowed getNullableBytesOwned ∧
      Alike getCompactBytesBorrowed getCompactBytesOwned ∧
      Alike getCompactNullableBytesBorrowed getCompactNullableBytesOwned) :=
  ⟨⟨varintCodec_uvarint, varintCodec_varint, varintCodec_uvarlong, varintCodec_varlong⟩, lengthCodecs,
    alike_getters⟩

end Krabka.Codegen
