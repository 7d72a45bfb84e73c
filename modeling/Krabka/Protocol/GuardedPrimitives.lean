import Krabka.Lib.GuardedCodec
import Krabka.Protocol.PrivateMessages
import Krabka.Protocol.TaggedTrailer

/-!
# `Protocol.GuardedPrimitives` — what the writers refuse

A compact writer refuses one thing: a length that is not below `2 ^ 32 - 1` (`CompactFits`), and in a
trailer a payload or a count that is not below `2 ^ 32`; a classic one refuses a length that its signed prefix
does not hold. Everything else they write is read back. The lemmas state that for strings, byte strings, arrays
and trailers.
-/

namespace Krabka.Protocol

open ByteStream Reader Output

/-- A compact prefix refuses what does not fit. -/
theorem writes_putCompactLength {len : Nat} {what : String} :
    Writes (putCompactLength len what) ↔ CompactFits len := by
  constructor
  · rintro ⟨w, h⟩
    obtain ⟨n, -, hne, hn⟩ := wrote_putCompactLength h
    have hlt := n.toNat_lt
    have hpos : (1 : UInt32) ≤ n := by
      rw [UInt32.le_iff_toNat_le]
      exact Nat.one_le_iff_ne_zero.mpr fun hz => hne (UInt32.toNat_inj.mp hz)
    rw [UInt32.toNat_sub_of_le n 1 hpos] at hn
    have hone : (1 : UInt32).toNat = 1 := rfl
    have hle := UInt32.le_iff_toNat_le.mp hpos
    omega
  · intro h
    obtain ⟨n, hput, -⟩ := putCompactLength_of_fits what h
    rw [hput]
    exact writes_put _

/-- So does one of 16 bits. -/
theorem writes_putShortLength {len : Nat} {what : String} :
    Writes (putShortLength len what) ↔ len < 2 ^ 15 := by
  constructor
  · intro h
    by_contra hlen
    unfold putShortLength FixedWidth.i16OfLen at h
    rw [if_neg hlen] at h
    exact not_writes_fail _ h
  · intro h
    obtain ⟨n, hput, -⟩ := putShortLength_of_fits what h
    rw [hput]
    exact writes_put _

/-- So does one of 32 bits. -/
theorem writes_putLongLength {len : Nat} {what : String} :
    Writes (putLongLength len what) ↔ len < 2 ^ 31 := by
  constructor
  · intro h
    by_contra hlen
    unfold putLongLength FixedWidth.i32OfLen at h
    rw [if_neg hlen] at h
    exact not_writes_fail _ h
  · intro h
    obtain ⟨n, hput, -⟩ := putLongLength_of_fits what h
    rw [hput]
    exact writes_put _

/-- A varint takes a byte. -/
theorem one_le_length_putUvarint (n : UInt32) : 1 ≤ (putUvarint n).length := by
  refine List.length_pos_iff.mpr fun hnil => ?_
  have hread := (reads_putUvarint n).all
  rw [hnil] at hread
  cases hread

theorem one_le_of_wrote_putCompactString {s : String} {w : Bytes} (h : Wrote (putCompactString s) w) :
    1 ≤ w.length := by
  obtain ⟨w₁, w₂, h₁, -, rfl⟩ := wrote_bind.mp h
  obtain ⟨n, rfl, -⟩ := wrote_putCompactLength h₁
  have hone := one_le_length_putUvarint n
  rw [List.length_append]
  omega

/-- What starts with a name takes a byte. -/
theorem one_le_of_wrote_named {s : String} {x : Encode} {w : Bytes}
    (h : Wrote (putCompactString s >>= fun _ => x) w) : 1 ≤ w.length := by
  obtain ⟨w₁, w₂, h₁, -, rfl⟩ := wrote_bind.mp h
  have hone := one_le_of_wrote_putCompactString h₁
  rw [List.length_append]
  omega

/-- A string behind a compact prefix. -/
theorem guarded_putCompactString (s : String) :
    Guarded (CompactFits s.utf8ByteSize) (putCompactString s) getCompactStringOwned s :=
  .of_exact exact_putCompactString fun h => writes_putCompactLength.mp (writes_bind.mp h).1

/-- A nullable string behind a compact prefix. -/
theorem guarded_putCompactNullableString (s : Option String) :
    Guarded (∀ t ∈ s, CompactFits t.utf8ByteSize) (putCompactNullableString s)
      getCompactNullableStringOwned s := by
  refine .of_exact exact_putCompactNullableString fun h t ht => ?_
  rw [Option.mem_def.mp ht] at h
  exact writes_putCompactLength.mp (writes_bind.mp h).1

/-- Bytes behind a compact prefix. -/
theorem guarded_putCompactBytes (b : Bytes) :
    Guarded (CompactFits b.length) (putCompactBytes b) getCompactBytesOwned b :=
  .of_exact exact_putCompactBytes fun h => writes_putCompactLength.mp (writes_bind.mp h).1

/-! ## Arrays

The count has to fit its prefix, and each element has a condition of its own. -/

section
variable {α γ : Type} {f : γ → Encode} {d : Decode α} {g : γ → α} {p : γ → Prop}

/-- The count of an array. -/
theorem guarded_putArrayLen (flexible : Bool) (n : Nat) :
    Guarded (LenFits flexible (2 ^ 31) n) (putArrayLen n flexible) (arrayLenPrefix flexible) n := by
  refine .of_exact exact_putArrayLen fun h => ?_
  cases flexible with
  | true => exact writes_putCompactLength.mp h
  | false => exact (@writes_putLongLength n "array").mp h

/-- The count of an array that may be null. -/
theorem guarded_putNullableArrayLen (flexible : Bool) (n : Option Nat) :
    Guarded (∀ m ∈ n, LenFits flexible (2 ^ 31) m) (putNullableArrayLen n flexible)
      (nullableArrayLenPrefix flexible) n := by
  refine .of_exact exact_putNullableArrayLen fun h m hm => ?_
  rw [Option.mem_def.mp hm] at h
  cases flexible with
  | true => exact writes_putCompactLength.mp h
  | false => exact (@writes_putLongLength m "array").mp h

/-- An array of elements that take a byte each. -/
theorem guarded_encodeArray {cs : List γ} (h : ∀ c ∈ cs, Guarded (p c) (f c) d (g c))
    (hbyte : ∀ c w, Wrote (f c) w → 1 ≤ w.length) :
    Guarded (CompactFits cs.length ∧ ∀ c ∈ cs, p c) (encodeArray true f cs) (getArray true d)
      (cs.map g) := by
  have hbody := Guarded.each (fun c hc _ => h c hc) 0
  rw [getArray_eq]
  exact (guarded_putArrayLen true cs.length).bind (hbody.checked fun w hw => length_le_of_wrote_each hbyte hw)

variable {enc : γ → Bytes} {n : Nat}

/-- Elements that are always written, such as numbers. -/
theorem guarded_putArray (hn : 1 ≤ n) (h : ∀ c, Exact (put (enc c) : Encode) n d (g c)) (cs : List γ) :
    Guarded (CompactFits cs.length) (putArray true enc cs) (getArray true d) (cs.map g) :=
  .of_exact (fun (hfit : LenFits true (2 ^ 31) cs.length) =>
      @exact_encodeArray _ _ true _ (fun _ => n) _ _ _ hfit (fun c _ => h c) fun _ _ => hn)
    fun hw => writes_putCompactLength.mp (writes_bind.mp hw).1

/-- **An array of fixed-size elements.** -/
theorem guarded_putNullableArray (hn : 1 ≤ n) (h : ∀ c, Exact (put (enc c) : Encode) n d (g c))
    (cs : Option (List γ)) :
    Guarded (∀ l ∈ cs, CompactFits l.length) (putNullableArray true enc cs) (getNullableArray true d)
      (cs.map (List.map g)) := by
  refine .of_exact (fun (hfit : ∀ l ∈ cs, LenFits true (2 ^ 31) l.length) =>
    @exact_encodeNullableArray _ _ true _ (fun _ => n) _ _ _ hfit (fun _ _ c _ => h c) fun _ _ _ _ => hn) ?_
  intro hw l hl
  rw [Option.mem_def.mp hl] at hw
  exact writes_putCompactLength.mp (writes_bind.mp hw).1

end

/-! ## Trailers

Known and unknown entries in the order of their tags. -/

/-- Tags in strictly ascending order, as every reader of a trailer leaves them. -/
def Ascending (unknown : UnknownTaggedFields) : Prop := unknown.Pairwise fun a b => a.tag < b.tag

theorem ascending_nil : Ascending [] := List.Pairwise.nil

/-- Unknown fields that were read ascend. -/
theorem ascending_of_readUnknownTaggedFields {unknown : UnknownTaggedFields} {bs rest : Bytes}
    (h : readUnknownTaggedFields bs = .ok (unknown, rest)) : Ascending unknown := by
  unfold readUnknownTaggedFields at h
  rw [readTaggedFields_eq_with] at h
  obtain ⟨⟨t, u⟩, mid, hread, h⟩ := bind_eq_ok.mp h
  cases h
  obtain ⟨entries, calls, -, hsorted, -, rfl, -, rfl, -⟩ := trailer_of_reads hread
  exact List.pairwise_map.mpr ((List.pairwise_map.mp hsorted).filter _)

/-- **The trailer of a record that knows no tag.** -/
theorem guarded_unknown {unknown : UnknownTaggedFields} (h : Ascending unknown) :
    Guarded unknown.Fits (writeUnknownTaggedFields unknown) readUnknownTaggedFields unknown := by
  refine .of_exact exact_unknown fun hw => ?_
  obtain ⟨hcount, -, hlengths⟩ := (wrote_writeTaggedFields_iff [] unknown).mp hw
  rw [List.length_nil, Nat.zero_add] at hcount
  exact ⟨h, hcount, hlengths⟩

end Krabka.Protocol
