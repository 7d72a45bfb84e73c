import Krabka.Lib.FixedWidth
import Krabka.Lib.Text
import Krabka.Lib.WireInt

/-!
# `Protocol.Primitives` — the wire protocol's primitive types

The readers and writers of `primitives/` and `tagged_fields.rs`, over one contiguous input: varints,
fixed-width big-endian integers, strings, byte strings, array lengths, UUIDs and the tagged-fields
trailer. A `usize` is 64 bits wide, so every length that a prefix can declare fits it.
-/

namespace Krabka.Protocol

open ByteStream Reader Output

inductive ProtocolError where
  | unexpectedEof (needed : Nat)
  | invalidValue (text : String)
  | invalidUtf8 (error : Text.Utf8Error)
  | varintTooLong (max : Nat)
  | unsupportedVersion (apiKey version : Int16)
  | lengthOverflow (what : String) (len : Nat)
  | schemaMismatch (text : String)
  | tagNotValidForVersion (tag : UInt32) (version : Int16)
deriving DecidableEq, Repr

def ProtocolError.message : ProtocolError → String
  | .unexpectedEof needed =>
      "unexpected end of buffer: needed " ++ toString needed ++ " more bytes"
  | .invalidValue text => "invalid value: " ++ text
  | .invalidUtf8 _ => "invalid UTF-8 in string field"
  | .varintTooLong max => "varint exceeds " ++ toString max ++ " bytes"
  | .unsupportedVersion apiKey version =>
      "unsupported API version " ++ toString version.toInt ++ " for api key " ++
        toString apiKey.toInt
  | .lengthOverflow what len =>
      what ++ " length " ++ toString len ++ " does not fit its wire-format length prefix"
  | .schemaMismatch text => "schema mismatch: " ++ text
  | .tagNotValidForVersion tag version =>
      "Tag " ++ toString tag.toNat ++ " is not valid for version " ++ toString version.toInt

/-- A reader of the wire protocol. -/
abbrev Decode (α : Type) := Reader ProtocolError α

/-- A writer of the wire protocol. -/
abbrev Encode := Output ProtocolError Unit

/-! ## Varints

Groups of seven bits, the lowest first. Signed numbers are zigzag coded. -/

def maxVarintBytes : Nat := 5

def maxVarlongBytes : Nat := 10

def putUvarint (v : UInt32) : Bytes := WireInt.putVarint v.toBitVec

def getUvarint : Decode UInt32 := do
  let v ← WireInt.getVarint (.unexpectedEof 1) (.varintTooLong maxVarintBytes) maxVarintBytes
  return UInt32.ofBitVec v

def uvarintLen (v : UInt32) : Nat := WireInt.varintLen v.toBitVec

def putVarint (v : Int32) : Bytes := WireInt.putVarint (WireInt.zigzag v.toBitVec)

def getVarint : Decode Int32 := do
  let z ← WireInt.getVarint (.unexpectedEof 1) (.varintTooLong maxVarintBytes) maxVarintBytes
  return Int32.ofBitVec (WireInt.unzigzag z)

def varintLen (v : Int32) : Nat := WireInt.varintLen (WireInt.zigzag v.toBitVec)

def putVarlong (v : Int64) : Bytes := WireInt.putVarint (WireInt.zigzag v.toBitVec)

def getVarlong : Decode Int64 := do
  let z ← WireInt.getVarint (.unexpectedEof 1) (.varintTooLong maxVarlongBytes) maxVarlongBytes
  return Int64.ofBitVec (WireInt.unzigzag z)

def varlongLen (v : Int64) : Nat := WireInt.varintLen (WireInt.zigzag v.toBitVec)

/-- An unsigned varint is read back, in front of anything. -/
theorem reads_putUvarint (v : UInt32) : Reads getUvarint (putUvarint v) v :=
  (WireInt.reads_putVarint _ _ (by decide) (by decide) v.toBitVec).map UInt32.ofBitVec

/-- So is a signed one. -/
theorem reads_putVarint (v : Int32) : Reads getVarint (putVarint v) v := by
  have hmax : 32 ≤ 7 * maxVarintBytes := by decide
  have h := (WireInt.reads_putVarint (ProtocolError.unexpectedEof 1) (.varintTooLong maxVarintBytes)
    hmax (by decide) (WireInt.zigzag v.toBitVec)).map (fun z => Int32.ofBitVec (WireInt.unzigzag z))
  rwa [WireInt.unzigzag_zigzag (by decide)] at h

/-- So is a signed one of 64 bits. -/
theorem reads_putVarlong (v : Int64) : Reads getVarlong (putVarlong v) v := by
  have hmax : 64 ≤ 7 * maxVarlongBytes := by decide
  have h := (WireInt.reads_putVarint (ProtocolError.unexpectedEof 1) (.varintTooLong maxVarlongBytes)
    hmax (by decide) (WireInt.zigzag v.toBitVec)).map (fun z => Int64.ofBitVec (WireInt.unzigzag z))
  rwa [WireInt.unzigzag_zigzag (by decide)] at h

@[simp] theorem length_putVarint (v : Int32) : (putVarint v).length = varintLen v :=
  WireInt.length_putVarint (by decide) _

@[simp] theorem length_putVarlong (v : Int64) : (putVarlong v).length = varlongLen v :=
  WireInt.length_putVarint (by decide) _

/-- No varint outgrows the bytes its reader takes. -/
theorem varintLen_le (v : Int32) : varintLen v ≤ maxVarintBytes := by
  unfold varintLen WireInt.varintLen maxVarintBytes
  split <;> omega

/-- A varint of 64 bits takes at most ten bytes. -/
theorem varlongLen_le (v : Int64) : varlongLen v ≤ maxVarlongBytes := by
  unfold varlongLen WireInt.varintLen maxVarlongBytes
  split <;> omega

/-! ## Fixed-width integers

Big-endian, with a shift and an or for each byte as in the source. -/

def putI8 (v : Int8) : Bytes := WireInt.putBE 1 v.toBitVec.toNat
def putI16 (v : Int16) : Bytes := WireInt.putBE 2 v.toBitVec.toNat
def putI32 (v : Int32) : Bytes := WireInt.putBE 4 v.toBitVec.toNat
def putU32 (v : UInt32) : Bytes := WireInt.putBE 4 v.toBitVec.toNat
def putI64 (v : Int64) : Bytes := WireInt.putBE 8 v.toBitVec.toNat

def i8OfBE (bs : Bytes) : Int8 := Int8.ofBitVec (BitVec.ofNat 8 (WireInt.ofBE bs))
def i16OfBE (bs : Bytes) : Int16 := Int16.ofBitVec (BitVec.ofNat 16 (WireInt.ofBE bs))
def i32OfBE (bs : Bytes) : Int32 := Int32.ofBitVec (BitVec.ofNat 32 (WireInt.ofBE bs))
def u32OfBE (bs : Bytes) : UInt32 := UInt32.ofBitVec (BitVec.ofNat 32 (WireInt.ofBE bs))
def i64OfBE (bs : Bytes) : Int64 := Int64.ofBitVec (BitVec.ofNat 64 (WireInt.ofBE bs))

@[simp] theorem length_putI8 (v : Int8) : (putI8 v).length = 1 := WireInt.length_putBE _ _
@[simp] theorem length_putI16 (v : Int16) : (putI16 v).length = 2 := WireInt.length_putBE _ _
@[simp] theorem length_putI32 (v : Int32) : (putI32 v).length = 4 := WireInt.length_putBE _ _
@[simp] theorem length_putU32 (v : UInt32) : (putU32 v).length = 4 := WireInt.length_putBE _ _
@[simp] theorem length_putI64 (v : Int64) : (putI64 v).length = 8 := WireInt.length_putBE _ _

@[simp] theorem i8OfBE_putI8 (v : Int8) : i8OfBE (putI8 v) = v := by
  rw [i8OfBE, putI8, WireInt.ofNat_ofBE_putBE (by decide), Int8.ofBitVec_toBitVec]

@[simp] theorem i16OfBE_putI16 (v : Int16) : i16OfBE (putI16 v) = v := by
  rw [i16OfBE, putI16, WireInt.ofNat_ofBE_putBE (by decide), Int16.ofBitVec_toBitVec]

@[simp] theorem i32OfBE_putI32 (v : Int32) : i32OfBE (putI32 v) = v := by
  rw [i32OfBE, putI32, WireInt.ofNat_ofBE_putBE (by decide), Int32.ofBitVec_toBitVec]

@[simp] theorem u32OfBE_putU32 (v : UInt32) : u32OfBE (putU32 v) = v := by
  rw [u32OfBE, putU32, WireInt.ofNat_ofBE_putBE (by decide), UInt32.ofBitVec_toBitVec]

@[simp] theorem i64OfBE_putI64 (v : Int64) : i64OfBE (putI64 v) = v := by
  rw [i64OfBE, putI64, WireInt.ofNat_ofBE_putBE (by decide), Int64.ofBitVec_toBitVec]

/-- `n` bytes that the buffer must still have. -/
def takeBytes (n : Nat) : Decode Bytes := take n .unexpectedEof

def getI16 : Decode Int16 := do
  let bs ← takeBytes 2
  return i16OfBE bs

def getI32 : Decode Int32 := do
  let bs ← takeBytes 4
  return i32OfBE bs

def getI8 : Decode Int8 := do
  let bs ← takeBytes 1
  return i8OfBE bs

theorem reads_putI8 (v : Int8) : Reads getI8 (putI8 v) v := by
  have htake : Reads (takeBytes 1) (putI8 v) (putI8 v) := Reads.take (length_putI8 v)
  have h := htake.map i8OfBE
  rwa [i8OfBE_putI8] at h

theorem reads_putI32 (v : Int32) : Reads getI32 (putI32 v) v := by
  have htake : Reads (takeBytes 4) (putI32 v) (putI32 v) := Reads.take (length_putI32 v)
  have h := htake.map i32OfBE
  rwa [i32OfBE_putI32] at h

/-! ## Strings and byte strings

A length in one of two forms, and null as a length of its own. -/

/-- `n` bytes of UTF-8. -/
def takeString (n : Nat) : Decode String := do
  let v ← takeBytes n
  match Text.fromUtf8 v with
  | .ok s => return s
  | .error e => throw (.invalidUtf8 e)

/-- What must not be null. -/
def nonNull {α : Type} (text : String) (d : Decode (Option α)) : Decode α := do
  match ← d with
  | some a => return a
  | none => throw (.invalidValue text)

/-- A reader that refuses null takes what is not null. -/
theorem nonNull_eq_ok {α : Type} {text : String} {d : Decode (Option α)} {bs r : Bytes} {a : α} :
    nonNull text d bs = .ok (a, r) ↔ d bs = .ok (some a, r) := by
  unfold nonNull
  rw [bind_eq_ok]
  constructor
  · rintro ⟨o, mid, ho, h⟩
    cases o with
    | none => cases h
    | some a' =>
        cases h
        exact ho
  · intro h
    exact ⟨some a, r, h, rfl⟩

/-- Behind an `INT16` length; a negative length is null. -/
def getNullableStringOwned : Decode (Option String) := do
  let len ← getI16
  match FixedWidth.usizeOfI16 len with
  | none => return none
  | some n => some <$> takeString n

def getStringOwned : Decode String :=
  nonNull "non-nullable STRING was null" getNullableStringOwned

/-- What lies behind a compact length, `n + 1` for `n` bytes and 0 for null. -/
def compact {α : Type} (d : Nat → Decode α) : Decode (Option α) := do
  let raw ← getUvarint
  if raw = 0 then return none else some <$> d (raw - 1).toNat

def getCompactNullableStringOwned : Decode (Option String) := compact takeString

def getCompactStringOwned : Decode String :=
  nonNull "non-nullable COMPACT_STRING was null" getCompactNullableStringOwned

def getNullableBytesOwned : Decode (Option Bytes) := do
  let len ← getI32
  match FixedWidth.usizeOfI32 len with
  | none => return none
  | some n => some <$> takeBytes n

def getCompactNullableBytesOwned : Decode (Option Bytes) := compact takeBytes

/-! ## Array lengths

A prefix that declares more elements than there are bytes left is refused before anything is allocated. -/

def arrayLenPrefix (flexible : Bool) : Decode Nat :=
  if flexible then do
    let raw ← getUvarint
    if raw = 0 then throw (.invalidValue "non-nullable array was null (compact encoding)")
    else return (raw - 1).toNat
  else do
    let n ← getI32
    match FixedWidth.usizeOfI32 n with
    | none => throw (.invalidValue "non-nullable array had negative length")
    | some n => return n

/-- A negative length is null. -/
def nullableArrayLenPrefix (flexible : Bool) : Decode (Option Nat) :=
  if flexible then do
    let raw ← getUvarint
    if raw = 0 then return none else return some (raw - 1).toNat
  else do
    let n ← getI32
    return FixedWidth.usizeOfI32 n

/-- The length of a non-nullable array: no element is shorter than a byte, so a length past the end of
the buffer is refused before anything is allocated for it. -/
def getArrayLen (flexible : Bool) : Decode Nat := do
  let n ← arrayLenPrefix flexible
  let left ← remaining
  if n > left then throw (.invalidValue "array length exceeds remaining buffer") else return n

/-- The length of a nullable array. -/
def getNullableArrayLen (flexible : Bool) : Decode (Option Nat) := do
  let n ← nullableArrayLenPrefix flexible
  match n with
  | none => return none
  | some n => do
      let left ← remaining
      if n > left then throw (.invalidValue "array length exceeds remaining buffer") else return some n

/-- `len + 1`, which leaves 0 for null. -/
def putCompactLength (len : Nat) (what : String) : Encode :=
  match FixedWidth.u32OfLen (len + 1) with
  | some n => put (putUvarint n)
  | none => fail (.lengthOverflow what len)

def putInt32Length (n : Nat) : Encode :=
  match FixedWidth.i32OfLen n with
  | some n => put (putI32 n)
  | none => fail (.lengthOverflow "array" n)

def putArrayLen (n : Nat) (flexible : Bool) : Encode :=
  if flexible then putCompactLength n "array" else putInt32Length n

def putNullableArrayLen (len : Option Nat) (flexible : Bool) : Encode :=
  match flexible, len with
  | false, none => put (putI32 (-1))
  | false, some n => putInt32Length n
  | true, none => put (putUvarint 0)
  | true, some n => putCompactLength n "array"

/-- The elements of an array behind its length. -/
def getArray {α : Type} (flexible : Bool) (d : Decode α) : Decode (List α) := do
  let n ← getArrayLen flexible
  times (fun _ => d) n 0

def putArray {α : Type} (flexible : Bool) (enc : α → Bytes) (as : List α) : Encode := do
  putArrayLen as.length flexible
  each (fun a => put (enc a)) as

def getNullableArray {α : Type} (flexible : Bool) (d : Decode α) : Decode (Option (List α)) := do
  let n ← getNullableArrayLen flexible
  match n with
  | none => return none
  | some n => do
      let as ← times (fun _ => d) n 0
      return some as

def putNullableArray {α : Type} (flexible : Bool) (enc : α → Bytes) (as : Option (List α)) : Encode := do
  putNullableArrayLen (as.map List.length) flexible
  each (fun a => put (enc a)) (as.getD [])

/-- A compact length on the wire: its prefix, which is not 0. -/
theorem wrote_putCompactLength {len : Nat} {what : String} {w : Bytes}
    (h : Wrote (putCompactLength len what) w) :
    ∃ n : UInt32, w = putUvarint n ∧ n ≠ 0 ∧ (n - 1).toNat = len := by
  unfold putCompactLength at h
  cases hn : FixedWidth.u32OfLen (len + 1) with
  | none =>
      rw [hn] at h
      exact absurd h not_wrote_fail
  | some n =>
      rw [hn] at h
      have hnat := FixedWidth.u32OfLen_eq_some.mp hn
      have hne : n ≠ 0 := by
        rintro rfl
        cases hnat
      refine ⟨n, wrote_put.mp h, hne, ?_⟩
      have hle : (1 : UInt32) ≤ n := by
        rw [UInt32.le_iff_toNat_le, hnat]
        exact Nat.le_add_left 1 len
      rw [UInt32.toNat_sub_of_le n 1 hle, hnat]
      rfl

/-- Writers that cannot fail write their bytes one behind the other. -/
theorem wrote_each_put {α : Type} {enc : α → Bytes} {as : List α} {w : Bytes}
    (h : Wrote (each (fun a => put (enc a)) as : Encode) w) : w = as.flatMap enc :=
  (wrote_each (fun _ _ _ hv => wrote_put.mp hv) h).1

/-- Elements of at least a byte are no more than their bytes. -/
theorem length_le_flatMap {α : Type} {enc : α → Bytes} (henc : ∀ a, 1 ≤ (enc a).length) (as : List α) :
    as.length ≤ (as.flatMap enc).length := by
  induction as with
  | nil => exact Nat.le_refl 0
  | cons a as ih =>
      have ha := henc a
      rw [List.flatMap_cons, List.length_append, List.length_cons]
      omega

/-- So the bytes behind a count are enough for it. -/
theorem not_length_gt_remaining {α : Type} {enc : α → Bytes} (henc : ∀ a, 1 ≤ (enc a).length) (as : List α)
    (rest : Bytes) : ¬as.length > (as.flatMap enc ++ rest).length := by
  have hle := length_le_flatMap henc as
  rw [List.length_append]
  omega

/-- What was written as an array is read as one: every element takes a byte, so the length check passes. -/
theorem reads_putArray {α : Type} {d : Decode α} {enc : α → Bytes} (henc : ∀ a, Reads d (enc a) a)
    (hlen : ∀ a, 1 ≤ (enc a).length) {as : List α} {w : Bytes} (h : Wrote (putArray true enc as) w) :
    Reads (getArray true d) w as := by
  obtain ⟨w₁, w₂, h₁, h₂, rfl⟩ := wrote_bind.mp h
  obtain ⟨n, rfl, hne, hn⟩ := wrote_putCompactLength h₁
  rw [wrote_each_put h₂]
  intro rest
  have hprefix : arrayLenPrefix true (putUvarint n ++ (as.flatMap enc ++ rest)) =
      .ok (as.length, as.flatMap enc ++ rest) := by
    show (getUvarint >>= _) _ = _
    rw [bind_of_ok (reads_putUvarint n _), if_neg hne, hn]
    rfl
  have hle := not_length_gt_remaining hlen as rest
  have hlength : getArrayLen true (putUvarint n ++ (as.flatMap enc ++ rest)) =
      .ok (as.length, as.flatMap enc ++ rest) := by
    unfold getArrayLen
    rw [bind_of_ok hprefix, bind_of_ok (show remaining _ = _ from rfl), if_neg hle]
    rfl
  rw [List.append_assoc]
  unfold getArray
  rw [bind_of_ok hlength]
  exact Reads.times as 0 (fun a _ _ => henc a) rest

/-- An array of such elements is read back. -/
theorem reads_putNullableArray {α : Type} {d : Decode α} {enc : α → Bytes}
    (henc : ∀ a, Reads d (enc a) a) (hlen : ∀ a, 1 ≤ (enc a).length) {as : List α} {w : Bytes}
    (h : Wrote (putNullableArray true enc (some as)) w) :
    Reads (getNullableArray true d) w (some as) := by
  obtain ⟨w₁, w₂, h₁, h₂, rfl⟩ := wrote_bind.mp h
  obtain ⟨n, rfl, hne, hn⟩ := wrote_putCompactLength h₁
  rw [wrote_each_put h₂]
  intro rest
  rw [Option.getD_some]
  have hprefix : nullableArrayLenPrefix true (putUvarint n ++ (as.flatMap enc ++ rest)) =
      .ok (some as.length, as.flatMap enc ++ rest) := by
    show (getUvarint >>= _) _ = _
    rw [bind_of_ok (reads_putUvarint n _), if_neg hne, hn]
    rfl
  have hle := not_length_gt_remaining hlen as rest
  have hlength : getNullableArrayLen true (putUvarint n ++ (as.flatMap enc ++ rest)) =
      .ok (some as.length, as.flatMap enc ++ rest) := by
    unfold getNullableArrayLen
    rw [bind_of_ok hprefix]
    show (remaining >>= _) _ = _
    rw [bind_of_ok (show remaining _ = _ from rfl), if_neg hle]
    rfl
  rw [List.append_assoc]
  unfold getNullableArray
  rw [bind_of_ok hlength]
  exact (Reads.times as 0 (fun a _ _ => henc a)).map some rest

/-! ## UUIDs

Sixteen bytes. -/

/-- A 16-byte Kafka UUID, big-endian on the wire. -/
structure Uuid where
  value : BitVec 128
deriving DecidableEq, Repr

def Uuid.zero : Uuid := ⟨0⟩

def getUuid : Decode Uuid := do
  let bs ← takeBytes 16
  return ⟨BitVec.ofNat 128 (WireInt.ofBE bs)⟩

def putUuid (u : Uuid) : Bytes := WireInt.putBE 16 u.value.toNat

theorem length_putUuid (u : Uuid) : (putUuid u).length = 16 := WireInt.length_putBE _ _

theorem reads_putUuid (u : Uuid) : Reads getUuid (putUuid u) u := by
  have htake : Reads (takeBytes 16) (putUuid u) (putUuid u) := Reads.take (length_putUuid u)
  have h := htake.map (fun bs => (⟨BitVec.ofNat 128 (WireInt.ofBE bs)⟩ : Uuid))
  rwa [putUuid, WireInt.ofNat_ofBE_putBE (by decide)] at h

/-! ## Tagged fields

Tags ascend strictly. Unknown entries are kept as they came, and the writer sorts them among the known ones.
-/

structure UnknownTaggedField where
  tag : UInt32
  bytes : Bytes
deriving DecidableEq, Repr

abbrev UnknownTaggedFields := List UnknownTaggedField

/-- One entry, after the tag `s.1`: `known` reads the payload of a tag it recognizes, every other entry is
kept in `s.2`. -/
def readTaggedField (known : UInt32 → Decode Bool) (s : Option UInt32 × UnknownTaggedFields) :
    Decode (Option UInt32 × UnknownTaggedFields) := do
  let tag ← getUvarint
  if s.1.any (fun prev => tag ≤ prev) then
    throw (.invalidValue "tagged fields not strictly ascending")
  else
    let size ← getUvarint
    let payload ← takeBytes size.toNat
    let (recognized, left) ← inside payload (known tag)
    if !recognized then return (some tag, s.2 ++ [⟨tag, payload⟩])
    else if left.isEmpty then return (some tag, s.2)
    else throw (.invalidValue "tagged field decoder did not consume all bytes")

def readTaggedFields (known : UInt32 → Decode Bool) : Decode UnknownTaggedFields := do
  let count ← getUvarint
  let (_, unknown) ← loop (fun _ s => readTaggedField known s) count.toNat 0 (none, [])
  return unknown

/-- As `readTaggedField`, with what the known tags have been read to in the state. -/
def readTaggedFieldInto {σ : Type} (known : UInt32 → σ → Decode (Option σ))
    (s : Option UInt32 × σ × UnknownTaggedFields) : Decode (Option UInt32 × σ × UnknownTaggedFields) := do
  let tag ← getUvarint
  if s.1.any (fun prev => tag ≤ prev) then
    throw (.invalidValue "tagged fields not strictly ascending")
  else
    let size ← getUvarint
    let payload ← takeBytes size.toNat
    let (recognized, left) ← inside payload (known tag s.2.1)
    match recognized with
    | none => return (some tag, s.2.1, s.2.2 ++ [⟨tag, payload⟩])
    | some t =>
        if left.isEmpty then return (some tag, t, s.2.2)
        else throw (.invalidValue "tagged field decoder did not consume all bytes")

def readTaggedFieldsInto {σ : Type} (known : UInt32 → σ → Decode (Option σ)) (s : σ) :
    Decode (σ × UnknownTaggedFields) := do
  let count ← getUvarint
  let (_, s, unknown) ← loop (fun _ s => readTaggedFieldInto known s) count.toNat 0 (none, s, [])
  return (s, unknown)

/-- `varint_length`. -/
def putVarintLength (len : Nat) (what : String) : Encode :=
  match FixedWidth.u32OfLen len with
  | some n => put (putUvarint n)
  | none => fail (.lengthOverflow what len)

def putTaggedField (e : UInt32 × Bytes) : Encode := do
  put (putUvarint e.1)
  putVarintLength e.2.length "tagged field"
  put e.2

/-- `WriteTaggedFields::write`: the known entries and the unknown ones, in ascending tag order. -/
def writeTaggedFields (entries : List (UInt32 × Bytes)) (unknown : UnknownTaggedFields) : Encode := do
  let sorted := (entries ++ unknown.map fun u => (u.tag, u.bytes)).insertionSort fun a b => a.1 ≤ b.1
  putVarintLength sorted.length "tagged-field count"
  each putTaggedField sorted

/-- A length that is written is the varint of that length. -/
theorem wrote_putVarintLength {len : Nat} {what : String} {w : Bytes}
    (h : Wrote (putVarintLength len what) w) : ∃ n : UInt32, w = putUvarint n ∧ n.toNat = len := by
  unfold putVarintLength at h
  cases hn : FixedWidth.u32OfLen len with
  | none =>
      rw [hn] at h
      exact absurd h not_wrote_fail
  | some n =>
      rw [hn] at h
      exact ⟨n, wrote_put.mp h, FixedWidth.u32OfLen_eq_some.mp hn⟩

/-- What the readers of known tags make of a list of entries. -/
def knownFields {σ : Type} (known : UInt32 → σ → Decode (Option σ)) (s : σ)
    (entries : List (UInt32 × Bytes)) : Option σ :=
  entries.foldlM (fun s e =>
    match known e.1 s e.2 with
    | .ok (some t, []) => some t
    | _ => none) s

/-- **The loop over tagged fields reads ascending tags back**, each into the field that knows it. -/
theorem reads_taggedFieldsLoop {σ : Type} {known : UInt32 → σ → Decode (Option σ)} :
    ∀ {entries : List (UInt32 × Bytes)} {w : Bytes}, Wrote (each putTaggedField entries) w →
      entries.Pairwise (fun a b => a.1 < b.1) → ∀ prev : Option UInt32,
      (∀ p ∈ prev, ∀ e ∈ entries, p < e.1) → ∀ {s t : σ}, knownFields known s entries = some t →
      ∀ i, ∃ last, Reads (loop (fun _ s => readTaggedFieldInto known s) entries.length i (prev, s, [])) w
        (last, t, []) := by
  intro entries
  induction entries with
  | nil =>
      intro w h _ prev _ s t hs i
      cases wrote_pure.mp h
      cases hs
      exact ⟨prev, Reads.pure _⟩
  | cons e rest ih =>
      intro w h hsorted prev hprev s t hs i
      obtain ⟨w₁, w₂, h₁, h₂, rfl⟩ := wrote_bind.mp h
      obtain ⟨v₁, v₂, hv₁, hv₂, rfl⟩ := wrote_bind.mp h₁
      obtain ⟨v₃, v₄, hv₃, hv₄, rfl⟩ := wrote_bind.mp hv₂
      obtain ⟨n, rfl, hn⟩ := wrote_putVarintLength hv₃
      cases wrote_put.mp hv₁
      cases wrote_put.mp hv₄
      rw [List.pairwise_cons] at hsorted
      -- the entry is one that the readers know
      unfold knownFields at hs
      rw [List.foldlM_cons] at hs
      obtain ⟨mid, hmid, hs⟩ := Option.bind_eq_some_iff.mp hs
      have hknown : known e.1 s e.2 = .ok (some mid, []) := by
        split at hmid
        · rename_i heq
          rw [heq, Option.some.inj hmid]
        · cases hmid
      have hascending : (prev.any fun p => decide (e.1 ≤ p)) = false := by
        cases prev with
        | none => rfl
        | some p =>
            have hlt := hprev p rfl e List.mem_cons_self
            simpa using hlt
      have hone : Reads (readTaggedFieldInto known (prev, s, []))
          (putUvarint e.1 ++ (putUvarint n ++ e.2)) (some e.1, mid, []) := by
        unfold readTaggedFieldInto
        refine (reads_putUvarint e.1).bind ?_
        rw [if_neg (by rw [hascending]; exact Bool.false_ne_true)]
        refine (reads_putUvarint n).bind ?_
        refine Reads.bind_nil (Reads.take hn.symm) ?_
        intro bs
        rw [bind_of_ok (inside_eq_ok.mpr ⟨hknown, rfl⟩)]
        rfl
      obtain ⟨last, hrest⟩ := ih h₂ hsorted.2 (some e.1)
        (fun p hp q hq => by cases hp; exact hsorted.1 q hq) hs (i + 1)
      exact ⟨last, hone.bind hrest⟩

/-- **A trailer of known fields is read back** by the readers of those fields. -/
theorem reads_writeTaggedFields {σ : Type} {known : UInt32 → σ → Decode (Option σ)}
    {entries : List (UInt32 × Bytes)} {w : Bytes} (h : Wrote (writeTaggedFields entries []) w)
    (hsorted : entries.Pairwise (fun a b => a.1 < b.1)) {s t : σ}
    (hs : knownFields known s entries = some t) : Reads (readTaggedFieldsInto known s) w (t, []) := by
  have hsort : (entries ++ ([] : UnknownTaggedFields).map fun u => (u.tag, u.bytes)).insertionSort
      (fun a b => a.1 ≤ b.1) = entries := by
    rw [List.map_nil, List.append_nil]
    exact List.Pairwise.insertionSort_eq (hsorted.imp fun h => UInt32.le_of_lt h)
  unfold writeTaggedFields at h
  simp only [hsort] at h
  obtain ⟨w₁, w₂, h₁, h₂, rfl⟩ := wrote_bind.mp h
  obtain ⟨n, rfl, hn⟩ := wrote_putVarintLength h₁
  obtain ⟨last, hloop⟩ := reads_taggedFieldsLoop h₂ hsorted none (by simp) hs 0
  unfold readTaggedFieldsInto
  refine (reads_putUvarint n).bind ?_
  rw [hn]
  exact hloop.map fun p => (p.2.1, p.2.2)

/-! ## Fields by version

A field that a version does not have is its default and takes no bytes. -/

/-- A field that is on the wire only when `present`; otherwise it has its default. -/
def fieldIf {α : Type} (present : Prop) [Decidable present] (d : Decode α) (default : α) : Decode α :=
  if present then d else pure default

/-- A field of this version is read. -/
@[simp] theorem fieldIf_pos {α : Type} {p : Prop} [Decidable p] (h : p) (d : Decode α) (a : α) :
    fieldIf p d a = d := if_pos h

/-- A field of another version keeps its default. -/
@[simp] theorem fieldIf_neg {α : Type} {p : Prop} [Decidable p] (h : ¬p) (d : Decode α) (a : α) :
    fieldIf p d a = pure a := if_neg h

end Krabka.Protocol
