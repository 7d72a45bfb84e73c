import Krabka.Lib.ExactCodec
import Krabka.Protocol.Primitives

/-!
# `Protocol.ExactPrimitives` — the primitive codecs, written, measured and read

The rest of `primitives/`: the writers of strings and byte strings, the length functions beside every
writer, and the array framing over elements that can fail to encode. Each primitive is an exact codec
whenever its length fits its prefix (`exact_...`), in either encoding: the classic one with fixed-width
lengths and the compact one with varints.
-/

namespace Krabka.Protocol

open ByteStream Reader Output

/-! ## Lengths

How many bytes a varint takes, and which lengths a prefix can hold. -/

/-- The varint length of a `usize`, which is 64 bits wide. -/
def usizeUvarintLen (v : Nat) : Nat := WireInt.varintLen (BitVec.ofNat 64 v)

/-- A length fits the prefix of the encoding: `len + 1` in a `u32`, or `len` in a signed integer below
    `limit`. -/
def LenFits (flexible : Bool) (limit len : Nat) : Prop :=
  if flexible then len + 1 < 2 ^ 32 else len < limit

instance (flexible : Bool) (limit len : Nat) : Decidable (LenFits flexible limit len) :=
  inferInstanceAs (Decidable (ite _ _ _))

theorem uvarintLen_eq {n : UInt32} {len : Nat} (h : n.toNat = len) :
    uvarintLen n = usizeUvarintLen len := by
  refine WireInt.varintLen_congr ?_
  have hlt := n.toNat_lt
  rw [BitVec.toNat_ofNat, Nat.mod_eq_of_lt (by omega), ← h]
  rfl

/-- An unsigned varint, for every word. -/
theorem exact_putUvarint (v : UInt32) : Exact (put (putUvarint v)) (uvarintLen v) getUvarint v :=
  (WireInt.exact_putVarint _ _ (by decide) (by decide) v.toBitVec).map UInt32.ofBitVec

/-- A compact length that fits is written as a number that is not 0. -/
theorem putCompactLength_of_fits {len : Nat} (what : String) (h : len + 1 < 2 ^ 32) :
    ∃ n : UInt32, putCompactLength len what = put (putUvarint n) ∧ n ≠ 0 ∧ (n - 1).toNat = len ∧
      uvarintLen n = usizeUvarintLen (len + 1) := by
  have hsome : FixedWidth.u32OfLen (len + 1) = some (UInt32.ofNat (len + 1)) := if_pos h
  have hnat := FixedWidth.u32OfLen_eq_some.mp hsome
  have hwrite : putCompactLength len what = put (putUvarint (UInt32.ofNat (len + 1))) := by
    unfold putCompactLength
    rw [hsome]
  refine ⟨UInt32.ofNat (len + 1), hwrite, ?_, ?_, uvarintLen_eq hnat⟩
  · intro hz
    rw [hz] at hnat
    cases hnat
  · have hle : (1 : UInt32) ≤ UInt32.ofNat (len + 1) := by
      rw [UInt32.le_iff_toNat_le, hnat]
      exact Nat.le_add_left 1 len
    rw [UInt32.toNat_sub_of_le _ 1 hle, hnat]
    rfl

/-! ## Fixed-width values

Each takes its width, and nothing can go wrong but the end of the input. -/

def putU16 (v : UInt16) : Bytes := WireInt.putBE 2 v.toBitVec.toNat

/-- The 64 bits of an `f64`. -/
def putF64 (v : UInt64) : Bytes := WireInt.putBE 8 v.toBitVec.toNat

def putBool (v : Bool) : Bytes := [if v then 1 else 0]

def getU16 : Decode UInt16 := do
  let bs ← takeBytes 2
  return UInt16.ofBitVec (BitVec.ofNat 16 (WireInt.ofBE bs))

def getI64 : Decode Int64 := do
  let bs ← takeBytes 8
  return i64OfBE bs

def getF64 : Decode UInt64 := do
  let bs ← takeBytes 8
  return UInt64.ofBitVec (BitVec.ofNat 64 (WireInt.ofBE bs))

def getBool : Decode Bool := do
  let bs ← takeBytes 1
  if bs = [0] then return false
  else if bs = [1] then return true
  else throw (.invalidValue "boolean must be 0 or 1")

/-- Raw bytes of a known length. -/
theorem exact_takeBytes {bs : Bytes} {n : Nat} (h : bs.length = n) :
    Exact (put bs) n (takeBytes n) bs :=
  Exact.take h

/-- A fixed-width value is a cut and a conversion that undoes the writer. -/
theorem exact_fixed {α : Type} {bs : Bytes} {n : Nat} {a : α} (of : Bytes → α) (h : bs.length = n)
    (hof : of bs = a) : Exact (put bs) n (takeBytes n >>= fun v => pure (of v)) a := by
  have hx := (exact_takeBytes h).map of
  rwa [hof] at hx

theorem exact_putI8 (v : Int8) : Exact (put (putI8 v)) 1 getI8 v :=
  exact_fixed i8OfBE (length_putI8 v) (i8OfBE_putI8 v)

theorem exact_putI16 (v : Int16) : Exact (put (putI16 v)) 2 getI16 v :=
  exact_fixed i16OfBE (length_putI16 v) (i16OfBE_putI16 v)

theorem exact_putI32 (v : Int32) : Exact (put (putI32 v)) 4 getI32 v :=
  exact_fixed i32OfBE (length_putI32 v) (i32OfBE_putI32 v)

theorem exact_putI64 (v : Int64) : Exact (put (putI64 v)) 8 getI64 v :=
  exact_fixed i64OfBE (length_putI64 v) (i64OfBE_putI64 v)

theorem exact_putU16 (v : UInt16) : Exact (put (putU16 v)) 2 getU16 v :=
  exact_fixed _ (WireInt.length_putBE _ _)
    (by rw [putU16, WireInt.ofNat_ofBE_putBE (by decide), UInt16.ofBitVec_toBitVec])

theorem exact_putF64 (v : UInt64) : Exact (put (putF64 v)) 8 getF64 v :=
  exact_fixed _ (WireInt.length_putBE _ _)
    (by rw [putF64, WireInt.ofNat_ofBE_putBE (by decide), UInt64.ofBitVec_toBitVec])

theorem exact_putUuid (u : Uuid) : Exact (put (putUuid u)) 16 getUuid u :=
  exact_fixed (fun bs => (⟨BitVec.ofNat 128 (WireInt.ofBE bs)⟩ : Uuid)) (length_putUuid u)
    (by rw [putUuid, WireInt.ofNat_ofBE_putBE (by decide)])

theorem exact_putBool (v : Bool) : Exact (put (putBool v)) 1 getBool v := by
  have hone : (putBool v).length = 1 := rfl
  refine Exact.bind_nil (exact_takeBytes hone) ?_
  cases v
  · exact Reads.pure false
  · exact Reads.pure true

/-! ## Strings and byte strings

The writers with their length functions, eight of each. -/

/-- `x` behind the length of `b`, which must fit an `i16`. -/
def putShortLength (len : Nat) (what : String) : Encode :=
  match FixedWidth.i16OfLen len with
  | some n => put (putI16 n)
  | none => fail (.lengthOverflow what len)

def putLongLength (len : Nat) (what : String) : Encode :=
  match FixedWidth.i32OfLen len with
  | some n => put (putI32 n)
  | none => fail (.lengthOverflow what len)

def putString (s : String) : Encode := do
  putShortLength s.utf8ByteSize "STRING"
  put (Text.utf8Bytes s)

def putNullableString : Option String → Encode
  | none => put (putI16 (-1))
  | some s => putString s

def stringLen (s : String) : Nat := 2 + s.utf8ByteSize

def nullableStringLen (s : Option String) : Nat := 2 + (s.map String.utf8ByteSize).getD 0

def putCompactString (s : String) : Encode := do
  putCompactLength s.utf8ByteSize "COMPACT_STRING"
  put (Text.utf8Bytes s)

def putCompactNullableString : Option String → Encode
  | none => put (putUvarint 0)
  | some s => putCompactString s

-- no length reaches the top of `usize`, where the source's additions saturate
def compactStringLen (s : String) : Nat := usizeUvarintLen (s.utf8ByteSize + 1) + s.utf8ByteSize

def compactNullableStringLen (s : Option String) : Nat :=
  (s.map compactStringLen).getD (uvarintLen 0)

def putBytes (b : Bytes) : Encode := do
  putLongLength b.length "BYTES"
  put b

def putNullableBytes : Option Bytes → Encode
  | none => put (putI32 (-1))
  | some b => putBytes b

def bytesLen (b : Bytes) : Nat := 4 + b.length

def nullableBytesLen (b : Option Bytes) : Nat := 4 + (b.map List.length).getD 0

def putCompactBytes (b : Bytes) : Encode := do
  putCompactLength b.length "COMPACT_BYTES"
  put b

def putCompactNullableBytes : Option Bytes → Encode
  | none => put (putUvarint 0)
  | some b => putCompactBytes b

def compactBytesLen (b : Bytes) : Nat := usizeUvarintLen (b.length + 1) + b.length

def compactNullableBytesLen (b : Option Bytes) : Nat := (b.map compactBytesLen).getD (uvarintLen 0)

def getBytesOwned : Decode Bytes := nonNull "non-nullable BYTES was null" getNullableBytesOwned

def getCompactBytesOwned : Decode Bytes :=
  nonNull "non-nullable COMPACT_BYTES was null" getCompactNullableBytesOwned

/-! ### What lies behind a length

A text is its UTF-8 bytes, and the reader checks that they are valid. -/

theorem length_utf8Bytes (s : String) : (Text.utf8Bytes s).length = s.utf8ByteSize := by
  unfold Text.utf8Bytes String.utf8ByteSize String.toUTF8
  rw [Array.length_toList]
  rfl

/-- The UTF-8 of a string of a known length. -/
theorem exact_takeString (s : String) :
    Exact (put (Text.utf8Bytes s)) s.utf8ByteSize (takeString s.utf8ByteSize) s := by
  refine Exact.bind_nil (exact_takeBytes (length_utf8Bytes s)) ?_
  rw [Text.fromUtf8_utf8Bytes]
  exact Reads.pure s

section
variable {α : Type} {x : Encode} {n len : Nat} {a : α} {what text : String}

/-- Where a null is refused, a value is still read. -/
theorem exact_nonNull {d : Decode (Option α)} (h : Exact x n d (some a)) :
    Exact x n (nonNull text d) a := by
  obtain ⟨w, hw, hlen, hreads, hshort⟩ := h
  refine ⟨w, hw, hlen, fun rest => nonNull_eq_ok.mpr (hreads rest), fun p q hpq hq => ?_⟩
  obtain ⟨e, he⟩ := hshort p q hpq hq
  exact ⟨e, bind_of_error he⟩

/-- A compact prefix stands for one more than the length. -/
theorem exact_compact {d : Nat → Decode α} (hfit : len + 1 < 2 ^ 32) (h : Exact x n (d len) a) :
    Exact (putCompactLength len what >>= fun _ => x) (usizeUvarintLen (len + 1) + n) (compact d)
      (some a) := by
  obtain ⟨raw, hput, hne, hsub, hlen⟩ := putCompactLength_of_fits what hfit
  rw [hput, ← hlen]
  refine (exact_putUvarint raw).bind ?_
  rw [if_neg hne, hsub]
  exact h.map some

/-- A compact prefix of zero stands for null. -/
theorem exact_compact_none {d : Nat → Decode α} :
    Exact (put (putUvarint 0)) (uvarintLen 0) (compact d) none :=
  Exact.bind_nil (exact_putUvarint 0) (Reads.pure none)

/-- Behind a fixed-width signed length, where a negative number is null. -/
theorem exact_signed {β : Type} {dn : Decode β} {k : Nat} {bs : Bytes} {v : β} {usize : β → Option Nat}
    {d : Nat → Decode α} (hn : Exact (put bs) k dn v) (hv : usize v = some len)
    (h : Exact x n (d len) a) :
    Exact (put bs >>= fun _ => x) (k + n)
      (dn >>= fun v => match usize v with
        | none => pure none
        | some m => some <$> d m) (some a) := by
  refine hn.bind ?_
  rw [hv]
  exact h.map some

end

/-- A length below 2^15 has a 16-bit prefix that is read back. -/
theorem putShortLength_of_fits {len : Nat} (what : String) (h : len < 2 ^ 15) :
    ∃ v : Int16, putShortLength len what = put (putI16 v) ∧ FixedWidth.usizeOfI16 v = some len := by
  refine ⟨Int16.ofNat len, ?_, ?_⟩
  · unfold putShortLength FixedWidth.i16OfLen
    rw [if_pos h]
  · have hint : (Int16.ofNat len).toInt = len := Int16.toInt_ofNat_of_lt h
    unfold FixedWidth.usizeOfI16
    rw [hint, if_pos (Int.natCast_nonneg len), Int.toNat_natCast]

/-- A length below 2^31 has a 32-bit prefix that is read back. -/
theorem putLongLength_of_fits {len : Nat} (what : String) (h : len < 2 ^ 31) :
    ∃ v : Int32, putLongLength len what = put (putI32 v) ∧ FixedWidth.usizeOfI32 v = some len := by
  refine ⟨Int32.ofNat len, ?_, ?_⟩
  · unfold putLongLength FixedWidth.i32OfLen
    rw [if_pos h]
  · exact FixedWidth.usizeOfI32_eq_some.mpr (Int32.toInt_ofNat_of_lt h)

/-! ### The string and byte-string codecs

A prefix and what lies behind it, put together. -/

/-- A nullable string behind a varint. -/
theorem exact_putCompactNullableString {s : Option String}
    (h : ∀ t ∈ s, t.utf8ByteSize + 1 < 2 ^ 32) :
    Exact (putCompactNullableString s) (compactNullableStringLen s) getCompactNullableStringOwned s := by
  cases s with
  | none => exact exact_compact_none
  | some s => exact exact_compact (h s rfl) (exact_takeString s)

theorem exact_putCompactString {s : String} (h : s.utf8ByteSize + 1 < 2 ^ 32) :
    Exact (putCompactString s) (compactStringLen s) getCompactStringOwned s :=
  exact_nonNull (exact_putCompactNullableString (s := some s) (fun t ht => by cases ht; exact h))

/-- A nullable string behind 16 bits, where -1 is null. -/
theorem exact_putNullableString {s : Option String} (h : ∀ t ∈ s, t.utf8ByteSize < 2 ^ 15) :
    Exact (putNullableString s) (nullableStringLen s) getNullableStringOwned s := by
  cases s with
  | none => exact Exact.bind_nil (exact_putI16 (-1)) (Reads.pure none)
  | some s =>
      obtain ⟨v, hput, hv⟩ := putShortLength_of_fits "STRING" (h s rfl)
      show Exact (putString s) _ _ _
      unfold putString
      rw [hput]
      exact exact_signed (exact_putI16 v) hv (exact_takeString s)

theorem exact_putString {s : String} (h : s.utf8ByteSize < 2 ^ 15) :
    Exact (putString s) (stringLen s) getStringOwned s :=
  exact_nonNull (exact_putNullableString (s := some s) (fun t ht => by cases ht; exact h))

/-- Nullable bytes behind a varint. -/
theorem exact_putCompactNullableBytes {b : Option Bytes} (h : ∀ c ∈ b, c.length + 1 < 2 ^ 32) :
    Exact (putCompactNullableBytes b) (compactNullableBytesLen b) getCompactNullableBytesOwned b := by
  cases b with
  | none => exact exact_compact_none
  | some b => exact exact_compact (h b rfl) (exact_takeBytes rfl)

theorem exact_putCompactBytes {b : Bytes} (h : b.length + 1 < 2 ^ 32) :
    Exact (putCompactBytes b) (compactBytesLen b) getCompactBytesOwned b :=
  exact_nonNull (exact_putCompactNullableBytes (b := some b) (fun c hc => by cases hc; exact h))

/-- Nullable bytes behind 32 bits, where -1 is null. -/
theorem exact_putNullableBytes {b : Option Bytes} (h : ∀ c ∈ b, c.length < 2 ^ 31) :
    Exact (putNullableBytes b) (nullableBytesLen b) getNullableBytesOwned b := by
  cases b with
  | none => exact Exact.bind_nil (exact_putI32 (-1)) (Reads.pure none)
  | some b =>
      obtain ⟨v, hput, hv⟩ := putLongLength_of_fits "BYTES" (h b rfl)
      show Exact (putBytes b) _ _ _
      unfold putBytes
      rw [hput]
      exact exact_signed (exact_putI32 v) hv (exact_takeBytes rfl)

theorem exact_putBytes {b : Bytes} (h : b.length < 2 ^ 31) :
    Exact (putBytes b) (bytesLen b) getBytesOwned b :=
  exact_nonNull (exact_putNullableBytes (b := some b) (fun c hc => by cases hc; exact h))

/-! ## Arrays

An element that fails to encode fails the array. The reader refuses a count that the rest of the input cannot
hold. -/

def arrayLenPrefixLen (n : Nat) (flexible : Bool) : Nat :=
  if flexible then usizeUvarintLen (n + 1) else 4

def nullableArrayLenPrefixLen (len : Option Nat) (flexible : Bool) : Nat :=
  match flexible, len with
  | false, _ => 4
  | true, none => uvarintLen 0
  | true, some n => usizeUvarintLen (n + 1)

/-- An array whose elements may fail to encode. -/
def encodeArray {α : Type} (flexible : Bool) (f : α → Encode) (as : List α) : Encode := do
  putArrayLen as.length flexible
  each f as

def arrayLen {α : Type} (flexible : Bool) (len : α → Nat) (as : List α) : Nat :=
  arrayLenPrefixLen as.length flexible + (as.map len).sum

def encodeNullableArray {α : Type} (flexible : Bool) (f : α → Encode) (as : Option (List α)) : Encode := do
  putNullableArrayLen (as.map List.length) flexible
  each f (as.getD [])

def nullableArrayLen {α : Type} (flexible : Bool) (len : α → Nat) (as : Option (List α)) : Nat :=
  nullableArrayLenPrefixLen (as.map List.length) flexible + ((as.getD []).map len).sum

/-- The count of a nullable array, in either form. -/
theorem exact_putNullableArrayLen {flexible : Bool} {len : Option Nat}
    (h : ∀ n ∈ len, LenFits flexible (2 ^ 31) n) :
    Exact (putNullableArrayLen len flexible) (nullableArrayLenPrefixLen len flexible)
      (nullableArrayLenPrefix flexible) len := by
  cases flexible with
  | true =>
      cases len with
      | none => exact Exact.bind_nil (exact_putUvarint 0) (Reads.pure none)
      | some n =>
          have hn : n + 1 < 2 ^ 32 := h n rfl
          obtain ⟨raw, hput, hne, hsub, hlen⟩ := putCompactLength_of_fits "array" hn
          show Exact (putCompactLength n "array") (usizeUvarintLen (n + 1)) _ _
          rw [hput, ← hlen]
          refine Exact.bind_nil (exact_putUvarint raw) ?_
          rw [if_neg hne, hsub]
          exact Reads.pure (some n)
  | false =>
      cases len with
      | none => exact Exact.bind_nil (exact_putI32 (-1)) (Reads.pure none)
      | some n =>
          have hn : n < 2 ^ 31 := h n rfl
          obtain ⟨v, hput, hv⟩ := putLongLength_of_fits "array" hn
          have hsame : putInt32Length n = putLongLength n "array" := rfl
          show Exact (putInt32Length n) 4 _ _
          rw [hsame, hput]
          refine Exact.bind_nil (exact_putI32 v) ?_
          rw [hv]
          exact Reads.pure (some n)

/-- The count of an array, in either form. -/
theorem exact_putArrayLen {flexible : Bool} {n : Nat} (h : LenFits flexible (2 ^ 31) n) :
    Exact (putArrayLen n flexible) (arrayLenPrefixLen n flexible) (arrayLenPrefix flexible) n := by
  cases flexible with
  | true =>
      have hn : n + 1 < 2 ^ 32 := h
      obtain ⟨raw, hput, hne, hsub, hlen⟩ := putCompactLength_of_fits "array" hn
      show Exact (putCompactLength n "array") (usizeUvarintLen (n + 1)) _ _
      rw [hput, ← hlen]
      refine Exact.bind_nil (exact_putUvarint raw) ?_
      rw [if_neg hne, hsub]
      exact Reads.pure n
  | false =>
      have hn : n < 2 ^ 31 := h
      obtain ⟨v, hput, hv⟩ := putLongLength_of_fits "array" hn
      have hsame : putInt32Length n = putLongLength n "array" := rfl
      show Exact (putInt32Length n) 4 _ _
      rw [hsame, hput]
      refine Exact.bind_nil (exact_putI32 v) ?_
      rw [hv]
      exact Reads.pure n

/-- The reader of an array refuses a count that is larger than the bytes left. -/
theorem getArray_eq {α : Type} (flexible : Bool) (d : Decode α) :
    getArray flexible d = arrayLenPrefix flexible >>= fun n => remaining >>= fun left =>
      if n > left then throw (.invalidValue "array length exceeds remaining buffer")
      else times (fun _ => d) n 0 := by
  unfold getArray getArrayLen
  rw [bind_assoc]
  refine bind_congr (fun n => ?_)
  rw [bind_assoc]
  refine bind_congr (fun left => ?_)
  split <;> rfl

theorem getNullableArray_eq {α : Type} (flexible : Bool) (d : Decode α) :
    getNullableArray flexible d = nullableArrayLenPrefix flexible >>= fun n =>
      match n with
      | none => pure none
      | some n => remaining >>= fun left =>
          if n > left then throw (.invalidValue "array length exceeds remaining buffer")
          else times (fun _ => d) n 0 >>= fun as => pure (some as) := by
  unfold getNullableArray getNullableArrayLen
  rw [bind_assoc]
  refine bind_congr (fun n => ?_)
  cases n with
  | none => rfl
  | some n =>
      rw [bind_assoc]
      refine bind_congr (fun left => ?_)
      split <;> rfl

section
variable {α γ : Type} {flexible : Bool} {f : γ → Encode} {len : γ → Nat} {d : Decode α} {g : γ → α}

/-- Elements of at least one byte are no more than their bytes. -/
theorem length_le_sum_map {cs : List γ} (h : ∀ c ∈ cs, 1 ≤ len c) : cs.length ≤ (cs.map len).sum := by
  induction cs with
  | nil => exact Nat.le_refl 0
  | cons c cs ih =>
      have hc := h c List.mem_cons_self
      have hcs := ih (fun c' hc' => h c' (List.mem_cons_of_mem c hc'))
      rw [List.map_cons, List.sum_cons, List.length_cons]
      omega

/-- **Arrays.** Elements that are exact and take a byte each make an exact array. -/
theorem exact_encodeArray {cs : List γ} (hfit : LenFits flexible (2 ^ 31) cs.length)
    (helem : ∀ c ∈ cs, Exact (f c) (len c) d (g c)) (hlen : ∀ c ∈ cs, 1 ≤ len c) :
    Exact (encodeArray flexible f cs) (arrayLen flexible len cs) (getArray flexible d) (cs.map g) := by
  have hbody : Exact (each f cs) (cs.map len).sum (times (fun _ => d) cs.length 0) (cs.map g) :=
    Exact.each (fun c hc _ => helem c hc) 0
  rw [getArray_eq]
  exact (exact_putArrayLen hfit).bind (hbody.checked (length_le_sum_map hlen))

/-- **Arrays.** Elements that take a byte each are read back, and a null array as null. -/
theorem exact_encodeNullableArray {cs : Option (List γ)}
    (hfit : ∀ l ∈ cs, LenFits flexible (2 ^ 31) l.length)
    (helem : ∀ l ∈ cs, ∀ c ∈ l, Exact (f c) (len c) d (g c)) (hlen : ∀ l ∈ cs, ∀ c ∈ l, 1 ≤ len c) :
    Exact (encodeNullableArray flexible f cs) (nullableArrayLen flexible len cs)
      (getNullableArray flexible d) (cs.map (List.map g)) := by
  rw [getNullableArray_eq]
  cases cs with
  | none =>
      have hlength : Exact (putNullableArrayLen none flexible) (nullableArrayLenPrefixLen none flexible)
          (nullableArrayLenPrefix flexible) none := exact_putNullableArrayLen (by simp)
      exact hlength.bind (Exact.pure none)
  | some l =>
      have hlength : Exact (putNullableArrayLen (some l.length) flexible)
          (nullableArrayLenPrefixLen (some l.length) flexible) (nullableArrayLenPrefix flexible)
          (some l.length) := by
        refine exact_putNullableArrayLen (fun n hn => ?_)
        cases hn
        exact hfit l rfl
      have hbody : Exact (each f l) (l.map len).sum (times (fun _ => d) l.length 0) (l.map g) :=
        Exact.each (fun c hc _ => helem l rfl c hc) 0
      exact hlength.bind ((hbody.map some).checked (length_le_sum_map (hlen l rfl)))

end

end Krabka.Protocol
