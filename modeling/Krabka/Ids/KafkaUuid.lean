import Krabka.Lib.Base64Url
import Krabka.Lib.Results

/-!
# `Ids.KafkaUuid` — Kafka's 128-bit identifiers as text

`kafka_uuid.rs`: an id is printed as unpadded base64url and is parsed as the JDK decodes it, with the JDK's
errors. The base64 crate that prints an id is the parameter `urlSafeNoPad`. The decoder gathers six bits a
character into `bits`, from bit 18 down, and flushes three bytes when a group of four is full.

## Contents
- **Model.** `javaUrlDecode`, `KafkaUuid.fromStr` and `KafkaUuid.display`.
- **The decoder.** What it has read after a run of characters, and which inputs it accepts.
- **Texts of ids.** Which texts are parsed, to which id, and what is printed for it.
-/

namespace Krabka.Ids

open ByteStream

def maxEncodedLen : Nat := 24

def uuidLen : Nat := 16

/-- The sixteen bytes of a UUID. -/
structure KafkaUuid where
  bytes : Bytes
  length_bytes : bytes.length = uuidLen
deriving DecidableEq

inductive KafkaUuidError where
  | tooLong (head : List Char)
  | wrongLength (input : List Char) (decodedLen : Nat)
  | tooShort
  | illegalCharacter (byte : UInt8)
  | wrongEndingUnit
  | lastUnitTooShort
  | incorrectEndingByte (position : Nat)
deriving DecidableEq, Repr

/-! ## Java's strings

Lengths and prefixes count UTF-16 units, and a character above Latin-1 becomes a question mark. -/

/-- `c.len_utf16()`. -/
def utf16Len (c : Char) : Nat := if c.toNat < 0x10000 then 1 else 2

/-- The first `max` UTF-16 code units; half of a surrogate pair is printed as `?`. -/
def javaPrefix (max : Nat) : List Char → Nat → List Char
  | [], _ => []
  | c :: rest, units =>
      if units + utf16Len c > max then (if units < max then ['?'] else [])
      else c :: javaPrefix max rest (units + utf16Len c)

/-- One byte a character, and `?` for a character above U+00FF. -/
def latin1Byte (c : Char) : UInt8 := if c.toNat ≤ 0xFF then UInt8.ofNat c.toNat else 0x3F

def latin1Bytes (input : List Char) : Bytes := input.map latin1Byte

/-! ## The decoder

The loop of the JDK, with its state between the groups of four. -/

def urlValue (byte : UInt8) : Option Nat :=
  if 0x41 ≤ byte ∧ byte ≤ 0x5A then some (byte - 0x41).toNat
  else if 0x61 ≤ byte ∧ byte ≤ 0x7A then some (byte - 0x61 + 26).toNat
  else if 0x30 ≤ byte ∧ byte ≤ 0x39 then some (byte - 0x30 + 52).toNat
  else if byte = 0x2D then some 62
  else if byte = 0x5F then some 63
  else none

/-- The variables of `java_url_decode`. No more than 24 bits of `bits` are ever set. -/
structure DecodeState where
  dst : Bytes := []
  bits : Nat := 0
  shiftTo : Int := 18
  sp : Nat := 0
deriving DecidableEq, Repr

def DecodeState.advance (s : DecodeState) : DecodeState := { s with sp := s.sp + 1 }

/-- `bits.to_be_bytes()`. -/
def toBeBytes (bits : Nat) : Bytes := WireInt.putBE 4 bits

/-- Six more bits. -/
def DecodeState.add (s : DecodeState) (value : Nat) : DecodeState :=
  let bits := s.bits ||| value <<< s.shiftTo.toNat
  let shiftTo := s.shiftTo - 6
  if shiftTo < 0 then
    { s with
      dst := s.dst ++ (toBeBytes bits).drop 1
      bits := 0
      shiftTo := 18 }
  else { s with bits := bits, shiftTo := shiftTo }

/-- The loop, from the bytes that `sp` has not passed. -/
def decodeUnits : Bytes → DecodeState → Except KafkaUuidError DecodeState
  | [], s => .ok s
  | byte :: rest, s =>
      match urlValue byte with
      | some value => decodeUnits rest (s.advance.add value)
      | none =>
          if byte ≠ 0x3D then .error (.illegalCharacter byte)
          else if s.shiftTo = 6 then
            match rest with
            | [] => .error .wrongEndingUnit
            | next :: _ =>
                if next ≠ 0x3D then .error .wrongEndingUnit else .ok s.advance.advance
          else if s.shiftTo = 18 then .error .wrongEndingUnit
          else .ok s.advance

/-- The bytes of the last unit. -/
def DecodeState.lastUnit (s : DecodeState) : Except KafkaUuidError Bytes :=
  if s.shiftTo = 6 then .ok (s.dst ++ ((toBeBytes s.bits).drop 1).take 1)
  else if s.shiftTo = 0 then .ok (s.dst ++ ((toBeBytes s.bits).drop 1).take 2)
  else if s.shiftTo = 12 then .error .lastUnitTooShort
  else .ok s.dst

def javaUrlDecode (src : Bytes) : Except KafkaUuidError Bytes :=
  if src.length = 1 then .error .tooShort
  else do
    let s ← decodeUnits src {}
    let dst ← s.lastUnit
    if s.sp < src.length then .error (.incorrectEndingByte s.sp) else .ok dst

/-! ## Ids

An id is two halves of 64 bits. -/

def KafkaUuid.fromStr (input : List Char) : Except KafkaUuidError KafkaUuid :=
  if (input.map utf16Len).sum > maxEncodedLen then .error (.tooLong (javaPrefix maxEncodedLen input 0))
  else do
    let decoded ← javaUrlDecode (latin1Bytes input)
    if h : decoded.length = uuidLen then .ok ⟨decoded, h⟩
    else .error (.wrongLength input decoded.length)

def KafkaUuid.display (urlSafeNoPad : Bytes → List Char) (id : KafkaUuid) : List Char :=
  urlSafeNoPad id.bytes

/-! ## What the decoder has read

The bits that are gathered are those of the characters so far, and the bytes that are flushed are those of the
full groups. -/

open Base64Url (alphabet sextet symbol number)

/-- Six bits below the bits that are there. -/
theorem or_shiftLeft {m v k : Nat} (hv : v < 64) : m <<< (k + 6) ||| v <<< k = (m * 64 + v) <<< k := by
  rw [Nat.add_comm k 6, Nat.shiftLeft_add, ← Nat.shiftLeft_or_distrib,
    ← Nat.shiftLeft_add_eq_or_of_lt (i := 6) hv, Nat.shiftLeft_eq m 6]

theorem ofNat_congr {a b : Nat} (h : a % 256 = b % 256) : UInt8.ofNat a = UInt8.ofNat b := by
  rw [← UInt8.toNat_inj, UInt8.toNat_ofNat', UInt8.toNat_ofNat']
  exact h

/-- The low three bytes of a word of four groups. -/
theorem drop_toBeBytes {x y z w : Nat} (hz : z < 64) (hw : w < 64) :
    (toBeBytes (((x * 64 + y) * 64 + z) * 64 + w)).drop 1 = Base64.group x y z w := by
  have hfirst : UInt8.ofNat ((((x * 64 + y) * 64 + z) * 64 + w) / 256 / 256) =
      UInt8.ofNat (x * 4 + y / 16) := ofNat_congr (by omega)
  have hsecond : UInt8.ofNat ((((x * 64 + y) * 64 + z) * 64 + w) / 256) =
      UInt8.ofNat (y % 16 * 16 + z / 4) := ofNat_congr (by omega)
  have hthird : UInt8.ofNat (((x * 64 + y) * 64 + z) * 64 + w) = UInt8.ofNat (z % 4 * 64 + w) :=
    ofNat_congr (by omega)
  show [UInt8.ofNat ((((x * 64 + y) * 64 + z) * 64 + w) / 256 / 256),
    UInt8.ofNat ((((x * 64 + y) * 64 + z) * 64 + w) / 256),
    UInt8.ofNat (((x * 64 + y) * 64 + z) * 64 + w)] = _
  rw [hfirst, hsecond, hthird]
  rfl

/-- The bits of the characters of one unit. -/
theorem unitBits {x y z w : Nat} (hy : y < 64) (hz : z < 64) (hw : w < 64) :
    0 ||| x <<< 18 ||| y <<< 12 = ((x * 64 + y) * 64 + 0) * 64 + 0 ∧
      0 ||| x <<< 18 ||| y <<< 12 ||| z <<< 6 = ((x * 64 + y) * 64 + z) * 64 + 0 ∧
      0 ||| x <<< 18 ||| y <<< 12 ||| z <<< 6 ||| w <<< 0 = ((x * 64 + y) * 64 + z) * 64 + w := by
  have hone : 0 ||| x <<< 18 = x <<< 18 := Nat.zero_or _
  have htwo : x <<< 18 ||| y <<< 12 = (x * 64 + y) <<< 12 := or_shiftLeft hy
  have hthree : (x * 64 + y) <<< 12 ||| z <<< 6 = ((x * 64 + y) * 64 + z) <<< 6 := or_shiftLeft hz
  have hfour : ((x * 64 + y) * 64 + z) <<< 6 ||| w <<< 0 = (((x * 64 + y) * 64 + z) * 64 + w) <<< 0 :=
    or_shiftLeft hw
  rw [hone, htwo, hthree, hfour, Nat.shiftLeft_eq, Nat.shiftLeft_eq, Nat.shiftLeft_zero]
  exact ⟨by omega, by omega, rfl⟩

/-- One more character. -/
def DecodeState.read (s : DecodeState) (value : Nat) : DecodeState := s.advance.add value

/-- Four characters are read as three bytes. -/
theorem foldl_read_four (dst : Bytes) (sp : Nat) {x y z w : Nat} (hy : y < 64) (hz : z < 64)
    (hw : w < 64) :
    [x, y, z, w].foldl DecodeState.read ⟨dst, 0, 18, sp⟩ =
      ⟨dst ++ Base64.group x y z w, 0, 18, sp + 4⟩ := by
  have hbits := (unitBits (x := x) hy hz hw).2.2
  show (⟨dst ++ (toBeBytes (0 ||| x <<< 18 ||| y <<< 12 ||| z <<< 6 ||| w <<< 0)).drop 1, 0, 18, sp + 4⟩ :
    DecodeState) = _
  rw [hbits, drop_toBeBytes hz hw]

/-- What a run of characters comes to: a unit that has one character only is refused. -/
theorem foldl_read (vs : List Nat) (hlt : ∀ v ∈ vs, v < 64) (dst : Bytes) (sp : Nat) :
    (vs.foldl DecodeState.read ⟨dst, 0, 18, sp⟩).sp = sp + vs.length ∧
      (vs.foldl DecodeState.read ⟨dst, 0, 18, sp⟩).shiftTo = 18 - 6 * (vs.length % 4 : Nat) ∧
      (vs.foldl DecodeState.read ⟨dst, 0, 18, sp⟩).lastUnit =
        if vs.length % 4 = 1 then .error .lastUnitTooShort else .ok (dst ++ Base64Url.bytesOf vs) := by
  induction vs using Base64Url.bytesOf.induct generalizing dst sp with
  | case1 x y z w rest ih =>
      simp only [List.forall_mem_cons] at hlt
      obtain ⟨hx, hy, hz, hw, hrest⟩ := hlt
      have hfour := foldl_read_four (x := x) dst sp hy hz hw
      simp only [List.foldl_cons, List.foldl_nil] at hfour
      obtain ⟨hsp, hshift, hlast⟩ := ih hrest (dst ++ Base64.group x y z w) (sp + 4)
      have hmod : (x :: y :: z :: w :: rest).length % 4 = rest.length % 4 := by
        simp only [List.length_cons]
        omega
      simp only [List.foldl_cons, hfour, hmod]
      refine ⟨?_, hshift, ?_⟩
      · rw [hsp]
        simp only [List.length_cons]
        omega
      · rw [hlast, Base64Url.bytesOf, List.append_assoc]
  | case2 x y z =>
      simp only [List.forall_mem_cons] at hlt
      obtain ⟨hx, hy, hz, -⟩ := hlt
      have hbits := (unitBits (x := x) hy hz hz).2.1
      refine ⟨rfl, rfl, ?_⟩
      show Except.ok (dst ++ ((toBeBytes (0 ||| x <<< 18 ||| y <<< 12 ||| z <<< 6)).drop 1).take 2) = _
      rw [hbits, drop_toBeBytes hz (by decide)]
      rfl
  | case3 x y =>
      simp only [List.forall_mem_cons] at hlt
      obtain ⟨hx, hy, -⟩ := hlt
      have hbits := (unitBits (x := x) hy hy hy).1
      refine ⟨rfl, rfl, ?_⟩
      show Except.ok (dst ++ ((toBeBytes (0 ||| x <<< 18 ||| y <<< 12)).drop 1).take 1) = _
      rw [hbits, drop_toBeBytes (by decide) (by decide)]
      rfl
  | case4 vs hfour hthree htwo =>
      rcases vs with _ | ⟨x, _ | ⟨y, _ | ⟨z, _ | ⟨w, rest⟩⟩⟩⟩
      · exact ⟨rfl, rfl, congrArg Except.ok (List.append_nil dst).symm⟩
      · exact ⟨rfl, rfl, rfl⟩
      · exact absurd rfl (htwo x y)
      · exact absurd rfl (hthree x y z)
      · exact absurd rfl (hfour x y z w rest)

/-- The loop reads the characters in front. -/
theorem decodeUnits_append {us : Bytes} (hus : ∀ b ∈ us, (urlValue b).isSome) (rest : Bytes)
    (s : DecodeState) :
    decodeUnits (us ++ rest) s = decodeUnits rest ((us.filterMap urlValue).foldl DecodeState.read s) := by
  induction us generalizing s with
  | nil => rfl
  | cons b us ih =>
      obtain ⟨v, hv⟩ := Option.isSome_iff_exists.mp (hus b List.mem_cons_self)
      rw [List.cons_append, decodeUnits.eq_def, List.filterMap_cons_some hv, List.foldl_cons]
      simp only [hv]
      exact ih (fun c hc => hus c (List.mem_cons_of_mem b hc)) _

/-- A character is worth six bits. -/
theorem urlValue_lt : ∀ (b : UInt8), ∀ v ∈ urlValue b, v < 64 := by decide +kernel

/-- So is each of them. -/
theorem filterMap_urlValue_lt (us : Bytes) : ∀ v ∈ us.filterMap urlValue, v < 64 := by
  intro v hv
  obtain ⟨b, -, hb⟩ := List.mem_filterMap.mp hv
  exact urlValue_lt b v hb

/-- No character is dropped. -/
theorem length_filterMap_urlValue {us : Bytes} (hus : ∀ b ∈ us, (urlValue b).isSome) :
    (us.filterMap urlValue).length = us.length := by
  induction us with
  | nil => rfl
  | cons b us ih =>
      obtain ⟨v, hv⟩ := Option.isSome_iff_exists.mp (hus b List.mem_cons_self)
      rw [List.filterMap_cons_some hv, List.length_cons, List.length_cons,
        ih fun c hc => hus c (List.mem_cons_of_mem b hc)]

/-- Twenty-two characters are read to sixteen bytes, with or without their padding. -/
theorem javaUrlDecode_of_url {us : Bytes} (hus : ∀ b ∈ us, (urlValue b).isSome) (hlen : us.length = 22)
    {pad : Bytes} (hpad : pad = [] ∨ pad = [0x3D, 0x3D]) :
    javaUrlDecode (us ++ pad) = .ok (Base64Url.bytesOf (us.filterMap urlValue)) := by
  obtain ⟨hsp, hshift, hlast⟩ := foldl_read (us.filterMap urlValue) (filterMap_urlValue_lt us) [] 0
  rw [length_filterMap_urlValue hus, hlen] at hsp hshift hlast
  have hread := decodeUnits_append hus pad {}
  unfold javaUrlDecode
  rw [if_neg (by rw [List.length_append, hlen]; omega), hread]
  rcases hpad with rfl | rfl
  · show (do
      let dst ← ((us.filterMap urlValue).foldl DecodeState.read {}).lastUnit
      if ((us.filterMap urlValue).foldl DecodeState.read {}).sp < (us ++ []).length then
        Except.error (KafkaUuidError.incorrectEndingByte _)
      else Except.ok dst) = _
    rw [hlast, hsp, List.append_nil, hlen]
    rfl
  · generalize (us.filterMap urlValue).foldl DecodeState.read {} = s at *
    have hpadded : decodeUnits [0x3D, 0x3D] s = .ok s.advance.advance := by
      rw [decodeUnits.eq_def]
      simp [show urlValue 0x3D = none from rfl, hshift]
    rw [hpadded]
    show (do
      let dst ← s.lastUnit
      if s.sp + 1 + 1 < (us ++ [0x3D, 0x3D]).length then
        Except.error (KafkaUuidError.incorrectEndingByte _)
      else Except.ok dst) = _
    rw [hlast, hsp, List.length_append, hlen]
    rfl

/-- At a byte without a value the loop ends with the padding: one byte of it, or two behind two characters. -/
theorem decodeUnits_stop {b : UInt8} {rest : Bytes} {s t : DecodeState} (hb : urlValue b = none)
    (h : decodeUnits (b :: rest) s = .ok t) :
    b = 0x3D ∧ ((s.shiftTo = 6 ∧ t = s.advance.advance ∧ ∃ left, rest = 0x3D :: left) ∨
      (s.shiftTo ≠ 6 ∧ t = s.advance)) := by
  rw [decodeUnits.eq_def] at h
  simp only [hb] at h
  split at h
  · cases h
  rename_i hpad
  refine ⟨not_not.mp hpad, ?_⟩
  split at h
  · rename_i hsix
    cases rest with
    | nil => cases h
    | cons next left =>
        simp only at h
        split at h
        · cases h
        · rename_i hnext
          cases h
          exact .inl ⟨hsix, rfl, left, by rw [not_not.mp hnext]⟩
  · rename_i hsix
    split at h
    · cases h
    · cases h
      exact .inr ⟨hsix, rfl⟩

/-- A run of characters and what stands behind it. -/
theorem exists_url_run (src : Bytes) :
    ∃ us pad, src = us ++ pad ∧ (∀ b ∈ us, (urlValue b).isSome) ∧ ∀ b ∈ pad.head?, urlValue b = none := by
  refine ⟨src.takeWhile fun b => (urlValue b).isSome, src.dropWhile fun b => (urlValue b).isSome,
    List.takeWhile_append_dropWhile.symm, fun b hb => ?_, fun b hb => ?_⟩
  · exact List.mem_takeWhile_imp (p := fun b => (urlValue b).isSome) hb
  · have hstop := List.head?_dropWhile_not (fun b => (urlValue b).isSome) src
    rw [Option.mem_def.mp hb] at hstop
    simpa using hstop

/-- **No other bytes are read to sixteen.** -/
theorem javaUrlDecode_eq_ok {src bytes : Bytes} (h : javaUrlDecode src = .ok bytes)
    (hlen : bytes.length = uuidLen) :
    ∃ us pad, src = us ++ pad ∧ us.length = 22 ∧ (∀ b ∈ us, (urlValue b).isSome) ∧
      (pad = [] ∨ pad = [0x3D, 0x3D]) ∧ bytes = Base64Url.bytesOf (us.filterMap urlValue) := by
  obtain ⟨us, pad, hsrc, hus, hstop⟩ := exists_url_run src
  obtain ⟨hsp, hshift, hlast⟩ := foldl_read (us.filterMap urlValue) (filterMap_urlValue_lt us) [] 0
  rw [length_filterMap_urlValue hus] at hsp hshift hlast
  unfold javaUrlDecode at h
  split at h
  · cases h
  obtain ⟨s', hloop, h⟩ := Results.bind_eq_ok.mp h
  obtain ⟨dst, hdst, h⟩ := Results.bind_eq_ok.mp h
  split at h
  · cases h
  rename_i hend
  cases h
  rw [hsrc, decodeUnits_append hus pad {}] at hloop
  change decodeUnits pad ((us.filterMap urlValue).foldl DecodeState.read ⟨[], 0, 18, 0⟩) = _ at hloop
  generalize (us.filterMap urlValue).foldl DecodeState.read ⟨[], 0, 18, 0⟩ = s at *
  -- the bytes are those of the characters, of which there are twenty-two
  have hresult : s.lastUnit = .ok bytes → us.length = 22 ∧
      bytes = Base64Url.bytesOf (us.filterMap urlValue) := by
    intro hunit
    rw [hlast] at hunit
    split at hunit
    · cases hunit
    · cases hunit
      rw [List.nil_append, Base64Url.length_bytesOf, length_filterMap_urlValue hus, uuidLen] at hlen
      exact ⟨by omega, rfl⟩
  cases pad with
  | nil =>
      cases hloop
      obtain ⟨hcount, hbytes⟩ := hresult hdst
      exact ⟨us, [], hsrc, hcount, hus, Or.inl rfl, hbytes⟩
  | cons b rest =>
      obtain ⟨rfl, ⟨-, rfl, left, rfl⟩ | ⟨hsix, rfl⟩⟩ := decodeUnits_stop (hstop b rfl) hloop
      · obtain ⟨hcount, hbytes⟩ := hresult hdst
        have hleft : left = [] := by
          have hsp' : s.advance.advance.sp = s.sp + 2 := rfl
          rw [hsp', hsp, hsrc] at hend
          simp only [List.length_append, List.length_cons] at hend
          exact List.length_eq_zero_iff.mp (by omega)
        exact ⟨us, [0x3D, 0x3D], hleft ▸ hsrc, hcount, hus, Or.inr rfl, hbytes⟩
      · -- one padding byte ends a unit of three characters, which is not the last of sixteen bytes
        obtain ⟨hcount, -⟩ := hresult hdst
        rw [hcount] at hshift
        exact absurd hshift hsix

/-! ## Texts of ids

A text stands for an id if its characters are in the alphabet and it decodes to sixteen bytes. The last
character has two bits, or four, that decode to nothing. -/

/-- The alphabet is ASCII. -/
theorem ascii_of_alphabet : ∀ c ∈ '=' :: alphabet, c.toNat < 0x80 := by
  have hall : (('=' :: alphabet).all fun c => c.toNat < 0x80) = true := by decide
  simpa using hall

/-- The alphabet is read as its own values. -/
theorem urlValue_of_alphabet : ∀ c ∈ alphabet, urlValue (latin1Byte c) = some (sextet c) := by
  have hall : (alphabet.all fun c => urlValue (latin1Byte c) = some (sextet c)) = true := by
    decide +kernel
  intro c hc
  simpa using List.all_eq_true.mp hall c hc

/-- What has a value is in the alphabet. -/
theorem symbol_of_urlValue : ∀ (b : UInt8), ∀ v ∈ urlValue b, Char.ofNat b.toNat = symbol v := by
  decide +kernel

/-- **The byte of a character has a value exactly when the character is in the alphabet.** -/
theorem urlValue_latin1Byte (c : Char) :
    urlValue (latin1Byte c) = if c ∈ alphabet then some (sextet c) else none := by
  by_cases hmem : c ∈ alphabet
  · rw [if_pos hmem]
    exact urlValue_of_alphabet c hmem
  · rw [if_neg hmem, Option.eq_none_iff_forall_ne_some]
    intro v hv
    apply hmem
    unfold latin1Byte at hv
    split at hv
    · -- the character is the one that the value stands for
      have hsymbol := symbol_of_urlValue _ v hv
      rw [UInt8.toNat_ofNat_of_lt' (show c.toNat < 256 by omega), Char.ofNat_toNat] at hsymbol
      rw [hsymbol]
      exact Base64Url.symbol_mem (urlValue_lt _ v hv)
    · cases hv

/-- Only the equals sign is read as padding. -/
theorem latin1Byte_eq_pad {c : Char} (h : latin1Byte c = 0x3D) : c = '=' := by
  unfold latin1Byte at h
  split at h
  · rename_i hc
    have hnat : c.toNat = 0x3D := by
      have := congrArg UInt8.toNat h
      rwa [UInt8.toNat_ofNat_of_lt' (show c.toNat < 256 by omega)] at this
    exact Char.toNat_inj.mp hnat
  · cases h

theorem sum_utf16Len {cs : List Char} (h : ∀ c ∈ cs, c.toNat < 0x80) :
    (cs.map utf16Len).sum = cs.length := by
  induction cs with
  | nil => rfl
  | cons c cs ih =>
      have hc : utf16Len c = 1 := if_pos (Nat.lt_trans (h c List.mem_cons_self) (by decide))
      rw [List.map_cons, List.sum_cons, hc, ih fun d hd => h d (List.mem_cons_of_mem c hd), List.length_cons,
        Nat.add_comm]

/-- Text over the alphabet is read as its values. -/
theorem filterMap_latin1Bytes {cs : List Char} (h : ∀ c ∈ cs, c ∈ alphabet) :
    (latin1Bytes cs).filterMap urlValue = cs.map sextet := by
  induction cs with
  | nil => rfl
  | cons c cs ih =>
      have hc : urlValue (latin1Byte c) = some (sextet c) := by
        rw [urlValue_latin1Byte, if_pos (h c List.mem_cons_self)]
      rw [latin1Bytes, List.map_cons, List.filterMap_cons_some hc, List.map_cons]
      exact congrArg _ (ih fun d hd => h d (List.mem_cons_of_mem c hd))

/-- The text of an id: twenty-two characters of the alphabet, and padding or none. -/
structure IsUuidText (cs pad : List Char) : Prop where
  length : cs.length = 22
  alphabet : ∀ c ∈ cs, c ∈ alphabet
  pad : pad = [] ∨ pad = ['=', '=']

/-- The text of an id ends in a group of two. -/
theorem IsUuidText.sextets {cs pad : List Char} (h : IsUuidText cs pad) :
    (cs.map sextet).length % 4 = 2 ∧ ∀ v ∈ cs.map sextet, v < 64 := by
  refine ⟨by rw [List.length_map, h.length], ?_⟩
  intro v hv
  obtain ⟨c, hc, rfl⟩ := List.mem_map.mp hv
  exact Base64Url.sextet_lt (h.alphabet c hc)

/-- They make 16 bytes. -/
theorem IsUuidText.length_bytesOf {cs pad : List Char} (h : IsUuidText cs pad) :
    (Base64Url.bytesOf (cs.map sextet)).length = uuidLen := by
  rw [Base64Url.length_bytesOf, List.length_map, h.length]
  rfl

/-- A text of an id is parsed to the bytes of its characters. -/
theorem IsUuidText.fromStr {cs pad : List Char} (h : IsUuidText cs pad) :
    KafkaUuid.fromStr (cs ++ pad) = .ok ⟨Base64Url.bytesOf (cs.map sextet), h.length_bytesOf⟩ := by
  have hascii : ∀ c ∈ cs ++ pad, c.toNat < 0x80 := by
    intro c hc
    apply ascii_of_alphabet c
    rcases List.mem_append.mp hc with hc | hc
    · exact List.mem_cons_of_mem _ (h.alphabet c hc)
    · rcases h.pad with rfl | rfl
      · cases hc
      · have : c = '=' := by simpa using hc
        rw [this]
        exact List.mem_cons_self
  have hshort : ¬((cs ++ pad).map utf16Len).sum > maxEncodedLen := by
    rw [sum_utf16Len hascii, List.length_append, h.length]
    rcases h.pad with rfl | rfl
    · decide
    · decide
  have hbytes : latin1Bytes (cs ++ pad) = latin1Bytes cs ++ latin1Bytes pad := List.map_append
  have hurl : ∀ b ∈ latin1Bytes cs, (urlValue b).isSome := by
    intro b hb
    obtain ⟨c, hc, rfl⟩ := List.mem_map.mp hb
    rw [urlValue_latin1Byte, if_pos (h.alphabet c hc)]
    rfl
  have hpad : latin1Bytes pad = [] ∨ latin1Bytes pad = [0x3D, 0x3D] :=
    h.pad.imp (fun hp => by rw [hp]; rfl) fun hp => by rw [hp]; rfl
  have hdecode := javaUrlDecode_of_url hurl (by rw [latin1Bytes, List.length_map, h.length]) hpad
  rw [← hbytes, filterMap_latin1Bytes h.alphabet] at hdecode
  unfold KafkaUuid.fromStr
  rw [if_neg hshort, hdecode, Results.ok_bind, dif_pos h.length_bytesOf]

/-- Whatever is parsed is the text of an id. -/
theorem exists_isUuidText {s : List Char} {id : KafkaUuid} (h : KafkaUuid.fromStr s = .ok id) :
    ∃ cs pad, s = cs ++ pad ∧ IsUuidText cs pad ∧ id.bytes = Base64Url.bytesOf (cs.map sextet) := by
  unfold KafkaUuid.fromStr at h
  split at h
  · cases h
  obtain ⟨decoded, hdecoded, h⟩ := Results.bind_eq_ok.mp h
  split at h
  · rename_i hlen
    cases h
    obtain ⟨us, padding, hsrc, hcount, hurl, hpad, rfl⟩ := javaUrlDecode_eq_ok hdecoded hlen
    obtain ⟨cs, pad, rfl, hcs, hpadding⟩ := List.map_eq_append_iff.mp hsrc
    subst hcs hpadding
    have halphabet : ∀ c ∈ cs, c ∈ alphabet := by
      intro c hc
      have hsome := hurl _ (List.mem_map_of_mem hc)
      rw [urlValue_latin1Byte] at hsome
      by_contra hnot
      rw [if_neg hnot] at hsome
      cases hsome
    refine ⟨cs, pad, rfl, ⟨by simpa using hcount, halphabet, ?_⟩, ?_⟩
    · rcases hpad with hnil | hequals
      · exact Or.inl (List.map_eq_nil_iff.mp hnil)
      · obtain ⟨c, rest, rfl, hc, hrest⟩ := List.map_eq_cons_iff.mp hequals
        obtain ⟨d, rest, rfl, hd, hnil⟩ := List.map_eq_cons_iff.mp hrest
        rw [latin1Byte_eq_pad hc, latin1Byte_eq_pad hd, List.map_eq_nil_iff.mp hnil]
        exact Or.inr rfl
    · exact congrArg Base64Url.bytesOf (filterMap_latin1Bytes halphabet)
  · cases h

/-- What is printed for an id is its text. -/
theorem isUuidText_encode (id : KafkaUuid) : IsUuidText (Base64Url.encode id.bytes) [] := by
  refine ⟨?_, fun c hc => ?_, Or.inl rfl⟩
  · rw [Base64Url.encode, List.length_map, Base64Url.length_sextetsOf, id.length_bytes]
    rfl
  · obtain ⟨v, hv, rfl⟩ := List.mem_map.mp hc
    exact Base64Url.symbol_mem (Base64Url.sextetsOf_lt _ v hv)

/-- **What is printed for an id is parsed to it.** -/
theorem fromStr_encode (id : KafkaUuid) : KafkaUuid.fromStr (Base64Url.encode id.bytes) = .ok id := by
  have hsextets : (Base64Url.encode id.bytes).map sextet = Base64Url.sextetsOf id.bytes := by
    rw [Base64Url.encode, List.map_map]
    refine (List.map_congr_left fun v hv => ?_).trans (List.map_id _)
    exact Base64Url.sextet_symbol (Base64Url.sextetsOf_lt _ v hv)
  have hread := (isUuidText_encode id).fromStr
  rw [List.append_nil] at hread
  rw [hread]
  simp only [hsextets, Base64Url.bytesOf_sextetsOf]

/-- The bytes of a text spell the number of its characters, without its last four bits. -/
theorem IsUuidText.bytesOf_eq_iff {cs pad : List Char} (h : IsUuidText cs pad) (id : KafkaUuid) :
    Base64Url.bytesOf (cs.map sextet) = id.bytes ↔ WireInt.ofBE id.bytes = number (cs.map sextet) / 16 := by
  rw [← Base64Url.ofBE_bytesOf h.sextets.1 h.sextets.2]
  refine ⟨fun hbytes => by rw [hbytes], fun hnumber => ?_⟩
  exact WireInt.ofBE_injective (h.length_bytesOf.trans id.length_bytes.symm) hnumber.symm

/-- Printing the bytes of a text clears the bits of its last character that no byte takes. -/
theorem IsUuidText.encode_bytesOf {cs pad : List Char} (h : IsUuidText cs pad) :
    ∃ before last, cs = before ++ [last] ∧
      Base64Url.encode (Base64Url.bytesOf (cs.map sextet)) = before ++ [symbol (sextet last / 16 * 16)] := by
  obtain ⟨before, last, rfl⟩ : ∃ before last, cs = before ++ [last] := by
    refine ⟨cs.dropLast, cs.getLast ?_, (List.dropLast_append_getLast _).symm⟩
    rintro rfl
    cases h.length
  obtain ⟨vs, v, hvs, hsextets⟩ := Base64Url.sextetsOf_bytesOf h.sextets.1 h.sextets.2
  rw [List.map_append, List.map_singleton] at hvs
  obtain ⟨rfl, hv⟩ := List.append_inj' hvs rfl
  cases hv
  have hsame : (before.map sextet).map symbol = before := by
    rw [List.map_map]
    refine (List.map_congr_left fun c hc => ?_).trans (List.map_id _)
    exact Base64Url.symbol_sextet (h.alphabet c (List.mem_append_left _ hc))
  refine ⟨before, last, rfl, ?_⟩
  rw [Base64Url.encode, hsextets, List.map_append, hsame, List.map_singleton]

/-- **Ids as text.** A text is parsed exactly when it is 22 characters of the URL-safe alphabet, with `==`
behind them or nothing, and the sixteen bytes are the number that the characters spell without its last four
bits. An id is read back from what is printed for it, and what is printed for a parsed text is the text without
its padding and with those four bits cleared. -/
theorem KafkaUuid.fromStr_display {urlSafeNoPad : Bytes → List Char}
    (hrfc : ∀ bs, urlSafeNoPad bs = Base64Url.encode bs) :
    (∀ s id, fromStr s = .ok id ↔ ∃ cs pad, s = cs ++ pad ∧ IsUuidText cs pad ∧
      WireInt.ofBE id.bytes = number (cs.map sextet) / 16) ∧
    (∀ id, fromStr (id.display urlSafeNoPad) = .ok id) ∧
    ∀ s id, fromStr s = .ok id → ∃ before last pad, s = before ++ [last] ++ pad ∧
      IsUuidText (before ++ [last]) pad ∧
      id.display urlSafeNoPad = before ++ [symbol (sextet last / 16 * 16)] ∧
      fromStr (id.display urlSafeNoPad) = .ok id := by
  have hdisplay : ∀ id : KafkaUuid, id.display urlSafeNoPad = Base64Url.encode id.bytes :=
    fun id => hrfc id.bytes
  have hback : ∀ id : KafkaUuid, fromStr (id.display urlSafeNoPad) = .ok id := by
    intro id
    rw [hdisplay, fromStr_encode]
  refine ⟨?_, hback, ?_⟩
  · intro s id
    constructor
    · intro h
      obtain ⟨cs, pad, hs, htext, hbytes⟩ := exists_isUuidText h
      exact ⟨cs, pad, hs, htext, (htext.bytesOf_eq_iff id).mp hbytes.symm⟩
    · rintro ⟨cs, pad, rfl, htext, hnumber⟩
      rw [htext.fromStr]
      simp only [(htext.bytesOf_eq_iff id).mpr hnumber]
  · intro s id h
    obtain ⟨cs, pad, hs, htext, hbytes⟩ := exists_isUuidText h
    obtain ⟨before, last, rfl, hprinted⟩ := htext.encode_bytesOf
    refine ⟨before, last, pad, hs, htext, ?_, hback id⟩
    rw [hdisplay, hbytes, hprinted]

/-- The id that is printed as `UXyU9i5ARn6W00ON2taeWA`. -/
def sampleUuid : KafkaUuid where
  bytes :=
    [0x51, 0x7C, 0x94, 0xF6, 0x2E, 0x40, 0x46, 0x7E,
      0x96, 0xD3, 0x43, 0x8D, 0xDA, 0xD6, 0x9E, 0x58]
  length_bytes := rfl

theorem KafkaUuid.fromStr_display_sample :
    fromStr (sampleUuid.display Base64Url.encode) = .ok sampleUuid ∧
      sampleUuid.display Base64Url.encode = "UXyU9i5ARn6W00ON2taeWA".toList ∧
      fromStr "UXyU9i5ARn6W00ON2taeWP==".toList = .ok sampleUuid :=
  ⟨(KafkaUuid.fromStr_display fun _ => rfl).2.1 sampleUuid, by decide +kernel, by decide +kernel⟩

end Krabka.Ids
