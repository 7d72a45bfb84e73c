import Krabka.Compression
import Krabka.Lib.Checksum
import Krabka.Protocol.Primitives

/-!
# `Protocol.Records.Format` — the v2 record batch

Errors, attributes, the 61-byte header and the records of a batch, as `records/error.rs`,
`records/header.rs`, `records/crc.rs` and the types of `records/owned.rs` have them. A borrowed record has
the fields of an owned one, and a slice and a copy of it are the same list here, so both flavours share
one type.
-/

namespace Krabka.Protocol.Records

open ByteStream Krabka.Compression

/-! ## Errors

Every refusal of the record readers, with its text. -/

/-- `{v:#010x}`: a `u32` in eight hexadecimal digits. -/
def hex (v : UInt32) : String :=
  "0x" ++ String.ofList ((List.range 8).map fun i =>
    Nat.digitChar (v.toNat / 16 ^ (7 - i) % 16))

inductive RecordsError where
  | headerTooShort (needed : Nat)
  | unsupportedMagic (found : Int8)
  | crcMismatch (expected computed : UInt32)
  | bodyTooShort (needed : Nat)
  | recordParse (text : String)
  | compression (error : CompressionError)
  | zerocopyFailure
deriving DecidableEq, Repr

def RecordsError.message : RecordsError → String
  | .headerTooShort needed =>
      "buffer too short for batch header (need " ++ toString needed ++ " more bytes)"
  | .unsupportedMagic found =>
      "batch magic byte " ++ toString found.toInt ++ " unsupported (only v2 supported)"
  | .crcMismatch expected computed =>
      "CRC mismatch: expected " ++ hex expected ++ ", computed " ++ hex computed
  | .bodyTooShort needed => "batch body truncated (need " ++ toString needed ++ " more bytes)"
  | .recordParse text => "record parse failed: " ++ text
  | .compression error => "compression: " ++ error.message
  | .zerocopyFailure => "zerocopy reinterpretation failed"

/-! ## Checksum

CRC-32C, over a text at once or piece by piece. The `crc_fast` crate is asked for nothing but that a digest
can go on where a finished checksum left off. -/

/-- `crc_fast` for `CrcAlgorithm::Crc32Iscsi`: a whole slice, and a digest that starts in `state`, takes one
slice and is finalized. -/
class CrcFast where
  crc32Iscsi (data : Bytes) : UInt32
  digest (state : UInt64) (data : Bytes) : UInt64
  digest_crc32Iscsi (a b : Bytes) :
    (digest (~~~crc32Iscsi a).toUInt64 b).toUInt32 = crc32Iscsi (a ++ b)

def crc32c [CrcFast] (data : Bytes) : UInt32 := CrcFast.crc32Iscsi data

/-- `seed` is finalized; the digest starts with the unfinalized state, and leaves its result in the low half. -/
def crc32cAppend [CrcFast] (seed : UInt32) (data : Bytes) : UInt32 :=
  (CrcFast.digest (~~~seed).toUInt64 data).toUInt32

theorem crc32cAppend_crc32c [CrcFast] (a b : Bytes) : crc32cAppend (crc32c a) b = crc32c (a ++ b) :=
  CrcFast.digest_crc32Iscsi a b

/-- The bitwise checksum over the Castagnoli polynomial obeys the law. -/
instance castagnoliCrc : CrcFast where
  crc32Iscsi := Checksum.crc Checksum.castagnoli
  digest state data := (Checksum.crcAppend Checksum.castagnoli (~~~state.toUInt32) data).toUInt64
  digest_crc32Iscsi a b := by
    rw [UInt32.toUInt32_toUInt64, UInt32.toUInt32_toUInt64, UInt32.not_not, Checksum.crcAppend_crc]

/-! ## Attributes and header

The header is a view of 61 bytes; its fields are slices of them. -/

/-- Packed batch-level attributes. -/
structure Attributes where
  bits : Int16
deriving DecidableEq, Repr

/-- The codec of the low three bits; an unknown codec id is no compression. -/
def Attributes.compression (a : Attributes) : CompressionType :=
  (CompressionType.fromAttributeBits (WireInt.lowByte (a.bits &&& 0x07).toBitVec)).getD .none

structure RecordBatchHeader where
  baseOffset : Int64
  batchLength : Int32
  partitionLeaderEpoch : Int32
  magic : Int8
  crc : UInt32
  attributes : Int16
  lastOffsetDelta : Int32
  baseTimestamp : Int64
  maxTimestamp : Int64
  producerId : Int64
  producerEpoch : Int16
  baseSequence : Int32
  recordsCount : Int32
deriving DecidableEq, Repr

def headerLen : Nat := 61

/-- First byte covered by the batch CRC. -/
def crcCoverageStart : Nat := 21

/-- `n` bytes from `start` on. -/
def slice (bs : Bytes) (start n : Nat) : Bytes := (bs.drop start).take n

/-- `bs.get(start..stop)`. -/
def getRange (bs : Bytes) (start stop : Nat) : Option Bytes :=
  if start ≤ stop ∧ stop ≤ bs.length then some (slice bs start (stop - start)) else none

/-- `RecordBatchHeader::ref_from_bytes`: the fields lie one after the other, so it only refuses a slice
of another size. -/
def RecordBatchHeader.refFromBytes (bs : Bytes) : Option RecordBatchHeader :=
  if bs.length = headerLen then
    some
      { baseOffset := i64OfBE (slice bs 0 8)
        batchLength := i32OfBE (slice bs 8 4)
        partitionLeaderEpoch := i32OfBE (slice bs 12 4)
        magic := i8OfBE (slice bs 16 1)
        crc := u32OfBE (slice bs 17 4)
        attributes := i16OfBE (slice bs 21 2)
        lastOffsetDelta := i32OfBE (slice bs 23 4)
        baseTimestamp := i64OfBE (slice bs 27 8)
        maxTimestamp := i64OfBE (slice bs 35 8)
        producerId := i64OfBE (slice bs 43 8)
        producerEpoch := i16OfBE (slice bs 51 2)
        baseSequence := i32OfBE (slice bs 53 4)
        recordsCount := i32OfBE (slice bs 57 4) }
  else none

/-- Header fields counted by `batch_length`, which counts the bytes after itself. -/
def headerTailLen : Int32 := 49

/-- The body length a `batch_length` declares. -/
def declaredBodyLen (batchLength : Int32) : Option Nat :=
  (FixedWidth.checkedSubI32 batchLength headerTailLen).bind FixedWidth.usizeOfI32

/-- The `batch_length` of a batch with a `bodyLen`-byte body. -/
def batchLengthFor (bodyLen : Nat) : Except RecordsError Int32 :=
  match (FixedWidth.i32OfLen bodyLen).bind (FixedWidth.checkedAddI32 headerTailLen) with
  | some n => .ok n
  | none => .error (.recordParse "body length exceeds i32")

theorem declaredBodyLen_eq_some {l : Int32} {n : Nat} :
    declaredBodyLen l = some n ↔ l.toInt = 49 + n := by
  have htail : headerTailLen.toInt = 49 := by decide
  have hlt := l.toInt_lt
  unfold declaredBodyLen
  rw [Option.bind_eq_some_iff]
  constructor
  · rintro ⟨m, hm, hn⟩
    rw [FixedWidth.checkedSubI32_eq_some, htail] at hm
    rw [FixedWidth.usizeOfI32_eq_some] at hn
    omega
  · intro h
    refine ⟨Int32.ofInt n, ?_, ?_⟩
    · rw [FixedWidth.checkedSubI32_eq_some, htail, Int32.toInt_ofInt_of_le (by omega) (by omega)]
      omega
    · rw [FixedWidth.usizeOfI32_eq_some, Int32.toInt_ofInt_of_le (by omega) (by omega)]

/-- A written `batch_length` declares the body it was written for. -/
theorem declaredBodyLen_batchLengthFor {n : Nat} {l : Int32} (h : batchLengthFor n = .ok l) :
    declaredBodyLen l = some n := by
  have htail : headerTailLen.toInt = 49 := by decide
  unfold batchLengthFor at h
  split at h
  · rename_i m hm
    cases h
    obtain ⟨k, hk, hadd⟩ := Option.bind_eq_some_iff.mp hm
    rw [FixedWidth.i32OfLen_eq_some] at hk
    rw [FixedWidth.checkedAddI32_eq_some, htail] at hadd
    rw [declaredBodyLen_eq_some]
    omega
  · cases h

/-! ## Records and batches

What the header says once for all records, and what each record has. -/

structure RecordHeader where
  key : String
  value : Option Bytes
deriving DecidableEq, Repr

structure Record where
  attributes : Int8 := 0
  timestampDelta : Int64 := 0
  offsetDelta : Int32 := 0
  key : Option Bytes := none
  value : Option Bytes := none
  headers : List RecordHeader := []
deriving DecidableEq, Repr

/-- An owned batch, with the defaults of `RecordBatch::default`. -/
structure RecordBatch where
  baseOffset : Int64 := 0
  partitionLeaderEpoch : Int32 := 0
  attributes : Attributes := ⟨0⟩
  lastOffsetDelta : Int32 := 0
  baseTimestamp : Int64 := 0
  maxTimestamp : Int64 := 0
  producerId : Int64 := -1
  producerEpoch : Int16 := -1
  baseSequence : Int32 := -1
  records : List Record := []
deriving DecidableEq, Repr

/-- The batch that a header and its parsed records make. -/
def RecordBatchHeader.batch (hdr : RecordBatchHeader) (records : List Record) : RecordBatch where
  baseOffset := hdr.baseOffset
  partitionLeaderEpoch := hdr.partitionLeaderEpoch
  attributes := ⟨hdr.attributes⟩
  lastOffsetDelta := hdr.lastOffsetDelta
  baseTimestamp := hdr.baseTimestamp
  maxTimestamp := hdr.maxTimestamp
  producerId := hdr.producerId
  producerEpoch := hdr.producerEpoch
  baseSequence := hdr.baseSequence
  records := records

end Krabka.Protocol.Records
