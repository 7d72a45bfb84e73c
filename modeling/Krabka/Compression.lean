import Krabka.Lib.ByteStream

/-!
# `Compression` — record compression codecs and their limits

`CompressionType` and the dispatch of `compress` and `decompress`. The codecs themselves are libraries
(`flate2`, `snap`, `lz4_flex`, `zstd`), so each one is a pair of functions here; a codec that is compiled
out is the pair that answers `FeatureDisabled`. A decompression policy only ever answers how much output
a payload of a given size may produce, so that function is all that is kept of it.
-/

namespace Krabka.Compression

open ByteStream

/-- Codec identifier matching the lowest three bits of the record-batch attributes. -/
inductive CompressionType where
  | none
  | gzip
  | snappy
  | lz4
  | zstd
deriving DecidableEq, Repr

def CompressionType.fromAttributeBits (b : UInt8) : Option CompressionType :=
  match (b &&& 0x07).toNat with
  | 0 => some .none
  | 1 => some .gzip
  | 2 => some .snappy
  | 3 => some .lz4
  | 4 => some .zstd
  | _ => Option.none

inductive CompressionError where
  | featureDisabled (codec : String)
  | invalidData (text : String)
  | tooLarge (limit : Nat)
  | invalidLevel (codec : String) (level : Int32) (reason : String)
  | io (text : String)
deriving DecidableEq, Repr

def CompressionError.message : CompressionError → String
  | .featureDisabled codec => "compression feature `" ++ codec ++ "` not enabled at compile time"
  | .invalidData text => "invalid compressed data: " ++ text
  | .tooLarge limit => "decompressed output exceeds limit of " ++ toString limit ++ " bytes"
  | .invalidLevel codec level reason =>
      "invalid " ++ codec ++ " compression level " ++ toString level.toInt ++ ": " ++ reason
  | .io text => "I/O error: " ++ text

/-- One codec: `compress`, and `decompress` under an output limit. -/
structure Codec where
  compress : Bytes → Except CompressionError Bytes
  decompress : Bytes → Nat → Except CompressionError Bytes

/-- A codec whose Cargo feature is not enabled. -/
def Codec.disabled (name : String) : Codec where
  compress _ := .error (.featureDisabled name)
  decompress _ _ := .error (.featureDisabled name)

/-- The four codecs of a build. -/
structure Codecs where
  gzip : Codec
  snappy : Codec
  lz4 : Codec
  zstd : Codec

/-- A build without any codec feature. -/
def Codecs.disabled : Codecs where
  gzip := .disabled "gzip"
  snappy := .disabled "snappy"
  lz4 := .disabled "lz4"
  zstd := .disabled "zstd"

def Codecs.compress (codecs : Codecs) (ct : CompressionType) (data : Bytes) :
    Except CompressionError Bytes :=
  match ct with
  | .none => .ok data
  | .gzip => codecs.gzip.compress data
  | .snappy => codecs.snappy.compress data
  | .lz4 => codecs.lz4.compress data
  | .zstd => codecs.zstd.compress data

def Codecs.decompress (codecs : Codecs) (ct : CompressionType) (data : Bytes) (maxOutput : Nat) :
    Except CompressionError Bytes :=
  match ct with
  | .none => if data.length > maxOutput then .error (.tooLarge maxOutput) else .ok data
  | .gzip => codecs.gzip.decompress data maxOutput
  | .snappy => codecs.snappy.decompress data maxOutput
  | .lz4 => codecs.lz4.decompress data maxOutput
  | .zstd => codecs.zstd.decompress data maxOutput

/-- What the codec libraries promise: a compressed payload gives the data back under every limit that the
data itself keeps. -/
def Codecs.Lossless (codecs : Codecs) : Prop :=
  ∀ ct data payload limit, codecs.compress ct data = .ok payload → data.length ≤ limit →
    codecs.decompress ct payload limit = .ok data

theorem Codecs.disabled_lossless : Codecs.disabled.Lossless := by
  intro ct data payload limit h hle
  cases ct with
  | none =>
      cases h
      unfold Codecs.decompress
      rw [if_neg (by omega)]
  | gzip => cases h
  | snappy => cases h
  | lz4 => cases h
  | zstd => cases h

/-- The output budget that a policy gives a compressed payload of a given length. -/
structure RecordDecompressionPolicy where
  outputLimit : Nat → Nat

/-- `RecordDecompressionPolicy::default()`: a hundred times the payload, at least 16 MiB and at most
1 GiB. -/
def RecordDecompressionPolicy.default : RecordDecompressionPolicy where
  outputLimit compressed := min (max (compressed * 100) (16 * 1024 * 1024)) (1024 * 1024 * 1024)

end Krabka.Compression
