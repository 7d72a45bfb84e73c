import Krabka.Lib.ChunkedInput
import Krabka.Protocol.Records.Format

/-!
# `Protocol.Records.Decode` — reading records and batches

The record parser of `records/borrowed.rs`, which all three batch readers share, and the readers
themselves: the owned `decode_with_policy` over any `Buf`, the borrowed `decode_borrow_with_policy` with
`to_owned`, and the produce fast path `validate_one_v2_batch` with its record walks.
-/

namespace Krabka.Protocol.Records

open ByteStream Reader Krabka.Compression

/-! ## One record

The fields of a record are views into the body. What lies behind the last header is an error. -/

/-- A wire primitive inside a record; its failure names the field. -/
def field {α : Type} (label : String) (d : Decode α) : Reader RecordsError α :=
  mapErr (fun e => .recordParse (label ++ ": " ++ e.message)) d

/-- Names the nullable field that `readNullableSlice` reads. -/
inductive SliceLabel where
  | key
  | value
  | headerValue (index : Nat)
deriving DecidableEq, Repr

def SliceLabel.message : SliceLabel → String
  | .key => "key"
  | .value => "value"
  | .headerValue index => "header[" ++ toString index ++ "] value"

/-- A nullable byte string behind its length; a negative length is null. -/
def readNullableSlice (label : SliceLabel) : Reader RecordsError (Option Bytes) := do
  let len ← field (label.message ++ " length") getVarint
  match FixedWidth.usizeOfI32 len with
  | none => return none
  | some n => do
      let bytes ← take n .bodyTooShort
      return some bytes

/-- Where `parseBody` puts the headers it reads. -/
structure HeaderSink (σ : Type) where
  reserve : σ → Nat → σ
  push : σ → RecordHeader → σ

/-- A `Vec`, which collects them. -/
def vecSink : HeaderSink (List RecordHeader) where
  reserve headers _ := headers
  push headers h := headers ++ [h]

/-- `SkipHeaders`, which keeps none. -/
def skipHeaders : HeaderSink Unit where
  reserve _ _ := ()
  push _ _ := ()

/-- A record without its headers. -/
structure RecordSummary where
  attributes : Int8
  timestampDelta : Int64
  offsetDelta : Int32
  key : Option Bytes
  value : Option Bytes
  headerCount : Nat
  bodyLen : Nat
deriving DecidableEq, Repr

/-- One header of a record, the `i`-th. -/
def parseHeader (i : Nat) : Reader RecordsError RecordHeader := do
  let label := "header[" ++ toString i ++ "]"
  let keyLen ← field (label ++ " key length") getVarint
  match FixedWidth.usizeOfI32 keyLen with
  | none => throw (.recordParse (label ++ " negative key length"))
  | some n => do
      let keyBytes ← take n .bodyTooShort
      match Text.fromUtf8 keyBytes with
      | .error e => throw (.recordParse (label ++ " key utf-8: " ++ e.message))
      | .ok key => do
          let value ← readNullableSlice (.headerValue i)
          return ⟨key, value⟩

/-- A round of the header loop. -/
def pushHeader {σ : Type} (sink : HeaderSink σ) (i : Nat) (headers : σ) : Reader RecordsError σ := do
  let h ← parseHeader i
  return sink.push headers h

/-- The headers behind their count. -/
def parseHeaders {σ : Type} (sink : HeaderSink σ) (headers : σ) : Reader RecordsError (Nat × σ) := do
  let headerCount ← field "header_count" getVarint
  match FixedWidth.usizeOfI32 headerCount with
  | none => throw (.recordParse ("negative header count " ++ toString headerCount.toInt))
  | some count => do
      let left ← remaining
      let headers ← loop (pushHeader sink) count 0 (sink.reserve headers (min count left))
      return (count, headers)

def parseBody {σ : Type} (sink : HeaderSink σ) (bodyLen : Nat) (headers : σ) :
    Reader RecordsError (RecordSummary × σ) := do
  let attributes ← byte (.recordParse "record body empty")
  let timestampDelta ← field "timestamp_delta" getVarlong
  let offsetDelta ← field "offset_delta" getVarint
  let key ← readNullableSlice .key
  let value ← readNullableSlice .value
  let (headerCount, headers) ← parseHeaders sink headers
  return (⟨Int8.ofBitVec attributes.toBitVec, timestampDelta, offsetDelta, key, value, headerCount,
    bodyLen⟩, headers)

/-- One length-prefixed record; its fields are read from its own bytes alone. -/
def parseOneRecordInto {σ : Type} (sink : HeaderSink σ) (headers : σ) :
    Reader RecordsError (RecordSummary × σ) := do
  let len ← field "record length" getVarlong
  match FixedWidth.usizeOfI64 len with
  | none =>
      throw (.recordParse ("record length negative or too large: " ++ toString len.toInt))
  | some bodyLen => do
      let body ← take bodyLen .bodyTooShort
      let (r, left) ← inside body (parseBody sink bodyLen headers)
      if left.isEmpty then return r
      else throw (.recordParse
        ("trailing bytes inside record (left=" ++ toString left.length ++ ")"))

/-- The record of a summary and the headers collected beside it. -/
def RecordSummary.withHeaders (s : RecordSummary) (headers : List RecordHeader) : Record where
  attributes := s.attributes
  timestampDelta := s.timestampDelta
  offsetDelta := s.offsetDelta
  key := s.key
  value := s.value
  headers := headers

def parseOneRecord : Reader RecordsError Record := do
  let (s, headers) ← parseOneRecordInto vecSink []
  return s.withHeaders headers

/-- The failure of the `i`-th record of a batch. -/
def recordError (i : Nat) (e : RecordsError) : RecordsError :=
  .recordParse ("record[" ++ toString i ++ "]: " ++ e.message)

def trailingBytes (left : Bytes) : RecordsError :=
  .recordParse ("trailing bytes after records (left=" ++ toString left.length ++ ")")

def negativeCount (count : Int32) : RecordsError :=
  .recordParse ("negative records_count " ++ toString count.toInt)

def badBatchLength : RecordsError := .recordParse "negative or oversized batch_length"

/-- `decompress` under the policy's limit for the payload. -/
def decompressBody (codecs : Codecs) (policy : RecordDecompressionPolicy) (codec : CompressionType)
    (body : Bytes) : Except RecordsError Bytes :=
  (codecs.decompress codec body (policy.outputLimit body.length)).mapError .compression

/-! ## The owned reader

The checksum is taken over the chunks of the input as they come. -/

/-- The CRC of a batch's covered region, when `chunk` starts with the whole batch. -/
def contiguousCoveredCrc [CrcFast] (chunk : Bytes) : Option UInt32 := do
  let hdrBytes ← getRange chunk 0 headerLen
  let hdr ← RecordBatchHeader.refFromBytes hdrBytes
  if hdr.magic ≠ 2 then none
  else
    let bodyLen ← declaredBodyLen hdr.batchLength
    let covered ← getRange chunk crcCoverageStart (headerLen + bodyLen)
    return crc32c covered

/-- Compares the stored CRC with the contiguous one, or with the header's CRC continued over `body`. -/
def verifyCrc [CrcFast] (hdrBytes : Bytes) (hdr : RecordBatchHeader) (contiguousCrc : Option UInt32)
    (body : Bytes) : Except RecordsError Unit :=
  let computed := contiguousCrc.getD
    (crc32cAppend (crc32c (slice hdrBytes crcCoverageStart (headerLen - crcCoverageStart))) body)
  if computed = hdr.crc then .ok () else .error (.crcMismatch hdr.crc computed)

/-- The records of a body, all of it. -/
def parseRecords (count : Int32) (body : Bytes) : Except RecordsError (List Record) :=
  match FixedWidth.usizeOfI32 count with
  | none => .error (negativeCount count)
  | some n => do
      let (records, left) ← times (fun i => mapErr (recordError i) parseOneRecord) n 0 body
      if left.isEmpty then return records else .error (trailingBytes left)

variable {β : Type}

/-- The body to parse, after the header has been read: a contiguous compressed body is decompressed in
place, any other is copied out first. The body is consumed also when it is refused. -/
def readBody [CrcFast] [Buf β] (codecs : Codecs) (policy : RecordDecompressionPolicy) (hdrBytes : Bytes)
    (hdr : RecordBatchHeader) (contiguousCrc : Option UInt32) (bodyLen : Nat) (buf : β) :
    Except RecordsError Bytes × β :=
  let codec := Attributes.compression ⟨hdr.attributes⟩
  let decompress (body : Bytes) : Except RecordsError Bytes := do
    verifyCrc hdrBytes hdr contiguousCrc body
    decompressBody codecs policy codec body
  match if codec ≠ .none then getRange (Buf.chunk buf) 0 bodyLen else none with
  | some chunk => (decompress chunk, Buf.advance buf bodyLen)
  | none =>
      let (body, buf) := Buf.copyToSlice buf bodyLen
      if codec = .none then
        (do verifyCrc hdrBytes hdr contiguousCrc body
            return body, buf)
      else (decompress body, buf)

/-- `RecordBatch::decode_with_policy`, with the input as it is left. -/
def decodeWithPolicy [CrcFast] [Buf β] (codecs : Codecs) (policy : RecordDecompressionPolicy) (buf : β) :
    Except RecordsError RecordBatch × β :=
  if Buf.remaining buf < headerLen then
    (.error (.headerTooShort (headerLen - Buf.remaining buf)), buf)
  else
    let contiguousCrc := contiguousCoveredCrc (Buf.chunk buf)
    let (hdrBytes, buf) := Buf.copyToSlice buf headerLen
    match RecordBatchHeader.refFromBytes hdrBytes with
    | none => (.error .zerocopyFailure, buf)
    | some hdr =>
        if hdr.magic ≠ 2 then (.error (.unsupportedMagic hdr.magic), buf)
        else match declaredBodyLen hdr.batchLength with
          | none => (.error badBatchLength, buf)
          | some bodyLen =>
              if Buf.remaining buf < bodyLen then
                (.error (.bodyTooShort (bodyLen - Buf.remaining buf)), buf)
              else
                let (body, buf) := readBody codecs policy hdrBytes hdr contiguousCrc bodyLen buf
                (do let body ← body
                    let records ← parseRecords hdr.recordsCount body
                    return hdr.batch records, buf)

/-- `RecordBatch::decode_batch`. -/
def decodeBatch [CrcFast] [Buf β] (codecs : Codecs) (buf : β) : Except RecordsError RecordBatch × β :=
  decodeWithPolicy codecs .default buf

/-! ## The borrowed reader

The body is kept as a slice where it is not compressed, and the records are parsed when they are asked for. -/

inductive RecordBody where
  | borrowed (bytes : Bytes)
  | owned (bytes : Bytes)
deriving DecidableEq, Repr

def RecordBody.bytes : RecordBody → Bytes
  | .borrowed bytes => bytes
  | .owned bytes => bytes

/-- A borrowed batch: its header, and its body still in bytes. -/
structure BorrowedBatch where
  header : RecordBatchHeader
  body : RecordBody
deriving DecidableEq, Repr

/-- The bytes that the CRC of the batch at the start of `batch` covers. -/
def crcCovered (batch : Bytes) (bodyLen : Nat) : Except RecordsError Bytes :=
  match getRange batch crcCoverageStart (headerLen + bodyLen) with
  | some covered => .ok covered
  | none => .error (.bodyTooShort (headerLen + bodyLen - batch.length))

/-- An uncompressed body stays where it is, a compressed one is decompressed. -/
def borrowBody (codecs : Codecs) (policy : RecordDecompressionPolicy) (hdr : RecordBatchHeader)
    (rawBody : Bytes) : Except RecordsError RecordBody :=
  if Attributes.compression ⟨hdr.attributes⟩ = .none then .ok (.borrowed rawBody)
  else
    (decompressBody codecs policy (Attributes.compression ⟨hdr.attributes⟩) rawBody).map
      RecordBody.owned

/-- `RecordBatch::decode_borrow_with_policy`. -/
def decodeBorrowWithPolicy [CrcFast] (codecs : Codecs) (policy : RecordDecompressionPolicy) :
    Reader RecordsError BorrowedBatch := fun buf =>
  if buf.length < headerLen then .error (.headerTooShort (headerLen - buf.length))
  else
    let rest := buf.drop headerLen
    match RecordBatchHeader.refFromBytes (buf.take headerLen) with
    | none => .error .zerocopyFailure
    | some hdr =>
        if hdr.magic ≠ 2 then .error (.unsupportedMagic hdr.magic)
        else match declaredBodyLen hdr.batchLength with
          | none => .error badBatchLength
          | some bodyLen =>
              if rest.length < bodyLen then .error (.bodyTooShort (bodyLen - rest.length))
              else do
                let rawBody := rest.take bodyLen
                let covered ← crcCovered buf bodyLen
                let computed := crc32c covered
                if computed ≠ hdr.crc then .error (.crcMismatch hdr.crc computed)
                else
                  let body ← borrowBody codecs policy hdr rawBody
                  return (⟨hdr, body⟩, rest.drop bodyLen)

/-- The lazy iterator of a borrowed batch, collected by `?`: a negative count is no records, and what
follows the last record is not looked at. -/
def BorrowedBatch.records (b : BorrowedBatch) : Except RecordsError (List Record) := do
  let count := (max b.header.recordsCount.toInt 0).toNat
  let (records, _) ← times (fun _ => parseOneRecord) count 0 b.body.bytes
  return records

/-- `RecordBatch::to_owned`. -/
def BorrowedBatch.toOwned (b : BorrowedBatch) : Except RecordsError RecordBatch := do
  let records ← b.records
  return b.header.batch records

/-! ## The produce fast path

A batch is checked and its records are walked, and none of them is built. -/

/-- A CRC-checked batch located at the start of a larger buffer. -/
structure ValidatedBatch where
  header : RecordBatchHeader
  totalLen : Nat
  rawBody : Bytes
deriving DecidableEq, Repr

def validateOneV2Batch [CrcFast] (buf : Bytes) : Except RecordsError ValidatedBatch :=
  if buf.length < headerLen then .error (.headerTooShort (headerLen - buf.length))
  else
    let rest := buf.drop headerLen
    match RecordBatchHeader.refFromBytes (buf.take headerLen) with
    | none => .error .zerocopyFailure
    | some hdr =>
        if hdr.magic ≠ 2 then .error (.unsupportedMagic hdr.magic)
        else match declaredBodyLen hdr.batchLength with
          | none => .error badBatchLength
          | some bodyLen =>
              match getRange rest 0 bodyLen with
              | none => .error (.bodyTooShort (bodyLen - rest.length))
              | some rawBody => do
                  let covered ← crcCovered buf bodyLen
                  let computed := crc32c covered
                  if computed ≠ hdr.crc then .error (.crcMismatch hdr.crc computed)
                  else return ⟨hdr, headerLen + bodyLen, rawBody⟩

/-- The body that the walk parses: the bytes as stored, or decompressed under the policy. -/
def inflate (codecs : Codecs) (policy : RecordDecompressionPolicy) (hdr : RecordBatchHeader)
    (raw : Bytes) : Except RecordsError Bytes :=
  if Attributes.compression ⟨hdr.attributes⟩ = .none then .ok raw
  else decompressBody codecs policy (Attributes.compression ⟨hdr.attributes⟩) raw

/-- Decompresses the body if needed, then parses once per declared record and rejects trailing bytes.
The visitor's state is `σ`. -/
def ValidatedBatch.walkRecords {σ : Type} (codecs : Codecs) (policy : RecordDecompressionPolicy)
    (v : ValidatedBatch) (parse : σ → Reader RecordsError σ) (s : σ) : Except RecordsError σ :=
  match FixedWidth.usizeOfI32 v.header.recordsCount with
  | none => .error (negativeCount v.header.recordsCount)
  | some count => do
      let body ← inflate codecs policy v.header v.rawBody
      let (s, left) ← loop (fun i s => mapErr (recordError i) (parse s)) count 0 s body
      if left.isEmpty then return s else .error (trailingBytes left)

def ValidatedBatch.validateRecordsWith {σ : Type} (codecs : Codecs)
    (policy : RecordDecompressionPolicy) (v : ValidatedBatch) (visit : σ → Record → σ) (s : σ) :
    Except RecordsError σ :=
  v.walkRecords codecs policy
    (fun s => do
      let r ← parseOneRecord
      return visit s r) s

def ValidatedBatch.validateRecordSummariesWith {σ : Type} (codecs : Codecs)
    (policy : RecordDecompressionPolicy) (v : ValidatedBatch) (visit : σ → RecordSummary → σ) (s : σ) :
    Except RecordsError σ :=
  v.walkRecords codecs policy
    (fun s => do
      let (r, _) ← parseOneRecordInto skipHeaders ()
      return visit s r) s

def ValidatedBatch.validateRecords (codecs : Codecs) (policy : RecordDecompressionPolicy)
    (v : ValidatedBatch) : Except RecordsError Unit :=
  v.validateRecordSummariesWith codecs policy (fun _ _ => ()) ()

end Krabka.Protocol.Records
