import Krabka.Protocol.Records.Agreement
import Krabka.Protocol.Records.Encode

/-!
# `Protocol.Records.RoundTrip` — what is encoded is decoded

Bottom up: a nullable field, a header, a record and a list of records are read back from their wire forms
in front of any suffix; the 61 header bytes give the header back; and an encoded batch is therefore framed
as what was encoded.
-/

namespace Krabka.Protocol.Records

open ByteStream Reader Krabka.Compression

/-! ## Records

A nullable field is a length and its bytes. The body of a record is read to its last byte. -/

/-- Naming a field in its errors changes nothing that is read. -/
theorem reads_field {α : Type} {label : String} {d : Decode α} {w : Bytes} {a : α}
    (h : Reads d w a) : Reads (field label d) w a := h.mapErr

theorem usizeOfI32_ofNat {n : Nat} (h : n < 2 ^ 31) :
    FixedWidth.usizeOfI32 (Int32.ofNat n) = some n := by
  rw [FixedWidth.usizeOfI32_eq_some]
  exact Int32.toInt_ofNat_of_lt h

/-- Nullable bytes behind a varint are read back. -/
theorem reads_nullableWire {label : SliceLabel} {v : Option Bytes} (h : FieldFits v) :
    Reads (readNullableSlice label) (nullableWire v) v := by
  unfold readNullableSlice
  cases v with
  | none =>
      have hneg : FixedWidth.usizeOfI32 (-1) = none := by decide
      refine (reads_field (reads_putVarint (-1))).bind_nil ?_
      simp only [hneg]
      exact Reads.pure none
  | some v =>
      refine (reads_field (reads_putVarint _)).bind ?_
      simp only [usizeOfI32_ofNat (h v rfl)]
      exact (Reads.take rfl).map some

/-- A header of a record is read back. -/
theorem RecordHeader.reads_wire {h : RecordHeader} (i : Nat)
    (hk : FieldFits (some (Text.utf8Bytes h.key))) (hv : FieldFits h.value) :
    Reads (parseHeader i) h.wire h := by
  have hkey : nullableWire (some (Text.utf8Bytes h.key)) =
      putVarint (Int32.ofNat (Text.utf8Bytes h.key).length) ++ Text.utf8Bytes h.key := rfl
  unfold RecordHeader.wire parseHeader
  rw [hkey, List.append_assoc]
  refine (reads_field (reads_putVarint _)).bind ?_
  simp only [usizeOfI32_ofNat (hk _ rfl)]
  refine (Reads.take rfl).bind ?_
  simp only [Text.fromUtf8_utf8Bytes]
  exact (reads_nullableWire hv).map (RecordHeader.mk h.key)

/-- So are all of them, behind their count. -/
theorem reads_parseHeaders {hs : List RecordHeader} (hcount : hs.length < 2 ^ 31)
    (hfit : ∀ h ∈ hs, FieldFits (some (Text.utf8Bytes h.key)) ∧ FieldFits h.value) :
    Reads (parseHeaders vecSink [])
      (putVarint (Int32.ofNat hs.length) ++ hs.flatMap RecordHeader.wire) (hs.length, hs) := by
  have htimes : Reads (times parseHeader hs.length 0) (hs.flatMap RecordHeader.wire) hs :=
    Reads.times hs 0 (fun h hh j => RecordHeader.reads_wire j (hfit h hh).1 (hfit h hh).2)
  intro rest
  rw [List.append_assoc, parseHeaders_eq_ok (fun _ _ => rfl)]
  refine ⟨Int32.ofNat hs.length, hs.flatMap RecordHeader.wire ++ rest, hs,
    reads_field (reads_putVarint _) _, usizeOfI32_ofNat hcount, htimes rest, ?_⟩
  rw [vecSink_after, List.nil_append]

theorem reads_attributes (a : Int8) (e : RecordsError) :
    Reads (byte e) (putI8 a) (UInt8.ofBitVec a.toBitVec) := by
  intro rest
  have h : putI8 a = [UInt8.ofBitVec a.toBitVec] := by
    unfold putI8 WireInt.putBE WireInt.putBE
    rw [List.nil_append]
    congr 1
    apply UInt8.toNat_inj.mp
    simp
  rw [h]
  rfl

/-- The summary that a written record parses to. -/
def Record.summary (r : Record) : RecordSummary :=
  ⟨r.attributes, r.timestampDelta, r.offsetDelta, r.key, r.value, r.headers.length, r.bodyLen⟩

/-- The body of a record is read back. -/
theorem Record.reads_bodyWire {r : Record} (h : r.Fits) :
    Reads (parseBody vecSink r.bodyLen []) r.bodyWire (r.summary, r.headers) := by
  unfold Record.bodyWire parseBody
  simp only [List.append_assoc]
  refine (reads_attributes _ _).bind ?_
  refine (reads_field (reads_putVarlong _)).bind ?_
  refine (reads_field (reads_putVarint _)).bind ?_
  refine (reads_nullableWire h.key).bind ?_
  refine (reads_nullableWire h.value).bind ?_
  exact (reads_parseHeaders h.count h.headers).map _

/-- **A written record is read back.** -/
theorem Record.reads_wire {r : Record} (h : r.Fits) : Reads parseOneRecord r.wire r := by
  intro rest
  rw [parseOneRecord_eq_ok]
  refine ⟨(r.summary, r.headers), parseOneRecordInto_eq_ok.mpr ?_, rfl⟩
  refine ⟨Int64.ofNat r.bodyLen, r.bodyWire, ?_, ?_, ?_⟩
  · rw [Record.wire, List.append_assoc]
    exact reads_field (reads_putVarlong _) _
  · rw [FixedWidth.usizeOfI64_eq_some, r.length_bodyWire h]
    exact Int64.toInt_ofNat_of_lt h.body
  · rw [r.length_bodyWire h]
    exact (r.reads_bodyWire h).all

/-- **The records of a batch are read back in order.** -/
theorem recordLoop_wire {rs : List Record} (h : ∀ r ∈ rs, r.Fits) :
    recordLoop rs.length (rs.flatMap Record.wire) = .ok (rs, []) :=
  (Reads.times rs 0 (fun r hr _ => r.reads_wire (h r hr))).all

/-! ## The header

A slice of a concatenation is a slice of the part that it lies in. -/

/-- A slice of a front. -/
theorem slice_here {a b : Bytes} {n : Nat} (h : a.length = n) : slice (a ++ b) 0 n = a := by
  unfold slice
  rw [List.drop_zero, ← h, List.take_left]

/-- A slice of what is behind it. -/
theorem slice_later {a b : Bytes} {k n : Nat} (h : a.length ≤ k) :
    slice (a ++ b) k n = slice b (k - a.length) n := by
  unfold slice
  rw [List.drop_append, List.drop_eq_nil_of_le h, List.nil_append]

theorem slice_all {a : Bytes} {n : Nat} (h : a.length = n) : slice a 0 n = a := by
  unfold slice
  rw [List.drop_zero, ← h, List.take_length]

/-- The header that a batch is encoded with. -/
def RecordBatch.headerOf (b : RecordBatch) (batchLength : Int32) (crc : UInt32) (count : Int32) :
    RecordBatchHeader where
  baseOffset := b.baseOffset
  batchLength := batchLength
  partitionLeaderEpoch := b.partitionLeaderEpoch
  magic := 2
  crc := crc
  attributes := b.attributes.bits
  lastOffsetDelta := b.lastOffsetDelta
  baseTimestamp := b.baseTimestamp
  maxTimestamp := b.maxTimestamp
  producerId := b.producerId
  producerEpoch := b.producerEpoch
  baseSequence := b.baseSequence
  recordsCount := count

/-- The part of the header that the checksum does not cover. -/
theorem RecordBatch.length_headerPrefix (b : RecordBatch) (batchLength : Int32) (crc : UInt32) :
    (b.headerPrefix batchLength crc).length = crcCoverageStart := by
  simp [RecordBatch.headerPrefix, crcCoverageStart]

/-- The part that it covers, which states the number of records. -/
theorem RecordBatch.coveredHead_eq_ok {b : RecordBatch} {head : Bytes}
    (h : b.coveredHead = .ok head) :
    ∃ count, FixedWidth.i32OfLen b.records.length = some count ∧
      head = putI16 b.attributes.bits ++ putI32 b.lastOffsetDelta ++ putI64 b.baseTimestamp ++
        putI64 b.maxTimestamp ++ putI64 b.producerId ++ putI16 b.producerEpoch ++
        putI32 b.baseSequence ++ putI32 count := by
  unfold RecordBatch.coveredHead at h
  split at h
  · cases h
  · rename_i count hcount
    exact ⟨count, hcount, (Except.ok.inj h).symm⟩

/-- Both parts make up the header. -/
theorem RecordBatch.length_coveredHead {b : RecordBatch} {head : Bytes}
    (h : b.coveredHead = .ok head) : head.length = headerLen - crcCoverageStart := by
  obtain ⟨count, -, rfl⟩ := RecordBatch.coveredHead_eq_ok h
  simp [headerLen, crcCoverageStart]

/-- **The header bytes give the header back.** -/
theorem RecordBatch.refFromBytes_header {b : RecordBatch} {head : Bytes} (h : b.coveredHead = .ok head)
    (batchLength : Int32) (crc : UInt32) :
    ∃ count, FixedWidth.i32OfLen b.records.length = some count ∧
      RecordBatchHeader.refFromBytes (b.headerPrefix batchLength crc ++ head) =
        some (b.headerOf batchLength crc count) := by
  have hhead := RecordBatch.length_coveredHead h
  obtain ⟨count, hcount, rfl⟩ := RecordBatch.coveredHead_eq_ok h
  refine ⟨count, hcount, ?_⟩
  unfold RecordBatchHeader.refFromBytes
  rw [if_pos (by rw [List.length_append, b.length_headerPrefix, hhead]; rfl)]
  unfold RecordBatch.headerPrefix RecordBatch.headerOf
  simp [List.append_assoc, slice_here, slice_later, slice_all]

/-! ## Batches

The length and the checksum in the header are those of the body behind it. -/

variable {codecs : Codecs}

/-- The bytes of a batch around the body `body`: what both encoders lay out. -/
def RecordBatch.layout [CrcFast] (b : RecordBatch) (batchLength : Int32) (head body : Bytes) : Bytes :=
  b.headerPrefix batchLength (crc32c (head ++ body)) ++ head ++ body

/-- What the plain encoder writes is the layout of its parts. -/
theorem RecordBatch.encodeUncompressed_eq_ok [CrcFast] {b : RecordBatch} {out : Bytes}
    (h : b.encodeUncompressed = .ok out) :
    ∃ body l head, b.encodeRecords = .ok body ∧ batchLengthFor body.length = .ok l ∧
      b.coveredHead = .ok head ∧ out = b.layout l head body := by
  unfold RecordBatch.encodeUncompressed at h
  obtain ⟨body, hbody, h⟩ := Results.bind_eq_ok.mp h
  obtain ⟨l, hl, h⟩ := Results.bind_eq_ok.mp h
  obtain ⟨head, hhead, h⟩ := Results.bind_eq_ok.mp h
  have hwire : (List.replicate headerLen (0 : UInt8) ++ body).length = headerLen + body.length := by
    rw [List.length_append, List.length_replicate]
  have hdrop : ((List.replicate headerLen (0 : UInt8) ++ body).drop crcCoverageStart).drop
      (headerLen - crcCoverageStart) = body := by
    rw [List.drop_drop]
    exact List.drop_left' List.length_replicate
  rw [if_neg (by omega), hdrop] at h
  rw [hwire, Nat.add_sub_cancel_left] at hl
  refine ⟨body, l, head, hbody, hl, hhead, ?_⟩
  rw [← Results.pure_eq_ok.mp h, RecordBatch.layout, List.append_assoc]

/-- So is a header in front of a compressed body. -/
theorem RecordBatch.encodeHeader_eq_ok [CrcFast] {b : RecordBatch} {body header : Bytes}
    (h : b.encodeHeader body = .ok header) :
    ∃ l head, batchLengthFor body.length = .ok l ∧ b.coveredHead = .ok head ∧
      header ++ body = b.layout l head body := by
  unfold RecordBatch.encodeHeader at h
  obtain ⟨l, hl, h⟩ := Results.bind_eq_ok.mp h
  obtain ⟨head, hhead, h⟩ := Results.bind_eq_ok.mp h
  refine ⟨l, head, hl, hhead, ?_⟩
  rw [← Results.pure_eq_ok.mp h, RecordBatch.layout, crc32cAppend_crc32c]

/-- What a finished `encode_batch` wrote: the layout around the compressed records. -/
theorem RecordBatch.encodeBatch_eq_ok [CrcFast] {b : RecordBatch} {out : Bytes}
    (h : b.encodeBatch codecs = .ok out) :
    ∃ raw body l head, b.encodeRecords = .ok raw ∧
      codecs.compress b.attributes.compression raw = .ok body ∧
      batchLengthFor body.length = .ok l ∧ b.coveredHead = .ok head ∧ out = b.layout l head body := by
  unfold RecordBatch.encodeBatch at h
  split at h
  · rename_i hnone
    obtain ⟨body, l, head, hbody, hl, hhead, hout⟩ := RecordBatch.encodeUncompressed_eq_ok h
    exact ⟨body, body, l, head, hbody, by rw [hnone]; rfl, hl, hhead, hout⟩
  · obtain ⟨raw, hraw, h⟩ := Results.bind_eq_ok.mp h
    obtain ⟨body, hbody, h⟩ := Results.bind_eq_ok.mp h
    obtain ⟨header, hheader, h⟩ := Results.bind_eq_ok.mp h
    obtain ⟨l, head, hl, hhead, hout⟩ := RecordBatch.encodeHeader_eq_ok hheader
    refine ⟨raw, body, l, head, hraw, ?_, hl, hhead, ?_⟩
    · exact Results.mapError_eq_ok.mp hbody
    · rw [← Results.pure_eq_ok.mp h, hout]

/-- A laid-out batch in front of anything is framed, with its own header. -/
theorem RecordBatch.framed_layout [CrcFast] {b : RecordBatch} {l : Int32} {head body : Bytes}
    (hl : batchLengthFor body.length = .ok l) (hhead : b.coveredHead = .ok head) (rest : Bytes) :
    ∃ count, FixedWidth.i32OfLen b.records.length = some count ∧
      Framed (b.layout l head body ++ rest)
        (b.headerOf l (crc32c (head ++ body)) count) body rest := by
  obtain ⟨count, hcount, hhdr⟩ := RecordBatch.refFromBytes_header hhead l (crc32c (head ++ body))
  have hprefix := b.length_headerPrefix l (crc32c (head ++ body))
  have hcovered := RecordBatch.length_coveredHead hhead
  have hlen : (b.headerPrefix l (crc32c (head ++ body)) ++ head).length = headerLen := by
    rw [List.length_append, hprefix, hcovered]
    rfl
  have hsplit : b.layout l head body ++ rest =
      (b.headerPrefix l (crc32c (head ++ body)) ++ head) ++ (body ++ rest) := by
    rw [RecordBatch.layout, List.append_assoc]
  refine ⟨count, hcount, ?_⟩
  constructor
  · rw [hsplit, List.take_left' hlen, hhdr]
  · rfl
  · exact declaredBodyLen_batchLengthFor hl
  · rw [hsplit, List.drop_left' hlen]
  · rw [hsplit, List.take_left' hlen, slice_later (by omega), hprefix, Nat.sub_self, slice_all hcovered]
    rfl

/-- The body of a laid-out batch opens to the records it was written from. -/
theorem RecordBatch.inflate_headerOf {policy : RecordDecompressionPolicy} {b : RecordBatch}
    {raw body : Bytes} {l count : Int32} {crc : UInt32} (hlossless : codecs.Lossless)
    (hcompress : codecs.compress b.attributes.compression raw = .ok body)
    (hlimit : b.attributes.compression ≠ .none → raw.length ≤ policy.outputLimit body.length) :
    inflate codecs policy (b.headerOf l crc count) body = .ok raw := by
  unfold inflate
  have hattr : (⟨(b.headerOf l crc count).attributes⟩ : Attributes) = b.attributes := rfl
  rw [hattr]
  split
  · rename_i hnone
    rw [hnone] at hcompress
    cases hcompress
    rfl
  · rename_i hcodec
    unfold decompressBody
    rw [hlossless _ _ _ _ hcompress (hlimit hcodec)]
    rfl

/-- The records are parsed back from their body. -/
theorem RecordBatch.parseRecords_wire {b : RecordBatch} {raw : Bytes} {count : Int32}
    (hraw : b.encodeRecords = .ok raw) (hcount : FixedWidth.i32OfLen b.records.length = some count) :
    parseRecords count raw = .ok b.records := by
  obtain ⟨rfl, hfits⟩ := RecordBatch.encodeRecords_ok hraw
  rw [parseRecords_eq_ok]
  refine ⟨b.records.length, ?_, recordLoop_wire hfits⟩
  rw [FixedWidth.usizeOfI32_eq_some]
  exact FixedWidth.i32OfLen_eq_some.mp hcount

/-- A body is as long as its records announce. -/
theorem RecordBatch.length_encodeRecords {b : RecordBatch} {raw : Bytes}
    (hraw : b.encodeRecords = .ok raw) :
    raw.length = (b.records.map Record.encodedLen).sum := by
  obtain ⟨rfl, hfits⟩ := RecordBatch.encodeRecords_ok hraw
  rw [List.length_flatMap]
  congr 1
  exact List.map_congr_left (fun r hr => r.length_wire (hfits r hr))

/-- **Record batch round trip.** The codecs are libraries, so that they give back what they compressed is
assumed, as is that a compressed batch keeps the default output limit. -/
theorem RecordBatch.encodeBatch_roundTrip [CrcFast] (codecs : Codecs) (hlossless : codecs.Lossless)
    (b : RecordBatch) (out : Bytes) (h : b.encodeBatch codecs = .ok out)
    (hlimit : b.attributes.compression ≠ .none → ∀ raw body, b.encodeRecords = .ok raw →
      codecs.compress b.attributes.compression raw = .ok body →
      raw.length ≤ RecordDecompressionPolicy.default.outputLimit body.length) :
    (∀ rest : Bytes, decodeBatch codecs (out ++ rest) = (.ok b, rest)) ∧
    b.encodeToBytes codecs = .ok out ∧
    u32OfBE (slice out 17 4) = crc32c (out.drop crcCoverageStart) ∧
    (b.attributes.compression = .none → out.length = b.encodedBatchLen) := by
  obtain ⟨raw, body, l, head, hraw, hbody, hl, hhead, rfl⟩ := RecordBatch.encodeBatch_eq_ok h
  have hprefix := b.length_headerPrefix l (crc32c (head ++ body))
  refine ⟨?_, ?_, ?_, ?_⟩
  · intro rest
    obtain ⟨count, hcount, hframed⟩ := RecordBatch.framed_layout hl hhead rest
    unfold decodeBatch
    rw [decodeWithPolicy_slice, decodeContent_eq_ok]
    refine ⟨_, body, raw, b.records, hframed, ?_, RecordBatch.parseRecords_wire hraw hcount, rfl⟩
    exact RecordBatch.inflate_headerOf hlossless hbody (fun hc => hlimit hc raw body hraw hbody)
  · rw [← h]
    unfold RecordBatch.encodeToBytes RecordBatch.encodeBatch
    split <;> rfl
  · rw [RecordBatch.layout, List.append_assoc, List.drop_left' hprefix]
    unfold RecordBatch.headerPrefix
    simp [List.append_assoc, slice_here, slice_later]
  · intro hnone
    rw [hnone] at hbody
    cases hbody
    rw [RecordBatch.layout, List.length_append, List.length_append, hprefix,
      RecordBatch.length_coveredHead hhead, RecordBatch.length_encodeRecords hraw]
    rfl

/-- A batch of one record, with a key one byte past the short ones and a header. -/
def RecordBatch.longKeySample : RecordBatch where
  lastOffsetDelta := 0
  records := [{ key := some (List.replicate 33 7), headers := [⟨"k", none⟩] }]

theorem RecordBatch.encodeBatch_roundTrip_longKey :
    ∃ out, RecordBatch.longKeySample.encodeBatch Codecs.disabled = .ok out ∧ out.length = 104 ∧
      decodeBatch Codecs.disabled (out ++ [1, 2, 3]) = (.ok RecordBatch.longKeySample, [1, 2, 3]) := by
  have hplain : RecordBatch.longKeySample.attributes.compression = .none := by decide
  have hlen : RecordBatch.longKeySample.encodedBatchLen = 104 := by decide +kernel
  have hok : (RecordBatch.longKeySample.encodeBatch Codecs.disabled).isOk := by decide +kernel
  cases hout : RecordBatch.longKeySample.encodeBatch Codecs.disabled with
  | error e =>
      rw [hout] at hok
      cases hok
  | ok out =>
      obtain ⟨hdecode, -, -, hsize⟩ := RecordBatch.encodeBatch_roundTrip Codecs.disabled
        Codecs.disabled_lossless RecordBatch.longKeySample out hout (fun hc => absurd hplain hc)
      exact ⟨out, rfl, (hsize hplain).trans hlen, hdecode [1, 2, 3]⟩

end Krabka.Protocol.Records
