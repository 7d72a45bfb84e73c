import Krabka.Protocol.Records.Format

/-!
# `Protocol.Records.Encode` — writing records and batches

`Record::encode` and the batch encoders of `records/owned.rs`. A record is written straight into the
output, so an encoder that fails half way has already appended its first fields: a record encoder is
an `Output`. A batch is built in a buffer of its own and only handed on when it is whole.

Over it, `Record.wire` is what a record looks like on the wire, without the scratch buffer, the short-key
path and the overflow checks; `wrote_encode` says that an encoder that finishes wrote exactly that.
-/

namespace Krabka.Protocol.Records

open ByteStream Output Krabka.Compression

/-! ## Lengths

What a record takes, computed field by field before anything is written. -/

/-- The bytes that a nullable field of the given length takes, its length prefix included. -/
def fieldLen : Option Nat → Nat
  | none => varintLen (-1)
  | some len => varintLen ((FixedWidth.i32OfLen len).getD Int32.maxValue) + len

def bodyLenOf (timestampDelta : Int64) (offsetDelta : Int32) (key value : Option Nat)
    (headers : List (Nat × Option Nat)) : Nat :=
  1 + varlongLen timestampDelta + varintLen offsetDelta + fieldLen key + fieldLen value
    + varintLen ((FixedWidth.i32OfLen headers.length).getD Int32.maxValue)
    + (headers.map fun h => fieldLen (some h.1) + fieldLen h.2).sum

def Record.bodyLen (r : Record) : Nat :=
  bodyLenOf r.timestampDelta r.offsetDelta (r.key.map List.length) (r.value.map List.length)
    (r.headers.map fun h => ((Text.utf8Bytes h.key).length, h.value.map List.length))

def Record.encodedLen (r : Record) : Nat :=
  varlongLen ((FixedWidth.i64OfLen r.bodyLen).getD Int64.maxValue) + r.bodyLen

/-! ## The scratch buffer of a record's first fields

The first fields are put into a small array, so that a record starts with a single write. -/

/-- A fixed buffer and how much of it is written: the cursor `fields` over `prefix` in the source. -/
structure Fields where
  scratch : Bytes
  used : Nat

def Fields.new (len : Nat) : Fields := ⟨List.replicate len 0, 0⟩

/-- Overwrites the buffer at the cursor. The source panics past the end of the buffer, which
`Record.prefixFields_holds` rules out. -/
def Fields.put (f : Fields) (bs : Bytes) : Fields :=
  ⟨f.scratch.take f.used ++ bs ++ f.scratch.drop (f.used + bs.length), f.used + bs.length⟩

def Fields.unused (f : Fields) : Nat := f.scratch.length - f.used

/-- The bytes written to the front of `scratch` when `unused` bytes of it are left over. -/
def writtenPrefix (scratch : Bytes) (unused : Nat) : Except RecordsError Bytes :=
  if unused ≤ scratch.length then .ok (scratch.take (scratch.length - unused))
  else .error (.recordParse "record prefix overflow")

def putPrefix (f : Fields) : Output RecordsError Unit :=
  match writtenPrefix f.scratch f.unused with
  | .ok bs => put bs
  | .error e => fail e

/-! ## Records

Two paths, for short keys and for long ones. They write the same bytes. -/

def smallKeyLen : Nat := 32

def prefixLen : Nat := 21 + smallKeyLen

/-- A checked length prefix. -/
def putLen (overflow : String) (len : Nat) : Output RecordsError Unit :=
  match FixedWidth.i32OfLen len with
  | some n => put (putVarint n)
  | none => fail (.recordParse overflow)

/-- A nullable byte string behind its length, `-1` for null. -/
def putNullable (overflow : String) : Option Bytes → Output RecordsError Unit
  | none => put (putVarint (-1))
  | some v => do
      putLen overflow v.length
      put v

def RecordHeader.encode (h : RecordHeader) : Output RecordsError Unit := do
  putLen "header key length overflow" (Text.utf8Bytes h.key).length
  put (Text.utf8Bytes h.key)
  putNullable "header value length overflow" h.value

/-- The fields before the key. -/
def Record.metaFields (r : Record) : Fields :=
  (((Fields.new prefixLen).put (putI8 r.attributes)).put (putVarlong r.timestampDelta)).put
    (putVarint r.offsetDelta)

/-- The scratch buffer when it is handed on: metadata, key length and a short key. -/
def Record.prefixFields (r : Record) (keyLen : Int32) : Fields :=
  let fields := r.metaFields.put (putVarint keyLen)
  match r.key with
  | none => fields
  | some key => if key.length ≤ smallKeyLen then fields.put key else fields

/-- What follows the key. -/
def Record.encodeRest (r : Record) : Output RecordsError Unit := do
  putNullable "record value length overflow" r.value
  putLen "record header count overflow" r.headers.length
  each RecordHeader.encode r.headers

/-- A key that was too long for the scratch buffer. -/
def putLongKey (key : Bytes) : Output RecordsError Unit :=
  if smallKeyLen < key.length then put key else pure ()

def Record.encodeBody (r : Record) : Output RecordsError Unit :=
  match r.key with
  | none => do
      putPrefix (r.prefixFields (-1))
      r.encodeRest
  | some key =>
      match FixedWidth.i32OfLen key.length with
      | none => do
          -- the fields already written before an invalid key are kept
          putPrefix r.metaFields
          fail (.recordParse "record key length overflow")
      | some len => do
          putPrefix (r.prefixFields len)
          putLongKey key
          r.encodeRest

def Record.encode (r : Record) : Output RecordsError Unit :=
  match FixedWidth.i64OfLen r.bodyLen with
  | none => fail (.recordParse "record body length overflow")
  | some len => do
      put (putVarlong len)
      r.encodeBody

/-! ## Batches

The records first, then the header over them with the length and the checksum. -/

/-- The records of a batch in a buffer of their own. -/
def RecordBatch.encodeRecords (b : RecordBatch) : Except RecordsError Bytes :=
  let w := each Record.encode b.records
  match w.result with
  | .ok () => .ok w.out
  | .error e => .error e

/-- The CRC-covered header fields, attributes through `records_count`. -/
def RecordBatch.coveredHead (b : RecordBatch) : Except RecordsError Bytes :=
  match FixedWidth.i32OfLen b.records.length with
  | none => .error (.recordParse "records_count exceeds i32")
  | some count =>
      .ok (putI16 b.attributes.bits ++ putI32 b.lastOffsetDelta ++ putI64 b.baseTimestamp ++
        putI64 b.maxTimestamp ++ putI64 b.producerId ++ putI16 b.producerEpoch ++
        putI32 b.baseSequence ++ putI32 count)

/-- The header fields before the CRC-covered region. -/
def RecordBatch.headerPrefix (b : RecordBatch) (batchLength : Int32) (crc : UInt32) : Bytes :=
  putI64 b.baseOffset ++ putI32 batchLength ++ putI32 b.partitionLeaderEpoch ++ putI8 2 ++ putU32 crc

/-- Records behind a reserved header, which is then filled in; the CRC is one pass over the covered
region. -/
def RecordBatch.encodeUncompressed [CrcFast] (b : RecordBatch) : Except RecordsError Bytes := do
  let body ← b.encodeRecords
  let wire := List.replicate headerLen 0 ++ body
  let batchLength ← batchLengthFor (wire.length - headerLen)
  let coveredHead ← b.coveredHead
  if wire.length < headerLen then
    .error (.recordParse "batch buffer shorter than its header")
  else
    let covered := coveredHead ++ (wire.drop crcCoverageStart).drop (headerLen - crcCoverageStart)
    let crc := crc32c covered
    return b.headerPrefix batchLength crc ++ covered

/-- The header for a `body` held apart from it: the CRC continues from the covered header. -/
def RecordBatch.encodeHeader [CrcFast] (b : RecordBatch) (body : Bytes) : Except RecordsError Bytes := do
  let batchLength ← batchLengthFor body.length
  let coveredHead ← b.coveredHead
  let crc := crc32cAppend (crc32c coveredHead) body
  return b.headerPrefix batchLength crc ++ coveredHead

/-- `compress` in the errors of the record layer. -/
def compressBody (codecs : Codecs) (codec : CompressionType) (raw : Bytes) :
    Except RecordsError Bytes :=
  (codecs.compress codec raw).mapError RecordsError.compression

/-- `encode_batch`: the bytes appended to the output. -/
def RecordBatch.encodeBatch [CrcFast] (codecs : Codecs) (b : RecordBatch) : Except RecordsError Bytes :=
  if b.attributes.compression = .none then b.encodeUncompressed
  else do
    let raw ← b.encodeRecords
    let body ← compressBody codecs b.attributes.compression raw
    let header ← b.encodeHeader body
    return header ++ body

def RecordBatch.encodeToBytes [CrcFast] (codecs : Codecs) (b : RecordBatch) : Except RecordsError Bytes :=
  if b.attributes.compression = .none then b.encodeUncompressed else b.encodeBatch codecs

def RecordBatch.encodedBatchLen (b : RecordBatch) : Nat :=
  headerLen + (b.records.map Record.encodedLen).sum

/-! ## What a record looks like on the wire

The fields in a row, each under the condition that its length fits. -/

def nullableWire : Option Bytes → Bytes
  | none => putVarint (-1)
  | some v => putVarint (Int32.ofNat v.length) ++ v

def RecordHeader.wire (h : RecordHeader) : Bytes :=
  nullableWire (some (Text.utf8Bytes h.key)) ++ nullableWire h.value

def Record.bodyWire (r : Record) : Bytes :=
  putI8 r.attributes ++ putVarlong r.timestampDelta ++ putVarint r.offsetDelta ++
    nullableWire r.key ++ nullableWire r.value ++ putVarint (Int32.ofNat r.headers.length) ++
    r.headers.flatMap RecordHeader.wire

def Record.wire (r : Record) : Bytes := putVarlong (Int64.ofNat r.bodyLen) ++ r.bodyWire

/-- A nullable field whose length fits its prefix. -/
def FieldFits (v : Option Bytes) : Prop := ∀ bs ∈ v, bs.length < 2 ^ 31

/-- Every length of a record fits its prefix. -/
structure Record.Fits (r : Record) : Prop where
  body : r.bodyLen < 2 ^ 63
  key : FieldFits r.key
  value : FieldFits r.value
  count : r.headers.length < 2 ^ 31
  headers : ∀ h ∈ r.headers, FieldFits (some (Text.utf8Bytes h.key)) ∧ FieldFits h.value

theorem wrote_putLen {text : String} {n : Nat} {w : Bytes} :
    Wrote (putLen text n) w ↔ n < 2 ^ 31 ∧ w = putVarint (Int32.ofNat n) := by
  unfold putLen FixedWidth.i32OfLen
  by_cases h : n < 2 ^ 31
  · rw [if_pos h]
    simp only [wrote_put, h, true_and]
  · rw [if_neg h]
    simp only [h, false_and, iff_false]
    exact not_wrote_fail

theorem wrote_putNullable {text : String} {v : Option Bytes} {w : Bytes} :
    Wrote (putNullable text v) w ↔ FieldFits v ∧ w = nullableWire v := by
  cases v with
  | none => simp [putNullable, wrote_put, FieldFits, nullableWire]
  | some v =>
      simp only [putNullable, wrote_bind, wrote_putLen, wrote_put, FieldFits, nullableWire,
        Option.mem_some_iff, forall_eq']
      constructor
      · rintro ⟨w₁, w₂, ⟨hv, rfl⟩, rfl, rfl⟩
        exact ⟨hv, rfl⟩
      · rintro ⟨hv, rfl⟩
        exact ⟨_, _, ⟨hv, rfl⟩, rfl, rfl⟩

theorem RecordHeader.wrote_encode {h : RecordHeader} {w : Bytes} :
    Wrote h.encode w ↔
      (FieldFits (some (Text.utf8Bytes h.key)) ∧ FieldFits h.value) ∧ w = h.wire := by
  simp only [RecordHeader.encode, wrote_bind, wrote_putLen, wrote_put, wrote_putNullable,
    RecordHeader.wire]
  constructor
  · rintro ⟨w₁, w₂, ⟨hk, rfl⟩, ⟨w₃, w₄, rfl, ⟨hv, rfl⟩, rfl⟩, rfl⟩
    refine ⟨⟨?_, hv⟩, by simp [nullableWire]⟩
    rintro bs ⟨⟩
    exact hk
  · rintro ⟨⟨hk, hv⟩, rfl⟩
    exact ⟨_, _, ⟨hk _ rfl, rfl⟩, ⟨_, _, rfl, ⟨hv, rfl⟩, rfl⟩, by simp [nullableWire]⟩

theorem Record.wrote_encodeRest {r : Record} {w : Bytes} (h : Wrote r.encodeRest w) :
    FieldFits r.value ∧ r.headers.length < 2 ^ 31 ∧
    (∀ h ∈ r.headers, FieldFits (some (Text.utf8Bytes h.key)) ∧ FieldFits h.value) ∧
    w = nullableWire r.value ++ putVarint (Int32.ofNat r.headers.length) ++
      r.headers.flatMap RecordHeader.wire := by
  unfold Record.encodeRest at h
  obtain ⟨w₁, w₂, hvalue, hrest, rfl⟩ := wrote_bind.mp h
  obtain ⟨w₃, w₄, hcount, hh, rfl⟩ := wrote_bind.mp hrest
  obtain ⟨hv, rfl⟩ := wrote_putNullable.mp hvalue
  obtain ⟨hc, rfl⟩ := wrote_putLen.mp hcount
  obtain ⟨rfl, hall⟩ := wrote_each (fun a _ v hw => (RecordHeader.wrote_encode.mp hw).2) hh
  refine ⟨hv, hc, fun a ha => (RecordHeader.wrote_encode.mp (hall a ha)).1, ?_⟩
  rw [List.append_assoc]

/-! ### The scratch buffer holds what was put into it

The invariant of the buffer: its used part is the bytes of the fields so far. -/

/-- The buffer is `n` bytes long and its written part is `w`. -/
structure Fields.Holds (f : Fields) (n : Nat) (w : Bytes) : Prop where
  size : f.scratch.length = n
  used : f.used = w.length
  fits : w.length ≤ n
  written : f.scratch.take f.used = w

theorem Fields.holds_new (n : Nat) : (Fields.new n).Holds n [] :=
  ⟨List.length_replicate, rfl, Nat.zero_le n, rfl⟩

theorem Fields.Holds.put {f : Fields} {n : Nat} {w : Bytes} (h : f.Holds n w) (bs : Bytes)
    (hfit : w.length + bs.length ≤ n) : (f.put bs).Holds n (w ++ bs) := by
  have hsize := h.size
  have hused := h.used
  have htake : (f.scratch.take f.used).length = f.used := by
    rw [h.written, hused]
  constructor
  · simp only [Fields.put, List.length_append, List.length_drop, htake]
    omega
  · simp only [Fields.put, List.length_append, hused]
  · rw [List.length_append]
    exact hfit
  · simp only [Fields.put]
    rw [List.take_append_of_le_length (by rw [List.length_append, htake]),
      List.take_of_length_le (by rw [List.length_append, htake]), h.written]

theorem Fields.Holds.putPrefix {f : Fields} {n : Nat} {w : Bytes} (h : f.Holds n w) :
    putPrefix f = Output.put w := by
  have hused : f.scratch.length - f.unused = f.used := by
    have := h.fits
    have := h.size
    have := h.used
    unfold Fields.unused
    omega
  unfold Records.putPrefix writtenPrefix
  rw [if_pos (by unfold Fields.unused; omega), hused, h.written]

theorem Record.metaFields_holds (r : Record) :
    r.metaFields.Holds prefixLen
      (putI8 r.attributes ++ putVarlong r.timestampDelta ++ putVarint r.offsetDelta) := by
  have hlong := varlongLen_le r.timestampDelta
  have hint := varintLen_le r.offsetDelta
  unfold maxVarlongBytes at hlong
  unfold maxVarintBytes at hint
  have h := (((Fields.holds_new prefixLen).put (putI8 r.attributes) ?_).put
    (putVarlong r.timestampDelta) ?_).put (putVarint r.offsetDelta) ?_
  · exact h
  all_goals simp [prefixLen, smallKeyLen] <;> omega

/-- **The scratch buffer never overflows.** Metadata takes at most 21 bytes and a short key 32. -/
theorem Record.prefixFields_holds (r : Record) (keyLen : Int32) :
    (r.prefixFields keyLen).Holds prefixLen
      (putI8 r.attributes ++ putVarlong r.timestampDelta ++ putVarint r.offsetDelta ++
        putVarint keyLen ++ (r.key.filter (fun k => decide (k.length ≤ smallKeyLen))).getD []) := by
  have hlong := varlongLen_le r.timestampDelta
  have hint := varintLen_le r.offsetDelta
  have hkey := varintLen_le keyLen
  unfold maxVarlongBytes at hlong
  unfold maxVarintBytes at hint hkey
  have h := r.metaFields_holds.put (putVarint keyLen) (by
    simp [prefixLen, smallKeyLen]
    omega)
  unfold Record.prefixFields
  cases hk : r.key with
  | none => simpa using h
  | some key =>
      by_cases hsmall : key.length ≤ smallKeyLen
      · simp only [hsmall, if_true, Option.filter_some, decide_true, Option.getD_some]
        refine h.put key ?_
        unfold smallKeyLen at hsmall
        simp [prefixLen, smallKeyLen]
        omega
      · simpa [hsmall, Option.filter_some] using h

/-- A record body that was written whole. -/
theorem Record.wrote_encodeBody {r : Record} {w : Bytes} (h : Wrote r.encodeBody w) :
    (FieldFits r.key ∧ FieldFits r.value ∧ r.headers.length < 2 ^ 31 ∧
      ∀ h ∈ r.headers, FieldFits (some (Text.utf8Bytes h.key)) ∧ FieldFits h.value) ∧
    w = r.bodyWire := by
  unfold Record.encodeBody at h
  split at h
  · rename_i hkey
    obtain ⟨w₁, w₂, hp, hrest, rfl⟩ := wrote_bind.mp h
    rw [(r.prefixFields_holds (-1)).putPrefix, wrote_put] at hp
    obtain ⟨hv, hc, hh, rfl⟩ := Record.wrote_encodeRest hrest
    refine ⟨⟨by simp [FieldFits, hkey], hv, hc, hh⟩, ?_⟩
    simp [Record.bodyWire, nullableWire, hp, hkey]
  · rename_i key hkey
    split at h
    · obtain ⟨w₁, w₂, -, hf, -⟩ := wrote_bind.mp h
      exact absurd hf not_wrote_fail
    · rename_i len hlen
      obtain ⟨w₁, w₂, hp, hafter, rfl⟩ := wrote_bind.mp h
      obtain ⟨w₃, w₄, hlong, hrest, rfl⟩ := wrote_bind.mp hafter
      rw [(r.prefixFields_holds len).putPrefix, wrote_put] at hp
      obtain ⟨hv, hc, hh, rfl⟩ := Record.wrote_encodeRest hrest
      obtain ⟨hfit, hlen'⟩ := FixedWidth.i32OfLen_eq_some_ofNat.mp hlen
      refine ⟨⟨?_, hv, hc, hh⟩, ?_⟩
      · rw [hkey]
        rintro bs ⟨⟩
        exact hfit
      · -- the key went out with the prefix or right behind it
        unfold putLongKey at hlong
        by_cases hsmall : key.length ≤ smallKeyLen
        · rw [if_neg (by omega), wrote_pure] at hlong
          simp [Record.bodyWire, nullableWire, hp, hkey, hlong, hsmall, hlen', Option.filter_some]
        · rw [if_pos (by omega), wrote_put] at hlong
          simp [Record.bodyWire, nullableWire, hp, hkey, hlong, hsmall, hlen', Option.filter_some]

/-- **An encoder that finishes wrote the record's wire form.** -/
theorem Record.wrote_encode {r : Record} {w : Bytes} (h : Wrote r.encode w) :
    r.Fits ∧ w = r.wire := by
  unfold Record.encode at h
  split at h
  · exact absurd h not_wrote_fail
  · rename_i len hlen
    obtain ⟨w₁, w₂, hp, hbody, rfl⟩ := wrote_bind.mp h
    rw [wrote_put] at hp
    obtain ⟨⟨hk, hv, hc, hh⟩, rfl⟩ := Record.wrote_encodeBody hbody
    obtain ⟨hfit, hlen'⟩ := FixedWidth.i64OfLen_eq_some_ofNat.mp hlen
    exact ⟨⟨hfit, hk, hv, hc, hh⟩, by rw [hp, Record.wire, hlen']⟩

/-! ### Predicted lengths

The lengths of the wire form are those that the source computes. -/

theorem length_nullableWire {v : Option Bytes} (h : FieldFits v) :
    (nullableWire v).length = fieldLen (v.map List.length) := by
  cases v with
  | none => simp [nullableWire, fieldLen]
  | some v =>
      have hv : FixedWidth.i32OfLen v.length = some (Int32.ofNat v.length) :=
        FixedWidth.i32OfLen_eq_some_ofNat.mpr ⟨h v rfl, rfl⟩
      simp [nullableWire, fieldLen, hv]

theorem Record.length_bodyWire {r : Record} (h : r.Fits) : r.bodyWire.length = r.bodyLen := by
  have hheaders : (r.headers.flatMap RecordHeader.wire).length =
      (r.headers.map fun h => fieldLen (some (Text.utf8Bytes h.key).length) +
        fieldLen (h.value.map List.length)).sum := by
    rw [List.length_flatMap]
    congr 1
    apply List.map_congr_left
    intro a ha
    obtain ⟨hk, hv⟩ := h.headers a ha
    rw [RecordHeader.wire, List.length_append, length_nullableWire hk, length_nullableWire hv]
    rfl
  unfold Record.bodyWire Record.bodyLen bodyLenOf
  simp only [List.length_append, length_putI8, length_putVarlong, length_putVarint,
    length_nullableWire h.key, length_nullableWire h.value, hheaders, List.map_map, List.length_map,
    FixedWidth.i32OfLen, h.count, if_true, Option.getD_some, Function.comp_def]

theorem Record.length_wire {r : Record} (h : r.Fits) : r.wire.length = r.encodedLen := by
  unfold Record.wire Record.encodedLen FixedWidth.i64OfLen
  rw [List.length_append, length_putVarlong, r.length_bodyWire h, if_pos h.body, Option.getD_some]

/-- The records of a batch, written whole. -/
theorem RecordBatch.encodeRecords_ok {b : RecordBatch} {body : Bytes}
    (h : b.encodeRecords = .ok body) :
    body = b.records.flatMap Record.wire ∧ ∀ r ∈ b.records, r.Fits := by
  have hw : Wrote (each Record.encode b.records) body := by
    unfold RecordBatch.encodeRecords at h
    unfold Wrote
    cases hres : (each Record.encode b.records).result with
    | error e => simp [hres] at h
    | ok u =>
        simp only [hres, Except.ok.injEq] at h
        rw [← h, ← hres]
  obtain ⟨rfl, hall⟩ := wrote_each (fun a _ v hv => (Record.wrote_encode hv).2) hw
  exact ⟨rfl, fun r hr => (Record.wrote_encode (hall r hr)).1⟩

end Krabka.Protocol.Records
