import Krabka.Protocol.PartitionRecord
import Krabka.Protocol.Records.RoundTrip
import Krabka.Protocol.SizedPrimitives

/-!
# `Protocol.Records.Payload` — the records field and its predicted length

`RecordsPayload` and `RecordsPayloadBorrowed`, which a records field carries. A payload predicts its length
from the records before compression and writes them after it.

## Contents
- **Payloads.** Both payloads with their writers and their length functions, and the length prefix.
- **Two sizes.** `compressedLen` is what a batch's records take on the wire, `rawLen` what the prediction
  takes them for.
- **The length in front.** What a length prefix says, and the readers that go by it.
- **Predictable payloads.** The contract of `Encode::encoded_len` is kept exactly by the payloads whose two
  sizes add up to the same, and a length-prefixed field carries the size that was written.
-/

namespace Krabka.Protocol.Records

open ByteStream Output Reader Krabka.Compression

/-- `From<RecordsError> for ProtocolError`. -/
def RecordsError.protocol (e : RecordsError) : ProtocolError :=
  .invalidValue <|
    match e with
    | .headerTooShort _ => "records: header too short"
    | .unsupportedMagic _ => "records: unsupported magic"
    | .crcMismatch _ _ => "records: CRC mismatch"
    | .bodyTooShort _ => "records: body truncated"
    | .recordParse _ => "records: record parse failed"
    | .compression _ => "records: compression error"
    | .zerocopyFailure => "records: zerocopy failure"

/-- Appends what was encoded apart. -/
def putResult {ε : Type} : Except ε Bytes → Output ε Unit
  | .ok bs => put bs
  | .error e => fail e

/-- `x` in the errors of the protocol. -/
def inProtocol (x : Output RecordsError Unit) : Encode := ⟨x.out, x.result.mapError RecordsError.protocol⟩

/-! ## Payloads

Batches or the bytes of an older format. Only the first can be compressed. -/

inductive RecordsPayload where
  | v2 (batches : List RecordBatch)
  | raw (bytes : Bytes)
  | legacy (bytes : Bytes)
deriving DecidableEq, Repr

namespace RecordsPayload

def payloadLen : RecordsPayload → Nat
  | .v2 batches => (batches.map RecordBatch.encodedBatchLen).sum
  | .raw b => b.length
  | .legacy b => b.length

def encodeTo [CrcFast] (codecs : Codecs) : RecordsPayload → Output RecordsError Unit
  | .v2 batches => each (fun b => putResult (b.encodeBatch codecs)) batches
  | .raw b => put b
  | .legacy b => put b

def encode [CrcFast] (codecs : Codecs) (p : RecordsPayload) (_version : Int16) : Encode :=
  inProtocol (p.encodeTo codecs)

def encodedLen (p : RecordsPayload) (_version : Int16) : Nat := p.payloadLen

def hasCompressedBatch : RecordsPayload → Bool
  | .v2 batches => batches.any fun b => b.attributes.compression ≠ .none
  | _ => false

end RecordsPayload

inductive RecordsPayloadBorrowed where
  | v2 (batches : List BorrowedBatch)
  | legacy (bytes : Bytes)
deriving DecidableEq, Repr

/-- `Encode::encode` of a borrowed batch, in the errors that `encode_to` wraps it in. -/
def BorrowedBatch.encode [CrcFast] (codecs : Codecs) (b : BorrowedBatch) : Except RecordsError Bytes :=
  (b.toOwned >>= fun owned => owned.encodeBatch codecs).mapError fun e =>
    .recordParse ("borrowed v2 encode: " ++ e.protocol.message)

def BorrowedBatch.encodedLen (b : BorrowedBatch) : Nat :=
  match b.toOwned with
  | .ok owned => owned.encodedBatchLen
  | .error _ => 0

namespace RecordsPayloadBorrowed

def payloadLen : RecordsPayloadBorrowed → Nat
  | .v2 batches => (batches.map BorrowedBatch.encodedLen).sum
  | .legacy b => b.length

def encodeTo [CrcFast] (codecs : Codecs) : RecordsPayloadBorrowed → Output RecordsError Unit
  | .v2 batches => each (fun b => putResult (b.encode codecs)) batches
  | .legacy b => put b

def encode [CrcFast] (codecs : Codecs) (p : RecordsPayloadBorrowed) (_version : Int16) : Encode :=
  inProtocol (p.encodeTo codecs)

def encodedLen (p : RecordsPayloadBorrowed) (_version : Int16) : Nat := p.payloadLen

def toOwned : RecordsPayloadBorrowed → Except RecordsError RecordsPayload
  | .v2 batches => RecordsPayload.v2 <$> batches.mapM BorrowedBatch.toOwned
  | .legacy b => .ok (.legacy b)

end RecordsPayloadBorrowed

/-- A v2 batch has magic byte 2 at the offset where a legacy message set has its own. -/
def looksLikeV2 (bytes : Bytes) : Bool := bytes[16]? = some 2

/-- A batch that was decoded took at least its header off the input. -/
theorem length_lt_of_decodeBorrow [CrcFast] {codecs : Codecs} {policy : RecordDecompressionPolicy}
    {buf rest : Bytes} {b : BorrowedBatch}
    (h : decodeBorrowWithPolicy codecs policy buf = .ok (b, rest)) : rest.length < buf.length := by
  obtain ⟨raw, hf, -⟩ := decodeBorrowWithPolicy_eq_ok.mp h
  have hlen := hf.length_eq
  unfold headerLen at hlen
  omega

/-- The loop of `from_slice` over the batches of a field. -/
def borrowBatches [CrcFast] (codecs : Codecs) (cur : Bytes) : Except RecordsError (List BorrowedBatch) :=
  if cur.isEmpty then .ok []
  else
    match _h : decodeBorrowWithPolicy codecs .default cur with
    | .error e => .error (.recordParse ("borrowed v2 decode: " ++ e.protocol.message))
    | .ok (b, rest) => (b :: ·) <$> borrowBatches codecs rest
termination_by cur.length
decreasing_by exact length_lt_of_decodeBorrow _h

def RecordsPayloadBorrowed.fromSlice [CrcFast] (codecs : Codecs) (bytes : Bytes) :
    Except RecordsError RecordsPayloadBorrowed :=
  if looksLikeV2 bytes then RecordsPayloadBorrowed.v2 <$> borrowBatches codecs bytes
  else .ok (.legacy bytes)

/-! ## The length prefix

A payload with a compressed batch is written to a buffer first, so that its length is known. -/

def putPayloadLength (payloadLen : Nat) (flexible : Bool) : Encode :=
  if flexible then
    match FixedWidth.u32OfLen (payloadLen + 1) with
    | some n => put (putUvarint n)
    | none => fail (.invalidValue "records payload length exceeds compact bytes range")
  else
    match FixedWidth.i32OfLen payloadLen with
    | some n => put (putI32 n)
    | none => fail (.invalidValue "records payload length exceeds bytes range")

/-- Encodes into a buffer of its own and goes on with what the buffer holds. -/
def buffered (x : Encode) (next : Bytes → Encode) : Encode :=
  match PartitionRecord.encodeToBytes x with
  | .ok bs => next bs
  | .error e => fail e

/-- The size of a compressed payload is not known before it is encoded. -/
def RecordsPayload.encodeLengthPrefixed [CrcFast] (codecs : Codecs) (p : RecordsPayload) (version : Int16)
    (flexible : Bool) : Encode :=
  if p.hasCompressedBatch then
    buffered (p.encode codecs version) fun encoded => do
      putPayloadLength encoded.length flexible
      put encoded
  else do
    putPayloadLength p.payloadLen flexible
    p.encode codecs version

/-- The borrowed codecs encode every payload into a buffer. -/
def RecordsPayloadBorrowed.putField [CrcFast] (codecs : Codecs) (p : RecordsPayloadBorrowed) (version : Int16)
    (flexible : Bool) : Encode :=
  buffered (p.encode codecs version) fun encoded =>
    if flexible then putCompactBytes encoded else putBytes encoded

/-- What a payload of a given length takes behind its length prefix. -/
def fieldSize (flexible : Bool) (payloadLen : Nat) : Nat :=
  if flexible then usizeUvarintLen (payloadLen + 1) + payloadLen else 4 + payloadLen

theorem wrote_putResult {ε : Type} {x : Except ε Bytes} {w : Bytes} :
    Wrote (putResult x) w ↔ x = .ok w := by
  cases x with
  | ok bs => rw [putResult, wrote_put, Except.ok.injEq, eq_comm]
  | error e => simp [putResult, not_wrote_fail]

theorem wrote_inProtocol {x : Output RecordsError Unit} {w : Bytes} :
    Wrote (inProtocol x) w ↔ Wrote x w := by
  obtain ⟨out, result⟩ := x
  cases result <;> simp [Wrote, inProtocol, Except.mapError]

/-- What was buffered is written before what follows. -/
theorem wrote_buffered {x : Encode} {next : Bytes → Encode} {w : Bytes} (h : Wrote (buffered x next) w) :
    ∃ bs, Wrote x bs ∧ Wrote (next bs) w := by
  unfold buffered at h
  split at h
  · rename_i bs hbs
    exact ⟨bs, PartitionRecord.encodeToBytes_eq_ok.mp hbs, h⟩
  · exact absurd h not_wrote_fail

/-- The prefix of a records field. -/
theorem sized_putPayloadLength (n : Nat) (flexible : Bool) :
    Sized (putPayloadLength n flexible) (if flexible then usizeUvarintLen (n + 1) else 4) := by
  unfold putPayloadLength
  refine Sized.ite ?_ ?_
  · cases h : FixedWidth.u32OfLen (n + 1) with
    | none => exact Sized.fail
    | some v =>
        refine Sized.put ?_
        rw [length_putUvarint, uvarintLen_eq (FixedWidth.u32OfLen_eq_some.mp h)]
  · cases FixedWidth.i32OfLen n with
    | none => exact Sized.fail
    | some v => exact Sized.put (length_putI32 v)

/-- A length in front of as many bytes as it says. -/
theorem sized_lengthPrefixed {x : Encode} {n : Nat} (flexible : Bool) (h : Sized x n) :
    Sized (putPayloadLength n flexible >>= fun _ => x) (fieldSize flexible n) := by
  refine ((sized_putPayloadLength n flexible).bind h).len ?_
  unfold fieldSize
  split <;> rfl

/-! ## Two sizes of a batch

They are the same for a batch that is not compressed. -/

/-- What a batch's records take on the wire. -/
def RecordBatch.compressedLen (codecs : Codecs) (b : RecordBatch) : Nat :=
  match b.encodeRecords >>= compressBody codecs b.attributes.compression with
  | .ok body => body.length
  | .error _ => 0

/-- What a batch's records take before compression. -/
def RecordBatch.rawLen (b : RecordBatch) : Nat := (b.records.map Record.encodedLen).sum

variable {codecs : Codecs}

/-- A batch is its header and its body as it was compressed. -/
theorem RecordBatch.length_of_encodeBatch [CrcFast] {b : RecordBatch} {out : Bytes}
    (h : b.encodeBatch codecs = .ok out) : out.length = headerLen + b.compressedLen codecs := by
  obtain ⟨raw, body, l, head, hraw, hbody, -, hhead, rfl⟩ := RecordBatch.encodeBatch_eq_ok h
  have hcompress : compressBody codecs b.attributes.compression raw = .ok body :=
    Results.mapError_eq_ok.mpr hbody
  have hlen : b.compressedLen codecs = body.length := by
    unfold RecordBatch.compressedLen
    rw [hraw, Results.ok_bind, hcompress]
  rw [RecordBatch.layout, List.length_append, List.length_append, b.length_headerPrefix,
    RecordBatch.length_coveredHead hhead, hlen]
  rfl

/-- A batch without compression takes what its records take. -/
theorem RecordBatch.compressedLen_of_none [CrcFast] {b : RecordBatch} {out : Bytes}
    (hnone : b.attributes.compression = .none) (h : b.encodeBatch codecs = .ok out) :
    b.compressedLen codecs = b.rawLen := by
  obtain ⟨raw, body, l, head, hraw, hbody, -, -, -⟩ := RecordBatch.encodeBatch_eq_ok h
  rw [hnone] at hbody
  cases hbody
  unfold RecordBatch.compressedLen
  rw [hraw, Results.ok_bind, hnone]
  exact RecordBatch.length_encodeRecords hraw

/-! ## The length in front of a payload

A reader that takes as many bytes as the prefix says takes the payload. -/

/-- `pre` is the length `n` as a `BYTES` or a `COMPACT_BYTES` field has it in front. -/
def IsLengthOf (n : Nat) (flexible : Bool) (pre : Bytes) : Prop :=
  if flexible then ∃ v : UInt32, v.toNat = n + 1 ∧ pre = putUvarint v
  else ∃ v : Int32, v.toInt = n ∧ pre = putI32 v

/-- The prefix states the length. -/
theorem wrote_putPayloadLength {n : Nat} {flexible : Bool} {pre : Bytes} :
    Wrote (putPayloadLength n flexible) pre ↔ IsLengthOf n flexible pre := by
  unfold putPayloadLength IsLengthOf
  cases flexible with
  | true =>
    rw [if_pos rfl, if_pos rfl]
    cases h : FixedWidth.u32OfLen (n + 1) with
    | none =>
      refine iff_of_false not_wrote_fail ?_
      rintro ⟨v, hv, -⟩
      cases h.symm.trans (FixedWidth.u32OfLen_eq_some.mpr hv)
    | some v =>
      have hv := FixedWidth.u32OfLen_eq_some.mp h
      refine wrote_put.trans ⟨fun hpre => ⟨v, hv, hpre⟩, ?_⟩
      rintro ⟨v', hv', rfl⟩
      rw [UInt32.toNat_inj.mp (hv'.trans hv.symm)]
  | false =>
    rw [if_neg Bool.false_ne_true, if_neg Bool.false_ne_true]
    cases h : FixedWidth.i32OfLen n with
    | none =>
      refine iff_of_false not_wrote_fail ?_
      rintro ⟨v, hv, -⟩
      cases h.symm.trans (FixedWidth.i32OfLen_eq_some.mpr hv)
    | some v =>
      have hv := FixedWidth.i32OfLen_eq_some.mp h
      refine wrote_put.trans ⟨fun hpre => ⟨v, hv, hpre⟩, ?_⟩
      rintro ⟨v', hv', rfl⟩
      rw [Int32.toInt_inj.mp (hv'.trans hv.symm)]

/-- The field readers take as many bytes as the length in front says. -/
theorem reads_of_isLengthOf {b pre : Bytes} {flexible : Bool} (h : IsLengthOf b.length flexible pre) :
    Reads (cond flexible getCompactBytesOwned getBytesOwned) (pre ++ b) b := by
  have htake : Reads (some <$> takeBytes b.length) b (some b) := (Reads.take rfl).map some
  unfold IsLengthOf at h
  intro rest
  cases flexible with
  | true =>
    obtain ⟨v, hv, rfl⟩ := h
    have hne : v ≠ 0 := by
      rintro rfl
      cases hv
    have hle : (1 : UInt32) ≤ v := by
      rw [UInt32.le_iff_toNat_le, hv]
      exact Nat.le_add_left 1 _
    have hsub : (v - 1).toNat = b.length := by
      rw [UInt32.toNat_sub_of_le v 1 hle, hv]
      rfl
    refine nonNull_eq_ok.mpr ((reads_putUvarint v).bind ?_ rest)
    rw [if_neg hne, hsub]
    exact htake
  | false =>
    obtain ⟨v, hv, rfl⟩ := h
    refine nonNull_eq_ok.mpr ((reads_putI32 v).bind ?_ rest)
    rw [FixedWidth.usizeOfI32_eq_some.mpr hv]
    exact htake

/-! ## Predictable payloads

The sums over the batches of both sizes decide, so the condition is on the payload as a whole. -/

namespace RecordsPayload

/-- The compressors leave the batches of a payload as long as they were, taken together. -/
def Predictable (codecs : Codecs) : RecordsPayload → Prop
  | .v2 batches =>
      (batches.map (RecordBatch.compressedLen codecs)).sum = (batches.map RecordBatch.rawLen).sum
  | _ => True

/-- The size of a payload on the wire. -/
def wireLen (codecs : Codecs) : RecordsPayload → Nat
  | .v2 batches => (batches.map fun b => headerLen + b.compressedLen codecs).sum
  | .raw b => b.length
  | .legacy b => b.length

/-- **The announced length is the real one exactly where the payload is predictable.** -/
theorem wireLen_eq_iff (p : RecordsPayload) (version : Int16) :
    p.wireLen codecs = p.encodedLen version ↔ p.Predictable codecs := by
  unfold encodedLen
  cases p with
  | v2 batches =>
      have hwire : (batches.map fun b => headerLen + b.compressedLen codecs).sum =
          (batches.map fun _ => headerLen).sum + (batches.map (RecordBatch.compressedLen codecs)).sum :=
        List.sum_map_add
      have hpredicted : (batches.map RecordBatch.encodedBatchLen).sum =
          (batches.map fun _ => headerLen).sum + (batches.map RecordBatch.rawLen).sum :=
        List.sum_map_add
      simp only [wireLen, payloadLen, Predictable, hwire, hpredicted, Nat.add_left_cancel_iff]
  | raw b => simp [wireLen, payloadLen, Predictable]
  | legacy b => simp [wireLen, payloadLen, Predictable]

/-- A payload is as long as its bytes on the wire. -/
theorem sized_encode [CrcFast] (p : RecordsPayload) (version : Int16) :
    Sized (p.encode codecs version) (p.wireLen codecs) := by
  intro w h
  have hw : Wrote (p.encodeTo codecs) w := wrote_inProtocol.mp h
  revert w
  cases p with
  | v2 batches =>
      intro w _ hw
      refine Sized.each (fun b _ out hout => ?_) w hw
      exact RecordBatch.length_of_encodeBatch (wrote_putResult.mp hout)
  | raw b =>
      intro w _ hw
      exact Sized.put rfl w hw
  | legacy b =>
      intro w _ hw
      exact Sized.put rfl w hw

/-- A payload without a compressed batch is predictable. -/
theorem predictable_of_uncompressed [CrcFast] {p : RecordsPayload} {version : Int16} {w : Bytes}
    (hplain : p.hasCompressedBatch = false) (h : Wrote (p.encode codecs version) w) :
    p.Predictable codecs := by
  have hw : Wrote (p.encodeTo codecs) w := wrote_inProtocol.mp h
  cases p with
  | v2 batches =>
      unfold Predictable
      congr 1
      apply List.map_congr_left
      intro b hb
      obtain ⟨out, hout⟩ := exists_of_wrote_each hw b hb
      have hnone : b.attributes.compression = .none := by
        unfold hasCompressedBatch at hplain
        rw [List.any_eq_false] at hplain
        simpa using hplain b hb
      exact RecordBatch.compressedLen_of_none hnone (wrote_putResult.mp hout)
  | raw b => exact trivial
  | legacy b => exact trivial

/-- The field is framed by the size that it has on the wire, compressed or not. -/
theorem sized_encodeLengthPrefixed [CrcFast] (p : RecordsPayload) (version : Int16) (flexible : Bool) :
    Sized (p.encodeLengthPrefixed codecs version flexible) (fieldSize flexible (p.wireLen codecs)) := by
  intro w h
  unfold encodeLengthPrefixed at h
  split at h
  · obtain ⟨encoded, hencoded, hrest⟩ := wrote_buffered h
    rw [← p.sized_encode version encoded hencoded]
    exact sized_lengthPrefixed flexible (Sized.put rfl) w hrest
  · rename_i hplain
    obtain ⟨w₁, w₂, h₁, h₂, -⟩ := wrote_bind.mp h
    have hpredictable := predictable_of_uncompressed (Bool.eq_false_of_not_eq_true hplain) h₂
    have hlen : p.wireLen codecs = p.payloadLen := (p.wireLen_eq_iff version).mpr hpredictable
    rw [hlen]
    exact sized_lengthPrefixed flexible (hlen ▸ p.sized_encode version) w h

/-- A field that was written, taken apart: the length of the payload's own bytes, and these bytes. -/
theorem wrote_encodeLengthPrefixed [CrcFast] {p : RecordsPayload} {version : Int16} {flexible : Bool} {w : Bytes}
    (h : Wrote (p.encodeLengthPrefixed codecs version flexible) w) :
    ∃ pre encoded, w = pre ++ encoded ∧ Wrote (p.encodeTo codecs) encoded ∧
      IsLengthOf encoded.length flexible pre := by
  unfold encodeLengthPrefixed at h
  split at h
  · obtain ⟨encoded, hencoded, hrest⟩ := wrote_buffered h
    obtain ⟨pre, bs, hpre, hbs, rfl⟩ := wrote_bind.mp hrest
    cases wrote_put.mp hbs
    exact ⟨pre, encoded, rfl, wrote_inProtocol.mp hencoded, wrote_putPayloadLength.mp hpre⟩
  · rename_i hplain
    obtain ⟨pre, encoded, hpre, hencoded, rfl⟩ := wrote_bind.mp h
    -- without compression the prediction is exact
    have hpredictable := predictable_of_uncompressed (Bool.eq_false_of_not_eq_true hplain) hencoded
    have hlen : p.wireLen codecs = p.payloadLen := (p.wireLen_eq_iff version).mpr hpredictable
    rw [← hlen, ← p.sized_encode version encoded hencoded] at hpre
    exact ⟨pre, encoded, rfl, wrote_inProtocol.mp hencoded, wrote_putPayloadLength.mp hpre⟩

/-- **Length-prefixed payloads carry their true length.** What is written is a length and the bytes of
`encode_to`, the length is the number of these bytes, and the field readers give them back in front of any
suffix. -/
theorem lengthPrefixed_carries_its_length [CrcFast] (codecs : Codecs) (p : RecordsPayload) (version : Int16)
    (flexible : Bool) {w : Bytes} (h : Wrote (p.encodeLengthPrefixed codecs version flexible) w) :
    ∃ pre encoded, w = pre ++ encoded ∧ Wrote (p.encodeTo codecs) encoded ∧
      IsLengthOf encoded.length flexible pre ∧
      ∀ suffix, cond flexible getCompactBytesOwned getBytesOwned (w ++ suffix) = .ok (encoded, suffix) := by
  obtain ⟨pre, encoded, rfl, hencoded, hpre⟩ := wrote_encodeLengthPrefixed h
  exact ⟨pre, encoded, rfl, hencoded, hpre, reads_of_isLengthOf hpre⟩

/-- One batch in a field of a flexible version. -/
theorem lengthPrefixed_oneRecordBatch :
    ∃ encoded, Wrote ((RecordsPayload.v2 [{ records := [{ value := some [42], headers := [⟨"k", none⟩] }] }]
        ).encodeTo Codecs.disabled) encoded ∧
      getCompactBytesOwned (73 :: oneRecordBatch ++ [1, 2]) = .ok (encoded, [1, 2]) := by
  obtain ⟨pre, encoded, -, hencoded, -, hread⟩ := lengthPrefixed_carries_its_length Codecs.disabled
    (.v2 [{ records := [{ value := some [42], headers := [⟨"k", none⟩] }] }]) 0 true
    (w := 73 :: oneRecordBatch)
    (congrArg₂ Output.mk (by decide +kernel) (by decide +kernel))
  exact ⟨encoded, hencoded, hread [1, 2]⟩

end RecordsPayload

namespace RecordsPayloadBorrowed

/-- A borrowed payload is predictable when the payload is that it is encoded as. -/
def Predictable (codecs : Codecs) (p : RecordsPayloadBorrowed) : Prop :=
  ∀ owned, p.toOwned = .ok owned → owned.Predictable codecs

def wireLen (codecs : Codecs) (p : RecordsPayloadBorrowed) : Nat :=
  match p.toOwned with
  | .ok owned => owned.wireLen codecs
  | .error _ => 0

/-- Making a payload owned changes no announced length. -/
theorem payloadLen_of_toOwned {p : RecordsPayloadBorrowed} {owned : RecordsPayload}
    (h : p.toOwned = .ok owned) : p.payloadLen = owned.payloadLen := by
  cases p with
  | v2 batches =>
      obtain ⟨bs, hbs, rfl⟩ := Results.map_eq_ok.mp h
      have hall := Results.mapM_eq_ok.mp hbs
      clear h hbs
      unfold payloadLen RecordsPayload.payloadLen
      induction hall with
      | nil => rfl
      | cons hb _ ih =>
          have hlen : BorrowedBatch.encodedLen _ = _ := congrArg (fun x => match x with
            | Except.ok owned => RecordBatch.encodedBatchLen owned
            | .error _ => 0) hb
          simp only [List.map_cons, List.sum_cons] at ih ⊢
          rw [ih, hlen]
  | legacy b =>
      cases h
      rfl

/-- What a borrowed batch is encoded as. -/
theorem encode_eq_ok [CrcFast] {b : BorrowedBatch} {out : Bytes} :
    b.encode codecs = .ok out ↔ ∃ owned, b.toOwned = .ok owned ∧ owned.encodeBatch codecs = .ok out := by
  unfold BorrowedBatch.encode
  rw [Results.mapError_eq_ok, Results.bind_eq_ok]

/-- **A borrowed payload is encoded as the owned payload that it converts to.** -/
theorem wrote_encode [CrcFast] {p : RecordsPayloadBorrowed} {version : Int16} {w : Bytes}
    (h : Wrote (p.encode codecs version) w) :
    ∃ owned, p.toOwned = .ok owned ∧ Wrote (owned.encode codecs version) w := by
  have hw : Wrote (p.encodeTo codecs) w := wrote_inProtocol.mp h
  cases p with
  | v2 batches =>
      clear h
      induction batches generalizing w with
      | nil => exact ⟨.v2 [], rfl, wrote_inProtocol.mpr hw⟩
      | cons b rest ih =>
          obtain ⟨w₁, w₂, h₁, h₂, rfl⟩ := wrote_bind.mp hw
          obtain ⟨first, hfirst, hout⟩ := encode_eq_ok.mp (wrote_putResult.mp h₁)
          obtain ⟨owned, howned, hrest⟩ := ih h₂
          obtain ⟨bs, hbs, rfl⟩ := Results.map_eq_ok.mp howned
          refine ⟨.v2 (first :: bs), ?_, ?_⟩
          · refine Results.map_eq_ok.mpr ⟨first :: bs, ?_, rfl⟩
            rw [Results.mapM_eq_ok] at hbs ⊢
            exact .cons hfirst hbs
          · refine wrote_inProtocol.mpr (wrote_bind.mpr ⟨w₁, w₂, ?_, wrote_inProtocol.mp hrest, rfl⟩)
            exact wrote_putResult.mpr hout
  | legacy b => exact ⟨.legacy b, rfl, wrote_inProtocol.mpr hw⟩

/-- So is a borrowed payload. -/
theorem sized_encode [CrcFast] (p : RecordsPayloadBorrowed) (version : Int16) :
    Sized (p.encode codecs version) (p.wireLen codecs) := by
  intro w h
  obtain ⟨owned, howned, hw⟩ := wrote_encode h
  unfold wireLen
  rw [howned]
  exact owned.sized_encode version w hw

theorem wireLen_eq_iff [CrcFast] {p : RecordsPayloadBorrowed} {version : Int16} {w : Bytes}
    (h : Wrote (p.encode codecs version) w) :
    p.wireLen codecs = p.encodedLen version ↔ p.Predictable codecs := by
  obtain ⟨owned, howned, -⟩ := wrote_encode h
  have hlen : p.encodedLen version = owned.encodedLen version := payloadLen_of_toOwned howned
  have hpredictable : p.Predictable codecs ↔ owned.Predictable codecs := by
    unfold Predictable
    rw [howned]
    exact ⟨fun h => h owned rfl, fun h _ heq => Except.ok.inj heq ▸ h⟩
  unfold wireLen
  rw [howned, hlen, hpredictable]
  exact owned.wireLen_eq_iff version

/-- A records field, prefix and all. -/
theorem sized_putField [CrcFast] (p : RecordsPayloadBorrowed) (version : Int16) (flexible : Bool) :
    Sized (p.putField codecs version flexible) (fieldSize flexible (p.wireLen codecs)) := by
  intro w h
  obtain ⟨encoded, hencoded, hrest⟩ := wrote_buffered h
  rw [← p.sized_encode version encoded hencoded]
  exact (sized_putCompactBytes encoded).ite (sized_putBytes encoded) w hrest

end RecordsPayloadBorrowed

end Krabka.Protocol.Records
