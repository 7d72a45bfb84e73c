import Krabka.Lib.BigEndian
import Krabka.Protocol.KraftMessages
import Krabka.Protocol.Records.Payload
import Krabka.Protocol.Records.Reencoding

/-!
# `Protocol.ControlRecords` — KRaft's control records

`records/metadata/control.rs`: the key of a control record names its type, the value is a generated message
that starts with its own version, and the pair is the only record of a batch with the control bit set. What is
written is read back, through the batch and all its lengths (`controlBatch_reads_back`).
-/

namespace Krabka.Protocol

open ByteStream Reader Output Records

/-! ## The control bit

One bit of the attributes, apart from those of the compression. -/

def Records.Attributes.controlBit : Int16 := 0x20

def Records.Attributes.isControlBatch (a : Attributes) : Bool := a.bits &&& Attributes.controlBit ≠ 0

def Records.Attributes.withControl (a : Attributes) (b : Bool) : Attributes :=
  if b then ⟨a.bits ||| Attributes.controlBit⟩ else ⟨a.bits &&& ~~~Attributes.controlBit⟩

/-! ## Keys

A version and a type. A type that is not assigned is refused. -/

inductive ControlRecordType where
  | leaderChange
  | snapshotHeader
  | snapshotFooter
  | kRaftVersion
  | voters
deriving DecidableEq, Repr

namespace ControlRecordType

/-- `ty as i16`. -/
def toI16 : ControlRecordType → Int16
  | .leaderChange => 2
  | .snapshotHeader => 3
  | .snapshotFooter => 4
  | .kRaftVersion => 5
  | .voters => 6

def tryFrom : Int16 → Except ProtocolError ControlRecordType
  | 2 => .ok .leaderChange
  | 3 => .ok .snapshotHeader
  | 4 => .ok .snapshotFooter
  | 5 => .ok .kRaftVersion
  | 6 => .ok .voters
  | _ => .error (.invalidValue "unknown control record type")

theorem tryFrom_eq_ok {v : Int16} {t : ControlRecordType} : tryFrom v = .ok t ↔ v = t.toI16 := by
  constructor
  · intro h
    unfold tryFrom at h
    split at h <;> cases h <;> rfl
  · rintro rfl
    cases t <;> rfl

end ControlRecordType

def controlKeyVersion : Int16 := 0

def controlRecordKey (t : ControlRecordType) : Bytes := putI16 controlKeyVersion ++ putI16 t.toI16

/-- The type behind the key version. -/
def getControlRecordType : Decode ControlRecordType := do
  let v ← getI16
  match ControlRecordType.tryFrom v with
  | .error e => throw e
  | .ok t => do
      let left ← remaining
      if left ≠ 0 then throw (.invalidValue "trailing bytes after control record key") else return t

def getControlRecordKey : Decode ControlRecordType := do
  let left ← remaining
  if left < 4 then throw (.unexpectedEof (4 - left))
  else do
    let version ← getI16
    if version ≠ controlKeyVersion then throw (.invalidValue "unsupported control record key version")
    else getControlRecordType

def decodeControlRecordKey (key : Bytes) : Except ProtocolError ControlRecordType :=
  Prod.fst <$> getControlRecordKey key

theorem getI16_eq_ok {bs rest : Bytes} {v : Int16} (h : getI16 bs = .ok (v, rest)) : bs = putI16 v ++ rest := by
  obtain ⟨w, mid, hw, h⟩ := bind_eq_ok.mp h
  cases h
  obtain ⟨rfl, hlen⟩ := take_eq_ok.mp hw
  rw [putI16, i16OfBE, Int16.toBitVec_ofBitVec, WireInt.putBE_toNat_ofBE hlen rfl]

/-- **The accepted keys are the written ones.** -/
theorem decodeControlRecordKey_eq_ok {key : Bytes} {t : ControlRecordType} :
    decodeControlRecordKey key = .ok t ↔ key = controlRecordKey t := by
  unfold decodeControlRecordKey getControlRecordKey getControlRecordType
  simp only [Results.map_eq_ok, Prod.exists, exists_and_right, exists_eq_right]
  constructor
  · rintro ⟨rest, h⟩
    obtain ⟨left, mid, hleft, h⟩ := bind_eq_ok.mp h
    cases hleft
    split at h
    · cases h
    · obtain ⟨version, mid, hversion, h⟩ := bind_eq_ok.mp h
      split at h
      · cases h
      · rename_i hzero
        obtain ⟨v, mid', hv, h⟩ := bind_eq_ok.mp h
        cases ht : ControlRecordType.tryFrom v with
        | error e =>
            rw [ht] at h
            cases h
        | ok t' =>
            rw [ht] at h
            obtain ⟨left, mid'', hleft, h⟩ := bind_eq_ok.mp h
            cases hleft
            split at h
            · cases h
            · rename_i hnil
              cases h
              rw [getI16_eq_ok hversion, getI16_eq_ok hv, not_not.mp hzero,
                List.length_eq_zero_iff.mp (not_not.mp hnil), ControlRecordType.tryFrom_eq_ok.mp ht,
                List.append_nil]
              rfl
  · rintro rfl
    exact ⟨[], by cases t <;> rfl⟩

/-! ## Control records

The type picks the message. The first field of the message is its version, and it is read at that version. -/

inductive ControlRecord where
  | leaderChange (m : LeaderChangeMessage)
  | snapshotHeader (m : SnapshotHeaderRecord)
  | snapshotFooter (m : SnapshotFooterRecord)
  | kRaftVersion (m : KRaftVersionRecord)
  | voters (m : VotersRecord)
deriving DecidableEq

namespace ControlRecord

def recordType : ControlRecord → ControlRecordType
  | .leaderChange _ => .leaderChange
  | .snapshotHeader _ => .snapshotHeader
  | .snapshotFooter _ => .snapshotFooter
  | .kRaftVersion _ => .kRaftVersion
  | .voters _ => .voters

/-- The version that the record states, which it is also encoded at. -/
def version : ControlRecord → Int16
  | .leaderChange m => m.version
  | .snapshotHeader m => m.version
  | .snapshotFooter m => m.version
  | .kRaftVersion m => m.version
  | .voters m => m.version

def encodeBody : ControlRecord → Encode
  | .leaderChange m => m.encode m.version
  | .snapshotHeader m => m.encode m.version
  | .snapshotFooter m => m.encode m.version
  | .kRaftVersion m => m.encode m.version
  | .voters m => m.encode m.version

def encodeKeyValue (r : ControlRecord) : Except ProtocolError (Bytes × Bytes) := do
  let value ← PartitionRecord.encodeToBytes r.encodeBody
  return (controlRecordKey r.recordType, value)

def decodeBody (t : ControlRecordType) (version : Int16) : Decode ControlRecord :=
  match t with
  | .leaderChange => ControlRecord.leaderChange <$> LeaderChangeMessage.decode version
  | .snapshotHeader => ControlRecord.snapshotHeader <$> SnapshotHeaderRecord.decode version
  | .snapshotFooter => ControlRecord.snapshotFooter <$> SnapshotFooterRecord.decode version
  | .kRaftVersion => ControlRecord.kRaftVersion <$> KRaftVersionRecord.decode version
  | .voters => ControlRecord.voters <$> VotersRecord.decode version

/-- The codec of the stated version must take the whole value, the version included. -/
def decodeValue (t : ControlRecordType) (value : Bytes) : Except ProtocolError ControlRecord :=
  if value.length < 2 then .error (.unexpectedEof (2 - value.length))
  else
    match decodeBody t (i16OfBE (value.take 2)) value with
    | .error e => .error e
    | .ok (r, []) => .ok r
    | .ok (_, _ :: _) => .error (.invalidValue "trailing bytes after control record value")

def decode (key value : Bytes) : Except ProtocolError ControlRecord := do
  let t ← decodeControlRecordKey key
  decodeValue t value

/-- Every length of the record fits the wire, and the version that it states is one of the message's and
    carries every field that it sets. -/
def Fits : ControlRecord → Prop
  | .leaderChange m => m.Fits m.version ∧
      LeaderChangeMessage.minVersion ≤ m.version ∧ m.version ≤ LeaderChangeMessage.maxVersion
  | .snapshotHeader m => m.Fits ∧
      SnapshotHeaderRecord.minVersion ≤ m.version ∧ m.version ≤ SnapshotHeaderRecord.maxVersion
  | .snapshotFooter m => m.Fits ∧
      SnapshotFooterRecord.minVersion ≤ m.version ∧ m.version ≤ SnapshotFooterRecord.maxVersion
  | .kRaftVersion m => m.Fits ∧
      KRaftVersionRecord.minVersion ≤ m.version ∧ m.version ≤ KRaftVersionRecord.maxVersion
  | .voters m => m.Fits ∧ VotersRecord.minVersion ≤ m.version ∧ m.version ≤ VotersRecord.maxVersion

def encodedLen : ControlRecord → Nat
  | .leaderChange m => m.encodedLen m.version
  | .snapshotHeader m => m.encodedLen m.version
  | .snapshotFooter m => m.encodedLen m.version
  | .kRaftVersion m => m.encodedLen m.version
  | .voters m => m.encodedLen m.version

/-- The codec of each kind is exact at the version that the record states. -/
theorem exact_body {r : ControlRecord} (h : r.Fits) :
    Exact r.encodeBody r.encodedLen (decodeBody r.recordType r.version) r := by
  cases r with
  | leaderChange m => exact (LeaderChangeMessage.exact h.1 h.2).map ControlRecord.leaderChange
  | snapshotHeader m => exact (SnapshotHeaderRecord.exact h.1 h.2).map ControlRecord.snapshotHeader
  | snapshotFooter m => exact (SnapshotFooterRecord.exact h.1 h.2).map ControlRecord.snapshotFooter
  | kRaftVersion m => exact (KRaftVersionRecord.exact h.1 h.2).map ControlRecord.kRaftVersion
  | voters m => exact (VotersRecord.exact h.1 h.2).map ControlRecord.voters

theorem wrote_versioned {text : String} {version min max : Int16} {rest : Encode} {w : Bytes}
    (h : Wrote (checkRangeEncode text version min max (put (putI16 version) >>= fun _ => rest)) w) :
    ∃ w', w = putI16 version ++ w' := by
  unfold checkRangeEncode at h
  split at h
  · obtain ⟨w₁, w₂, h₁, -, rfl⟩ := wrote_bind.mp h
    cases wrote_put.mp h₁
    exact ⟨w₂, rfl⟩
  · exact absurd h not_wrote_fail

/-- Every message writes its own version first. -/
theorem encodeBody_starts {r : ControlRecord} {w : Bytes} (h : Wrote r.encodeBody w) :
    ∃ w', w = putI16 r.version ++ w' := by
  cases r with
  | leaderChange m => exact wrote_versioned h
  | snapshotHeader m => exact wrote_versioned h
  | snapshotFooter m => exact wrote_versioned h
  | kRaftVersion m => exact wrote_versioned h
  | voters m => exact wrote_versioned h

/-- **A control record comes back from its key and value.** -/
theorem decode_encodeKeyValue {r : ControlRecord} (h : r.Fits) :
    ∃ value, r.encodeKeyValue = .ok (controlRecordKey r.recordType, value) ∧
      value.length = r.encodedLen ∧ decode (controlRecordKey r.recordType) value = .ok r := by
  obtain ⟨w, hw, hlen, hreads, -⟩ := exact_body h
  obtain ⟨w', hw'⟩ := encodeBody_starts hw
  refine ⟨w, ?_, hlen, ?_⟩
  · unfold encodeKeyValue
    rw [PartitionRecord.encodeToBytes_eq_ok.mpr hw]
    rfl
  · have htake : w.take 2 = putI16 r.version := by
      rw [hw', List.take_left' (length_putI16 _)]
    have hlong : ¬w.length < 2 := by
      rw [hw', List.length_append, length_putI16]
      omega
    have hall := Reads.all hreads
    unfold decode
    rw [decodeControlRecordKey_eq_ok.mpr rfl]
    show decodeValue r.recordType w = .ok r
    unfold decodeValue
    rw [if_neg hlong, htake, i16OfBE_putI16, hall]

end ControlRecord

/-! ## Control batches

One record in a batch with the bit set, and every length on the way. -/

/-- The only record of a control batch. -/
def controlBatch (baseOffset : Int64) (key value : Bytes) : RecordBatch where
  baseOffset := baseOffset
  attributes := (⟨0⟩ : Attributes).withControl true
  records := [{ key := some key, value := some value }]

theorem controlBatch_plain (baseOffset : Int64) (key value : Bytes) :
    (controlBatch baseOffset key value).attributes.compression = .none ∧
      (controlBatch baseOffset key value).attributes.isControlBatch = true := by
  show ((⟨0⟩ : Attributes).withControl true).compression = .none ∧
    ((⟨0⟩ : Attributes).withControl true).isControlBatch = true
  decide

def encodeControlBatch [CrcFast] (codecs : Compression.Codecs) (baseOffset : Int64) (key value : Bytes) :
    Except ProtocolError Bytes :=
  ((controlBatch baseOffset key value).encodeBatch codecs).mapError RecordsError.protocol

def encodeTypedControlBatch [CrcFast] (codecs : Compression.Codecs) (baseOffset : Int64) (r : ControlRecord) :
    Except ProtocolError Bytes := do
  let (key, value) ← r.encodeKeyValue
  encodeControlBatch codecs baseOffset key value

variable {codecs : Compression.Codecs}

/-- A record without headers takes little beyond its key and value. -/
theorem Records.Record.encodedLen_le_of_noHeaders {r : Record} (hheaders : r.headers = [])
    (hkey : (r.key.map List.length).getD 0 < 2 ^ 31) (hvalue : (r.value.map List.length).getD 0 < 2 ^ 31) :
    r.Fits ∧ r.encodedLen ≤ (r.key.map List.length).getD 0 + (r.value.map List.length).getD 0 + 41 := by
  have hfield : ∀ o : Option Nat, fieldLen o ≤ 5 + o.getD 0 := by
    intro o
    cases o with
    | none => exact (varintLen_le _).trans (Nat.le_add_right _ _)
    | some n => exact Nat.add_le_add_right (varintLen_le _) n
  have hts := varlongLen_le r.timestampDelta
  have hod := varintLen_le r.offsetDelta
  have hcount := varintLen_le ((FixedWidth.i32OfLen r.headers.length).getD Int32.maxValue)
  have hk := hfield (r.key.map List.length)
  have hv := hfield (r.value.map List.length)
  have hbody : r.bodyLen ≤ (r.key.map List.length).getD 0 + (r.value.map List.length).getD 0 + 31 := by
    unfold Record.bodyLen bodyLenOf
    rw [List.length_map, hheaders, List.map_nil, List.map_nil, List.sum_nil]
    rw [hheaders] at hcount
    unfold maxVarlongBytes at hts
    unfold maxVarintBytes at hod hcount
    omega
  have hlen := varlongLen_le ((FixedWidth.i64OfLen r.bodyLen).getD Int64.maxValue)
  constructor
  · refine ⟨by omega, ?_, ?_, ?_, ?_⟩
    · intro bs hbs
      rw [Option.mem_def] at hbs
      rw [hbs] at hkey
      exact hkey
    · intro bs hbs
      rw [Option.mem_def] at hbs
      rw [hbs] at hvalue
      exact hvalue
    · rw [hheaders]
      decide
    · rw [hheaders]
      exact fun h hh => absurd hh List.not_mem_nil
  · unfold Record.encodedLen
    unfold maxVarlongBytes at hlen
    omega

/-- A control batch whose value leaves room for its header is encoded. -/
theorem encodeControlBatch_isOk [CrcFast] {baseOffset : Int64} {t : ControlRecordType} {value : Bytes}
    (h : value.length + 94 < 2 ^ 31) :
    ∃ out, encodeControlBatch codecs baseOffset (controlRecordKey t) value = .ok out := by
  have hkey : (controlRecordKey t).length = 4 := by
    rw [controlRecordKey, List.length_append, length_putI16, length_putI16]
  obtain ⟨hfits, hlen⟩ := @Record.encodedLen_le_of_noHeaders
    { key := some (controlRecordKey t), value := some value } rfl
    (by simp only [Option.map_some, Option.getD_some, hkey]; decide)
    (by simp only [Option.map_some, Option.getD_some]; omega)
  simp only [Option.map_some, Option.getD_some, hkey] at hlen
  have hbatch : (controlBatch baseOffset (controlRecordKey t) value).Fits := by
    refine ⟨fun r hr => ?_, by simp [controlBatch], ?_⟩
    · cases List.mem_singleton.mp hr
      exact hfits
    · simp only [controlBatch, List.map_cons, List.map_nil, List.sum_cons, List.sum_nil]
      omega
  obtain ⟨out, hout⟩ := (RecordBatch.encodeBatch_ok_iff (controlBatch_plain baseOffset _ value).1).mpr hbatch
  exact ⟨out, Results.mapError_eq_ok.mpr hout⟩

theorem decodeBatch_encodeControlBatch [CrcFast] {baseOffset : Int64} {key value out : Bytes}
    (h : encodeControlBatch codecs baseOffset key value = .ok out) (rest : Bytes) :
    decodeBatch codecs (out ++ rest) = (.ok (controlBatch baseOffset key value), rest) :=
  (RecordBatch.decodeBatch_encodeBatch (controlBatch_plain baseOffset key value).1
    (Results.mapError_eq_ok.mp h) rest).1

/-- The batch is at the offset, has the control bit set and holds the control record alone. -/
structure HoldsControl (b : RecordBatch) (offset : Int64) (r : ControlRecord) : Prop where
  offset : b.baseOffset = offset
  control : b.attributes.isControlBatch = true
  record : ∃ record key value, b.records = [record] ∧ record.key = some key ∧ record.value = some value ∧
    ControlRecord.decode key value = .ok r

theorem holdsControl_controlBatch {r : ControlRecord} {value : Bytes} (baseOffset : Int64)
    (h : ControlRecord.decode (controlRecordKey r.recordType) value = .ok r) :
    HoldsControl (controlBatch baseOffset (controlRecordKey r.recordType) value) baseOffset r :=
  ⟨rfl, (controlBatch_plain _ _ value).2, _, _, value, rfl, rfl, rfl, h⟩

/-- **A control batch is read back.** A control record that its stated version carries, whose lengths fit and whose
    value is not close to the largest batch is encoded, and in front of anything the bytes are read as one batch at the offset with the
    control bit set and one record, whose key and value are decoded to the control record. -/
theorem controlBatch_reads_back [CrcFast] {r : ControlRecord} (h : r.Fits) (hlen : r.encodedLen + 94 < 2 ^ 31)
    (baseOffset : Int64) :
    ∃ out, encodeTypedControlBatch codecs baseOffset r = .ok out ∧
      ∀ rest, ∃ batch, decodeBatch codecs (out ++ rest) = (.ok batch, rest) ∧
        HoldsControl batch baseOffset r := by
  obtain ⟨value, hencode, hvalue, hdecode⟩ := ControlRecord.decode_encodeKeyValue h
  obtain ⟨out, hout⟩ := @encodeControlBatch_isOk codecs _ baseOffset r.recordType value (by omega)
  refine ⟨out, ?_, fun rest => ?_⟩
  · unfold encodeTypedControlBatch
    rw [hencode]
    exact hout
  · exact ⟨_, decodeBatch_encodeControlBatch hout rest, holdsControl_controlBatch baseOffset hdecode⟩

/-- A leader change at version 1, with one voter that names its directory. -/
def leaderChangeSample : ControlRecord :=
  .leaderChange { version := 1, leaderId := 3, voters := [{ voterId := 3, voterDirectoryId := .zero }] }

theorem controlBatch_reads_back_leaderChange :
    ∃ out, encodeTypedControlBatch Compression.Codecs.disabled 7 leaderChangeSample = .ok out ∧
      ∀ rest, ∃ batch, decodeBatch Compression.Codecs.disabled (out ++ rest) = (.ok batch, rest) ∧
        HoldsControl batch 7 leaderChangeSample := by
  have hfits : leaderChangeSample.Fits := by
    refine ⟨⟨by decide, ?_, by decide, fun v hv => absurd hv List.not_mem_nil, fits_noTags⟩,
      by decide, by decide⟩
    intro v hv
    cases List.mem_singleton.mp hv
    exact ⟨fun _ => rfl, fits_noTags⟩
  exact controlBatch_reads_back hfits (by decide) 7

end Krabka.Protocol
