import Krabka.Protocol.Records.FetchLeniency
import Krabka.Protocol.ControlRecords
import Krabka.Protocol.MetadataValue

/-!
# `Protocol.BootstrapCheckpoint` — the bootstrap checkpoint

`records/metadata/checkpoint.rs`: the file that a formatted node starts its metadata log from. It is three
batches: a snapshot header, the feature levels in order, and a snapshot footer behind the last of them. One
is built for every list that a batch has room for, and the reader of records fields and the decoders of
control and metadata records give the list back (`bootstrapCheckpoint_reads_back`).
-/

namespace Krabka.Protocol

open ByteStream Reader Output Records MetadataValue Results

/-! ## Building the checkpoint

Every record is framed with its key and version, and the offsets run on from batch to batch. -/

def featureLevelApiVersion : Int16 := 0

/-- The generated codecs of the metadata records. Those of the other types are a parameter. -/
def metadataCodecs (other : MetadataRecordType → BodyCodec) : MetadataRecordType → BodyCodec
  | .featureLevel => ⟨FeatureLevelRecord, FeatureLevelRecord.encode, FeatureLevelRecord.decode⟩
  | t => other t

section
variable (other : MetadataRecordType → BodyCodec)

def featureLevel (name : String) (level : Int16) : KraftMetadataRecord (metadataCodecs other) :=
  .known .featureLevel (⟨name, level, []⟩ : FeatureLevelRecord)

/-- The record of the `i`-th feature. -/
def featureRecord (i : Nat) (name : String) (level : Int16) : Except ProtocolError Record := do
  let offsetDelta ← okOr (.invalidValue "too many bootstrap features") (FixedWidth.i32OfLen i)
  let value ← KraftMetadataRecord.encodeValue (featureLevel other name level) featureLevelApiVersion
  return { offsetDelta := offsetDelta, value := some value }

/-- The data batch behind the header. -/
def featureBatch (records : List Record) : RecordBatch where
  baseOffset := 1
  lastOffsetDelta := (FixedWidth.i32OfLen (records.length - 1)).getD 0
  records := records

def buildBootstrapCheckpoint [CrcFast] (codecs : Compression.Codecs) (features : List (String × Int16)) :
    Except ProtocolError Bytes := do
  let headerBody ← PartitionRecord.encodeToBytes (SnapshotHeaderRecord.encode {} 0)
  let header ← encodeControlBatch codecs 0 (controlRecordKey .snapshotHeader) headerBody
  let records ← features.zipIdx.mapM fun e => featureRecord other e.2 e.1.1 e.1.2
  let data ← ((featureBatch records).encodeBatch codecs).mapError RecordsError.protocol
  let count ← okOr (.invalidValue "too many bootstrap features") (FixedWidth.i64OfLen features.length)
  let footerBody ← PartitionRecord.encodeToBytes (SnapshotFooterRecord.encode {} 0)
  let footer ← encodeControlBatch codecs (1 + count) (controlRecordKey .snapshotFooter) footerBody
  return header ++ (data ++ footer)

/-! ## Reading it

The three batches come back one by one, and the records in the middle one are the levels in order. -/

/-- The record is at the offset of the `i`-th feature and decodes to its level. -/
def HoldsFeature (e : (String × Int16) × Nat) (r : Record) : Prop :=
  r.offsetDelta.toInt = e.2 ∧ ∃ value, r.value = some value ∧
    KraftMetadataRecord.decodeValue (metadataCodecs other) value =
      .ok (featureLevel other e.1.1 e.1.2, featureLevelApiVersion)

/-- The batch is behind the header, is no control batch and holds the levels in order. -/
structure HoldsFeatures (b : RecordBatch) (features : List (String × Int16)) : Prop where
  offset : b.baseOffset = 1
  control : b.attributes.isControlBatch = false
  records : List.Forall₂ (HoldsFeature other) features.zipIdx b.records

variable {other}

theorem encodeValue_featureLevel {name : String} {level : Int16} {value : Bytes}
    (h : KraftMetadataRecord.encodeValue (featureLevel other name level) featureLevelApiVersion = .ok value) :
    ∃ w, Wrote (FeatureLevelRecord.encode ⟨name, level, []⟩ 0) w ∧
      value = MetadataValue.encodeValue MetadataRecordType.featureLevel.apiKey 0 w := by
  obtain ⟨w, hw, h⟩ := bind_eq_ok.mp h
  cases h
  exact ⟨w, PartitionRecord.encodeToBytes_eq_ok.mp hw, rfl⟩

/-- A name that was written fits its prefix. -/
theorem fits_of_wrote {name : String} {level : Int16} {w : Bytes}
    (h : Wrote (FeatureLevelRecord.encode ⟨name, level, []⟩ 0) w) :
    FeatureLevelRecord.Fits ⟨name, level, []⟩ := by
  obtain ⟨w₁, w₂, hname, -, -⟩ := wrote_bind.mp h
  obtain ⟨w₃, w₄, hlen, -, -⟩ := wrote_bind.mp hname
  obtain ⟨n, -, hne, hn⟩ := wrote_putCompactLength hlen
  refine ⟨?_, fits_noTags⟩
  have hle : (1 : UInt32) ≤ n := by
    rw [UInt32.le_iff_toNat_le]
    have hpos : n.toNat ≠ 0 := fun hz => hne (UInt32.toNat_inj.mp hz)
    show 1 ≤ n.toNat
    omega
  rw [UInt32.toNat_sub_of_le _ 1 hle] at hn
  have hlt := n.toNat_lt
  show name.utf8ByteSize + 1 < 2 ^ 32
  change n.toNat - 1 = name.utf8ByteSize at hn
  omega

theorem holdsFeature {e : (String × Int16) × Nat} {r : Record}
    (h : featureRecord other e.2 e.1.1 e.1.2 = .ok r) : HoldsFeature other e r := by
  obtain ⟨offsetDelta, hoffset, h⟩ := bind_eq_ok.mp h
  obtain ⟨value, hvalue, h⟩ := bind_eq_ok.mp h
  cases h
  refine ⟨FixedWidth.i32OfLen_eq_some.mp (okOr_eq_ok.mp hoffset), value, rfl, ?_⟩
  obtain ⟨w, hw, rfl⟩ := encodeValue_featureLevel hvalue
  obtain ⟨w', hw', -, hreads, -⟩ := FeatureLevelRecord.exact (fits_of_wrote hw)
    (by decide : FeatureLevelRecord.minVersion ≤ 0 ∧ 0 ≤ FeatureLevelRecord.maxVersion)
  have hsame : w = w' := congrArg Output.out (hw.symm.trans hw')
  subst hsame
  exact @KraftMetadataRecord.decodeValue_known (metadataCodecs other) .featureLevel 0 0 _ _ rfl hreads

variable {codecs : Compression.Codecs}

/-- The value that the checkpoint gives a control record is the one it is decoded from. -/
theorem holdsControl_of_body {r : ControlRecord} (hfits : r.Fits) {body : Bytes}
    (hbody : PartitionRecord.encodeToBytes r.encodeBody = .ok body) (offset : Int64) :
    HoldsControl (controlBatch offset (controlRecordKey r.recordType) body) offset r := by
  obtain ⟨value, hvalue, -, hdecode⟩ := ControlRecord.decode_encodeKeyValue hfits
  obtain ⟨value', hvalue', heq⟩ := bind_eq_ok.mp hvalue
  cases heq
  cases hbody.symm.trans hvalue'
  exact holdsControl_controlBatch offset hdecode

theorem featureBatch_plain (records : List Record) :
    (featureBatch records).attributes.compression = .none ∧
      (featureBatch records).attributes.isControlBatch = false := by
  show (⟨0⟩ : Attributes).compression = .none ∧ (⟨0⟩ : Attributes).isControlBatch = false
  decide

theorem toInt_one_add {n : Nat} {count : Int64} (hn : n < 2 ^ 31) (h : FixedWidth.i64OfLen n = some count) :
    (1 + count).toInt = 1 + n := by
  rw [(FixedWidth.i64OfLen_eq_some_ofNat.mp h).2, Int64.toInt_add, Int64.toInt_ofNat_of_lt (by omega)]
  show Int.bmod (1 + n) (2 ^ 64) = 1 + n
  exact Int.bmod_eq_of_le (by omega) (by omega)

/-- What is built is three batches and nothing else: a snapshot header at offset 0, a batch from offset 1 on
    that holds the features in order, each under its own offset, and a snapshot footer behind the last. -/
theorem batches_of_built [CrcFast] {features : List (String × Int16)} {out : Bytes}
    (h : buildBootstrapCheckpoint other codecs features = .ok out) :
    ∃ (header data footer : RecordBatch) (footerOffset : Int64),
      Records.fromBytes codecs out = .ok (.v2 [header, data, footer]) ∧
      HoldsControl header 0 (.snapshotHeader {}) ∧ HoldsFeatures other data features ∧
      footerOffset.toInt = 1 + features.length ∧ HoldsControl footer footerOffset (.snapshotFooter {}) := by
  obtain ⟨headerBody, hheaderBody, h⟩ := bind_eq_ok.mp h
  obtain ⟨header, hheader, h⟩ := bind_eq_ok.mp h
  obtain ⟨records, hrecords, h⟩ := bind_eq_ok.mp h
  obtain ⟨data, hdata, h⟩ := bind_eq_ok.mp h
  obtain ⟨count, hcount, h⟩ := bind_eq_ok.mp h
  obtain ⟨footerBody, hfooterBody, h⟩ := bind_eq_ok.mp h
  obtain ⟨footer, hfooter, h⟩ := bind_eq_ok.mp h
  cases h
  have hread := RecordBatch.decodeBatch_encodeBatch (featureBatch_plain records).1 (mapError_eq_ok.mp hdata)
  have hwhole := fun {w b} (hw : ∀ rest, decodeBatch codecs (w ++ rest) = (.ok b, rest)) =>
    show Records.Encodes codecs w b from by
      have hnil := hw []
      rwa [List.append_nil] at hnil
  have hencodes : List.Forall₂ (Records.Encodes codecs) [header, data, footer]
      [controlBatch 0 (controlRecordKey .snapshotHeader) headerBody, featureBatch records,
        controlBatch (1 + count) (controlRecordKey .snapshotFooter) footerBody] :=
    .cons (hwhole (decodeBatch_encodeControlBatch hheader)) (.cons (hwhole fun rest => (hread rest).1)
      (.cons (hwhole (decodeBatch_encodeControlBatch hfooter)) .nil))
  have hheaderHolds := @holdsControl_of_body (.snapshotHeader {}) ⟨fits_noTags, by decide⟩ headerBody
    hheaderBody 0
  have hfooterHolds := @holdsControl_of_body (.snapshotFooter {}) ⟨fits_noTags, by decide⟩ footerBody
    hfooterBody (1 + count)
  refine ⟨_, _, _, 1 + count, ?_, hheaderHolds, ⟨rfl, (featureBatch_plain records).2, ?_⟩, ?_, hfooterHolds⟩
  · have hstrict := (Records.fromFetchBytes_v2 hencodes (List.cons_ne_nil _ _) []).2
    rw [Records.ownedBatches_empty] at hstrict
    rw [show header ++ (data ++ footer) = [header, data, footer].flatten ++ [] by simp, hstrict]
    rfl
  · exact (mapM_eq_ok.mp hrecords).imp fun _ _ => holdsFeature
  · have hlen := (mapM_eq_ok.mp hrecords).length_eq
    rw [List.length_zipIdx] at hlen
    have hfits := (RecordBatch.encodeBatch_ok_iff (featureBatch_plain records).1).mp
      ⟨data, mapError_eq_ok.mp hdata⟩
    have hbound := hfits.count
    change records.length < 2 ^ 31 at hbound
    exact toInt_one_add (by omega) (okOr_eq_ok.mp hcount)

/-! ## What can be built

The bound adds up what the records take at most, so that every length fits an `i32`. -/

theorem usizeUvarintLen_le (v : Nat) : usizeUvarintLen v ≤ 10 := by
  unfold usizeUvarintLen WireInt.varintLen
  split <;> omega

/-- A name that is not too long gives a record, which takes little more than the name. -/
theorem featureRecord_isOk {i : Nat} {name : String} {level : Int16} (hi : i < 2 ^ 31)
    (hname : name.utf8ByteSize + 57 < 2 ^ 31) :
    ∃ r, featureRecord other i name level = .ok r ∧ r.Fits ∧ r.encodedLen ≤ name.utf8ByteSize + 57 := by
  have hfits : FeatureLevelRecord.Fits ⟨name, level, []⟩ := by
    refine ⟨?_, fits_noTags⟩
    show name.utf8ByteSize + 1 < 2 ^ 32
    omega
  obtain ⟨w, hw, hlen, -⟩ := FeatureLevelRecord.exact hfits
    (by decide : FeatureLevelRecord.minVersion ≤ 0 ∧ 0 ≤ FeatureLevelRecord.maxVersion)
  have hwlen : w.length ≤ name.utf8ByteSize + 13 := by
    have hprefix := usizeUvarintLen_le (name.utf8ByteSize + 1)
    have htags : unknownTaggedFieldsLen [] = 1 := by decide
    rw [hlen, FeatureLevelRecord.encodedLen, compactStringLen, htags]
    show usizeUvarintLen (name.utf8ByteSize + 1) + name.utf8ByteSize + 2 + 1 ≤ _
    omega
  have hvalue : KraftMetadataRecord.encodeValue (featureLevel other name level) featureLevelApiVersion =
      .ok (MetadataValue.encodeValue MetadataRecordType.featureLevel.apiKey 0 w) := by
    refine bind_eq_ok.mpr ⟨w, PartitionRecord.encodeToBytes_eq_ok.mpr hw, rfl⟩
  obtain ⟨value, hvalueEq⟩ :
      ∃ value, value = MetadataValue.encodeValue MetadataRecordType.featureLevel.apiKey 0 w := ⟨_, rfl⟩
  have hvalueLen : value.length = 3 + w.length := by
    rw [hvalueEq, length_encodeValue]
    rfl
  obtain ⟨hrecordFits, hrecordLen⟩ := @Record.encodedLen_le_of_noHeaders
    { offsetDelta := Int32.ofNat i, value := some value } rfl (Nat.two_pow_pos 31)
    (by simp only [Option.map_some, Option.getD_some, hvalueLen]; omega)
  refine ⟨_, ?_, hrecordFits, hrecordLen.trans ?_⟩
  · rw [← hvalueEq] at hvalue
    refine bind_eq_ok.mpr ⟨Int32.ofNat i, ?_, bind_eq_ok.mpr ⟨value, hvalue, rfl⟩⟩
    exact okOr_eq_ok.mpr (FixedWidth.i32OfLen_eq_some_ofNat.mpr ⟨hi, rfl⟩)
  · simp only [Option.map_none, Option.getD_none, Option.map_some, Option.getD_some, hvalueLen]
    omega

/-- Room for a batch of the features: each takes its name and little more. -/
def RoomFor (features : List (String × Int16)) : Prop :=
  (features.map fun f => f.1.utf8ByteSize + 57).sum + 49 < 2 ^ 31

theorem RoomFor.cons {f : String × Int16} {features : List (String × Int16)} (h : RoomFor (f :: features)) :
    f.1.utf8ByteSize + 57 < 2 ^ 31 ∧ RoomFor features := by
  unfold RoomFor at h ⊢
  rw [List.map_cons, List.sum_cons] at h
  omega

theorem RoomFor.length_lt {features : List (String × Int16)} (h : RoomFor features) :
    features.length < 2 ^ 31 := by
  have hle : features.length ≤ (features.map fun f => f.1.utf8ByteSize + 57).sum := by
    clear h
    induction features with
    | nil => exact Nat.zero_le _
    | cons f fs ih =>
      rw [List.length_cons, List.map_cons, List.sum_cons]
      omega
  unfold RoomFor at h
  omega

/-- The records of the features from the `k`-th on. -/
theorem featureRecords_isOk {features : List (String × Int16)} (h : RoomFor features) {k : Nat}
    (hk : k + features.length < 2 ^ 31) :
    ∃ records, (features.zipIdx k).mapM (fun e => featureRecord other e.2 e.1.1 e.1.2) = .ok records ∧
      (∀ r ∈ records, r.Fits) ∧ records.length = features.length ∧
      (records.map Record.encodedLen).sum ≤ (features.map fun f => f.1.utf8ByteSize + 57).sum := by
  induction features generalizing k with
  | nil => exact ⟨[], rfl, fun r hr => absurd hr List.not_mem_nil, rfl, le_rfl⟩
  | cons f fs ih =>
    obtain ⟨hf, hfs⟩ := h.cons
    rw [List.length_cons] at hk
    obtain ⟨r, hr, hrFits, hrLen⟩ := @featureRecord_isOk other k f.1 f.2 (by omega) hf
    obtain ⟨rs, hrs, hrsFits, hrsCount, hrsLen⟩ := @ih hfs (k + 1) (by omega)
    refine ⟨r :: rs, ?_, List.forall_mem_cons.mpr ⟨hrFits, hrsFits⟩, ?_, ?_⟩
    · rw [List.zipIdx_cons, mapM_eq_ok]
      exact .cons hr (mapM_eq_ok.mp hrs)
    · rw [List.length_cons, List.length_cons, hrsCount]
    · simp only [List.map_cons, List.sum_cons]
      omega

/-- A control record without a name or a list in it is built at every offset. -/
theorem controlBatch_isOk [CrcFast] {r : ControlRecord} (hfits : r.Fits) (hlen : r.encodedLen + 94 < 2 ^ 31)
    (offset : Int64) :
    ∃ body out, PartitionRecord.encodeToBytes r.encodeBody = .ok body ∧
      encodeControlBatch codecs offset (controlRecordKey r.recordType) body = .ok out := by
  obtain ⟨w, hw, hwlen, -⟩ := ControlRecord.exact_body hfits
  obtain ⟨out, hout⟩ := @encodeControlBatch_isOk codecs _ offset r.recordType w (by omega)
  exact ⟨w, out, PartitionRecord.encodeToBytes_eq_ok.mpr hw, hout⟩

/-- A checkpoint is built for every list of features that a batch has room for. -/
theorem buildBootstrapCheckpoint_isOk [CrcFast] {features : List (String × Int16)} (h : RoomFor features) :
    ∃ out, buildBootstrapCheckpoint other codecs features = .ok out := by
  have hcount := h.length_lt
  obtain ⟨headerBody, header, hheaderBody, hheader⟩ :=
    @controlBatch_isOk codecs _ (.snapshotHeader {}) ⟨fits_noTags, by decide⟩ (by decide) 0
  obtain ⟨records, hrecords, hfits, hlength, hsum⟩ := @featureRecords_isOk other features h 0 (by omega)
  have hbatch : (featureBatch records).Fits := by
    refine ⟨hfits, ?_, ?_⟩
    · show records.length < 2 ^ 31
      omega
    · show (records.map Record.encodedLen).sum + 49 < 2 ^ 31
      unfold RoomFor at h
      omega
  obtain ⟨data, hdata⟩ := (RecordBatch.encodeBatch_ok_iff (featureBatch_plain records).1).mpr hbatch
  obtain ⟨footerBody, footer, hfooterBody, hfooter⟩ := @controlBatch_isOk codecs _ (.snapshotFooter {})
    ⟨fits_noTags, by decide⟩ (by decide) (1 + Int64.ofNat features.length)
  have hlen : FixedWidth.i64OfLen features.length = some (Int64.ofNat features.length) :=
    FixedWidth.i64OfLen_eq_some_ofNat.mpr ⟨by omega, rfl⟩
  refine ⟨header ++ (data ++ footer), ?_⟩
  refine bind_eq_ok.mpr ⟨headerBody, hheaderBody, bind_eq_ok.mpr ⟨header, hheader, ?_⟩⟩
  refine bind_eq_ok.mpr ⟨records, hrecords, bind_eq_ok.mpr ⟨data, mapError_eq_ok.mpr hdata, ?_⟩⟩
  refine bind_eq_ok.mpr ⟨_, okOr_eq_ok.mpr hlen, bind_eq_ok.mpr ⟨footerBody, hfooterBody, ?_⟩⟩
  exact bind_eq_ok.mpr ⟨footer, hfooter, rfl⟩

variable (other codecs)

/-- **A checkpoint is read back as what it was built from.** One is built for every list of features that a
    batch has room for, and every one that is built is read as a header, the features in order, and a
    footer. -/
theorem bootstrapCheckpoint_reads_back [CrcFast] (features : List (String × Int16)) :
    (RoomFor features → ∃ out, buildBootstrapCheckpoint other codecs features = .ok out) ∧
      ∀ out, buildBootstrapCheckpoint other codecs features = .ok out →
        ∃ (header data footer : RecordBatch) (footerOffset : Int64),
          Records.fromBytes codecs out = .ok (.v2 [header, data, footer]) ∧
          HoldsControl header 0 (.snapshotHeader {}) ∧ HoldsFeatures other data features ∧
          footerOffset.toInt = 1 + features.length ∧ HoldsControl footer footerOffset (.snapshotFooter {}) :=
  ⟨buildBootstrapCheckpoint_isOk, fun _ => batches_of_built⟩

end

end Krabka.Protocol
