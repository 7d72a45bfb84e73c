import Krabka.Protocol.Primitives

/-!
# `Protocol.Produce` — the produce request and its framing walk

A produce request is decoded twice: by the generated `ProduceRequest::decode`, and by `produce_framing`,
which cuts the partitions' records out of the frame without parsing them. The generated decoder is
embedded with every partition's records left as the nullable bytes they are on the wire, so that the two
can be compared.

## Contents
- **Generated.** `ProduceRequest.decode` and its two nested decoders.
- **Framing.** `produceFraming`, one definition for each of its loops.
- **On the wire.** `WireRequest.read` is the request as it lies on the wire, where a topic name may be
  null. `produceFraming_eq_ok` and `decode_eq_ok` say what either walk makes of it.
-/

namespace Krabka.Protocol

open ByteStream Reader

namespace Produce

/-! ## The generated decoder

The fields of the request in the order of the schema, each under its versions. -/

def apiKey : Int16 := 0
def minVersion : Int16 := 3
def maxVersion : Int16 := 13
def flexibleMin : Int16 := 9

def isFlexible (version : Int16) : Bool := version ≥ flexibleMin

structure PartitionProduceData where
  index : Int32 := 0
  records : Option Bytes := none
  unknownTaggedFields : UnknownTaggedFields := []
deriving DecidableEq, Repr

structure TopicProduceData where
  name : String := ""
  topicId : Uuid := .zero
  partitionData : List PartitionProduceData := []
  unknownTaggedFields : UnknownTaggedFields := []
deriving DecidableEq, Repr

structure ProduceRequest where
  transactionalId : Option String := none
  acks : Int16 := 0
  timeoutMs : Int32 := 0
  topicData : List TopicProduceData := []
  unknownTaggedFields : UnknownTaggedFields := []
deriving DecidableEq, Repr

/-- No tag is known to the produce schema. -/
def noTags (_tag : UInt32) : Decode Bool := pure false

/-- An array behind its length. -/
def getArray {α : Type} (flexible : Bool) (d : Nat → Decode α) : Decode (List α) := do
  let n ← getArrayLen flexible
  times d n 0

def PartitionProduceData.decode (version : Int16) : Decode PartitionProduceData := do
  let flex := isFlexible version
  let index ← fieldIf (version ≥ 0) getI32 0
  let records ← fieldIf (version ≥ 0)
    (cond flex getCompactNullableBytesOwned getNullableBytesOwned) none
  let unknown ← fieldIf flex (readTaggedFields noTags) []
  return ⟨index, records, unknown⟩

def TopicProduceData.decode (version : Int16) : Decode TopicProduceData := do
  let flex := isFlexible version
  let name ← fieldIf (0 ≤ version ∧ version ≤ 12) (cond flex getCompactStringOwned getStringOwned) ""
  let topicId ← fieldIf (version ≥ 13) getUuid .zero
  let partitions ← fieldIf (version ≥ 0)
    (getArray flex (fun _ => PartitionProduceData.decode version)) []
  let unknown ← fieldIf flex (readTaggedFields noTags) []
  return ⟨name, topicId, partitions, unknown⟩

def ProduceRequest.decode (version : Int16) : Decode ProduceRequest :=
  if ¬(minVersion ≤ version ∧ version ≤ maxVersion) then
    throw (.unsupportedVersion apiKey version)
  else do
    let flex := isFlexible version
    let transactionalId ← fieldIf (version ≥ 3)
      (cond flex getCompactNullableStringOwned getNullableStringOwned) none
    let acks ← fieldIf (version ≥ 0) getI16 0
    let timeoutMs ← fieldIf (version ≥ 0) getI32 0
    let topics ← fieldIf (version ≥ 0) (getArray flex (fun _ => TopicProduceData.decode version)) []
    let unknown ← fieldIf flex (readTaggedFields noTags) []
    return ⟨transactionalId, acks, timeoutMs, topics, unknown⟩

/-! ## The framing walk

The same fields without what a proxy does not need, with the records as a range of the input. -/

/-- The `records` field of one topic and partition slot. -/
structure PartitionRecordSlice where
  topicIndex : Nat
  partitionIndex : Nat
  partition : Int32
  records : Option Bytes
deriving DecidableEq, Repr

structure ProduceFramingTopic where
  name : String := ""
  topicId : Uuid := .zero
  partitions : List PartitionRecordSlice := []
deriving DecidableEq, Repr

structure ProduceFraming where
  transactionalId : Option String := none
  acks : Int16 := 0
  timeoutMs : Int32 := 0
  topics : List ProduceFramingTopic := []
deriving DecidableEq, Repr

/-- A length prefix of either encoding, `none` for null. -/
def nullableLen (flex : Bool) : Decode (Option Nat) :=
  if flex then do
    let raw ← getUvarint
    if raw = 0 then return none else return some (raw - 1).toNat
  else do
    let n ← getI32
    return FixedWidth.usizeOfI32 n

def readNullableBytesSlice (flex : Bool) : Decode (Option Bytes) := do
  match ← nullableLen flex with
  | none => return none
  | some len => some <$> takeBytes len

/-- One round of the partition loop. -/
def framePartition (version : Int16) (topicIndex partitionIndex : Nat) :
    Decode PartitionRecordSlice := do
  let flex : Bool := version ≥ flexibleMin
  let partition ← getI32
  let records ← readNullableBytesSlice flex
  let _ ← fieldIf flex (readTaggedFields noTags) []
  return ⟨topicIndex, partitionIndex, partition, records⟩

/-- One round of the topic loop. A null name is the empty name. -/
def frameTopic (version : Int16) (topicIndex : Nat) : Decode ProduceFramingTopic := do
  let flex : Bool := version ≥ flexibleMin
  let name ← fieldIf (¬version > 12)
    ((Option.getD · "") <$> cond flex getCompactNullableStringOwned getNullableStringOwned) ""
  let topicId ← fieldIf (version ≥ 13) getUuid .zero
  let partitions ← getArray flex (framePartition version topicIndex)
  let _ ← fieldIf flex (readTaggedFields noTags) []
  return ⟨name, topicId, partitions⟩

/-- `produce_framing`. The source drops what the walk leaves of the body; here it is handed on. -/
def produceFraming (version : Int16) : Decode ProduceFraming := do
  let flex : Bool := version ≥ flexibleMin
  let transactionalId ← fieldIf (version ≥ 3)
    (cond flex getCompactNullableStringOwned getNullableStringOwned) none
  let acks ← getI16
  let timeoutMs ← getI32
  let topics ← getArray flex (frameTopic version)
  let _ ← fieldIf flex (readTaggedFields noTags) []
  return ⟨transactionalId, acks, timeoutMs, topics⟩

/-- What the framing keeps of a decoded request. -/
def PartitionProduceData.slice (topicIndex partitionIndex : Nat) (p : PartitionProduceData) :
    PartitionRecordSlice :=
  ⟨topicIndex, partitionIndex, p.index, p.records⟩

def slices (topicIndex : Nat) (ps : List PartitionProduceData) : List PartitionRecordSlice :=
  (ps.zipIdx 0).map fun p => p.1.slice topicIndex p.2

def TopicProduceData.framing (topicIndex : Nat) (t : TopicProduceData) : ProduceFramingTopic :=
  ⟨t.name, t.topicId, slices topicIndex t.partitionData⟩

def ProduceRequest.framing (m : ProduceRequest) : ProduceFraming :=
  ⟨m.transactionalId, m.acks, m.timeoutMs, (m.topicData.zipIdx 0).map fun p => p.1.framing p.2⟩

/-- The two walks succeed alike on `body`, with the same fields in the same order and the same bytes
left. -/
def FramingMirrors (version : Int16) (body : Bytes) : Prop :=
  ∀ f rest, produceFraming version body = .ok (f, rest) ↔
    ∃ m, ProduceRequest.decode version body = .ok (m, rest) ∧ f = m.framing

/-! ## The request as it lies on the wire

One reader for both walks, which keeps a null name apart from an empty one. -/

structure WireTopic where
  name : Option String
  topicId : Uuid
  partitions : List PartitionProduceData
  unknownTaggedFields : UnknownTaggedFields
deriving DecidableEq

structure WireRequest where
  transactionalId : Option String
  acks : Int16
  timeoutMs : Int32
  topics : List WireTopic
  unknownTaggedFields : UnknownTaggedFields
deriving DecidableEq

def WireTopic.read (version : Int16) : Decode WireTopic := do
  let flex := isFlexible version
  let name ← fieldIf (version ≤ 12)
    (cond flex getCompactNullableStringOwned getNullableStringOwned) (some "")
  let topicId ← fieldIf (version ≥ 13) getUuid .zero
  let partitions ← getArray flex (fun _ => PartitionProduceData.decode version)
  let unknown ← fieldIf flex (readTaggedFields noTags) []
  return ⟨name, topicId, partitions, unknown⟩

def WireRequest.read (version : Int16) : Decode WireRequest := do
  let flex := isFlexible version
  let transactionalId ← fieldIf (version ≥ 3)
    (cond flex getCompactNullableStringOwned getNullableStringOwned) none
  let acks ← getI16
  let timeoutMs ← getI32
  let topics ← getArray flex (fun _ => WireTopic.read version)
  let unknown ← fieldIf flex (readTaggedFields noTags) []
  return ⟨transactionalId, acks, timeoutMs, topics, unknown⟩

def WireTopic.framing (topicIndex : Nat) (t : WireTopic) : ProduceFramingTopic :=
  ⟨t.name.getD "", t.topicId, slices topicIndex t.partitions⟩

def WireRequest.framing (w : WireRequest) : ProduceFraming :=
  ⟨w.transactionalId, w.acks, w.timeoutMs, (w.topics.zipIdx 0).map fun p => p.1.framing p.2⟩

def TopicProduceData.wire (t : TopicProduceData) : WireTopic :=
  ⟨some t.name, t.topicId, t.partitionData, t.unknownTaggedFields⟩

def ProduceRequest.wire (m : ProduceRequest) : WireRequest :=
  ⟨m.transactionalId, m.acks, m.timeoutMs, m.topicData.map TopicProduceData.wire, m.unknownTaggedFields⟩

/-- The body is a produce request except that a topic's name is null. -/
def NullTopicName (version : Int16) (body : Bytes) : Prop :=
  ∃ w rest, WireRequest.read version body = .ok (w, rest) ∧ ∃ t ∈ w.topics, t.name = none

/-! ## What the walks make of it

Both walks accept what it reads, but for a null name, which only the framing takes. -/

/-- Arrays of elements that are read alike, each with its index. -/
theorem getArray_mapIdx {α β : Type} {flex : Bool} {d : Nat → Decode β} {d' : Nat → Decode α}
    {g : Nat → α → β}
    (h : ∀ i bs b mid, d i bs = .ok (b, mid) ↔ ∃ a, d' i bs = .ok (a, mid) ∧ b = g i a)
    {bs rest : Bytes} {ys : List β} :
    getArray flex d bs = .ok (ys, rest) ↔
      ∃ as, getArray flex d' bs = .ok (as, rest) ∧ ys = (as.zipIdx 0).map (fun p => g p.2 p.1) := by
  simp only [getArray, bind_eq_ok, times_mapIdx h]
  constructor
  · rintro ⟨n, mid, hn, as, has, rfl⟩
    exact ⟨as, ⟨n, mid, hn, has⟩, rfl⟩
  · rintro ⟨as, ⟨n, mid, hn, has⟩, rfl⟩
    exact ⟨n, mid, hn, as, has, rfl⟩

/-- Arrays of elements that are read alike. -/
theorem getArray_comap {α β : Type} {flex : Bool} {d : Nat → Decode β} {d' : Nat → Decode α}
    {g : β → α} (h : ∀ i bs b mid, d i bs = .ok (b, mid) ↔ d' i bs = .ok (g b, mid))
    {bs rest : Bytes} {ys : List β} :
    getArray flex d bs = .ok (ys, rest) ↔ getArray flex d' bs = .ok (ys.map g, rest) := by
  simp only [getArray, bind_eq_ok, times_comap h]

/-- The walk's own byte-string reader is the generated decoder's. -/
theorem readNullableBytesSlice_eq (flex : Bool) :
    readNullableBytesSlice flex = cond flex getCompactNullableBytesOwned getNullableBytesOwned := by
  cases flex with
  | false =>
      rw [readNullableBytesSlice, nullableLen, if_neg Bool.false_ne_true, bind_assoc, cond_false,
        getNullableBytesOwned]
      refine bind_congr fun n => ?_
      cases FixedWidth.usizeOfI32 n with
      | none => rfl
      | some len => rfl
  | true =>
      simp only [readNullableBytesSlice, nullableLen, getCompactNullableBytesOwned, compact, cond_true,
        bind_assoc, if_true]
      congr 1
      funext raw
      by_cases hraw : raw = 0
      · simp only [hraw, if_true, pure_bind]
      · simp only [hraw, if_false, pure_bind]

variable {version : Int16} {body rest : Bytes}

/-- A partition is framed where it is decoded. -/
theorem framePartition_eq_ok (h0 : 0 ≤ version) {i j : Nat} {s : PartitionRecordSlice} :
    framePartition version i j body = .ok (s, rest) ↔
      ∃ p, PartitionProduceData.decode version body = .ok (p, rest) ∧ s = p.slice i j := by
  have h0' : version ≥ 0 := h0
  simp only [framePartition, PartitionProduceData.decode, readNullableBytesSlice_eq, isFlexible,
    fieldIf_pos h0', bind_eq_ok, pure_apply]
  constructor
  · rintro ⟨index, b₁, hindex, records, b₂, hrecords, unknown, b₃, hunknown, hs⟩
    cases hs
    exact ⟨⟨index, records, unknown⟩, ⟨index, b₁, hindex, records, b₂, hrecords, unknown, rest,
      hunknown, rfl⟩, rfl⟩
  · rintro ⟨p, ⟨index, b₁, hindex, records, b₂, hrecords, unknown, b₃, hunknown, hp⟩, rfl⟩
    cases hp
    exact ⟨index, b₁, hindex, records, b₂, hrecords, unknown, rest, hunknown, rfl⟩

/-- So are all of them. -/
theorem framePartitions_eq_ok (h0 : 0 ≤ version) {flex : Bool} {i : Nat}
    {ss : List PartitionRecordSlice} :
    getArray flex (framePartition version i) body = .ok (ss, rest) ↔
      ∃ ps, getArray flex (fun _ => PartitionProduceData.decode version) body = .ok (ps, rest) ∧
        ss = slices i ps :=
  getArray_mapIdx (g := PartitionProduceData.slice i) (fun _ _ _ _ => framePartition_eq_ok h0)

/-- The framing walk's name is the nullable one with a default. -/
theorem frameName_eq_ok {flex : Bool} {s : String} :
    fieldIf (¬version > 12)
        ((Option.getD · "") <$> cond flex getCompactNullableStringOwned getNullableStringOwned) ""
        body = .ok (s, rest) ↔
      ∃ o, fieldIf (version ≤ 12) (cond flex getCompactNullableStringOwned getNullableStringOwned)
        (some "") body = .ok (o, rest) ∧ s = o.getD "" := by
  by_cases h : version ≤ 12
  · rw [fieldIf_pos h, fieldIf_pos (Int16.not_lt.mpr h), map_eq_pure_bind, bind_eq_ok]
    constructor
    · rintro ⟨o, mid, ho, hs⟩
      cases hs
      exact ⟨o, ho, rfl⟩
    · rintro ⟨o, ho, rfl⟩
      exact ⟨o, rest, ho, rfl⟩
  · rw [fieldIf_neg h, fieldIf_neg (fun hn => h (Int16.not_lt.mp hn))]
    constructor
    · intro hs
      cases hs
      exact ⟨some "", rfl, rfl⟩
    · rintro ⟨o, ho, rfl⟩
      cases ho
      rfl

/-- The generated decoder's name is the nullable one when it is not null. -/
theorem decodeName_eq_ok (h0 : 0 ≤ version) {flex : Bool} {s : String} :
    fieldIf (0 ≤ version ∧ version ≤ 12) (cond flex getCompactStringOwned getStringOwned) ""
        body = .ok (s, rest) ↔
      fieldIf (version ≤ 12) (cond flex getCompactNullableStringOwned getNullableStringOwned)
        (some "") body = .ok (some s, rest) := by
  by_cases h : version ≤ 12
  · rw [fieldIf_pos h, fieldIf_pos ⟨h0, h⟩]
    cases flex with
    | false => exact nonNull_eq_ok
    | true => exact nonNull_eq_ok
  · rw [fieldIf_neg h, fieldIf_neg (fun hn => h hn.2)]
    constructor
    · intro hs
      cases hs
      rfl
    · intro hs
      cases hs
      rfl

/-- A topic is framed where its wire form is read. -/
theorem frameTopic_eq_ok (h0 : 0 ≤ version) {i : Nat} {t : ProduceFramingTopic} :
    frameTopic version i body = .ok (t, rest) ↔
      ∃ w, WireTopic.read version body = .ok (w, rest) ∧ t = w.framing i := by
  simp only [frameTopic, WireTopic.read, isFlexible, bind_eq_ok, frameName_eq_ok, pure_apply,
    framePartitions_eq_ok h0]
  constructor
  · rintro ⟨name, b₁, ⟨o, ho, rfl⟩, id, b₂, hid, parts, b₃, ⟨ps, hps, rfl⟩, unknown, b₄, hunknown, ht⟩
    cases ht
    exact ⟨⟨o, id, ps, unknown⟩, ⟨o, b₁, ho, id, b₂, hid, ps, b₃, hps, unknown, rest, hunknown, rfl⟩, rfl⟩
  · rintro ⟨w, ⟨o, b₁, ho, id, b₂, hid, ps, b₃, hps, unknown, b₄, hunknown, hw⟩, rfl⟩
    cases hw
    exact ⟨_, b₁, ⟨o, ho, rfl⟩, id, b₂, hid, _, b₃, ⟨ps, hps, rfl⟩, unknown, rest, hunknown, rfl⟩

/-- So are all of them. -/
theorem frameTopics_eq_ok (h0 : 0 ≤ version) {flex : Bool} {ts : List ProduceFramingTopic} :
    getArray flex (frameTopic version) body = .ok (ts, rest) ↔
      ∃ ws, getArray flex (fun _ => WireTopic.read version) body = .ok (ws, rest) ∧
        ts = (ws.zipIdx 0).map fun p => p.1.framing p.2 :=
  getArray_mapIdx (g := WireTopic.framing) (fun _ _ _ _ => frameTopic_eq_ok h0)

/-- The decoder of a topic reads its wire form, and refuses a null name. -/
theorem TopicProduceData.decode_eq_ok (h0 : 0 ≤ version) {t : TopicProduceData} :
    TopicProduceData.decode version body = .ok (t, rest) ↔
      WireTopic.read version body = .ok (t.wire, rest) := by
  have h0' : version ≥ 0 := h0
  simp only [TopicProduceData.decode, WireTopic.read, bind_eq_ok, decodeName_eq_ok h0, fieldIf_pos h0',
    pure_apply]
  constructor
  · rintro ⟨name, b₁, hname, id, b₂, hid, ps, b₃, hps, unknown, b₄, hunknown, ht⟩
    cases ht
    exact ⟨some name, b₁, hname, id, b₂, hid, ps, b₃, hps, unknown, rest, hunknown, rfl⟩
  · rintro ⟨o, b₁, ho, id, b₂, hid, ps, b₃, hps, unknown, b₄, hunknown, hw⟩
    cases hw
    exact ⟨t.name, b₁, ho, t.topicId, b₂, hid, t.partitionData, b₃, hps, t.unknownTaggedFields, rest,
      hunknown, rfl⟩

/-- **The framing walk reads the request off the wire**, a null name as the empty one. -/
theorem produceFraming_eq_ok (h0 : 0 ≤ version) {f : ProduceFraming} :
    produceFraming version body = .ok (f, rest) ↔
      ∃ w, WireRequest.read version body = .ok (w, rest) ∧ f = w.framing := by
  simp only [produceFraming, WireRequest.read, isFlexible, bind_eq_ok, pure_apply,
    frameTopics_eq_ok h0]
  constructor
  · rintro ⟨id, b₁, hid, acks, b₂, hacks, ms, b₃, hms, ts, b₄, ⟨ws, hws, rfl⟩, unknown, b₅, hunknown, hf⟩
    cases hf
    exact ⟨⟨id, acks, ms, ws, unknown⟩, ⟨id, b₁, hid, acks, b₂, hacks, ms, b₃, hms, ws, b₄, hws, unknown,
      rest, hunknown, rfl⟩, rfl⟩
  · rintro ⟨w, ⟨id, b₁, hid, acks, b₂, hacks, ms, b₃, hms, ws, b₄, hws, unknown, b₅, hunknown, hw⟩, rfl⟩
    cases hw
    exact ⟨id, b₁, hid, acks, b₂, hacks, ms, b₃, hms, _, b₄, ⟨ws, hws, rfl⟩, unknown, rest, hunknown, rfl⟩

/-- **The generated decoder reads the request off the wire** when no name is null. -/
theorem ProduceRequest.decode_eq_ok (hmin : 3 ≤ version) (hmax : version ≤ 13) {m : ProduceRequest} :
    ProduceRequest.decode version body = .ok (m, rest) ↔
      WireRequest.read version body = .ok (m.wire, rest) := by
  have h0 : version ≥ 0 := Int16.le_trans (by decide) hmin
  have hsupported : ¬¬(minVersion ≤ version ∧ version ≤ maxVersion) := not_not.mpr ⟨hmin, hmax⟩
  simp only [ProduceRequest.decode, if_neg hsupported, WireRequest.read, bind_eq_ok, fieldIf_pos h0,
    pure_apply, getArray_comap (fun _ _ _ _ => TopicProduceData.decode_eq_ok h0)]
  constructor
  · rintro ⟨id, b₁, hid, acks, b₂, hacks, ms, b₃, hms, ts, b₄, hts, unknown, b₅, hunknown, hm⟩
    cases hm
    exact ⟨id, b₁, hid, acks, b₂, hacks, ms, b₃, hms, _, b₄, hts, unknown, rest, hunknown, rfl⟩
  · rintro ⟨id, b₁, hid, acks, b₂, hacks, ms, b₃, hms, ws, b₄, hws, unknown, b₅, hunknown, hw⟩
    cases hw
    exact ⟨m.transactionalId, b₁, hid, m.acks, b₂, hacks, m.timeoutMs, b₃, hms, m.topicData, b₄, hws,
      m.unknownTaggedFields, rest, hunknown, rfl⟩

/-! ## The walks against each other

They differ on a request with a null topic name and on no other. -/

/-- The framing of a request is that of its wire form. -/
theorem ProduceRequest.framing_wire (m : ProduceRequest) : m.wire.framing = m.framing := by
  unfold ProduceRequest.wire WireRequest.framing ProduceRequest.framing
  simp only [List.zipIdx_map, List.map_map]
  rfl

/-- A wire request without a null name is the wire form of a request. -/
theorem WireRequest.exists_wire {w : WireRequest} (h : ∀ t ∈ w.topics, t.name ≠ none) :
    ∃ m : ProduceRequest, m.wire = w := by
  have hts : ∃ ts : List TopicProduceData, ts.map TopicProduceData.wire = w.topics := by
    refine ⟨w.topics.map fun t =>
      ⟨t.name.getD "", t.topicId, t.partitions, t.unknownTaggedFields⟩, ?_⟩
    rw [List.map_map]
    refine (List.map_congr_left ?_).trans (List.map_id _)
    intro t ht
    obtain ⟨name, hname⟩ := Option.ne_none_iff_exists'.mp (h t ht)
    obtain ⟨_, id, ps, unknown⟩ := t
    subst hname
    rfl
  obtain ⟨ts, hts⟩ := hts
  exact ⟨⟨w.transactionalId, w.acks, w.timeoutMs, ts, w.unknownTaggedFields⟩, by
    rw [ProduceRequest.wire, hts]⟩

/-- **The framing walk mirrors the generated decoder exactly when no topic name is null.** -/
theorem framingMirrors_iff (version : Int16) (hmin : 3 ≤ version) (hmax : version ≤ 13)
    (body : Bytes) : FramingMirrors version body ↔ ¬NullTopicName version body := by
  have h0 : 0 ≤ version := Int16.le_trans (by decide) hmin
  simp only [FramingMirrors, produceFraming_eq_ok h0, ProduceRequest.decode_eq_ok hmin hmax]
  constructor
  · rintro hmirror ⟨w, rest, hw, t, ht, hnull⟩
    obtain ⟨m, hm, -⟩ := (hmirror w.framing rest).mp ⟨w, hw, rfl⟩
    rw [hw] at hm
    cases hm
    obtain ⟨t', -, rfl⟩ := List.mem_map.mp ht
    cases hnull
  · intro hclean f rest
    constructor
    · rintro ⟨w, hw, rfl⟩
      obtain ⟨m, rfl⟩ := WireRequest.exists_wire
        (fun t ht hnull => hclean ⟨w, rest, hw, t, ht, hnull⟩)
      exact ⟨m, hw, m.framing_wire⟩
    · rintro ⟨m, hm, rfl⟩
      exact ⟨m.wire, hm, m.framing_wire.symm⟩

/-- A version 3 body with one topic, whose name is null, and no partitions. -/
def nullNameBody : Bytes :=
  [255, 255, 0, 1, 0, 0, 0, 0, 0, 0, 0, 1, 255, 255, 0, 0, 0, 0]

theorem not_framingMirrors_nullName : ¬FramingMirrors 3 nullNameBody := by
  intro hmirror
  have hframing : produceFraming 3 nullNameBody = .ok (⟨none, 1, 0, [⟨"", .zero, []⟩]⟩, []) := by
    decide +kernel
  have hdecode : ProduceRequest.decode 3 nullNameBody =
      .error (.invalidValue "non-nullable STRING was null") := by
    decide +kernel
  obtain ⟨m, hm, -⟩ := (hmirror _ _).mp hframing
  rw [hdecode] at hm
  cases hm

/-- The same body with an empty name instead. -/
theorem framingMirrors_emptyName :
    FramingMirrors 3 [255, 255, 0, 1, 0, 0, 0, 0, 0, 0, 0, 1, 0, 0, 0, 0, 0, 0] := by
  have hread : WireRequest.read 3 [255, 255, 0, 1, 0, 0, 0, 0, 0, 0, 0, 1, 0, 0, 0, 0, 0, 0] =
      .ok (⟨none, 1, 0, [⟨some "", .zero, [], []⟩], []⟩, []) := by
    decide +kernel
  refine (framingMirrors_iff 3 (by decide) (by decide) _).mpr ?_
  rintro ⟨w, rest, hw, t, ht, hnull⟩
  rw [hread] at hw
  cases hw
  cases List.mem_singleton.mp ht
  cases hnull

end Produce

end Krabka.Protocol
