import Krabka.Protocol.TaggedFields

/-!
# `Protocol.PrivateMessages` — the hand-written messages of `krabka/`

The messages that only krabka speaks: barrier markers and the cut they make, topic freezes, and break-glass
proposals. Every one is flexible from version 0 and knows no tag. Each message has its writer, its length
function and its reader under the source's names, the lengths that its fields must have to fit the wire
(`Fits`), and the proof that the three functions agree. A message's proof follows its fields.
-/

namespace Krabka.Protocol

open ByteStream Reader Output

/-! ## Shared helpers

The check of the version and the unknown tagged fields are the same in all messages. -/

/-- `encode` of a message, behind its version check. -/
def checkVersionEncode (apiKey version min max : Int16) (x : Encode) : Encode :=
  if min ≤ version ∧ version ≤ max then x else fail (.unsupportedVersion apiKey version)

/-- `decode` of a message, behind its version check. -/
def checkVersionDecode {α : Type} (apiKey version min max : Int16) (d : Decode α) : Decode α :=
  if min ≤ version ∧ version ≤ max then d else throw (.unsupportedVersion apiKey version)

/-- In range, the check lets a codec through in both directions. -/
theorem exact_checkVersion {α : Type} {apiKey version min max : Int16} {x : Encode} {n : Nat}
    {d : Decode α} {a : α} (hversion : min ≤ version ∧ version ≤ max) (h : Exact x n d a) :
    Exact (checkVersionEncode apiKey version min max x) n (checkVersionDecode apiKey version min max d)
      a := by
  unfold checkVersionEncode checkVersionDecode
  rw [if_pos hversion, if_pos hversion]
  exact h

def writeUnknownTaggedFields (unknown : UnknownTaggedFields) : Encode := writeTaggedFields [] unknown

def readUnknownTaggedFields : Decode UnknownTaggedFields := readTaggedFields fun _ => pure false

def unknownTaggedFieldsLen (unknown : UnknownTaggedFields) : Nat := taggedFieldsLen [] unknown

/-- Unknown tagged fields, where their tags ascend. -/
theorem exact_unknown {unknown : UnknownTaggedFields} (h : unknown.Fits) :
    Exact (writeUnknownTaggedFields unknown) (unknownTaggedFieldsLen unknown) readUnknownTaggedFields
      unknown :=
  exact_unknownTaggedFields h

/-- A length fits a compact prefix. -/
abbrev CompactFits (len : Nat) : Prop := len + 1 < 2 ^ 32

theorem one_le_unknownTaggedFieldsLen (unknown : UnknownTaggedFields) :
    1 ≤ unknownTaggedFieldsLen unknown := by
  have hone : ∀ v, 1 ≤ usizeUvarintLen v := by
    intro v
    unfold usizeUvarintLen
    rw [← WireInt.length_putVarint (by decide)]
    obtain ⟨m, hm, -⟩ := WireInt.putGroups_length 64 (BitVec.ofNat 64 v) (by
      calc (BitVec.ofNat 64 v).toNat < 2 ^ 64 := (BitVec.ofNat 64 v).isLt
        _ ≤ 128 ^ (64 + 1) := by decide)
    unfold WireInt.putVarint
    omega
  unfold unknownTaggedFieldsLen taggedFieldsLen
  exact Nat.le_add_right_of_le (Nat.le_add_right_of_le (hone _))

/-- An array of structs: exact when its elements are, since a struct takes at least the byte of its
    trailer. -/
theorem exact_structs {α : Type} {enc : α → Encode} {len : α → Nat} {d : Decode α} {as : List α}
    (hfit : CompactFits as.length) (helem : ∀ a ∈ as, Exact (enc a) (len a) d a)
    (hlen : ∀ a ∈ as, 1 ≤ len a) :
    Exact (encodeArray true enc as) (arrayLen true len as) (getArray true d) as := by
  have hcount : LenFits true (2 ^ 31) as.length := hfit
  have hx := exact_encodeArray (g := id) hcount helem hlen
  rwa [List.map_id] at hx

/-- The topics of the barrier messages are a name and an array of partition structs. -/
theorem exact_topic {π τ : Type} {enc : π → Encode} {len : π → Nat} {d : Decode π}
    (mk : String → List π → UnknownTaggedFields → τ) {topic : String} {partitions : List π}
    {unknown : UnknownTaggedFields} (htopic : CompactFits topic.utf8ByteSize)
    (hcount : CompactFits partitions.length) (helem : ∀ p ∈ partitions, Exact (enc p) (len p) d p)
    (hlen : ∀ p ∈ partitions, 1 ≤ len p) (hunknown : unknown.Fits) :
    Exact
      (do putCompactString topic
          encodeArray true enc partitions
          writeUnknownTaggedFields unknown)
      (compactStringLen topic + arrayLen true len partitions + unknownTaggedFieldsLen unknown)
      (do let topic ← getCompactStringOwned
          let partitions ← getArray true d
          let unknown ← readUnknownTaggedFields
          return mk topic partitions unknown)
      (mk topic partitions unknown) := by
  refine Exact.len ((exact_putCompactString htopic).bind ((exact_structs hcount helem hlen).bind
    ((exact_unknown hunknown).bind_nil (Reads.pure (mk topic partitions unknown))))) ?_
  omega

/-! ## Barrier: writing markers

A request and its response, from the inside out. -/

namespace Barrier

namespace WriteBarrierMarkers

def apiKey : Int16 := 1014
def minVersion : Int16 := 0
def maxVersion : Int16 := 0

end WriteBarrierMarkers

structure WritableBarrierPartition where
  partition : Int32 := 0
  expectedLeaderEpoch : Int32 := -1
  unknownTaggedFields : UnknownTaggedFields := []
deriving DecidableEq

namespace WritableBarrierPartition

def encode (p : WritableBarrierPartition) (_version : Int16) : Encode := do
  put (putI32 p.partition)
  put (putI32 p.expectedLeaderEpoch)
  writeUnknownTaggedFields p.unknownTaggedFields

def encodedLen (p : WritableBarrierPartition) (_version : Int16) : Nat :=
  4 + 4 + unknownTaggedFieldsLen p.unknownTaggedFields

def decode (_version : Int16) : Decode WritableBarrierPartition := do
  let partition ← getI32
  let expectedLeaderEpoch ← getI32
  let unknown ← readUnknownTaggedFields
  return ⟨partition, expectedLeaderEpoch, unknown⟩

def Fits (p : WritableBarrierPartition) : Prop := p.unknownTaggedFields.Fits

/-- A partition of a barrier request. -/
theorem exact {p : WritableBarrierPartition} (h : p.Fits) (version : Int16) :
    Exact (p.encode version) (p.encodedLen version) (decode version) p := by
  refine Exact.len ((exact_putI32 p.partition).bind ((exact_putI32 p.expectedLeaderEpoch).bind
    ((exact_unknown h).bind_nil (Reads.pure p)))) ?_
  unfold encodedLen
  omega

end WritableBarrierPartition

structure WritableBarrierTopic where
  topic : String := ""
  partitions : List WritableBarrierPartition := []
  unknownTaggedFields : UnknownTaggedFields := []
deriving DecidableEq

namespace WritableBarrierTopic

def encode (t : WritableBarrierTopic) (version : Int16) : Encode := do
  putCompactString t.topic
  encodeArray true (·.encode version) t.partitions
  writeUnknownTaggedFields t.unknownTaggedFields

def encodedLen (t : WritableBarrierTopic) (version : Int16) : Nat :=
  compactStringLen t.topic + arrayLen true (·.encodedLen version) t.partitions +
    unknownTaggedFieldsLen t.unknownTaggedFields

def decode (version : Int16) : Decode WritableBarrierTopic := do
  let topic ← getCompactStringOwned
  let partitions ← getArray true (WritableBarrierPartition.decode version)
  let unknown ← readUnknownTaggedFields
  return ⟨topic, partitions, unknown⟩

structure Fits (t : WritableBarrierTopic) : Prop where
  topic : CompactFits t.topic.utf8ByteSize
  count : CompactFits t.partitions.length
  partitions : ∀ p ∈ t.partitions, p.Fits
  unknown : t.unknownTaggedFields.Fits

/-- A topic of a barrier request. -/
theorem exact {t : WritableBarrierTopic} (h : t.Fits) (version : Int16) :
    Exact (t.encode version) (t.encodedLen version) (decode version) t :=
  exact_topic WritableBarrierTopic.mk h.topic h.count
    (fun p hp => WritableBarrierPartition.exact (h.partitions p hp) version)
    (fun p _ => Nat.le_add_left_of_le (one_le_unknownTaggedFieldsLen p.unknownTaggedFields)) h.unknown

end WritableBarrierTopic

structure WriteBarrierMarkersRequest where
  group : String := ""
  epoch : Int64 := 0
  triggeredAt : Int64 := 0
  topics : List WritableBarrierTopic := []
  unknownTaggedFields : UnknownTaggedFields := []
deriving DecidableEq

namespace WriteBarrierMarkersRequest

open WriteBarrierMarkers

def encode (m : WriteBarrierMarkersRequest) (version : Int16) : Encode :=
  checkVersionEncode apiKey version minVersion maxVersion do
    putCompactString m.group
    put (putI64 m.epoch)
    put (putI64 m.triggeredAt)
    encodeArray true (·.encode version) m.topics
    writeUnknownTaggedFields m.unknownTaggedFields

def encodedLen (m : WriteBarrierMarkersRequest) (version : Int16) : Nat :=
  compactStringLen m.group + 8 + 8 + arrayLen true (·.encodedLen version) m.topics +
    unknownTaggedFieldsLen m.unknownTaggedFields

def decode (version : Int16) : Decode WriteBarrierMarkersRequest :=
  checkVersionDecode apiKey version minVersion maxVersion do
    let group ← getCompactStringOwned
    let epoch ← getI64
    let triggeredAt ← getI64
    let topics ← getArray true (WritableBarrierTopic.decode version)
    let unknown ← readUnknownTaggedFields
    return ⟨group, epoch, triggeredAt, topics, unknown⟩

structure Fits (m : WriteBarrierMarkersRequest) : Prop where
  group : CompactFits m.group.utf8ByteSize
  count : CompactFits m.topics.length
  topics : ∀ t ∈ m.topics, t.Fits
  unknown : m.unknownTaggedFields.Fits

/-- A request for barrier markers is written in its announced length and read back. -/
theorem exact {m : WriteBarrierMarkersRequest} (h : m.Fits) {version : Int16}
    (hversion : minVersion ≤ version ∧ version ≤ maxVersion) :
    Exact (m.encode version) (m.encodedLen version) (decode version) m := by
  have htopics := exact_structs h.count
    (fun t ht => WritableBarrierTopic.exact (h.topics t ht) version)
    (fun t _ => Nat.le_add_left_of_le (one_le_unknownTaggedFieldsLen t.unknownTaggedFields))
  refine exact_checkVersion hversion (Exact.len ((exact_putCompactString h.group).bind
    ((exact_putI64 m.epoch).bind ((exact_putI64 m.triggeredAt).bind (htopics.bind
    ((exact_unknown h.unknown).bind_nil (Reads.pure m)))))) ?_)
  unfold encodedLen
  omega

end WriteBarrierMarkersRequest

structure WrittenBarrierPartition where
  partition : Int32 := 0
  errorCode : Int16 := 0
  offset : Int64 := 0
  unknownTaggedFields : UnknownTaggedFields := []
deriving DecidableEq

namespace WrittenBarrierPartition

def encode (p : WrittenBarrierPartition) (_version : Int16) : Encode := do
  put (putI32 p.partition)
  put (putI16 p.errorCode)
  put (putI64 p.offset)
  writeUnknownTaggedFields p.unknownTaggedFields

def encodedLen (p : WrittenBarrierPartition) (_version : Int16) : Nat :=
  4 + 2 + 8 + unknownTaggedFieldsLen p.unknownTaggedFields

def decode (_version : Int16) : Decode WrittenBarrierPartition := do
  let partition ← getI32
  let errorCode ← getI16
  let offset ← getI64
  let unknown ← readUnknownTaggedFields
  return ⟨partition, errorCode, offset, unknown⟩

def Fits (p : WrittenBarrierPartition) : Prop := p.unknownTaggedFields.Fits

/-- A partition of a barrier response. -/
theorem exact {p : WrittenBarrierPartition} (h : p.Fits) (version : Int16) :
    Exact (p.encode version) (p.encodedLen version) (decode version) p := by
  refine Exact.len ((exact_putI32 p.partition).bind ((exact_putI16 p.errorCode).bind
    ((exact_putI64 p.offset).bind ((exact_unknown h).bind_nil (Reads.pure p))))) ?_
  unfold encodedLen
  omega

end WrittenBarrierPartition

structure WrittenBarrierTopic where
  topic : String := ""
  partitions : List WrittenBarrierPartition := []
  unknownTaggedFields : UnknownTaggedFields := []
deriving DecidableEq

namespace WrittenBarrierTopic

def encode (t : WrittenBarrierTopic) (version : Int16) : Encode := do
  putCompactString t.topic
  encodeArray true (·.encode version) t.partitions
  writeUnknownTaggedFields t.unknownTaggedFields

def encodedLen (t : WrittenBarrierTopic) (version : Int16) : Nat :=
  compactStringLen t.topic + arrayLen true (·.encodedLen version) t.partitions +
    unknownTaggedFieldsLen t.unknownTaggedFields

def decode (version : Int16) : Decode WrittenBarrierTopic := do
  let topic ← getCompactStringOwned
  let partitions ← getArray true (WrittenBarrierPartition.decode version)
  let unknown ← readUnknownTaggedFields
  return ⟨topic, partitions, unknown⟩

structure Fits (t : WrittenBarrierTopic) : Prop where
  topic : CompactFits t.topic.utf8ByteSize
  count : CompactFits t.partitions.length
  partitions : ∀ p ∈ t.partitions, p.Fits
  unknown : t.unknownTaggedFields.Fits

/-- A topic of a barrier response. -/
theorem exact {t : WrittenBarrierTopic} (h : t.Fits) (version : Int16) :
    Exact (t.encode version) (t.encodedLen version) (decode version) t :=
  exact_topic WrittenBarrierTopic.mk h.topic h.count
    (fun p hp => WrittenBarrierPartition.exact (h.partitions p hp) version)
    (fun p _ => Nat.le_add_left_of_le (one_le_unknownTaggedFieldsLen p.unknownTaggedFields)) h.unknown

end WrittenBarrierTopic

structure WriteBarrierMarkersResponse where
  topics : List WrittenBarrierTopic := []
  unknownTaggedFields : UnknownTaggedFields := []
deriving DecidableEq

namespace WriteBarrierMarkersResponse

open WriteBarrierMarkers

def encode (m : WriteBarrierMarkersResponse) (version : Int16) : Encode :=
  checkVersionEncode apiKey version minVersion maxVersion do
    encodeArray true (·.encode version) m.topics
    writeUnknownTaggedFields m.unknownTaggedFields

def encodedLen (m : WriteBarrierMarkersResponse) (version : Int16) : Nat :=
  arrayLen true (·.encodedLen version) m.topics + unknownTaggedFieldsLen m.unknownTaggedFields

def decode (version : Int16) : Decode WriteBarrierMarkersResponse :=
  checkVersionDecode apiKey version minVersion maxVersion do
    let topics ← getArray true (WrittenBarrierTopic.decode version)
    let unknown ← readUnknownTaggedFields
    return ⟨topics, unknown⟩

structure Fits (m : WriteBarrierMarkersResponse) : Prop where
  count : CompactFits m.topics.length
  topics : ∀ t ∈ m.topics, t.Fits
  unknown : m.unknownTaggedFields.Fits

/-- A response with barrier markers is written in its announced length and read back. -/
theorem exact {m : WriteBarrierMarkersResponse} (h : m.Fits) {version : Int16}
    (hversion : minVersion ≤ version ∧ version ≤ maxVersion) :
    Exact (m.encode version) (m.encodedLen version) (decode version) m := by
  have htopics := exact_structs h.count
    (fun t ht => WrittenBarrierTopic.exact (h.topics t ht) version)
    (fun t _ => Nat.le_add_left_of_le (one_le_unknownTaggedFieldsLen t.unknownTaggedFields))
  exact exact_checkVersion hversion
    (htopics.bind ((exact_unknown h.unknown).bind_nil (Reads.pure m)))

end WriteBarrierMarkersResponse

/-! ## Barrier: the cut

Where the markers came to lie, and which partitions have none. -/

structure BarrierCutPartition where
  partition : Int32 := 0
  offset : Int64 := 0
  unknownTaggedFields : UnknownTaggedFields := []
deriving DecidableEq

namespace BarrierCutPartition

def encode (p : BarrierCutPartition) (_version : Int16) : Encode := do
  put (putI32 p.partition)
  put (putI64 p.offset)
  writeUnknownTaggedFields p.unknownTaggedFields

def encodedLen (p : BarrierCutPartition) (_version : Int16) : Nat :=
  4 + 8 + unknownTaggedFieldsLen p.unknownTaggedFields

def decode (_version : Int16) : Decode BarrierCutPartition := do
  let partition ← getI32
  let offset ← getI64
  let unknown ← readUnknownTaggedFields
  return ⟨partition, offset, unknown⟩

def Fits (p : BarrierCutPartition) : Prop := p.unknownTaggedFields.Fits

/-- A partition of a barrier cut. -/
theorem exact {p : BarrierCutPartition} (h : p.Fits) (version : Int16) :
    Exact (p.encode version) (p.encodedLen version) (decode version) p := by
  refine Exact.len ((exact_putI32 p.partition).bind ((exact_putI64 p.offset).bind
    ((exact_unknown h).bind_nil (Reads.pure p)))) ?_
  unfold encodedLen
  omega

end BarrierCutPartition

structure BarrierCutTopic where
  topic : String := ""
  partitions : List BarrierCutPartition := []
  unknownTaggedFields : UnknownTaggedFields := []
deriving DecidableEq

namespace BarrierCutTopic

def encode (t : BarrierCutTopic) (version : Int16) : Encode := do
  putCompactString t.topic
  encodeArray true (·.encode version) t.partitions
  writeUnknownTaggedFields t.unknownTaggedFields

def encodedLen (t : BarrierCutTopic) (version : Int16) : Nat :=
  compactStringLen t.topic + arrayLen true (·.encodedLen version) t.partitions +
    unknownTaggedFieldsLen t.unknownTaggedFields

def decode (version : Int16) : Decode BarrierCutTopic := do
  let topic ← getCompactStringOwned
  let partitions ← getArray true (BarrierCutPartition.decode version)
  let unknown ← readUnknownTaggedFields
  return ⟨topic, partitions, unknown⟩

structure Fits (t : BarrierCutTopic) : Prop where
  topic : CompactFits t.topic.utf8ByteSize
  count : CompactFits t.partitions.length
  partitions : ∀ p ∈ t.partitions, p.Fits
  unknown : t.unknownTaggedFields.Fits

/-- A topic of a barrier cut. -/
theorem exact {t : BarrierCutTopic} (h : t.Fits) (version : Int16) :
    Exact (t.encode version) (t.encodedLen version) (decode version) t :=
  exact_topic BarrierCutTopic.mk h.topic h.count
    (fun p hp => BarrierCutPartition.exact (h.partitions p hp) version)
    (fun p _ => Nat.le_add_left_of_le (one_le_unknownTaggedFieldsLen p.unknownTaggedFields)) h.unknown

end BarrierCutTopic

structure BarrierMissingPartition where
  topic : String := ""
  partition : Int32 := 0
  unknownTaggedFields : UnknownTaggedFields := []
deriving DecidableEq

namespace BarrierMissingPartition

def encode (p : BarrierMissingPartition) (_version : Int16) : Encode := do
  putCompactString p.topic
  put (putI32 p.partition)
  writeUnknownTaggedFields p.unknownTaggedFields

def encodedLen (p : BarrierMissingPartition) (_version : Int16) : Nat :=
  compactStringLen p.topic + 4 + unknownTaggedFieldsLen p.unknownTaggedFields

def decode (_version : Int16) : Decode BarrierMissingPartition := do
  let topic ← getCompactStringOwned
  let partition ← getI32
  let unknown ← readUnknownTaggedFields
  return ⟨topic, partition, unknown⟩

structure Fits (p : BarrierMissingPartition) : Prop where
  topic : CompactFits p.topic.utf8ByteSize
  unknown : p.unknownTaggedFields.Fits

/-- A partition that a barrier cut misses. -/
theorem exact {p : BarrierMissingPartition} (h : p.Fits) (version : Int16) :
    Exact (p.encode version) (p.encodedLen version) (decode version) p := by
  refine Exact.len ((exact_putCompactString h.topic).bind ((exact_putI32 p.partition).bind
    ((exact_unknown h.unknown).bind_nil (Reads.pure p)))) ?_
  unfold encodedLen
  omega

end BarrierMissingPartition

end Barrier

/-! ## Topic freezes

One request that sets a freeze or takes it away. -/

namespace Freeze

namespace SetTopicFreeze

def apiKey : Int16 := 1015
def minVersion : Int16 := 0
def maxVersion : Int16 := 0

end SetTopicFreeze

def patternTypeLiteral : Int8 := 3

structure SetTopicFreezeRequest where
  scope : String := ""
  patternType : Int8 := patternTypeLiteral
  frozen : Bool := true
  reason : String := ""
  proposalId : Uuid := .zero
  setAtMs : Int64 := 0
  keyId : String := ""
  signature : Bytes := []
  unknownTaggedFields : UnknownTaggedFields := []
deriving DecidableEq

namespace SetTopicFreezeRequest

open SetTopicFreeze

def encode (m : SetTopicFreezeRequest) (version : Int16) : Encode :=
  checkVersionEncode apiKey version minVersion maxVersion do
    putCompactString m.scope
    put (putI8 m.patternType)
    put (putBool m.frozen)
    putCompactString m.reason
    put (putUuid m.proposalId)
    put (putI64 m.setAtMs)
    putCompactString m.keyId
    putCompactBytes m.signature
    writeUnknownTaggedFields m.unknownTaggedFields

def encodedLen (m : SetTopicFreezeRequest) (_version : Int16) : Nat :=
  compactStringLen m.scope + 1 + 1 + compactStringLen m.reason + 16 + 8 + compactStringLen m.keyId +
    compactBytesLen m.signature + unknownTaggedFieldsLen m.unknownTaggedFields

def decode (version : Int16) : Decode SetTopicFreezeRequest :=
  checkVersionDecode apiKey version minVersion maxVersion do
    let scope ← getCompactStringOwned
    let patternType ← getI8
    let frozen ← getBool
    let reason ← getCompactStringOwned
    let proposalId ← getUuid
    let setAtMs ← getI64
    let keyId ← getCompactStringOwned
    let signature ← getCompactBytesOwned
    let unknown ← readUnknownTaggedFields
    return ⟨scope, patternType, frozen, reason, proposalId, setAtMs, keyId, signature, unknown⟩

structure Fits (m : SetTopicFreezeRequest) : Prop where
  scope : CompactFits m.scope.utf8ByteSize
  reason : CompactFits m.reason.utf8ByteSize
  keyId : CompactFits m.keyId.utf8ByteSize
  signature : CompactFits m.signature.length
  unknown : m.unknownTaggedFields.Fits

/-- A request to freeze a topic is written in its announced length and read back. -/
theorem exact {m : SetTopicFreezeRequest} (h : m.Fits) {version : Int16}
    (hversion : minVersion ≤ version ∧ version ≤ maxVersion) :
    Exact (m.encode version) (m.encodedLen version) (decode version) m := by
  refine exact_checkVersion hversion (Exact.len ((exact_putCompactString h.scope).bind
    ((exact_putI8 m.patternType).bind ((exact_putBool m.frozen).bind
    ((exact_putCompactString h.reason).bind ((exact_putUuid m.proposalId).bind
    ((exact_putI64 m.setAtMs).bind ((exact_putCompactString h.keyId).bind
    ((exact_putCompactBytes h.signature).bind
    ((exact_unknown h.unknown).bind_nil (Reads.pure m)))))))))) ?_)
  unfold encodedLen
  omega

end SetTopicFreezeRequest

structure SetTopicFreezeResponse where
  throttleTimeMs : Int32 := 0
  errorCode : Int16 := 0
  errorMessage : Option String := none
  unknownTaggedFields : UnknownTaggedFields := []
deriving DecidableEq

namespace SetTopicFreezeResponse

open SetTopicFreeze

def encode (m : SetTopicFreezeResponse) (version : Int16) : Encode :=
  checkVersionEncode apiKey version minVersion maxVersion do
    put (putI32 m.throttleTimeMs)
    put (putI16 m.errorCode)
    putCompactNullableString m.errorMessage
    writeUnknownTaggedFields m.unknownTaggedFields

def encodedLen (m : SetTopicFreezeResponse) (_version : Int16) : Nat :=
  4 + 2 + compactNullableStringLen m.errorMessage + unknownTaggedFieldsLen m.unknownTaggedFields

def decode (version : Int16) : Decode SetTopicFreezeResponse :=
  checkVersionDecode apiKey version minVersion maxVersion do
    let throttleTimeMs ← getI32
    let errorCode ← getI16
    let errorMessage ← getCompactNullableStringOwned
    let unknown ← readUnknownTaggedFields
    return ⟨throttleTimeMs, errorCode, errorMessage, unknown⟩

structure Fits (m : SetTopicFreezeResponse) : Prop where
  errorMessage : ∀ s ∈ m.errorMessage, CompactFits s.utf8ByteSize
  unknown : m.unknownTaggedFields.Fits

/-- A response to it is written in its announced length and read back. -/
theorem exact {m : SetTopicFreezeResponse} (h : m.Fits) {version : Int16}
    (hversion : minVersion ≤ version ∧ version ≤ maxVersion) :
    Exact (m.encode version) (m.encodedLen version) (decode version) m := by
  refine exact_checkVersion hversion (Exact.len ((exact_putI32 m.throttleTimeMs).bind
    ((exact_putI16 m.errorCode).bind ((exact_putCompactNullableString h.errorMessage).bind
    ((exact_unknown h.unknown).bind_nil (Reads.pure m))))) ?_)
  unfold encodedLen
  omega

end SetTopicFreezeResponse

end Freeze

/-! ## Break-glass proposals

The proposals with the approvals that they have. -/

namespace BreakGlass

namespace DescribeBreakGlass

def apiKey : Int16 := 1019
def minVersion : Int16 := 0
def maxVersion : Int16 := 0

end DescribeBreakGlass

structure DescribeBreakGlassRequest where
  pendingOnly : Bool := false
  proposalId : Uuid := .zero
  unknownTaggedFields : UnknownTaggedFields := []
deriving DecidableEq

namespace DescribeBreakGlassRequest

open DescribeBreakGlass

def encode (m : DescribeBreakGlassRequest) (version : Int16) : Encode :=
  checkVersionEncode apiKey version minVersion maxVersion do
    put (putBool m.pendingOnly)
    put (putUuid m.proposalId)
    writeUnknownTaggedFields m.unknownTaggedFields

def encodedLen (m : DescribeBreakGlassRequest) (_version : Int16) : Nat :=
  1 + 16 + unknownTaggedFieldsLen m.unknownTaggedFields

def decode (version : Int16) : Decode DescribeBreakGlassRequest :=
  checkVersionDecode apiKey version minVersion maxVersion do
    let pendingOnly ← getBool
    let proposalId ← getUuid
    let unknown ← readUnknownTaggedFields
    return ⟨pendingOnly, proposalId, unknown⟩

def Fits (m : DescribeBreakGlassRequest) : Prop := m.unknownTaggedFields.Fits

/-- A request for proposals is written in its announced length and read back. -/
theorem exact {m : DescribeBreakGlassRequest} (h : m.Fits) {version : Int16}
    (hversion : minVersion ≤ version ∧ version ≤ maxVersion) :
    Exact (m.encode version) (m.encodedLen version) (decode version) m := by
  refine exact_checkVersion hversion (Exact.len ((exact_putBool m.pendingOnly).bind
    ((exact_putUuid m.proposalId).bind ((exact_unknown h).bind_nil (Reads.pure m)))) ?_)
  unfold encodedLen
  omega

end DescribeBreakGlassRequest

structure BreakGlassApproval where
  principal : String := ""
  approvedAtMs : Int64 := 0
  keyId : String := ""
  signature : Bytes := []
  unknownTaggedFields : UnknownTaggedFields := []
deriving DecidableEq

namespace BreakGlassApproval

def encode (a : BreakGlassApproval) (_version : Int16) : Encode := do
  putCompactString a.principal
  put (putI64 a.approvedAtMs)
  putCompactString a.keyId
  putCompactBytes a.signature
  writeUnknownTaggedFields a.unknownTaggedFields

def encodedLen (a : BreakGlassApproval) (_version : Int16) : Nat :=
  compactStringLen a.principal + 8 + compactStringLen a.keyId + compactBytesLen a.signature +
    unknownTaggedFieldsLen a.unknownTaggedFields

def decode (_version : Int16) : Decode BreakGlassApproval := do
  let principal ← getCompactStringOwned
  let approvedAtMs ← getI64
  let keyId ← getCompactStringOwned
  let signature ← getCompactBytesOwned
  let unknown ← readUnknownTaggedFields
  return ⟨principal, approvedAtMs, keyId, signature, unknown⟩

structure Fits (a : BreakGlassApproval) : Prop where
  principal : CompactFits a.principal.utf8ByteSize
  keyId : CompactFits a.keyId.utf8ByteSize
  signature : CompactFits a.signature.length
  unknown : a.unknownTaggedFields.Fits

/-- An approval of a proposal. -/
theorem exact {a : BreakGlassApproval} (h : a.Fits) (version : Int16) :
    Exact (a.encode version) (a.encodedLen version) (decode version) a := by
  refine Exact.len ((exact_putCompactString h.principal).bind ((exact_putI64 a.approvedAtMs).bind
    ((exact_putCompactString h.keyId).bind ((exact_putCompactBytes h.signature).bind
    ((exact_unknown h.unknown).bind_nil (Reads.pure a)))))) ?_
  unfold encodedLen
  omega

end BreakGlassApproval

structure DescribedBreakGlassProposal where
  proposalId : Uuid := .zero
  action : Int8 := 0
  target : String := ""
  proposer : String := ""
  reason : String := ""
  createdAtMs : Int64 := 0
  expiresAtMs : Int64 := 0
  consumedAtMs : Int64 := 0
  withdrawn : Bool := false
  approvals : List BreakGlassApproval := []
  unknownTaggedFields : UnknownTaggedFields := []
deriving DecidableEq

namespace DescribedBreakGlassProposal

def encode (p : DescribedBreakGlassProposal) (version : Int16) : Encode := do
  put (putUuid p.proposalId)
  put (putI8 p.action)
  putCompactString p.target
  putCompactString p.proposer
  putCompactString p.reason
  put (putI64 p.createdAtMs)
  put (putI64 p.expiresAtMs)
  put (putI64 p.consumedAtMs)
  put (putBool p.withdrawn)
  encodeArray true (·.encode version) p.approvals
  writeUnknownTaggedFields p.unknownTaggedFields

def encodedLen (p : DescribedBreakGlassProposal) (version : Int16) : Nat :=
  16 + 1 + compactStringLen p.target + compactStringLen p.proposer + compactStringLen p.reason + 8 + 8 +
    8 + 1 + arrayLen true (·.encodedLen version) p.approvals +
    unknownTaggedFieldsLen p.unknownTaggedFields

def decode (version : Int16) : Decode DescribedBreakGlassProposal := do
  let proposalId ← getUuid
  let action ← getI8
  let target ← getCompactStringOwned
  let proposer ← getCompactStringOwned
  let reason ← getCompactStringOwned
  let createdAtMs ← getI64
  let expiresAtMs ← getI64
  let consumedAtMs ← getI64
  let withdrawn ← getBool
  let approvals ← getArray true (BreakGlassApproval.decode version)
  let unknown ← readUnknownTaggedFields
  return ⟨proposalId, action, target, proposer, reason, createdAtMs, expiresAtMs, consumedAtMs,
    withdrawn, approvals, unknown⟩

structure Fits (p : DescribedBreakGlassProposal) : Prop where
  target : CompactFits p.target.utf8ByteSize
  proposer : CompactFits p.proposer.utf8ByteSize
  reason : CompactFits p.reason.utf8ByteSize
  count : CompactFits p.approvals.length
  approvals : ∀ a ∈ p.approvals, a.Fits
  unknown : p.unknownTaggedFields.Fits

/-- A proposal with its approvals. -/
theorem exact {p : DescribedBreakGlassProposal} (h : p.Fits) (version : Int16) :
    Exact (p.encode version) (p.encodedLen version) (decode version) p := by
  have happrovals := exact_structs h.count
    (fun a ha => BreakGlassApproval.exact (h.approvals a ha) version)
    (fun a _ => Nat.le_add_left_of_le (one_le_unknownTaggedFieldsLen a.unknownTaggedFields))
  refine Exact.len ((exact_putUuid p.proposalId).bind ((exact_putI8 p.action).bind
    ((exact_putCompactString h.target).bind ((exact_putCompactString h.proposer).bind
    ((exact_putCompactString h.reason).bind ((exact_putI64 p.createdAtMs).bind
    ((exact_putI64 p.expiresAtMs).bind ((exact_putI64 p.consumedAtMs).bind
    ((exact_putBool p.withdrawn).bind (happrovals.bind
    ((exact_unknown h.unknown).bind_nil (Reads.pure p)))))))))))) ?_
  unfold encodedLen
  omega

end DescribedBreakGlassProposal

structure DescribeBreakGlassResponse where
  throttleTimeMs : Int32 := 0
  errorCode : Int16 := 0
  errorMessage : Option String := none
  proposals : List DescribedBreakGlassProposal := []
  unknownTaggedFields : UnknownTaggedFields := []
deriving DecidableEq

namespace DescribeBreakGlassResponse

open DescribeBreakGlass

def encode (m : DescribeBreakGlassResponse) (version : Int16) : Encode :=
  checkVersionEncode apiKey version minVersion maxVersion do
    put (putI32 m.throttleTimeMs)
    put (putI16 m.errorCode)
    putCompactNullableString m.errorMessage
    encodeArray true (·.encode version) m.proposals
    writeUnknownTaggedFields m.unknownTaggedFields

def encodedLen (m : DescribeBreakGlassResponse) (version : Int16) : Nat :=
  4 + 2 + compactNullableStringLen m.errorMessage + arrayLen true (·.encodedLen version) m.proposals +
    unknownTaggedFieldsLen m.unknownTaggedFields

def decode (version : Int16) : Decode DescribeBreakGlassResponse :=
  checkVersionDecode apiKey version minVersion maxVersion do
    let throttleTimeMs ← getI32
    let errorCode ← getI16
    let errorMessage ← getCompactNullableStringOwned
    let proposals ← getArray true (DescribedBreakGlassProposal.decode version)
    let unknown ← readUnknownTaggedFields
    return ⟨throttleTimeMs, errorCode, errorMessage, proposals, unknown⟩

structure Fits (m : DescribeBreakGlassResponse) : Prop where
  errorMessage : ∀ s ∈ m.errorMessage, CompactFits s.utf8ByteSize
  count : CompactFits m.proposals.length
  proposals : ∀ p ∈ m.proposals, p.Fits
  unknown : m.unknownTaggedFields.Fits

/-- A response with proposals is written in its announced length and read back. -/
theorem exact {m : DescribeBreakGlassResponse} (h : m.Fits) {version : Int16}
    (hversion : minVersion ≤ version ∧ version ≤ maxVersion) :
    Exact (m.encode version) (m.encodedLen version) (decode version) m := by
  have hproposals := exact_structs h.count
    (fun p hp => DescribedBreakGlassProposal.exact (h.proposals p hp) version)
    (fun p _ => Nat.le_add_left_of_le (one_le_unknownTaggedFieldsLen p.unknownTaggedFields))
  refine exact_checkVersion hversion (Exact.len ((exact_putI32 m.throttleTimeMs).bind
    ((exact_putI16 m.errorCode).bind ((exact_putCompactNullableString h.errorMessage).bind
    (hproposals.bind ((exact_unknown h.unknown).bind_nil (Reads.pure m)))))) ?_)
  unfold encodedLen
  omega

end DescribeBreakGlassResponse

end BreakGlass

/-! ## The messages together

One codec for each message; the claim is over all of them. -/

/-- A message type with its three functions. -/
structure MessageCodec (α : Type) where
  encode : α → Int16 → Encode
  encodedLen : α → Int16 → Nat
  decode : Int16 → Decode α

/-- On every value that fits and at every version of the message: the writer appends as many bytes as the
    length function predicts, the reader takes exactly these off any input that starts with them and
    answers the value, and it refuses the input that stops inside them. -/
def MessageCodec.IsExact {α : Type} (c : MessageCodec α) (fits : α → Prop) (versions : Int16 → Prop) :
    Prop :=
  ∀ (m : α) (version : Int16), fits m → versions version →
    ∃ w, Wrote (c.encode m version) w ∧ w.length = c.encodedLen m version ∧
      (∀ suffix, c.decode version (w ++ suffix) = .ok (m, suffix)) ∧
      ∀ p q, p ++ q = w → q ≠ [] → ∃ e, c.decode version p = .error e

open Barrier Freeze BreakGlass in
/-- **The private messages are exact codecs.** A struct of a message has no version check of its own. -/
theorem privateMessages_exact :
    (MessageCodec.IsExact ⟨WriteBarrierMarkersRequest.encode, WriteBarrierMarkersRequest.encodedLen,
        WriteBarrierMarkersRequest.decode⟩ WriteBarrierMarkersRequest.Fits
      (fun v => WriteBarrierMarkers.minVersion ≤ v ∧ v ≤ WriteBarrierMarkers.maxVersion)) ∧
    (MessageCodec.IsExact ⟨WriteBarrierMarkersResponse.encode, WriteBarrierMarkersResponse.encodedLen,
        WriteBarrierMarkersResponse.decode⟩ WriteBarrierMarkersResponse.Fits
      (fun v => WriteBarrierMarkers.minVersion ≤ v ∧ v ≤ WriteBarrierMarkers.maxVersion)) ∧
    (MessageCodec.IsExact ⟨BarrierCutPartition.encode, BarrierCutPartition.encodedLen,
        BarrierCutPartition.decode⟩ BarrierCutPartition.Fits (fun _ => True)) ∧
    (MessageCodec.IsExact ⟨BarrierCutTopic.encode, BarrierCutTopic.encodedLen, BarrierCutTopic.decode⟩
      BarrierCutTopic.Fits (fun _ => True)) ∧
    (MessageCodec.IsExact ⟨BarrierMissingPartition.encode, BarrierMissingPartition.encodedLen,
        BarrierMissingPartition.decode⟩ BarrierMissingPartition.Fits (fun _ => True)) ∧
    (MessageCodec.IsExact ⟨SetTopicFreezeRequest.encode, SetTopicFreezeRequest.encodedLen,
        SetTopicFreezeRequest.decode⟩ SetTopicFreezeRequest.Fits
      (fun v => SetTopicFreeze.minVersion ≤ v ∧ v ≤ SetTopicFreeze.maxVersion)) ∧
    (MessageCodec.IsExact ⟨SetTopicFreezeResponse.encode, SetTopicFreezeResponse.encodedLen,
        SetTopicFreezeResponse.decode⟩ SetTopicFreezeResponse.Fits
      (fun v => SetTopicFreeze.minVersion ≤ v ∧ v ≤ SetTopicFreeze.maxVersion)) ∧
    (MessageCodec.IsExact ⟨DescribeBreakGlassRequest.encode, DescribeBreakGlassRequest.encodedLen,
        DescribeBreakGlassRequest.decode⟩ DescribeBreakGlassRequest.Fits
      (fun v => DescribeBreakGlass.minVersion ≤ v ∧ v ≤ DescribeBreakGlass.maxVersion)) ∧
    (MessageCodec.IsExact ⟨DescribeBreakGlassResponse.encode, DescribeBreakGlassResponse.encodedLen,
        DescribeBreakGlassResponse.decode⟩ DescribeBreakGlassResponse.Fits
      (fun v => DescribeBreakGlass.minVersion ≤ v ∧ v ≤ DescribeBreakGlass.maxVersion)) :=
  ⟨fun _ _ h hv => WriteBarrierMarkersRequest.exact h hv,
    fun _ _ h hv => WriteBarrierMarkersResponse.exact h hv,
    fun _ version h _ => BarrierCutPartition.exact h version,
    fun _ version h _ => BarrierCutTopic.exact h version,
    fun _ version h _ => BarrierMissingPartition.exact h version,
    fun _ _ h hv => SetTopicFreezeRequest.exact h hv,
    fun _ _ h hv => SetTopicFreezeResponse.exact h hv,
    fun _ _ h hv => DescribeBreakGlassRequest.exact h hv,
    fun _ _ h hv => DescribeBreakGlassResponse.exact h hv⟩

end Krabka.Protocol
