import Krabka.Protocol.Produce
import Krabka.Protocol.Records.Payload

/-!
# `Protocol.Records.Carriers` — the messages that carry records

`ProduceRequest` and `FetchResponse`, from their generated codecs. The owned and the borrowed flavour differ
in how they write their records fields and in nothing else, so a message is generic in its payload, and a
`Carrier` is what a flavour does with one.

A message's length is a part that its payloads do not touch and what their fields take (`Splits`). It is
therefore predicted right exactly when the fields taken together are (`encode_contract_iff`).
-/

namespace Krabka.Protocol.Records

open ByteStream Output Krabka.Compression
open PartitionRecord (encodeToBytes encodeToBytes_eq_ok)

/-- How a flavour writes a payload behind its length prefix, and how long it takes the payload to be. -/
structure Carrier (ρ : Type) where
  putField : ρ → Int16 → Bool → Encode
  encodedLen : ρ → Int16 → Nat

variable {ρ : Type}

def RecordsPayload.carrier [CrcFast] (codecs : Codecs) : Carrier RecordsPayload where
  putField := encodeLengthPrefixed codecs
  encodedLen := encodedLen

def RecordsPayloadBorrowed.carrier [CrcFast] (codecs : Codecs) : Carrier RecordsPayloadBorrowed where
  putField := putField codecs
  encodedLen := encodedLen

/-- A field that is written only when `present`. -/
def putIf (present : Prop) [Decidable present] (x : Encode) : Encode := if present then x else pure ()

def lenIf (present : Prop) [Decidable present] (n : Nat) : Nat := if present then n else 0

/-- A nullable records field. -/
def putRecords (c : Carrier ρ) (records : Option ρ) (version : Int16) (flex : Bool) : Encode :=
  match records with
  | none => if flex then putCompactNullableBytes none else putNullableBytes none
  | some rb => c.putField rb version flex

def recordsLen (c : Carrier ρ) (records : Option ρ) (version : Int16) (flex : Bool) : Nat :=
  match records with
  | none => if flex then uvarintLen 0 else 4
  | some rb => fieldSize flex (c.encodedLen rb version)

/-- A struct that is written as a tagged field, when it is not its default. -/
def structField (tag : UInt32) (present : Bool) (x : Encode) : Except ProtocolError (List (UInt32 × Bytes)) :=
  if present then do
    let payload ← encodeToBytes x
    return [(tag, payload)]
  else return []

def structFieldLen (tag : UInt32) (present : Bool) (n : Nat) : List (UInt32 × Nat) :=
  if present then [(tag, n)] else []

/-- A trailer whose known fields are encoded before it is written. -/
def putTrailer (entries : Except ProtocolError (List (UInt32 × Bytes))) (unknown : UnknownTaggedFields) :
    Encode :=
  match entries with
  | .ok entries => writeTaggedFields entries unknown
  | .error e => fail e

/-! ## Produce

The request from the inside out. Only the innermost struct touches a payload. -/

structure PartitionProduceData (ρ : Type) where
  index : Int32 := 0
  records : Option ρ := none
  unknownTaggedFields : UnknownTaggedFields := []

structure TopicProduceData (ρ : Type) where
  name : String := ""
  topicId : Uuid := .zero
  partitionData : List (PartitionProduceData ρ) := []
  unknownTaggedFields : UnknownTaggedFields := []

structure ProduceRequest (ρ : Type) where
  transactionalId : Option String := none
  acks : Int16 := 0
  timeoutMs : Int32 := 0
  topicData : List (TopicProduceData ρ) := []
  unknownTaggedFields : UnknownTaggedFields := []

namespace PartitionProduceData

def encode (c : Carrier ρ) (p : PartitionProduceData ρ) (version : Int16) : Encode := do
  let flex : Bool := version ≥ 9
  putIf (version ≥ 0) (put (putI32 p.index))
  putIf (version ≥ 0) (putRecords c p.records version flex)
  putIf flex (writeTaggedFields [] p.unknownTaggedFields)

def encodedLen (c : Carrier ρ) (p : PartitionProduceData ρ) (version : Int16) : Nat :=
  let flex : Bool := version ≥ 9
  lenIf (version ≥ 0) 4 + (lenIf (version ≥ 0) (recordsLen c p.records version flex) +
    lenIf flex (taggedFieldsLen [] p.unknownTaggedFields))

end PartitionProduceData

namespace TopicProduceData

def encode (c : Carrier ρ) (t : TopicProduceData ρ) (version : Int16) : Encode := do
  let flex : Bool := version ≥ 9
  putIf (0 ≤ version ∧ version ≤ 12) (if flex then putCompactString t.name else putString t.name)
  putIf (version ≥ 13) (put (putUuid t.topicId))
  putIf (version ≥ 0) (encodeArray flex (fun p => p.encode c version) t.partitionData)
  putIf flex (writeTaggedFields [] t.unknownTaggedFields)

def encodedLen (c : Carrier ρ) (t : TopicProduceData ρ) (version : Int16) : Nat :=
  let flex : Bool := version ≥ 9
  lenIf (0 ≤ version ∧ version ≤ 12) (if flex then compactStringLen t.name else stringLen t.name) +
    (lenIf (version ≥ 13) 16 +
      (lenIf (version ≥ 0) (arrayLen flex (fun p => p.encodedLen c version) t.partitionData) +
        lenIf flex (taggedFieldsLen [] t.unknownTaggedFields)))

end TopicProduceData

namespace ProduceRequest

def encodeFields (c : Carrier ρ) (m : ProduceRequest ρ) (version : Int16) : Encode := do
  let flex := Produce.isFlexible version
  putIf (version ≥ 3)
    (if flex then putCompactNullableString m.transactionalId else putNullableString m.transactionalId)
  putIf (version ≥ 0) (put (putI16 m.acks))
  putIf (version ≥ 0) (put (putI32 m.timeoutMs))
  putIf (version ≥ 0) (encodeArray flex (fun t => t.encode c version) m.topicData)
  putIf flex (writeTaggedFields [] m.unknownTaggedFields)

def encode (c : Carrier ρ) (m : ProduceRequest ρ) (version : Int16) : Encode :=
  if ¬(Produce.minVersion ≤ version ∧ version ≤ Produce.maxVersion) then
    fail (.unsupportedVersion Produce.apiKey version)
  else m.encodeFields c version

def encodedLen (c : Carrier ρ) (m : ProduceRequest ρ) (version : Int16) : Nat :=
  let flex := Produce.isFlexible version
  lenIf (version ≥ 3)
      (if flex then compactNullableStringLen m.transactionalId else nullableStringLen m.transactionalId) +
    (lenIf (version ≥ 0) 2 + (lenIf (version ≥ 0) 4 +
      (lenIf (version ≥ 0) (arrayLen flex (fun t => t.encodedLen c version) m.topicData) +
        lenIf flex (taggedFieldsLen [] m.unknownTaggedFields))))

/-- The payloads that a request carries. -/
def payloads (m : ProduceRequest ρ) : List ρ :=
  m.topicData.flatMap fun t => t.partitionData.flatMap fun p => p.records.toList

end ProduceRequest

/-! ## Fetch

The response in the same way, with the structs that have tagged fields. -/

namespace Fetch

def apiKey : Int16 := 1
def minVersion : Int16 := 4
def maxVersion : Int16 := 18
def flexibleMin : Int16 := 12

def isFlexible (version : Int16) : Bool := version ≥ flexibleMin

end Fetch

structure EpochEndOffset where
  epoch : Int32 := -1
  endOffset : Int64 := -1
  unknownTaggedFields : UnknownTaggedFields := []
deriving DecidableEq

structure LeaderIdAndEpoch where
  leaderId : Int32 := -1
  leaderEpoch : Int32 := -1
  unknownTaggedFields : UnknownTaggedFields := []
deriving DecidableEq

structure SnapshotId where
  endOffset : Int64 := -1
  epoch : Int32 := -1
  unknownTaggedFields : UnknownTaggedFields := []
deriving DecidableEq

structure AbortedTransaction where
  producerId : Int64 := 0
  firstOffset : Int64 := 0
  unknownTaggedFields : UnknownTaggedFields := []
deriving DecidableEq

structure NodeEndpoint where
  nodeId : Int32 := 0
  host : String := ""
  port : Int32 := 0
  rack : Option String := none
  unknownTaggedFields : UnknownTaggedFields := []
deriving DecidableEq

structure PartitionData (ρ : Type) where
  partitionIndex : Int32 := 0
  errorCode : Int16 := 0
  highWatermark : Int64 := 0
  lastStableOffset : Int64 := -1
  logStartOffset : Int64 := -1
  abortedTransactions : Option (List AbortedTransaction) := some []
  preferredReadReplica : Int32 := -1
  records : Option ρ := none
  divergingEpoch : EpochEndOffset := {}
  currentLeader : LeaderIdAndEpoch := {}
  snapshotId : SnapshotId := {}
  unknownTaggedFields : UnknownTaggedFields := []

structure FetchableTopicResponse (ρ : Type) where
  topic : String := ""
  topicId : Uuid := .zero
  partitions : List (PartitionData ρ) := []
  unknownTaggedFields : UnknownTaggedFields := []

structure FetchResponse (ρ : Type) where
  throttleTimeMs : Int32 := 0
  errorCode : Int16 := 0
  sessionId : Int32 := 0
  responses : List (FetchableTopicResponse ρ) := []
  nodeEndpoints : List NodeEndpoint := []
  unknownTaggedFields : UnknownTaggedFields := []

def EpochEndOffset.encode (e : EpochEndOffset) (version : Int16) : Encode := do
  putIf (version ≥ 12) (put (putI32 e.epoch))
  putIf (version ≥ 12) (put (putI64 e.endOffset))
  putIf (version ≥ 12) (writeTaggedFields [] e.unknownTaggedFields)

def EpochEndOffset.encodedLen (e : EpochEndOffset) (version : Int16) : Nat :=
  lenIf (version ≥ 12) 4 + (lenIf (version ≥ 12) 8 +
    lenIf (version ≥ 12) (taggedFieldsLen [] e.unknownTaggedFields))

def LeaderIdAndEpoch.encode (l : LeaderIdAndEpoch) (version : Int16) : Encode := do
  putIf (version ≥ 12) (put (putI32 l.leaderId))
  putIf (version ≥ 12) (put (putI32 l.leaderEpoch))
  putIf (version ≥ 12) (writeTaggedFields [] l.unknownTaggedFields)

def LeaderIdAndEpoch.encodedLen (l : LeaderIdAndEpoch) (version : Int16) : Nat :=
  lenIf (version ≥ 12) 4 + (lenIf (version ≥ 12) 4 +
    lenIf (version ≥ 12) (taggedFieldsLen [] l.unknownTaggedFields))

def SnapshotId.encode (s : SnapshotId) (version : Int16) : Encode := do
  putIf (version ≥ 0) (put (putI64 s.endOffset))
  putIf (version ≥ 0) (put (putI32 s.epoch))
  putIf (version ≥ 12) (writeTaggedFields [] s.unknownTaggedFields)

def SnapshotId.encodedLen (s : SnapshotId) (version : Int16) : Nat :=
  lenIf (version ≥ 0) 8 + (lenIf (version ≥ 0) 4 +
    lenIf (version ≥ 12) (taggedFieldsLen [] s.unknownTaggedFields))

def AbortedTransaction.encode (a : AbortedTransaction) (version : Int16) : Encode := do
  putIf (version ≥ 4) (put (putI64 a.producerId))
  putIf (version ≥ 4) (put (putI64 a.firstOffset))
  putIf (version ≥ 12) (writeTaggedFields [] a.unknownTaggedFields)

def AbortedTransaction.encodedLen (a : AbortedTransaction) (version : Int16) : Nat :=
  lenIf (version ≥ 4) 8 + (lenIf (version ≥ 4) 8 +
    lenIf (version ≥ 12) (taggedFieldsLen [] a.unknownTaggedFields))

def NodeEndpoint.encode (e : NodeEndpoint) (version : Int16) : Encode := do
  let flex : Bool := version ≥ 12
  putIf (version ≥ 16) (put (putI32 e.nodeId))
  putIf (version ≥ 16) (if flex then putCompactString e.host else putString e.host)
  putIf (version ≥ 16) (put (putI32 e.port))
  putIf (version ≥ 16) (if flex then putCompactNullableString e.rack else putNullableString e.rack)
  putIf flex (writeTaggedFields [] e.unknownTaggedFields)

def NodeEndpoint.encodedLen (e : NodeEndpoint) (version : Int16) : Nat :=
  let flex : Bool := version ≥ 12
  lenIf (version ≥ 16) 4 +
    (lenIf (version ≥ 16) (if flex then compactStringLen e.host else stringLen e.host) +
      (lenIf (version ≥ 16) 4 +
        (lenIf (version ≥ 16) (if flex then compactNullableStringLen e.rack else nullableStringLen e.rack) +
          lenIf flex (taggedFieldsLen [] e.unknownTaggedFields))))

namespace PartitionData

def taggedFields (p : PartitionData ρ) (version : Int16) :
    Except ProtocolError (List (UInt32 × Bytes)) := do
  let divergingEpoch ← structField 0 (p.divergingEpoch ≠ {}) (p.divergingEpoch.encode version)
  let currentLeader ← structField 1 (p.currentLeader ≠ {}) (p.currentLeader.encode version)
  let snapshotId ← structField 2 (p.snapshotId ≠ {}) (p.snapshotId.encode version)
  return divergingEpoch ++ (currentLeader ++ snapshotId)

def encode (c : Carrier ρ) (p : PartitionData ρ) (version : Int16) : Encode := do
  let flex : Bool := version ≥ 12
  putIf (version ≥ 0) (put (putI32 p.partitionIndex))
  putIf (version ≥ 0) (put (putI16 p.errorCode))
  putIf (version ≥ 0) (put (putI64 p.highWatermark))
  putIf (version ≥ 4) (put (putI64 p.lastStableOffset))
  putIf (version ≥ 5) (put (putI64 p.logStartOffset))
  putIf (version ≥ 4) (encodeNullableArray flex (fun a => a.encode version) p.abortedTransactions)
  putIf (version ≥ 11) (put (putI32 p.preferredReadReplica))
  putIf (version ≥ 0) (putRecords c p.records version flex)
  putIf flex (putTrailer (p.taggedFields version) p.unknownTaggedFields)

def knownPairs (p : PartitionData ρ) (version : Int16) : List (UInt32 × Nat) :=
  structFieldLen 0 (p.divergingEpoch ≠ {}) (p.divergingEpoch.encodedLen version) ++
    (structFieldLen 1 (p.currentLeader ≠ {}) (p.currentLeader.encodedLen version) ++
      structFieldLen 2 (p.snapshotId ≠ {}) (p.snapshotId.encodedLen version))

def encodedLen (c : Carrier ρ) (p : PartitionData ρ) (version : Int16) : Nat :=
  let flex : Bool := version ≥ 12
  lenIf (version ≥ 0) 4 + (lenIf (version ≥ 0) 2 + (lenIf (version ≥ 0) 8 + (lenIf (version ≥ 4) 8 +
    (lenIf (version ≥ 5) 8 +
      (lenIf (version ≥ 4) (nullableArrayLen flex (fun a => a.encodedLen version) p.abortedTransactions) +
        (lenIf (version ≥ 11) 4 + (lenIf (version ≥ 0) (recordsLen c p.records version flex) +
          lenIf flex (taggedFieldsLen (p.knownPairs version) p.unknownTaggedFields))))))))

end PartitionData

namespace FetchableTopicResponse

def encode (c : Carrier ρ) (t : FetchableTopicResponse ρ) (version : Int16) : Encode := do
  let flex : Bool := version ≥ 12
  putIf (0 ≤ version ∧ version ≤ 12) (if flex then putCompactString t.topic else putString t.topic)
  putIf (version ≥ 13) (put (putUuid t.topicId))
  putIf (version ≥ 0) (encodeArray flex (fun p => p.encode c version) t.partitions)
  putIf flex (writeTaggedFields [] t.unknownTaggedFields)

def encodedLen (c : Carrier ρ) (t : FetchableTopicResponse ρ) (version : Int16) : Nat :=
  let flex : Bool := version ≥ 12
  lenIf (0 ≤ version ∧ version ≤ 12) (if flex then compactStringLen t.topic else stringLen t.topic) +
    (lenIf (version ≥ 13) 16 +
      (lenIf (version ≥ 0) (arrayLen flex (fun p => p.encodedLen c version) t.partitions) +
        lenIf flex (taggedFieldsLen [] t.unknownTaggedFields)))

end FetchableTopicResponse

namespace FetchResponse

def taggedFields (m : FetchResponse ρ) (version : Int16) (flex : Bool) :
    Except ProtocolError (List (UInt32 × Bytes)) :=
  structField 0 (version ≥ 16 ∧ m.nodeEndpoints ≠ [])
    (encodeArray flex (fun e => e.encode version) m.nodeEndpoints)

def encodeFields (c : Carrier ρ) (m : FetchResponse ρ) (version : Int16) : Encode := do
  let flex := Fetch.isFlexible version
  putIf (version ≥ 1) (put (putI32 m.throttleTimeMs))
  putIf (version ≥ 7) (put (putI16 m.errorCode))
  putIf (version ≥ 7) (put (putI32 m.sessionId))
  putIf (version ≥ 0) (encodeArray flex (fun t => t.encode c version) m.responses)
  putIf flex (putTrailer (m.taggedFields version flex) m.unknownTaggedFields)

def encode (c : Carrier ρ) (m : FetchResponse ρ) (version : Int16) : Encode :=
  if ¬(Fetch.minVersion ≤ version ∧ version ≤ Fetch.maxVersion) then
    fail (.unsupportedVersion Fetch.apiKey version)
  else m.encodeFields c version

def knownPairs (m : FetchResponse ρ) (version : Int16) (flex : Bool) : List (UInt32 × Nat) :=
  structFieldLen 0 (version ≥ 16 ∧ m.nodeEndpoints ≠ [])
    (arrayLen flex (fun e => e.encodedLen version) m.nodeEndpoints)

def encodedLen (c : Carrier ρ) (m : FetchResponse ρ) (version : Int16) : Nat :=
  let flex := Fetch.isFlexible version
  lenIf (version ≥ 1) 4 + (lenIf (version ≥ 7) 2 + (lenIf (version ≥ 7) 4 +
    (lenIf (version ≥ 0) (arrayLen flex (fun t => t.encodedLen c version) m.responses) +
      lenIf flex (taggedFieldsLen (m.knownPairs version flex) m.unknownTaggedFields))))

/-- The payloads that a response carries. -/
def payloads (m : FetchResponse ρ) : List ρ :=
  m.responses.flatMap fun t => t.partitions.flatMap fun p => p.records.toList

end FetchResponse

/-! ## What a message appends

As many bytes as its length function says, once the payloads do. -/

/-- The carrier knows how long its payloads are. -/
def Carrier.Truthful (c : Carrier ρ) : Prop :=
  ∀ p version flex, Sized (c.putField p version flex) (fieldSize flex (c.encodedLen p version))

theorem sized_putIf {present : Prop} [Decidable present] {x : Encode} {n : Nat} (h : Sized x n) :
    Sized (putIf present x) (lenIf present n) :=
  h.ite Sized.pure

/-- A records field is as long as announced, prefix and payload together. -/
theorem sized_putRecords {c : Carrier ρ} (hc : c.Truthful) (records : Option ρ) (version : Int16)
    (flex : Bool) : Sized (putRecords c records version flex) (recordsLen c records version flex) := by
  cases records with
  | none => exact (Sized.put (length_putUvarint 0)).ite (Sized.put (length_putI32 (-1)))
  | some rb => exact hc rb version flex

/-- A tagged struct is announced with the length that it is written in. -/
theorem sized_structField {tag : UInt32} {present : Bool} {x : Encode} {n : Nat}
    {entries : List (UInt32 × Bytes)} (h : structField tag present x = .ok entries) (hx : Sized x n) :
    entries.map (fun e => (e.1, e.2.length)) = structFieldLen tag present n := by
  unfold structField at h
  unfold structFieldLen
  split at h
  · rename_i hpresent
    obtain ⟨payload, hpayload, h⟩ := Results.bind_eq_ok.mp h
    cases h
    rw [if_pos hpresent, List.map_cons, List.map_nil, hx payload (encodeToBytes_eq_ok.mp hpayload)]
  · rename_i habsent
    cases h
    rw [if_neg habsent, List.map_nil]

/-- A trailer is as long as announced where its known fields are. -/
theorem sized_putTrailer {entries : Except ProtocolError (List (UInt32 × Bytes))}
    {known : List (UInt32 × Nat)} (unknown : UnknownTaggedFields)
    (h : ∀ es, entries = .ok es → es.map (fun e => (e.1, e.2.length)) = known) :
    Sized (putTrailer entries unknown) (taggedFieldsLen known unknown) := by
  cases entries with
  | error e => exact Sized.fail
  | ok es => exact h es rfl ▸ sized_writeTaggedFields es unknown

theorem sized_unknown (unknown : UnknownTaggedFields) :
    Sized (writeTaggedFields [] unknown) (taggedFieldsLen [] unknown) :=
  sized_writeTaggedFields [] unknown

/-- One partition of a produce request. -/
theorem PartitionProduceData.sized_encode {c : Carrier ρ} (hc : c.Truthful)
    (p : PartitionProduceData ρ) (version : Int16) :
    Sized (p.encode c version) (p.encodedLen c version) :=
  (sized_putIf (Sized.put (length_putI32 p.index))).bind
    ((sized_putIf (sized_putRecords hc p.records version _)).bind
      (sized_putIf (sized_unknown p.unknownTaggedFields)))

/-- One topic of a produce request. -/
theorem TopicProduceData.sized_encode {c : Carrier ρ} (hc : c.Truthful) (t : TopicProduceData ρ)
    (version : Int16) : Sized (t.encode c version) (t.encodedLen c version) :=
  (sized_putIf ((sized_putCompactString t.name).ite (sized_putString t.name))).bind
    ((sized_putIf (Sized.put (length_putUuid t.topicId))).bind
      ((sized_putIf (sized_encodeArray fun p _ => p.sized_encode hc version)).bind
        (sized_putIf (sized_unknown t.unknownTaggedFields))))

/-- **A produce request is as long as it announces**, over a carrier that tells the truth. -/
theorem ProduceRequest.sized_encode {c : Carrier ρ} (hc : c.Truthful) (m : ProduceRequest ρ)
    (version : Int16) : Sized (m.encode c version) (m.encodedLen c version) := by
  unfold encode
  split
  · exact Sized.fail
  · exact (sized_putIf ((sized_putCompactNullableString m.transactionalId).ite
        (sized_putNullableString m.transactionalId))).bind
      ((sized_putIf (Sized.put (length_putI16 m.acks))).bind
        ((sized_putIf (Sized.put (length_putI32 m.timeoutMs))).bind
          ((sized_putIf (sized_encodeArray fun t _ => t.sized_encode hc version)).bind
            (sized_putIf (sized_unknown m.unknownTaggedFields)))))

theorem EpochEndOffset.sized_encode (e : EpochEndOffset) (version : Int16) :
    Sized (e.encode version) (e.encodedLen version) :=
  (sized_putIf (Sized.put (length_putI32 e.epoch))).bind
    ((sized_putIf (Sized.put (length_putI64 e.endOffset))).bind
      (sized_putIf (sized_unknown e.unknownTaggedFields)))

theorem LeaderIdAndEpoch.sized_encode (l : LeaderIdAndEpoch) (version : Int16) :
    Sized (l.encode version) (l.encodedLen version) :=
  (sized_putIf (Sized.put (length_putI32 l.leaderId))).bind
    ((sized_putIf (Sized.put (length_putI32 l.leaderEpoch))).bind
      (sized_putIf (sized_unknown l.unknownTaggedFields)))

theorem SnapshotId.sized_encode (s : SnapshotId) (version : Int16) :
    Sized (s.encode version) (s.encodedLen version) :=
  (sized_putIf (Sized.put (length_putI64 s.endOffset))).bind
    ((sized_putIf (Sized.put (length_putI32 s.epoch))).bind
      (sized_putIf (sized_unknown s.unknownTaggedFields)))

theorem AbortedTransaction.sized_encode (a : AbortedTransaction) (version : Int16) :
    Sized (a.encode version) (a.encodedLen version) :=
  (sized_putIf (Sized.put (length_putI64 a.producerId))).bind
    ((sized_putIf (Sized.put (length_putI64 a.firstOffset))).bind
      (sized_putIf (sized_unknown a.unknownTaggedFields)))

theorem NodeEndpoint.sized_encode (e : NodeEndpoint) (version : Int16) :
    Sized (e.encode version) (e.encodedLen version) :=
  (sized_putIf (Sized.put (length_putI32 e.nodeId))).bind
    ((sized_putIf ((sized_putCompactString e.host).ite (sized_putString e.host))).bind
      ((sized_putIf (Sized.put (length_putI32 e.port))).bind
        ((sized_putIf ((sized_putCompactNullableString e.rack).ite (sized_putNullableString e.rack))).bind
          (sized_putIf (sized_unknown e.unknownTaggedFields)))))

/-- The tagged fields of a partition are announced with their own lengths. -/
theorem PartitionData.length_taggedFields (p : PartitionData ρ) (version : Int16)
    (es : List (UInt32 × Bytes)) (h : p.taggedFields version = .ok es) :
    es.map (fun e => (e.1, e.2.length)) = p.knownPairs version := by
  unfold taggedFields at h
  obtain ⟨diverging, hdiverging, h⟩ := Results.bind_eq_ok.mp h
  obtain ⟨leader, hleader, h⟩ := Results.bind_eq_ok.mp h
  obtain ⟨snapshot, hsnapshot, h⟩ := Results.bind_eq_ok.mp h
  rw [← Results.pure_eq_ok.mp h, List.map_append, List.map_append,
    sized_structField hdiverging (p.divergingEpoch.sized_encode version),
    sized_structField hleader (p.currentLeader.sized_encode version),
    sized_structField hsnapshot (p.snapshotId.sized_encode version)]
  rfl

/-- One partition of a fetch response. -/
theorem PartitionData.sized_encode {c : Carrier ρ} (hc : c.Truthful) (p : PartitionData ρ)
    (version : Int16) : Sized (p.encode c version) (p.encodedLen c version) :=
  (sized_putIf (Sized.put (length_putI32 p.partitionIndex))).bind
    ((sized_putIf (Sized.put (length_putI16 p.errorCode))).bind
      ((sized_putIf (Sized.put (length_putI64 p.highWatermark))).bind
        ((sized_putIf (Sized.put (length_putI64 p.lastStableOffset))).bind
          ((sized_putIf (Sized.put (length_putI64 p.logStartOffset))).bind
            ((sized_putIf (sized_encodeNullableArray fun a _ => a.sized_encode version)).bind
              ((sized_putIf (Sized.put (length_putI32 p.preferredReadReplica))).bind
                ((sized_putIf (sized_putRecords hc p.records version _)).bind
                  (sized_putIf (sized_putTrailer p.unknownTaggedFields
                    (p.length_taggedFields version))))))))))

/-- One topic of a fetch response. -/
theorem FetchableTopicResponse.sized_encode {c : Carrier ρ} (hc : c.Truthful)
    (t : FetchableTopicResponse ρ) (version : Int16) :
    Sized (t.encode c version) (t.encodedLen c version) :=
  (sized_putIf ((sized_putCompactString t.topic).ite (sized_putString t.topic))).bind
    ((sized_putIf (Sized.put (length_putUuid t.topicId))).bind
      ((sized_putIf (sized_encodeArray fun p _ => p.sized_encode hc version)).bind
        (sized_putIf (sized_unknown t.unknownTaggedFields))))

/-- **A fetch response is as long as it announces**, over a carrier that tells the truth. -/
theorem FetchResponse.sized_encode {c : Carrier ρ} (hc : c.Truthful) (m : FetchResponse ρ)
    (version : Int16) : Sized (m.encode c version) (m.encodedLen c version) := by
  unfold encode
  split
  · exact Sized.fail
  · have hknown : ∀ flex es, m.taggedFields version flex = .ok es →
        es.map (fun e => (e.1, e.2.length)) = m.knownPairs version flex := fun flex es h =>
      sized_structField h (sized_encodeArray fun e _ => e.sized_encode version)
    exact (sized_putIf (Sized.put (length_putI32 m.throttleTimeMs))).bind
      ((sized_putIf (Sized.put (length_putI16 m.errorCode))).bind
        ((sized_putIf (Sized.put (length_putI32 m.sessionId))).bind
          ((sized_putIf (sized_encodeArray fun t _ => t.sized_encode hc version)).bind
            (sized_putIf (sized_putTrailer m.unknownTaggedFields (hknown _))))))

/-! ## What payloads add to a message

The length is a constant and the lengths of the fields, over all partitions. -/

/-- A length is a part that no payload touches, and what the fields of `ps` take. -/
def Splits (length : Carrier ρ → Nat) (version : Int16) (flex : Bool) (ps : List ρ) : Prop :=
  ∃ rest, ∀ c : Carrier ρ,
    length c = rest + (ps.map fun p => fieldSize flex (c.encodedLen p version)).sum

namespace Splits

variable {version : Int16} {flex : Bool} {f g : Carrier ρ → Nat} {ps qs : List ρ}

/-- A length without payloads. -/
theorem const (n : Nat) : Splits (fun _ : Carrier ρ => n) version flex [] := ⟨n, fun _ => rfl⟩

/-- Lengths that follow one another carry the payloads of both. -/
theorem add (hf : Splits f version flex ps) (hg : Splits g version flex qs) :
    Splits (fun c => f c + g c) version flex (ps ++ qs) := by
  obtain ⟨k, hk⟩ := hf
  obtain ⟨l, hl⟩ := hg
  refine ⟨k + l, fun c => ?_⟩
  show f c + g c = _
  rw [hk c, hl c, List.map_append, List.sum_append]
  omega

theorem const_add (n : Nat) (hf : Splits f version flex ps) :
    Splits (fun c => n + f c) version flex ps :=
  (const n).add hf

theorem add_const (hf : Splits f version flex ps) (n : Nat) :
    Splits (fun c => f c + n) version flex ps := by
  have h := hf.add (const n)
  rwa [List.append_nil] at h

/-- A field that is present carries its payloads. -/
theorem lenIf {present : Prop} [Decidable present] (hpresent : present)
    (hf : Splits f version flex ps) : Splits (fun c => lenIf present (f c)) version flex ps := by
  simp only [Records.lenIf, if_pos hpresent]
  exact hf

/-- An array carries the payloads of its elements, in their order. -/
theorem arrayLen {α : Type} {len : Carrier ρ → α → Nat} {carried : α → List ρ} {as : List α}
    (h : ∀ a ∈ as, Splits (fun c => len c a) version flex (carried a)) :
    Splits (fun c => arrayLen flex (len c) as) version flex (as.flatMap carried) := by
  have hsum : Splits (fun c => (as.map (len c)).sum) version flex (as.flatMap carried) := by
    induction as with
    | nil => exact const 0
    | cons a as ih =>
        exact (h a List.mem_cons_self).add (ih fun b hb => h b (List.mem_cons_of_mem a hb))
  exact hsum.const_add _

/-- A records field carries its payload, if there is one. -/
theorem recordsLen (records : Option ρ) (version : Int16) (flex : Bool) :
    Splits (fun c => recordsLen c records version flex) version flex records.toList := by
  cases records with
  | none => exact const _
  | some rb => exact ⟨0, fun c => by simp [Records.recordsLen]⟩

end Splits

/-- The length of a produce request depends on its payloads alone, one by one. -/
theorem ProduceRequest.splits (m : ProduceRequest ρ) {version : Int16} (hversion : version ≥ 0) :
    Splits (fun c => m.encodedLen c version) version (Produce.isFlexible version) m.payloads := by
  have hpartition (p : PartitionProduceData ρ) : Splits (fun c => p.encodedLen c version) version
      (Produce.isFlexible version) p.records.toList :=
    (((Splits.recordsLen p.records version _).lenIf hversion).add_const _).const_add _
  have htopic (t : TopicProduceData ρ) : Splits (fun c => t.encodedLen c version) version
      (Produce.isFlexible version) (t.partitionData.flatMap fun p => p.records.toList) :=
    ((((Splits.arrayLen fun p _ => hpartition p).lenIf hversion).add_const _).const_add _).const_add _
  exact ((((Splits.arrayLen fun t _ => htopic t).lenIf hversion).add_const _).const_add _).const_add _
    |>.const_add _

/-- The length of a fetch response depends on its payloads alone, one by one. -/
theorem FetchResponse.splits (m : FetchResponse ρ) {version : Int16} (hversion : version ≥ 0) :
    Splits (fun c => m.encodedLen c version) version (Fetch.isFlexible version) m.payloads := by
  have hpartition (p : PartitionData ρ) : Splits (fun c => p.encodedLen c version) version
      (Fetch.isFlexible version) p.records.toList :=
    ((((((((Splits.recordsLen p.records version _).lenIf hversion).add_const _).const_add _).const_add
      _).const_add _).const_add _).const_add _).const_add _ |>.const_add _
  have htopic (t : FetchableTopicResponse ρ) : Splits (fun c => t.encodedLen c version) version
      (Fetch.isFlexible version) (t.partitions.flatMap fun p => p.records.toList) :=
    ((((Splits.arrayLen fun p _ => hpartition p).lenIf hversion).add_const _).const_add _).const_add _
  exact ((((Splits.arrayLen fun t _ => htopic t).lenIf hversion).add_const _).const_add _).const_add _
    |>.const_add _

/-! ## The contract

The message is predicted right if the sum is, so a payload that is predicted too long can be made up for by
another. -/

/-- The fields of the payloads take as many bytes on the wire as they are predicted to, together. -/
def Carrier.Balanced (c : Carrier ρ) (wireLen : ρ → Nat) (version : Int16) (flex : Bool) (ps : List ρ) :
    Prop :=
  (ps.map fun p => fieldSize flex (wireLen p)).sum =
    (ps.map fun p => fieldSize flex (c.encodedLen p version)).sum

/-- The carrier that knows how long its payloads are on the wire. -/
def Carrier.onWire (c : Carrier ρ) (wireLen : ρ → Nat) : Carrier ρ :=
  { c with encodedLen := fun p _ => wireLen p }

/-- A length that splits is predicted right exactly when the payloads are balanced. -/
theorem Splits.length_eq_iff {length : Carrier ρ → Nat} {version : Int16} {flex : Bool} {ps : List ρ}
    (h : Splits length version flex ps) (c : Carrier ρ) (wireLen : ρ → Nat) :
    length (c.onWire wireLen) = length c ↔ c.Balanced wireLen version flex ps := by
  obtain ⟨rest, hrest⟩ := h
  rw [hrest c, hrest (c.onWire wireLen), Nat.add_left_cancel_iff]
  exact Iff.rfl

theorem zero_le_of_le {min version : Int16} (hmin : 0 ≤ min) (h : min ≤ version) : version ≥ 0 :=
  Int16.le_trans hmin h

/-- A message is written in the versions it has. -/
theorem inRange_of_wrote {p : Prop} [Decidable p] {e : ProtocolError} {x : Encode} {w : Bytes}
    (h : Wrote (if ¬p then fail e else x) w) : p := by
  by_contra hout
  rw [if_pos hout] at h
  exact not_wrote_fail h

/-- A produce request is as long as announced exactly where its payloads are balanced. -/
theorem ProduceRequest.length_eq_iff {c : Carrier ρ} {wireLen : ρ → Nat}
    (hc : (c.onWire wireLen).Truthful) (m : ProduceRequest ρ) {version : Int16} {w : Bytes}
    (h : Wrote (m.encode c version) w) :
    w.length = m.encodedLen c version ↔
      c.Balanced wireLen version (Produce.isFlexible version) m.payloads := by
  have hrange : Produce.minVersion ≤ version ∧ version ≤ Produce.maxVersion := inRange_of_wrote h
  have hwire : w.length = m.encodedLen (c.onWire wireLen) version := m.sized_encode hc version w h
  rw [hwire]
  exact (m.splits (zero_le_of_le (by decide) hrange.1)).length_eq_iff c wireLen

/-- A fetch response is as long as announced exactly where its payloads are balanced. -/
theorem FetchResponse.length_eq_iff {c : Carrier ρ} {wireLen : ρ → Nat}
    (hc : (c.onWire wireLen).Truthful) (m : FetchResponse ρ) {version : Int16} {w : Bytes}
    (h : Wrote (m.encode c version) w) :
    w.length = m.encodedLen c version ↔
      c.Balanced wireLen version (Fetch.isFlexible version) m.payloads := by
  have hrange : Fetch.minVersion ≤ version ∧ version ≤ Fetch.maxVersion := inRange_of_wrote h
  have hwire : w.length = m.encodedLen (c.onWire wireLen) version := m.sized_encode hc version w h
  rw [hwire]
  exact (m.splits (zero_le_of_le (by decide) hrange.1)).length_eq_iff c wireLen

/-- With the length on the wire for the announced one, the payload tells the truth. -/
theorem RecordsPayload.truthful [CrcFast] (codecs : Codecs) :
    ((RecordsPayload.carrier codecs).onWire (wireLen codecs)).Truthful :=
  fun p version flex => p.sized_encodeLengthPrefixed version flex

theorem RecordsPayloadBorrowed.truthful [CrcFast] (codecs : Codecs) :
    ((RecordsPayloadBorrowed.carrier codecs).onWire (wireLen codecs)).Truthful :=
  fun p version flex => p.sized_putField version flex

/-- **`encoded_len` of payloads and of the messages that carry them.** A payload that encodes has the
predicted length exactly when its codecs leave its batches as long as they were, taken together; a message
has it exactly when its records fields do, taken together. -/
theorem encode_contract_iff [CrcFast] (codecs : Codecs) (version : Int16) (w : Bytes) :
    (∀ p : RecordsPayload, Wrote (p.encode codecs version) w →
      (w.length = p.encodedLen version ↔ p.Predictable codecs)) ∧
    (∀ p : RecordsPayloadBorrowed, Wrote (p.encode codecs version) w →
      (w.length = p.encodedLen version ↔ p.Predictable codecs)) ∧
    (∀ m : ProduceRequest RecordsPayload, Wrote (m.encode (RecordsPayload.carrier codecs) version) w →
      (w.length = m.encodedLen (RecordsPayload.carrier codecs) version ↔
        (RecordsPayload.carrier codecs).Balanced (·.wireLen codecs) version (Produce.isFlexible version)
          m.payloads)) ∧
    (∀ m : ProduceRequest RecordsPayloadBorrowed,
      Wrote (m.encode (RecordsPayloadBorrowed.carrier codecs) version) w →
      (w.length = m.encodedLen (RecordsPayloadBorrowed.carrier codecs) version ↔
        (RecordsPayloadBorrowed.carrier codecs).Balanced (·.wireLen codecs) version
          (Produce.isFlexible version) m.payloads)) ∧
    (∀ m : FetchResponse RecordsPayload, Wrote (m.encode (RecordsPayload.carrier codecs) version) w →
      (w.length = m.encodedLen (RecordsPayload.carrier codecs) version ↔
        (RecordsPayload.carrier codecs).Balanced (·.wireLen codecs) version (Fetch.isFlexible version)
          m.payloads)) ∧
    (∀ m : FetchResponse RecordsPayloadBorrowed,
      Wrote (m.encode (RecordsPayloadBorrowed.carrier codecs) version) w →
      (w.length = m.encodedLen (RecordsPayloadBorrowed.carrier codecs) version ↔
        (RecordsPayloadBorrowed.carrier codecs).Balanced (·.wireLen codecs) version
          (Fetch.isFlexible version) m.payloads)) := by
  refine ⟨?_, ?_, ?_, ?_, ?_, ?_⟩
  · intro p h
    rw [p.sized_encode version w h]
    exact p.wireLen_eq_iff version
  · intro p h
    rw [p.sized_encode version w h]
    exact RecordsPayloadBorrowed.wireLen_eq_iff h
  · exact fun m h => m.length_eq_iff (RecordsPayload.truthful codecs) h
  · exact fun m h => m.length_eq_iff (RecordsPayloadBorrowed.truthful codecs) h
  · exact fun m h => m.length_eq_iff (RecordsPayload.truthful codecs) h
  · exact fun m h => m.length_eq_iff (RecordsPayloadBorrowed.truthful codecs) h

/-- What gzip makes of no bytes: a header, an empty block and a checksum. Any other input it only frames. -/
def gzipFrames : Codec where
  compress data := .ok ([0x1f, 0x8b, 8, 0, 0, 0, 0, 0, 0, 255] ++ data ++ [3, 0, 0, 0, 0, 0, 0, 0, 0, 0])
  decompress data _ := .ok ((data.drop 10).take (data.length - 20))

def gzipOnly : Codecs := { Codecs.disabled with gzip := gzipFrames }

/-- A gzip batch without records. -/
def emptyGzipBatch : RecordBatch where
  attributes := ⟨1⟩

/-- The request that carries it. -/
def emptyGzipRequest : ProduceRequest RecordsPayload where
  acks := -1
  topicData := [{ name := "t", partitionData := [{ records := some (.v2 [emptyGzipBatch]) }] }]

/-- A writer that succeeds has written its output. -/
theorem wrote_out {x : Encode} (h : x.result.isOk = true) : Wrote x x.out := by
  obtain ⟨out, result⟩ := x
  cases result with
  | error e => cases h
  | ok u => rfl

theorem ok_of_any {α : Type} {x : Except RecordsError α} {f : α → Bool}
    (h : x.toOption.any f = true) : ∃ a, x = .ok a ∧ f a = true := by
  cases x with
  | error e => cases h
  | ok a => exact ⟨a, rfl, h⟩

/-- The batch is predicted to take its header and takes 20 bytes more, owned or decoded, in a payload and
in a request. -/
theorem emptyGzipBatch_underestimated :
    (∃ w, Wrote (RecordsPayload.encode gzipOnly (.v2 [emptyGzipBatch]) 0) w ∧ w.length = 81 ∧
      RecordsPayload.encodedLen (.v2 [emptyGzipBatch]) 0 = 61 ∧
      ∃ p, RecordsPayloadBorrowed.fromSlice gzipOnly w = .ok p ∧ Wrote (p.encode gzipOnly 0) w ∧
        p.encodedLen 0 = 61) ∧
    ∃ w, Wrote (emptyGzipRequest.encode (RecordsPayload.carrier gzipOnly) 9) w ∧
      w.length = emptyGzipRequest.encodedLen (RecordsPayload.carrier gzipOnly) 9 + 20 := by
  refine ⟨⟨_, wrote_out (by decide +kernel), by decide +kernel, by decide +kernel, ?_⟩,
    _, wrote_out (by decide +kernel), by decide +kernel⟩
  have hdecoded : (RecordsPayloadBorrowed.fromSlice gzipOnly
      (RecordsPayload.encode gzipOnly (.v2 [emptyGzipBatch]) 0).out).toOption.any (fun p =>
        (p.encode gzipOnly 0).result.isOk ∧
        (p.encode gzipOnly 0).out = (RecordsPayload.encode gzipOnly (.v2 [emptyGzipBatch]) 0).out ∧
        p.encodedLen 0 = 61) = true := by decide +kernel
  obtain ⟨p, hp, hcheck⟩ := ok_of_any hdecoded
  obtain ⟨hfinished, hout, hlen⟩ := of_decide_eq_true hcheck
  exact ⟨p, hp, hout ▸ wrote_out hfinished, hlen⟩

theorem encode_contract_of_emptyGzipBatch :
    (∃ w, Wrote (RecordsPayload.encode gzipOnly (.v2 [emptyGzipBatch]) 0) w ∧
      (w.length = RecordsPayload.encodedLen (.v2 [emptyGzipBatch]) 0 ↔
        RecordsPayload.Predictable gzipOnly (.v2 [emptyGzipBatch]))) := by
  have hw : Wrote (RecordsPayload.encode gzipOnly (.v2 [emptyGzipBatch]) 0) _ :=
    wrote_out (by decide +kernel)
  exact ⟨_, hw, (encode_contract_iff gzipOnly 0 _).1 _ hw⟩

end Krabka.Protocol.Records
