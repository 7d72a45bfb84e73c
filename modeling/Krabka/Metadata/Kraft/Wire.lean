import Krabka.Metadata.Image
import Krabka.Lib.Results

/-!
# `Metadata.Kraft.Wire` — KIP-631 records and the values they carry

The records of the controller log as the generated codecs declare them, the enumerations in their wire
form, and the content hash that stands for an ACL's id. The crate has two 16-byte UUID types and copies
the bytes between them; here they are one. The records also carry the tagged fields that a schema does
not declare. Only `NoOp` is ever read for them, so only `NoOp` has the field.

The byte codecs are generated code and the `wincode` crate, and enter as the parameter `Codec`. What the
translation relies on is `Codec.Lawful`: a record comes back from its bytes, provided the version it is
framed at carries every field it sets.
-/

namespace Krabka.Metadata.Kraft

open Collections FixedWidth Results

/-! ## Records

Each structure has the fields of the generated one that the translation reads or writes. -/

structure KBrokerEndpoint where
  name : String := ""
  host : String
  port : UInt16
  securityProtocol : Int16 := 0
deriving DecidableEq, Repr

structure KBrokerFeature where
  name : String
  minSupportedVersion : Int16
  maxSupportedVersion : Int16
deriving DecidableEq, Repr

structure RegisterBrokerRecord where
  brokerId : Int32
  isMigratingZkBroker : Bool := false
  incarnationId : Uuid
  brokerEpoch : Int64
  endPoints : List KBrokerEndpoint
  features : List KBrokerFeature
  rack : Option String
  fenced : Bool
  inControlledShutdown : Bool
  logDirs : List Uuid
  cordonedLogDirs : Option (List Uuid)
deriving DecidableEq, Repr

structure RegisterControllerRecord where
  controllerId : Int32
  incarnationId : Uuid
  zkMigrationReady : Bool
  endPoints : List KBrokerEndpoint
  features : List KBrokerFeature
deriving DecidableEq, Repr

structure KUnregisterBrokerRecord where
  brokerId : Int32
  brokerEpoch : Int64
deriving DecidableEq, Repr

structure KUnregisterControllerRecord where
  controllerId : Int32
deriving DecidableEq, Repr

structure KBrokerRegistrationChangeRecord where
  brokerId : Int32
  brokerEpoch : Int64
  fenced : Int8
  inControlledShutdown : Int8
  logDirs : List Uuid
  cordonedLogDirs : Option (List Uuid)
deriving DecidableEq, Repr

structure KTopicRecord where
  name : String
  topicId : Uuid
deriving DecidableEq, Repr

structure RemoveTopicRecord where
  topicId : Uuid
deriving DecidableEq, Repr

structure KPartitionRecord where
  partitionId : Int32
  topicId : Uuid
  replicas : List Int32
  isr : List Int32
  removingReplicas : List Int32
  addingReplicas : List Int32
  leader : Int32
  leaderEpoch : Int32
  partitionEpoch : Int32
  directories : List Uuid
  leaderRecoveryState : Int8
  eligibleLeaderReplicas : Option (List Int32)
  lastKnownElr : Option (List Int32)
deriving DecidableEq, Repr

/-- A delta on one partition. A field at its default is absent from the record. -/
structure KPartitionChangeRecord where
  partitionId : Int32
  topicId : Uuid
  isr : Option (List Int32) := none
  leader : Int32 := -2
  replicas : Option (List Int32) := none
  removingReplicas : Option (List Int32) := none
  addingReplicas : Option (List Int32) := none
  leaderRecoveryState : Int8 := -1
  directories : Option (List Uuid) := none
  eligibleLeaderReplicas : Option (List Int32) := none
  lastKnownElr : Option (List Int32) := none
deriving DecidableEq, Repr

/-- One key of one resource: `some value` sets it, `none` is the tombstone. -/
structure ConfigRecord where
  resourceType : Int8
  resourceName : String
  name : String
  value : Option String
deriving DecidableEq, Repr

structure KDelegationTokenRecord where
  owner : String
  requester : String
  renewers : List String
  issueTimestamp : Int64
  maxTimestamp : Int64
  expirationTimestamp : Int64
  tokenId : String
deriving DecidableEq, Repr

structure RemoveDelegationTokenRecord where
  tokenId : String
deriving DecidableEq, Repr

structure UserScramCredentialRecord where
  name : String
  mechanism : Int8
  salt : List UInt8
  storedKey : List UInt8
  serverKey : List UInt8
  iterations : Int32
deriving DecidableEq, Repr

structure RemoveUserScramCredentialRecord where
  name : String
  mechanism : Int8
deriving DecidableEq, Repr

structure KFeatureLevelRecord where
  name : String
  featureLevel : Int16
deriving DecidableEq, Repr

structure EntityData where
  entityType : String
  entityName : Option String
deriving DecidableEq, Repr

structure KClientQuotaRecord where
  entity : List EntityData
  key : String
  value : F64
  remove : Bool
deriving DecidableEq, Repr

structure KProducerIdsRecord where
  brokerId : Int32
  brokerEpoch : Int64
  nextProducerId : Int64
deriving DecidableEq, Repr

structure AccessControlEntryRecord where
  id : Uuid
  resourceType : Int8
  resourceName : String
  patternType : Int8
  principal : String
  host : String
  operation : Int8
  permissionType : Int8
deriving DecidableEq, Repr

structure RemoveAccessControlEntryRecord where
  id : Uuid
deriving DecidableEq, Repr

structure UnknownTaggedField where
  tag : UInt32
  bytes : List UInt8
deriving DecidableEq, Repr

/-- A record that declares no fields; krabka's own records ride on its tagged fields. -/
structure NoOpRecord where
  unknownTaggedFields : List UnknownTaggedField
deriving DecidableEq, Repr

inductive KraftMetadataRecord where
  | registerBroker (r : RegisterBrokerRecord)
  | unregisterBroker (r : KUnregisterBrokerRecord)
  | topic (r : KTopicRecord)
  | partition (r : KPartitionRecord)
  | config (r : ConfigRecord)
  | partitionChange (r : KPartitionChangeRecord)
  | removeTopic (r : RemoveTopicRecord)
  | delegationToken (r : KDelegationTokenRecord)
  | userScramCredential (r : UserScramCredentialRecord)
  | featureLevel (r : KFeatureLevelRecord)
  | clientQuota (r : KClientQuotaRecord)
  | producerIds (r : KProducerIdsRecord)
  | brokerRegistrationChange (r : KBrokerRegistrationChangeRecord)
  | accessControlEntry (r : AccessControlEntryRecord)
  | removeAccessControlEntry (r : RemoveAccessControlEntryRecord)
  | noOp (r : NoOpRecord)
  | removeUserScramCredential (r : RemoveUserScramCredentialRecord)
  | beginTransaction (name : Option String)
  | endTransaction
  | removeDelegationToken (r : RemoveDelegationTokenRecord)
  | registerController (r : RegisterControllerRecord)
  | unregisterController (r : KUnregisterControllerRecord)
  | unknown (apiKey apiVersion : UInt32) (body : List UInt8)
deriving DecidableEq, Repr

/-! ## Errors

Every refusal of the translation, with the values that its text mentions. -/

inductive TranslateError where
  | noCounterpart (variant : String)
  | unknownTopicId (id : Uuid)
  | unknownTopicName (name : String)
  /-- Well-formed on its own, but the image does not hold what it names in the shape it needs. -/
  | invalidReference (field detail : String)
  /-- Refused whatever the image holds. -/
  | invalidValue (field detail : String)
  | encode (detail : String)
  | decode (detail : String)
  | unknownAclId (id : Uuid)
  | unknownPrivateTag (tag : UInt32)
  | unknownPrivateRecordVersion (tag : UInt32) (version : Int16)
  | privateTagMismatch (tag : UInt32) (expectedTag : Option UInt32)
  | trailingPrivateRecordBytes (tag : UInt32) (trailing : Nat)
deriving DecidableEq, Repr

/-! ## The byte codecs

`Codec` has the readers and writers, `CarriedAt` what a version of a record can hold, and `Lawful` that what
is carried comes back. -/

/-- The generated KIP-631 codec (`encode_value`, `decode_value`) and wincode (`serialize`, `get`). An
error is given by its text; `get` also returns the bytes it did not read. -/
structure Codec where
  encodeValue : KraftMetadataRecord → Int16 → Except String (List UInt8)
  decodeValue : List UInt8 → Except String (KraftMetadataRecord × Int16)
  serialize : MetadataRecord → Except String (List UInt8)
  get : List UInt8 → Except String (MetadataRecord × List UInt8)

/-- The version has every field that the record sets. Encoders drop the others, and tagged fields come
back in ascending tag order. -/
def KraftMetadataRecord.CarriedAt (version : Int16) : KraftMetadataRecord → Prop
  | .partition p =>
    (p.directories ≠ [] → 1 ≤ version) ∧
      (p.eligibleLeaderReplicas.isSome ∨ p.lastKnownElr.isSome → 2 ≤ version)
  | .partitionChange c =>
    (c.directories.isSome → 1 ≤ version) ∧
      (c.eligibleLeaderReplicas.isSome ∨ c.lastKnownElr.isSome → 2 ≤ version)
  | .registerBroker b =>
    (b.inControlledShutdown → 1 ≤ version) ∧ (b.isMigratingZkBroker → 2 ≤ version) ∧
      (b.logDirs ≠ [] → 3 ≤ version) ∧ (b.cordonedLogDirs.isSome → 4 ≤ version)
  | .brokerRegistrationChange c =>
    (c.inControlledShutdown ≠ 0 → 1 ≤ version) ∧ (c.logDirs ≠ [] → 2 ≤ version) ∧
      (c.cordonedLogDirs.isSome → 3 ≤ version)
  | .noOp n => n.unknownTaggedFields.Pairwise (·.tag < ·.tag)
  | .unknown .. => False
  | _ => True

/-- **What the translation relies on.** Both codecs read back what they write. -/
structure Codec.Lawful (codec : Codec) : Prop where
  decodeValue_encodeValue : ∀ {kr : KraftMetadataRecord} {version : Int16} {bytes : List UInt8},
    kr.CarriedAt version → codec.encodeValue kr version = .ok bytes →
      codec.decodeValue bytes = .ok (kr, version)
  get_serialize : ∀ {r : MetadataRecord} {bytes : List UInt8} (rest : List UInt8),
    codec.serialize r = .ok bytes → codec.get (bytes ++ rest) = .ok (r, rest)

/-- The codec that knows the byte forms of the records in a table, and refuses every other record. -/
def Codec.ofTable (table : List ((KraftMetadataRecord × Int16) × List UInt8)) : Codec where
  encodeValue kr version :=
    okOr "not in the table" ((table.find? (fun e => e.1 == (kr, version))).map (·.2))
  decodeValue bytes := okOr "not in the table" ((table.find? (fun e => e.2 == bytes)).map (·.1))
  serialize _ := .error "not in the table"
  get _ := .error "not in the table"

theorem Codec.ofTable_lawful {table : List ((KraftMetadataRecord × Int16) × List UInt8)}
    (h : (table.map (·.2)).Nodup) : (Codec.ofTable table).Lawful where
  decodeValue_encodeValue := by
    intro kr version bytes _ henc
    obtain ⟨e, hfind, rfl⟩ := Option.map_eq_some_iff.mp (okOr_eq_ok.mp henc)
    have hmem := List.mem_of_find?_eq_some hfind
    have he : e.1 = (kr, version) := by simpa using List.find?_some hfind
    -- no two records of the table share their bytes, so the first hit is the record itself
    have hback : table.find? (fun e' => e'.2 == e.2) = some e := by
      refine find?_of_unique hmem (by simp) (fun e' he' heq => ?_)
      exact List.inj_on_of_nodup_map h he' hmem (by simpa using heq)
    refine okOr_eq_ok.mpr ?_
    rw [hback, ← he]
    rfl
  get_serialize := by
    intro r bytes rest h
    cases h

/-! ## Node ids

Kafka's ids are signed and 32 bits wide; the ids of the image are not. A refusal gives the number that did not
fit. -/

def showI32 (i : Int32) : String := toString i.toInt

/-- `i32::try_from(n)`, with the words in front of the number in the error. -/
def nodeIdAs (what field : String) (n : NodeId) : Except TranslateError Int32 :=
  okOr (.invalidValue field (what ++ " " ++ Text.showU64 n ++ " exceeds i32")) (i32OfU64 n)

def nodeIdToWire (n : NodeId) (field : String) : Except TranslateError Int32 :=
  nodeIdAs "node_id" field n

def nodeIdFromWire (value : Int32) (field : String) : Except TranslateError NodeId :=
  okOr (.invalidValue field (showI32 value ++ " is negative")) (u64OfI32 value)

/-- `cast` and `nodes` of the encoders. -/
def nodesToWire (nodes : List NodeId) (field : String) : Except TranslateError (List Int32) :=
  nodes.mapM (nodeIdAs "node id" field)

/-- `nodes` of the decoders. -/
def nodesFromWire (values : List Int32) (field : String) : Except TranslateError (List NodeId) :=
  values.mapM (fun value => nodeIdFromWire value field)

/-- A partition without a leader has leader 0 in the image and -1 on the wire. -/
def partitionLeaderToWire (leader : NodeId) (field : String) : Except TranslateError Int32 :=
  if leader = 0 then .ok (-1) else nodeIdAs "leader" field leader

def partitionLeaderFromWire (value : Int32) (field : String) : Except TranslateError NodeId :=
  if value = -1 then .ok 0 else nodeIdFromWire value field

/-! ## Enumerations

The numbers of Kafka's protocol. A number that is not in the list is an error with the byte in it. -/

def unknownWireByte (field : String) (b : Int8) : TranslateError :=
  .invalidValue field ("unknown wire byte " ++ toString b.toInt)

def scramMechanismToWire : SaslMechanism → Except TranslateError Int8
  | .scramSha256 => .ok 1
  | .scramSha512 => .ok 2
  | other => .error (.invalidValue "scram mechanism" (other.debug ++ " is not a SCRAM mechanism"))

def scramMechanismFromWire (b : Int8) : Except TranslateError SaslMechanism :=
  if b = 1 then .ok .scramSha256
  else if b = 2 then .ok .scramSha512
  else .error
    (.invalidValue "scram mechanism" ("unknown SCRAM mechanism wire byte " ++ toString b.toInt))

def resourceTypeToWire : ResourceType → Int8
  | .topic => 2
  | .group => 3
  | .cluster => 4
  | .transactionalId => 5
  | .delegationToken => 6
  | .user => 7

def resourceTypeFromWire (b : Int8) : Except TranslateError ResourceType :=
  if b = 2 then .ok .topic
  else if b = 3 then .ok .group
  else if b = 4 then .ok .cluster
  else if b = 5 then .ok .transactionalId
  else if b = 6 then .ok .delegationToken
  else if b = 7 then .ok .user
  else .error (unknownWireByte "acl resource_type" b)

def patternTypeToWire : PatternType → Int8
  | .literal => 3
  | .prefixed => 4

def patternTypeFromWire (b : Int8) : Except TranslateError PatternType :=
  if b = 3 then .ok .literal
  else if b = 4 then .ok .prefixed
  else .error (unknownWireByte "acl pattern_type" b)

def operationToWire : AclOperation → Int8
  | .all => 2
  | .read => 3
  | .write => 4
  | .create => 5
  | .delete => 6
  | .alter => 7
  | .describe => 8
  | .clusterAction => 9
  | .describeConfigs => 10
  | .alterConfigs => 11
  | .idempotentWrite => 12
  | .createTokens => 13
  | .describeTokens => 14
  | .twoPhaseCommit => 15

def operationFromWire (b : Int8) : Except TranslateError AclOperation :=
  if b = 2 then .ok .all
  else if b = 3 then .ok .read
  else if b = 4 then .ok .write
  else if b = 5 then .ok .create
  else if b = 6 then .ok .delete
  else if b = 7 then .ok .alter
  else if b = 8 then .ok .describe
  else if b = 9 then .ok .clusterAction
  else if b = 10 then .ok .describeConfigs
  else if b = 11 then .ok .alterConfigs
  else if b = 12 then .ok .idempotentWrite
  else if b = 13 then .ok .createTokens
  else if b = 14 then .ok .describeTokens
  else if b = 15 then .ok .twoPhaseCommit
  else .error (unknownWireByte "acl operation" b)

def permissionToWire : PermissionType → Int8
  | .deny => 2
  | .allow => 3

def permissionFromWire (b : Int8) : Except TranslateError PermissionType :=
  if b = 2 then .ok .deny
  else if b = 3 then .ok .allow
  else .error (unknownWireByte "acl permission_type" b)

def protocolToWire : ListenerProtocol → Int16
  | .plaintext => 0
  | .ssl => 1
  | .saslPlaintext => 2
  | .saslSsl => 3

def protocolFromWire (b : Int16) : Except TranslateError ListenerProtocol :=
  if b = 0 then .ok .plaintext
  else if b = 1 then .ok .ssl
  else if b = 2 then .ok .saslPlaintext
  else if b = 3 then .ok .saslSsl
  else .error (.invalidValue "security_protocol" ("unknown wire value " ++ toString b.toInt))

/-! ## The content hash of an ACL

FNV-1a over the six axes of an entry, in two lanes of 64 bits. -/

/-- One lane of FNV-1a from the offset basis `h`. -/
def fnv1aLane (bytes : List UInt8) (h : UInt64) : UInt64 :=
  bytes.foldl (fun h b => (h ^^^ b.toUInt64) * 0x100000001b3) h

/-- Two 64-bit lanes with distinct offset bases, the first in the upper half. -/
def fnv1a128 (bytes : List UInt8) : Uuid :=
  (fnv1aLane bytes 0xcbf29ce484222325).toBitVec ++ (fnv1aLane bytes 0x109956638a1bc7e9).toBitVec

/-- `n.to_le_bytes()` of a `u64`. -/
def u64ToLeBytes (n : UInt64) : List UInt8 :=
  (List.range 8).map (fun i => (n >>> (8 * UInt64.ofNat i)).toUInt8)

/-- A string axis of the hash, in front of it its length in bytes. -/
def aclAxisBytes (s : String) : List UInt8 :=
  u64ToLeBytes (UInt64.ofNat s.utf8ByteSize) ++ s.toUTF8.data.toList

/-- The id that stands for an ACL entry on the log. -/
def aclId (e : AclEntry) : Uuid :=
  -- the four enum bytes first, then the three axes with their lengths
  fnv1a128 ([(resourceTypeToWire e.resourceType).toUInt8, (patternTypeToWire e.patternType).toUInt8,
    (operationToWire e.operation).toUInt8, (permissionToWire e.permissionType).toUInt8] ++
    [e.resourceName, e.principal, e.host].flatMap aclAxisBytes)

/-- A filter pinned to one entry, with every axis set. -/
def exactFilter (e : AclEntry) : AclEntryFilter where
  resourceType := some e.resourceType
  resourceName := some e.resourceName
  patternType := some e.patternType
  principal := some e.principal
  host := some e.host
  operation := some e.operation
  permissionType := some e.permissionType

end Krabka.Metadata.Kraft
