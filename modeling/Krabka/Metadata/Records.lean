import Krabka.Lib.Collections
import Krabka.Lib.FixedWidth
import Krabka.Lib.Text

/-!
# `Metadata.Records` — the versioned metadata records

The values that the controller appends, as `records.rs`, `acl.rs`, `break_glass.rs`, `write_freeze.rs`,
`directory_id.rs` and the `voters` and `security` crates declare them. Newtypes over integers
(`NodeId`, `LeaderEpoch`) are abbreviations, so that they keep the order and the arithmetic of the
integer. A `Vec` is a list, and an `f64` is its bit pattern: records only store and copy quota values,
so the bits are all that is ever compared, and on values other than NaN equal bits are equal numbers.
-/

namespace Krabka.Metadata

open Collections

abbrev Uuid := BitVec 128

/-- A broker or controller node id (`NodeId(u64)`). -/
abbrev NodeId := UInt64

/-- A partition's leader epoch (`LeaderEpoch(i32)`). -/
abbrev LeaderEpoch := Int32

/-- The bit pattern of an `f64`. -/
structure F64 where
  bits : UInt64
deriving DecidableEq, Repr

/-- `0.0`. -/
def F64.zero : F64 := ⟨0⟩

/-- `DirectoryId.MIGRATING`: the replica lives in a log directory that nobody recorded. -/
def migrating : Uuid := 0

/-- `Vec::resize`. -/
def resize {α : Type} (l : List α) (n : Nat) (a : α) : List α :=
  l.take n ++ List.replicate (n - l.length) a

/-! ## Security values

A principal is written as its type and its name with a colon between them, and read back by cutting at the
first colon. -/

inductive SaslMechanism where
  | plain
  | scramSha256
  | scramSha512
  | oAuthBearer
  | gssapi
deriving DecidableEq, Repr

/-- `{:?}` of a mechanism. -/
def SaslMechanism.debug : SaslMechanism → String
  | .plain => "Plain"
  | .scramSha256 => "ScramSha256"
  | .scramSha512 => "ScramSha512"
  | .oAuthBearer => "OAuthBearer"
  | .gssapi => "Gssapi"

inductive ListenerProtocol where
  | plaintext
  | ssl
  | saslPlaintext
  | saslSsl
deriving DecidableEq, Repr

/-- KIP-48: the wire-level principal. -/
structure KafkaPrincipal where
  principalType : String
  name : String
deriving DecidableEq, Repr

/-- `Display for KafkaPrincipal`: the canonical `Type:Name` form. -/
def KafkaPrincipal.toString (p : KafkaPrincipal) : String :=
  p.principalType ++ ":" ++ p.name

/-- `FromStr for KafkaPrincipal`. The text of the error quotes the refused string. -/
def KafkaPrincipal.parse (s : String) : Except String KafkaPrincipal :=
  match Text.splitOnce ':' s with
  | none => .error ("invalid principal " ++ s.quote)
  | some (pt, n) => .ok ⟨pt, n⟩

structure ScramCredential where
  mechanism : SaslMechanism
  salt : List UInt8
  storedKey : List UInt8
  serverKey : List UInt8
  iterations : UInt32
deriving DecidableEq, Repr

/-! ## ACLs

Entries and filters. A filter matches an entry axis by axis, and an axis that is absent matches everything. -/

inductive ResourceType where
  | topic
  | group
  | cluster
  | transactionalId
  | delegationToken
  | user
deriving DecidableEq, Repr

inductive PatternType where
  | literal
  | prefixed
deriving DecidableEq, Repr

inductive PermissionType where
  | allow
  | deny
deriving DecidableEq, Repr

inductive AclOperation where
  | all
  | read
  | write
  | create
  | delete
  | alter
  | describe
  | clusterAction
  | describeConfigs
  | alterConfigs
  | idempotentWrite
  | twoPhaseCommit
  | createTokens
  | describeTokens
deriving DecidableEq, Repr

structure AclEntry where
  resourceType : ResourceType
  resourceName : String
  patternType : PatternType
  principal : String
  host : String
  operation : AclOperation
  permissionType : PermissionType
deriving DecidableEq, Repr

structure AclEntryFilter where
  resourceType : Option ResourceType := none
  resourceName : Option String := none
  patternType : Option PatternType := none
  principal : Option String := none
  host : Option String := none
  operation : Option AclOperation := none
  permissionType : Option PermissionType := none
deriving DecidableEq, Repr

/-- `is_none_or(|a| a == x)`: an unset axis matches anything. -/
def axisMatches {α : Type} [DecidableEq α] (axis : Option α) (x : α) : Bool :=
  match axis with
  | none => true
  | some a => a == x

/-- Every populated axis matches `entry`. -/
def AclEntryFilter.matches (f : AclEntryFilter) (entry : AclEntry) : Bool :=
  axisMatches f.resourceType entry.resourceType
    && axisMatches f.resourceName entry.resourceName
    && axisMatches f.patternType entry.patternType
    && axisMatches f.principal entry.principal
    && axisMatches f.host entry.host
    && axisMatches f.operation entry.operation
    && axisMatches f.permissionType entry.permissionType

/-! ## Topics and partitions

A partition has its own record for each thing that can change by itself: the whole partition, its eligible
leaders, its recovery state, one directory, one offset. -/

structure TopicRecord where
  name : String
  topicId : Uuid
  partitions : Int32
  replicationFactor : Int16
deriving DecidableEq, Repr

structure PartitionRecord where
  topic : String
  partition : Int32
  leader : NodeId
  replicas : List NodeId
  isr : List NodeId
  leaderEpoch : LeaderEpoch
  addingReplicas : List NodeId
  removingReplicas : List NodeId
  directories : List Uuid
  partitionEpoch : Int32
deriving DecidableEq, Repr

/-- KIP-858 directory-assignment delta: one replica reports the directory that hosts it. -/
structure PartitionDirAssignmentRecord where
  topic : String
  partition : Int32
  replica : NodeId
  directory : Uuid
deriving DecidableEq, Repr

/-- Diskless offset-sequencer delta. -/
structure PartitionOffsetAdvanceRecord where
  topic : String
  partition : Int32
  count : Int64
deriving DecidableEq, Repr

/-- KIP-966 eligible-leader state for one partition. Empty lists clear it. -/
structure PartitionElrRecord where
  topic : String
  partition : Int32
  eligibleLeaderReplicas : List NodeId
  lastKnownElr : List NodeId
deriving DecidableEq, Repr

/-- KIP-704 state of an uncleanly elected leader. -/
inductive LeaderRecoveryState where
  | recovered
  | recovering
deriving DecidableEq, Repr

/-- `state as i8`. -/
def LeaderRecoveryState.asI8 : LeaderRecoveryState → Int8
  | .recovered => 0
  | .recovering => 1

structure PartitionRecoveryRecord where
  topic : String
  partition : Int32
  state : LeaderRecoveryState
deriving DecidableEq, Repr

/-- An atomic partition update: assignment, ELR and recovery changes together. -/
structure PartitionUpdateRecord where
  partition : PartitionRecord
  eligibleLeaderReplicas : Option (List NodeId)
  lastKnownElr : Option (List NodeId)
  recoveryState : Option LeaderRecoveryState
deriving DecidableEq, Repr

structure DeleteTopicRecord where
  name : String
deriving DecidableEq, Repr

structure TopicConfigRecord where
  topic : String
  overrides : BTreeMap String String
deriving DecidableEq

/-! ## Brokers and controllers

The change record of a registration says of each of its fields whether it changes; `appliedTo` is what is left
of a registration after it. -/

structure BrokerEndpoint where
  name : String
  host : String
  port : UInt16
  protocol : ListenerProtocol
deriving DecidableEq, Repr

structure BrokerRegistrationRecord where
  nodeId : NodeId
  brokerEpoch : Int64
  incarnationId : Uuid
  host : String
  port : UInt16
  rack : Option String
  endpoints : List BrokerEndpoint
  logDirs : List Uuid
  fenced : Bool
  inControlledShutdown : Bool
  cordonedLogDirs : Option (List Uuid)
  features : BTreeMap String (Int16 × Int16)
deriving DecidableEq

structure ControllerRegistrationRecord where
  nodeId : NodeId
  incarnationId : Uuid
  zkMigrationReady : Bool
  endpoints : List BrokerEndpoint
  features : BTreeMap String (Int16 × Int16)
deriving DecidableEq

structure UnregisterBrokerRecord where
  nodeId : NodeId
  brokerEpoch : Int64
deriving DecidableEq, Repr

/-- A change to the fencing state of a broker registration. -/
inductive FencingChange where
  | unfence
  | none
  | fence
deriving DecidableEq, Repr

/-- The `Fenced` byte Kafka writes for this change. -/
def FencingChange.wireValue : FencingChange → Int8
  | .unfence => -1
  | .none => 0
  | .fence => 1

def FencingChange.fromWire (value : Int8) : Option FencingChange :=
  if value = -1 then some .unfence
  else if value = 0 then some .none
  else if value = 1 then some .fence
  else Option.none

/-- The fenced state after this change applies to `fenced`. -/
def FencingChange.apply : FencingChange → Bool → Bool
  | .unfence, _ => false
  | .none, fenced => fenced
  | .fence, _ => true

/-- A delta on the registration of one broker, applied only at the registration's epoch. -/
structure BrokerRegistrationChangeRecord where
  nodeId : NodeId
  brokerEpoch : Int64
  fenced : FencingChange
  inControlledShutdown : Bool
  logDirs : List Uuid
  cordonedLogDirs : Option (List Uuid)
deriving DecidableEq, Repr

/-- The registration after this change applies to `current`. -/
def BrokerRegistrationChangeRecord.appliedTo (change : BrokerRegistrationChangeRecord)
    (current : BrokerRegistrationRecord) : BrokerRegistrationRecord :=
  { current with
    fenced := change.fenced.apply current.fenced
    inControlledShutdown := current.inControlledShutdown || change.inControlledShutdown
    logDirs := if change.logDirs.isEmpty then current.logDirs else change.logDirs
    cordonedLogDirs := change.cordonedLogDirs.or current.cordonedLogDirs }

structure UnregisterControllerRecord where
  nodeId : NodeId
deriving DecidableEq, Repr

/-! ## Configurations, quotas and credentials

Each of these records sets one entry of one table, or removes it. -/

/-- Per-broker configuration key: `some value` sets it, `none` deletes it. -/
structure BrokerConfigRecord where
  nodeId : NodeId
  configName : String
  configValue : Option String
deriving DecidableEq, Repr

/-- The internal identity of Kafka's cluster-wide default broker-config resource (`u64::MAX`). -/
def defaultBrokerConfigNodeId : NodeId := 0xFFFFFFFFFFFFFFFF

structure ClientMetricsConfigRecord where
  name : String
  configs : BTreeMap String String
deriving DecidableEq

structure GroupConfigRecord where
  groupId : String
  configs : BTreeMap String String
deriving DecidableEq

structure QuotaEntity where
  entityType : String
  entityName : Option String
deriving DecidableEq, Repr

structure ClientQuotaRecord where
  entity : List QuotaEntity
  configKey : String
  configValue : Option F64
deriving DecidableEq, Repr

structure ProducerIdsRecord where
  brokerId : NodeId
  brokerEpoch : Int64
  nextProducerId : Int64
deriving DecidableEq, Repr

structure ScramCredentialRecord where
  user : String
  mechanism : SaslMechanism
  salt : List UInt8
  storedKey : List UInt8
  serverKey : List UInt8
  iterations : UInt32
deriving DecidableEq, Repr

structure DeleteScramCredentialRecord where
  user : String
  mechanism : SaslMechanism
deriving DecidableEq, Repr

/-- A delegation token's authoritative state (KIP-48). -/
structure DelegationTokenRecord where
  tokenId : String
  owner : KafkaPrincipal
  requester : KafkaPrincipal
  issueTimestampMs : Int64
  expiryTimestampMs : Int64
  maxTimestampMs : Int64
  renewers : List KafkaPrincipal
deriving DecidableEq, Repr

structure DeleteDelegationTokenRecord where
  tokenId : String
deriving DecidableEq, Repr

/-! ## Quorum, features, freezes and break-glass proposals

The records of the quorum and those that Kafka does not have. -/

structure KRaftVersionRecord where
  kraftVersion : UInt16
deriving DecidableEq, Repr

structure VoterEndpoint where
  name : String
  host : String
  port : UInt16
deriving DecidableEq, Repr

structure KRaftVersionRange where
  min : UInt16
  max : UInt16
deriving DecidableEq, Repr

structure Voter where
  id : NodeId
  directoryId : Uuid
  endpoints : List VoterEndpoint
  kraftVersion : KRaftVersionRange
deriving DecidableEq, Repr

/-- The authoritative voter set, ordered by node id. -/
structure VoterSet where
  voters : BTreeMap NodeId Voter
deriving DecidableEq

def VoterSet.empty : VoterSet := ⟨∅⟩

def VoterSet.isEmpty (s : VoterSet) : Bool := s.voters.isEmpty

structure VotersRecord where
  voters : VoterSet
deriving DecidableEq

/-- KIP-584 finalized feature level; level 0 deletes the feature. -/
structure FeatureLevelRecord where
  name : String
  level : Int16
deriving DecidableEq, Repr

/-- Snapshot-only carrier of the finalized-features epoch. -/
structure FeaturesEpochRecord where
  epoch : Int64
deriving DecidableEq, Repr

/-- One entry in the write-freeze registry; `frozen = false` is the thaw. -/
structure TopicFreezeRecord where
  scope : String
  patternType : PatternType
  frozen : Bool
  reason : String
  setBy : String
  setAtMs : Int64
  proposalId : Uuid
  keyId : String
  signature : List UInt8
deriving DecidableEq, Repr

inductive BreakGlassAction where
  | thawTopicFreeze
  | uncleanElectLeaders
  | uncleanRecovery
  | unregisterBroker
  | cancelReassignment
  | deleteTopic
  | deleteRecords
deriving DecidableEq, Repr

structure BreakGlassApproval where
  principal : String
  approvedAtMs : Int64
  keyId : String
  signature : List UInt8
deriving DecidableEq, Repr

structure BreakGlassProposalRecord where
  proposalId : Uuid
  action : BreakGlassAction
  target : String
  proposer : String
  reason : String
  createdAtMs : Int64
  expiresAtMs : Int64
  approvals : List BreakGlassApproval
  consumedAtMs : Int64
  withdrawn : Bool
deriving DecidableEq, Repr

/-! ## The record

One constructor for each variant of `MetadataRecord`. -/

inductive MetadataRecord where
  | v1Topic (t : TopicRecord)
  | v1Partition (p : PartitionRecord)
  | v1BrokerRegistration (b : BrokerRegistrationRecord)
  | v1DeleteTopic (d : DeleteTopicRecord)
  | v1TopicConfig (c : TopicConfigRecord)
  | v1ScramCredential (r : ScramCredentialRecord)
  | v1DeleteScramCredential (r : DeleteScramCredentialRecord)
  | v1AccessControlEntry (entry : AclEntry)
  | v1DeleteAccessControlEntry (filter : AclEntryFilter)
  | v1BrokerConfig (r : BrokerConfigRecord)
  | v1ClientQuota (r : ClientQuotaRecord)
  | v1ProducerIds (r : ProducerIdsRecord)
  | v1DelegationToken (r : DelegationTokenRecord)
  | v1DeleteDelegationToken (r : DeleteDelegationTokenRecord)
  | v1UnregisterBroker (r : UnregisterBrokerRecord)
  | v1KRaftVersion (r : KRaftVersionRecord)
  | v1Voters (r : VotersRecord)
  | v1FeatureLevel (r : FeatureLevelRecord)
  | v1ClientMetricsConfig (c : ClientMetricsConfigRecord)
  | v1FeaturesEpoch (r : FeaturesEpochRecord)
  | v1PartitionDirAssignment (r : PartitionDirAssignmentRecord)
  | v1PartitionOffsetAdvance (r : PartitionOffsetAdvanceRecord)
  | v1GroupConfig (c : GroupConfigRecord)
  | v1ControllerRegistration (c : ControllerRegistrationRecord)
  | v1TopicFreeze (r : TopicFreezeRecord)
  | v1BreakGlassProposal (r : BreakGlassProposalRecord)
  | v1DeleteBreakGlassProposal (id : Uuid)
  | v1PartitionElr (r : PartitionElrRecord)
  | v1PartitionRecovery (r : PartitionRecoveryRecord)
  | v1PartitionUpdate (r : PartitionUpdateRecord)
  | v1BrokerRegistrationChange (change : BrokerRegistrationChangeRecord)
  | v1UnregisterController (r : UnregisterControllerRecord)
deriving DecidableEq

/-! ## Principals survive their string form

A type without a colon is what makes the first colon the one that was written. -/

theorem KafkaPrincipal.parse_toString {p : KafkaPrincipal} (h : ':' ∉ p.principalType.toList) :
    KafkaPrincipal.parse p.toString = .ok p := by
  have hs : p.toString = p.principalType ++ String.ofList [':'] ++ p.name := rfl
  unfold KafkaPrincipal.parse
  rw [hs, Text.splitOnce_join h]

theorem KafkaPrincipal.parse_toString_isOk (p : KafkaPrincipal) :
    ∃ q, KafkaPrincipal.parse p.toString = .ok q := by
  have hs : p.toString = p.principalType ++ String.ofList [':'] ++ p.name := rfl
  obtain ⟨⟨pt, n⟩, hq⟩ :=
    Option.isSome_iff_exists.mp (Text.splitOnce_join_isSome ':' p.principalType p.name)
  refine ⟨⟨pt, n⟩, ?_⟩
  unfold KafkaPrincipal.parse
  rw [hs, hq]

end Krabka.Metadata
