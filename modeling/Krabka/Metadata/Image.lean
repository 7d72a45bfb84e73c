import Krabka.Metadata.AclIndex
import Krabka.Lib.Transition

/-!
# `Metadata.Image` — the metadata image, its readers, `apply` and `validate`

The state machine of `image.rs`. `apply` is total: a committed record always takes effect, if only as a
no-op. `validate` is the admission check that the controller makes against the current image before it
submits a record. `Admitted` is the set of images that a controller can reach: the runs from `new` in
which every record passes `validate` against the image it is applied to. `Built` drops that condition. The
fields of the source's image are private, so a program has no other image to apply records to but the derived
`Default`, whose `features_epoch` is 0 where `new` has -1.
-/

namespace Krabka.Metadata

open Collections FixedWidth

/-! ## Errors and feature levels

The refusals of `validate`, and the levels of metadata.version at which the gated features begin. -/

inductive MetadataError where
  | topicExists (name : String)
  | unknownTopic (name : String)
  | invalidPartition (topic : String) (partition : Int32)
  | invalidRecord (reason : String)
  | emptyFreezeScope
  | breakGlassApprovalsNotAnExtension (id : Uuid)
  | breakGlassProposalConsumed (id : Uuid)
  | breakGlassProposalWithdrawn (id : Uuid)
deriving DecidableEq, Repr

def metadataVersionFeature : String := "metadata.version"

def metadataVersionMin : Int16 := 7

def metadataVersionMax : Int16 := 34

/-- Level at which partition directory assignments became part of the records. -/
def directoryAssignmentMinLevel : Int16 := 17

/-- Level at which partition records gained KIP-966 eligible-leader fields. -/
def elrMinLevel : Int16 := 23

/-- Level at which registrations carry KIP-1066 cordoned log directories. -/
def cordonedLogDirsMinLevel : Int16 := 30

/-! ## The image

Every table of the source's image. The maps are finite maps from keys to entries; partitions are kept per
topic, as in the source. -/

abbrev EntityKey := List (String × Option String)

instance transOrd_entityKey : Std.TransOrd EntityKey := inferInstanceAs (Std.TransOrd (List _))

/-- Eligible replicas and the last known ELR of one partition. -/
abbrev PartitionElrState := List NodeId × List NodeId

/-- A delegation token in the image. -/
structure DelegationToken where
  tokenId : String
  owner : KafkaPrincipal
  requester : KafkaPrincipal
  issueTimestampMs : Int64
  expiryTimestampMs : Int64
  maxTimestampMs : Int64
  renewers : List KafkaPrincipal
deriving DecidableEq, Repr

def DelegationToken.fromRecord (rec : DelegationTokenRecord) : DelegationToken where
  tokenId := rec.tokenId
  owner := rec.owner
  requester := rec.requester
  issueTimestampMs := rec.issueTimestampMs
  expiryTimestampMs := rec.expiryTimestampMs
  maxTimestampMs := rec.maxTimestampMs
  renewers := rec.renewers

/-- The record that recreates a token. -/
def DelegationToken.toRecord (tok : DelegationToken) : DelegationTokenRecord where
  tokenId := tok.tokenId
  owner := tok.owner
  requester := tok.requester
  issueTimestampMs := tok.issueTimestampMs
  expiryTimestampMs := tok.expiryTimestampMs
  maxTimestampMs := tok.maxTimestampMs
  renewers := tok.renewers

/-- The order of `canonicalize_entity`: by entity type alone. -/
def entityLe (a b : String × Option String) : Prop := a.1 ≤ b.1

instance : DecidableRel entityLe := fun a b => inferInstanceAs (Decidable (a.1 ≤ b.1))

/-- `canonicalize_entity`: a stable sort by entity type. -/
def canonicalizeEntity (tuple : List (String × Option String)) : EntityKey :=
  tuple.insertionSort entityLe

structure MetadataImage where
  clusterId : Uuid
  topics : HashMap String TopicRecord := ∅
  topicIds : HashMap Uuid String := ∅
  partitions : HashMap String (BTreeMap Int32 PartitionRecord) := ∅
  partitionNextOffsets : HashMap String (BTreeMap Int32 Int64) := ∅
  partitionElr : HashMap String (BTreeMap Int32 PartitionElrState) := ∅
  partitionRecovery : HashMap String (BTreeMap Int32 LeaderRecoveryState) := ∅
  brokers : HashMap NodeId BrokerRegistrationRecord := ∅
  controllers : HashMap NodeId ControllerRegistrationRecord := ∅
  topicConfigs : HashMap String (BTreeMap String String) := ∅
  brokerConfigs : HashMap NodeId (BTreeMap String String) := ∅
  clientMetricsConfigs : HashMap String (BTreeMap String String) := ∅
  groupConfigs : HashMap String (BTreeMap String String) := ∅
  scramCredentials : HashMap (String × SaslMechanism) ScramCredential := ∅
  acls : AclIndex := {}
  freezesLiteral : HashMap String TopicFreezeRecord := ∅
  freezesPrefixed : BTreeMap String TopicFreezeRecord := ∅
  breakGlass : HashMap Uuid BreakGlassProposalRecord := ∅
  clientQuotas : HashMap EntityKey (BTreeMap String F64) := ∅
  producerIds : Option ProducerIdsRecord := none
  delegationTokens : HashMap String DelegationToken := ∅
  kraftVersion : UInt16 := 0
  voters : VoterSet := .empty
  featureLevels : BTreeMap String Int16 := ∅
  featuresEpoch : Int64 := -1

/-- `extends`: `candidate` is `stored` plus zero or more appended entries. -/
def extendsApprovals (stored candidate : List BreakGlassApproval) : Bool :=
  stored.isPrefixOf candidate

namespace MetadataImage

/-- The empty image of a cluster. -/
def new (clusterId : Uuid) : MetadataImage := { clusterId := clusterId }

/-! ## Readers

The accessors that the translation to Kafka's records and the admission checks go through. -/

variable (img : MetadataImage)

def topicById (id : Uuid) : Option TopicRecord :=
  img.topicIds[id]?.bind (fun name => img.topics[name]?)

def topicNameById (id : Uuid) : Option String := img.topicIds[id]?

/-- `topic_name_for_id`: the log decoder's scan of the topics for an id. -/
def topicNameForId (ω : MapOrder) (id : Uuid) : Option String :=
  ((ω.iter .topics img.topics).find? (fun e => e.2.topicId == id)).map (·.2.name)

def partition (topic : String) (idx : Int32) : Option PartitionRecord :=
  lookup2 img.partitions topic idx

/-- The eligible-leader state of a partition; both lists are empty when none is stored. -/
def elrOf (topic : String) (idx : Int32) : PartitionElrState :=
  (lookup2 img.partitionElr topic idx).getD ([], [])

def leaderRecoveryState (topic : String) (idx : Int32) : LeaderRecoveryState :=
  (lookup2 img.partitionRecovery topic idx).getD .recovered

/-- The live partition count of a topic, from the partitions map. -/
def topicPartitionCount (topic : String) : Int32 :=
  match img.partitions[topic]? with
  | none => 0
  | some parts => (i32OfLen parts.size).getD Int32.maxValue

def topicConfig (topic : String) : Option (BTreeMap String String) := img.topicConfigs[topic]?

def clientMetricsConfig (name : String) : Option (BTreeMap String String) :=
  img.clientMetricsConfigs[name]?

def groupConfig (groupId : String) : Option (BTreeMap String String) := img.groupConfigs[groupId]?

def brokerEpoch (nodeId : NodeId) : Option Int64 :=
  img.brokers[nodeId]?.map (·.brokerEpoch)

def nextProducerId : Int64 :=
  match img.producerIds with
  | none => 0
  | some r => r.nextProducerId

def allAcls (ω : MapOrder) : List AclEntry := img.acls.iter ω

/-- Every live write-freeze entry, literal ones first. -/
def topicFreezes (ω : MapOrder) : List TopicFreezeRecord :=
  (ω.iter .freezesLiteral img.freezesLiteral).map (·.2) ++ img.freezesPrefixed.toList.map (·.2)

def finalizedMetadataVersion : Option Int16 := img.featureLevels[metadataVersionFeature]?

/-! ## Applying one record

One function for each kind of record that does more than set one entry, and `apply`, which picks it. A record
for a topic or a partition that is not there leaves the image as it is. -/

def applyTopic (t : TopicRecord) : MetadataImage :=
  let prev := img.topics[t.name]?
  -- a topic that changes its id drops the stale entry of the reverse index
  let topicIds :=
    match prev with
    | some prev => if prev.topicId ≠ t.topicId then img.topicIds.erase prev.topicId else img.topicIds
    | none => img.topicIds
  { img with
    topicIds := topicIds.insert t.topicId t.name
    topics := img.topics.insert t.name
      -- the record's own count is ignored: partition records carry the running count
      { t with partitions := match prev with | none => 0 | some prev => prev.partitions } }

/-- The cached fields of a topic after one of its partitions is written. -/
def countPartition (isNew : Bool) (replicas : Nat) (topic : TopicRecord) : TopicRecord :=
  { topic with
    -- a rewrite of an existing partition is not counted again
    partitions := if isNew then saturatingAddI32 topic.partitions 1 else topic.partitions
    -- `i16::try_from` on the replica count; the old factor stays when it does not fit
    replicationFactor := (i16OfLen replicas).getD topic.replicationFactor }

def applyPartition (p : PartitionRecord) : MetadataImage :=
  let isNew := (img.partition p.topic p.partition).isNone
  { img with
    partitions := insert2 img.partitions p.topic p.partition p
    topics :=
      match img.topics[p.topic]? with
      | none => img.topics
      | some topic => img.topics.insert p.topic (countPartition isNew p.replicas.length topic) }

def applyPartitionElr (topic : String) (idx : Int32) (eligible lastKnown : List NodeId) :
    MetadataImage :=
  { img with
    partitionElr :=
      -- two empty lists are stored as no entry
      if eligible.isEmpty && lastKnown.isEmpty then erase2 img.partitionElr topic idx
      else insert2 img.partitionElr topic idx (eligible, lastKnown) }

def applyPartitionRecovery (topic : String) (idx : Int32) (state : LeaderRecoveryState) :
    MetadataImage :=
  { img with
    partitionRecovery :=
      -- `recovered` is the default and is stored as no entry
      if state = .recovered then erase2 img.partitionRecovery topic idx
      else insert2 img.partitionRecovery topic idx state }

def applyPartitionUpdate (update : PartitionUpdateRecord) : MetadataImage :=
  let topic := update.partition.topic
  let idx := update.partition.partition
  let img := img.applyPartition update.partition
  -- the eligible-leader lists take effect only as a pair
  let img :=
    match update.eligibleLeaderReplicas, update.lastKnownElr with
    | some eligible, some lastKnown => img.applyPartitionElr topic idx eligible lastKnown
    | _, _ => img
  match update.recoveryState with
  | some state => img.applyPartitionRecovery topic idx state
  | none => img

def applyRegistrationChange (change : BrokerRegistrationChangeRecord) : MetadataImage :=
  match img.brokers[change.nodeId]? with
  | none => img
  | some broker =>
    -- a change for an older registration is a no-op
    if broker.brokerEpoch = change.brokerEpoch then
      { img with brokers := img.brokers.insert change.nodeId (change.appliedTo broker) }
    else img

def applyUnregisterBroker (rec : UnregisterBrokerRecord) : MetadataImage :=
  if img.brokerEpoch rec.nodeId = some rec.brokerEpoch then
    { img with brokers := img.brokers.erase rec.nodeId }
  else img

def applyDeleteTopic (d : DeleteTopicRecord) : MetadataImage :=
  { img with
    topicIds :=
      match img.topics[d.name]? with
      | some prev => img.topicIds.erase prev.topicId
      | none => img.topicIds
    topics := img.topics.erase d.name
    partitions := img.partitions.erase d.name
    partitionNextOffsets := img.partitionNextOffsets.erase d.name
    partitionElr := img.partitionElr.erase d.name
    partitionRecovery := img.partitionRecovery.erase d.name
    topicConfigs := img.topicConfigs.erase d.name }

/-- Write one replica's slot of `directories`; a short list is padded with `MIGRATING` first. -/
def assignDirectory (pr : PartitionRecord) (slot : Nat) (directory : Uuid) : PartitionRecord :=
  { pr with
    directories :=
      (if pr.directories.length < pr.replicas.length
        then resize pr.directories pr.replicas.length migrating
        else pr.directories).set slot directory }

def applyPartitionDirAssignment (r : PartitionDirAssignmentRecord) : MetadataImage :=
  match img.partition r.topic r.partition with
  | none => img
  | some pr =>
    match pr.replicas.idxOf? r.replica with
    | none => img
    | some slot =>
      { img with
        partitions := insert2 img.partitions r.topic r.partition
          (assignDirectory pr slot r.directory) }

def applyPartitionOffsetAdvance (r : PartitionOffsetAdvanceRecord) : MetadataImage :=
  { img with
    -- `+` on `i64` wraps, as in a release build
    partitionNextOffsets := insert2 img.partitionNextOffsets r.topic r.partition
      ((lookup2 img.partitionNextOffsets r.topic r.partition).getD 0 + r.count) }

def applyTopicFreeze (rec : TopicFreezeRecord) : MetadataImage :=
  match rec.patternType, rec.frozen with
  | .literal, true => { img with freezesLiteral := img.freezesLiteral.insert rec.scope rec }
  | .literal, false => { img with freezesLiteral := img.freezesLiteral.erase rec.scope }
  | .prefixed, true => { img with freezesPrefixed := img.freezesPrefixed.insert rec.scope rec }
  | .prefixed, false => { img with freezesPrefixed := img.freezesPrefixed.erase rec.scope }

def applyFeatureLevel (rec : FeatureLevelRecord) : MetadataImage :=
  { img with
    featureLevels :=
      if rec.level = 0 then img.featureLevels.erase rec.name
      else img.featureLevels.insert rec.name rec.level
    featuresEpoch :=
      -- the first feature record takes the epoch from -1 to 0
      let bumped := saturatingAddI64 img.featuresEpoch 1
      if bumped < 0 then 0 else bumped }

/-- The credential that a SCRAM record stores. -/
def scramCredentialOf (r : ScramCredentialRecord) : ScramCredential where
  mechanism := r.mechanism
  salt := r.salt
  storedKey := r.storedKey
  serverKey := r.serverKey
  iterations := r.iterations

/-- The canonical key of a quota record's entity. -/
def entityKey (entity : List QuotaEntity) : EntityKey :=
  canonicalizeEntity (entity.map (fun e => (e.entityType, e.entityName)))

/-- Apply one committed record. -/
def apply : MetadataRecord → MetadataImage
  | .v1Topic t => img.applyTopic t
  | .v1Partition p => img.applyPartition p
  | .v1BrokerRegistration b => { img with brokers := img.brokers.insert b.nodeId b }
  | .v1BrokerRegistrationChange change => img.applyRegistrationChange change
  | .v1UnregisterBroker rec => img.applyUnregisterBroker rec
  | .v1ControllerRegistration c => { img with controllers := img.controllers.insert c.nodeId c }
  | .v1UnregisterController rec => { img with controllers := img.controllers.erase rec.nodeId }
  | .v1DeleteTopic d => img.applyDeleteTopic d
  | .v1TopicConfig c => { img with topicConfigs := setOrErase img.topicConfigs c.topic c.overrides }
  | .v1ScramCredential r =>
    { img with
      scramCredentials := img.scramCredentials.insert (r.user, r.mechanism) (scramCredentialOf r) }
  | .v1DeleteScramCredential r =>
    { img with scramCredentials := img.scramCredentials.erase (r.user, r.mechanism) }
  | .v1AccessControlEntry entry => { img with acls := img.acls.insert entry }
  | .v1DeleteAccessControlEntry filter => { img with acls := img.acls.removeMatching filter }
  | .v1BrokerConfig rec =>
    { img with
      brokerConfigs := applyDelta2 img.brokerConfigs rec.nodeId (rec.configName, rec.configValue) }
  | .v1ClientQuota rec =>
    { img with
      clientQuotas :=
        applyDelta2 img.clientQuotas (entityKey rec.entity) (rec.configKey, rec.configValue) }
  | .v1ProducerIds rec =>
    -- a block that does not advance the next id is dropped
    if img.nextProducerId < rec.nextProducerId then { img with producerIds := some rec } else img
  | .v1DelegationToken rec =>
    { img with
      delegationTokens := img.delegationTokens.insert rec.tokenId (.fromRecord rec) }
  | .v1DeleteDelegationToken rec =>
    { img with delegationTokens := img.delegationTokens.erase rec.tokenId }
  | .v1KRaftVersion r => { img with kraftVersion := r.kraftVersion }
  | .v1Voters r => { img with voters := r.voters }
  | .v1FeatureLevel rec => img.applyFeatureLevel rec
  | .v1ClientMetricsConfig c =>
    { img with clientMetricsConfigs := setOrErase img.clientMetricsConfigs c.name c.configs }
  | .v1GroupConfig c => { img with groupConfigs := setOrErase img.groupConfigs c.groupId c.configs }
  | .v1FeaturesEpoch rec => { img with featuresEpoch := rec.epoch }
  | .v1PartitionDirAssignment r => img.applyPartitionDirAssignment r
  | .v1PartitionOffsetAdvance r => img.applyPartitionOffsetAdvance r
  | .v1PartitionElr r =>
    img.applyPartitionElr r.topic r.partition r.eligibleLeaderReplicas r.lastKnownElr
  | .v1PartitionRecovery r => img.applyPartitionRecovery r.topic r.partition r.state
  | .v1PartitionUpdate r => img.applyPartitionUpdate r
  | .v1TopicFreeze r => img.applyTopicFreeze r
  | .v1BreakGlassProposal r => { img with breakGlass := img.breakGlass.insert r.proposalId r }
  | .v1DeleteBreakGlassProposal id => { img with breakGlass := img.breakGlass.erase id }

/-! ## Admission

What the controller asks of a record before it submits it: that what the record names is in the image, and
that its epochs are not stale. -/

/-- The check that a record's topic is live. -/
def requireTopic (topic : String) : Except MetadataError Unit :=
  if img.topics.contains topic then .ok () else .error (.unknownTopic topic)

/-- The check that a record's partition exists; the error names the topic. -/
def requirePartition (topic : String) (idx : Int32) : Except MetadataError Unit :=
  if (img.partition topic idx).isSome then .ok () else .error (.unknownTopic topic)

/-- The check that a broker is registered at the record's epoch. -/
def requireBrokerEpoch (nodeId : NodeId) (epoch : Int64) (reason : String) :
    Except MetadataError Unit :=
  if img.brokerEpoch nodeId = some epoch then .ok () else .error (.invalidRecord reason)

def validateTopic (t : TopicRecord) : Except MetadataError Unit :=
  match img.topics[t.name]? with
  | none => .ok ()
  | some existing =>
    -- an existing topic may only grow: same id, same factor, a larger count
    if existing.topicId ≠ t.topicId ∨ existing.replicationFactor ≠ t.replicationFactor ∨
        t.partitions ≤ img.topicPartitionCount t.name
    then .error (.topicExists t.name)
    else .ok ()

def validateBreakGlassProposal (proposal : BreakGlassProposalRecord) : Except MetadataError Unit :=
  match img.breakGlass[proposal.proposalId]? with
  | none => .ok ()
  | some stored =>
    if stored.consumedAtMs ≠ 0 then .error (.breakGlassProposalConsumed proposal.proposalId)
    else if stored.withdrawn then .error (.breakGlassProposalWithdrawn proposal.proposalId)
    else if !extendsApprovals stored.approvals proposal.approvals then
      .error (.breakGlassApprovalsNotAnExtension proposal.proposalId)
    else .ok ()

def validateProducerIds (record : ProducerIdsRecord) : Except MetadataError Unit :=
  if record.nextProducerId ≤ img.nextProducerId then
    .error (.invalidRecord "next producer ID must advance monotonically")
  else
    img.requireBrokerEpoch record.brokerId record.brokerEpoch
      "producer ID allocation has a stale broker epoch"

/-- The admission check against the current image. -/
def validate : MetadataRecord → Except MetadataError Unit
  | .v1Topic t => img.validateTopic t
  | .v1Partition p => img.requireTopic p.topic
  | .v1PartitionUpdate update => img.requireTopic update.partition.topic
  | .v1PartitionElr record => img.requirePartition record.topic record.partition
  | .v1PartitionRecovery record => img.requirePartition record.topic record.partition
  | .v1DeleteTopic d => img.requireTopic d.name
  | .v1TopicConfig c => img.requireTopic c.topic
  | .v1BrokerRegistrationChange change =>
    img.requireBrokerEpoch change.nodeId change.brokerEpoch
      "broker registration change for an epoch the broker is not registered at"
  | .v1UnregisterBroker rec =>
    img.requireBrokerEpoch rec.nodeId rec.brokerEpoch
      "broker unregistration for an epoch the broker is not registered at"
  | .v1UnregisterController rec =>
    if img.controllers.contains rec.nodeId then .ok ()
    else .error (.invalidRecord
      "controller unregistration for a controller that is not registered")
  | .v1TopicFreeze freeze => if freeze.scope.isEmpty then .error .emptyFreezeScope else .ok ()
  | .v1BreakGlassProposal proposal => img.validateBreakGlassProposal proposal
  | .v1ProducerIds record => img.validateProducerIds record
  | .v1BrokerRegistration _ | .v1ControllerRegistration _ | .v1ScramCredential _
  | .v1DeleteScramCredential _ | .v1AccessControlEntry _ | .v1DeleteAccessControlEntry _
  | .v1BrokerConfig _ | .v1ClientQuota _ | .v1DelegationToken _ | .v1DeleteDelegationToken _
  | .v1KRaftVersion _ | .v1Voters _ | .v1FeatureLevel _ | .v1ClientMetricsConfig _
  | .v1GroupConfig _ | .v1FeaturesEpoch _ | .v1PartitionDirAssignment _
  | .v1PartitionOffsetAdvance _ | .v1DeleteBreakGlassProposal _ => .ok ()

/-! ## Lookups after each write

What a reader sees after one of the functions above, for every key. Proofs about runs use these and do not
unfold the functions again. -/

/-- A partition is counted on its own topic. -/
theorem topics_applyPartition (img : MetadataImage) (p : PartitionRecord) (name : String) :
    (img.applyPartition p).topics[name]? =
      if p.topic = name then
        img.topics[name]?.map
          (countPartition (img.partition p.topic p.partition).isNone p.replicas.length)
      else img.topics[name]? := by
  unfold applyPartition
  cases ht : img.topics[p.topic]? with
  | none =>
      simp only []
      split
      · rename_i hn
        rw [← hn, ht]
        rfl
      · rfl
  | some topic =>
      simp only [get_insert]
      split
      · rename_i hn
        rw [← hn, ht]
        rfl
      · rfl

/-- A topic is set, with the partitions that it had. -/
theorem topics_applyTopic (img : MetadataImage) (t : TopicRecord) (name : String) :
    (img.applyTopic t).topics[name]? =
      if t.name = name then
        some { t with partitions := (img.topics[t.name]?.map (·.partitions)).getD 0 }
      else img.topics[name]? := by
  unfold applyTopic
  simp only [get_insert]
  cases img.topics[t.name]? <;> rfl

/-- A partition is set at its place and nowhere else. -/
theorem partition_applyPartition (img : MetadataImage) (p : PartitionRecord) (topic : String)
    (idx : Int32) :
    (img.applyPartition p).partition topic idx =
      if p.topic = topic ∧ p.partition = idx then some p else img.partition topic idx :=
  lookup2_insert2 img.partitions p.topic topic p.partition idx p

/-- The eligible leaders are set at their place and nowhere else. -/
theorem elrOf_applyPartitionElr (img : MetadataImage) (topic name : String) (idx i : Int32)
    (eligible lastKnown : List NodeId) :
    (img.applyPartitionElr topic idx eligible lastKnown).elrOf name i =
      if topic = name ∧ idx = i then (eligible, lastKnown) else img.elrOf name i := by
  simp only [elrOf, applyPartitionElr]
  by_cases hempty : (eligible.isEmpty && lastKnown.isEmpty) = true
  · -- erased: reading the default gives back the two empty lists
    rw [if_pos hempty, lookup2_erase2]
    simp only [Bool.and_eq_true, List.isEmpty_iff] at hempty
    rw [hempty.1, hempty.2]
    split <;> rfl
  · rw [if_neg hempty, lookup2_insert2]
    split <;> rfl

/-- The recovery state is set at its place and nowhere else. -/
theorem leaderRecoveryState_applyPartitionRecovery (img : MetadataImage) (topic name : String)
    (idx i : Int32) (state : LeaderRecoveryState) :
    (img.applyPartitionRecovery topic idx state).leaderRecoveryState name i =
      if topic = name ∧ idx = i then state else img.leaderRecoveryState name i := by
  simp only [leaderRecoveryState, applyPartitionRecovery]
  by_cases hstate : state = .recovered
  · -- erased: reading the default gives back `recovered`
    rw [if_pos hstate, lookup2_erase2, hstate]
    split <;> rfl
  · rw [if_neg hstate, lookup2_insert2]
    split <;> rfl

/-- Beyond the eligible-leader and recovery state, an update is its partition record. -/
theorem applyPartitionUpdate_tables (img : MetadataImage) (update : PartitionUpdateRecord) :
    let a := img.applyPartitionUpdate update
    let b := img.applyPartition update.partition
    a.topics = b.topics ∧ a.partitions = b.partitions ∧ a.brokers = b.brokers ∧
      a.controllers = b.controllers ∧ a.breakGlass = b.breakGlass ∧ a.producerIds = b.producerIds := by
  simp only [applyPartitionUpdate]
  split <;> split <;> exact ⟨rfl, rfl, rfl, rfl, rfl, rfl⟩

/-- An update sets its partition. -/
theorem partition_applyPartitionUpdate (img : MetadataImage) (u : PartitionUpdateRecord)
    (name : String) (i : Int32) :
    (img.applyPartitionUpdate u).partition name i =
      if u.partition.topic = name ∧ u.partition.partition = i then some u.partition
      else img.partition name i := by
  rw [← partition_applyPartition]
  unfold partition
  rw [(applyPartitionUpdate_tables img u).2.1]

/-- The eligible-leader state that an update leaves: its two lists if it has both. -/
def elrAfter (u : PartitionUpdateRecord) (stored : PartitionElrState) : PartitionElrState :=
  match u.eligibleLeaderReplicas, u.lastKnownElr with
  | some eligible, some lastKnown => (eligible, lastKnown)
  | _, _ => stored

/-- It sets the eligible leaders where it names both lists. -/
theorem elrOf_applyPartitionUpdate (img : MetadataImage) (u : PartitionUpdateRecord) (name : String)
    (i : Int32) :
    (img.applyPartitionUpdate u).elrOf name i =
      if u.partition.topic = name ∧ u.partition.partition = i then elrAfter u (img.elrOf name i)
      else img.elrOf name i := by
  -- the recovery write comes last and does not touch the eligible-leader table
  have hrecovery : ∀ img' : MetadataImage, (match u.recoveryState with
      | some state => img'.applyPartitionRecovery u.partition.topic u.partition.partition state
      | none => img').elrOf name i = img'.elrOf name i := by
    intro img'
    cases u.recoveryState <;> rfl
  refine (hrecovery _).trans ?_
  unfold elrAfter
  cases u.eligibleLeaderReplicas with
  | none => exact (ite_self _).symm
  | some eligible =>
      cases u.lastKnownElr with
      | none => exact (ite_self _).symm
      | some lastKnown => exact elrOf_applyPartitionElr _ _ _ _ _ _ _

/-- It sets the recovery state where it names one. -/
theorem leaderRecoveryState_applyPartitionUpdate (img : MetadataImage) (u : PartitionUpdateRecord)
    (name : String) (i : Int32) :
    (img.applyPartitionUpdate u).leaderRecoveryState name i =
      if u.partition.topic = name ∧ u.partition.partition = i then
        u.recoveryState.getD (img.leaderRecoveryState name i)
      else img.leaderRecoveryState name i := by
  unfold applyPartitionUpdate
  -- neither the partition nor the eligible-leader write touches the recovery table
  have hkeep : (match u.eligibleLeaderReplicas, u.lastKnownElr with
      | some eligible, some lastKnown => (img.applyPartition u.partition).applyPartitionElr
          u.partition.topic u.partition.partition eligible lastKnown
      | _, _ => img.applyPartition u.partition).leaderRecoveryState name i =
        img.leaderRecoveryState name i := by
    split <;> rfl
  cases hstate : u.recoveryState with
  | none => simpa using hkeep
  | some state =>
      simp only [leaderRecoveryState_applyPartitionRecovery, hkeep, Option.getD_some]

/-- A directory assignment rewrites one existing partition in place, or does nothing. -/
theorem applyPartitionDirAssignment_cases (img : MetadataImage) (r : PartitionDirAssignmentRecord) :
    img.applyPartitionDirAssignment r = img ∨
      ∃ pr slot, img.partition r.topic r.partition = some pr ∧
        pr.replicas.idxOf? r.replica = some slot ∧
        img.applyPartitionDirAssignment r =
          { img with
            partitions := insert2 img.partitions r.topic r.partition
              (assignDirectory pr slot r.directory) } := by
  unfold applyPartitionDirAssignment
  cases hp : img.partition r.topic r.partition with
  | none => exact Or.inl rfl
  | some pr =>
      cases hs : pr.replicas.idxOf? r.replica with
      | none => exact Or.inl (by simp only [hs])
      | some slot => exact Or.inr ⟨pr, slot, rfl, hs, by simp only [hs]⟩

/-! ## Runs

`Admitted` and `Built` are closed under one more record, so an invariant is proved by a step lemma and lifted
to every run. -/

/-- The images a controller reaches: every record passes `validate` on the image it is applied to. -/
def Admitted : MetadataImage → Prop :=
  Transition.Reach (fun img => ∃ clusterId, img = new clusterId)
    (fun img r => img.validate r = .ok ()) apply

/-- Every record of the list passes `validate` on the image that the records before it lead to. -/
def admits (img : MetadataImage) : List MetadataRecord → Bool
  | [] => true
  | r :: rest => (img.validate r).isOk && (img.apply r).admits rest

theorem admitted_new (clusterId : Uuid) : Admitted (new clusterId) := .init ⟨clusterId, rfl⟩

/-- A run of admitted records leads to an image that is reached. -/
theorem admitted_foldl {img : MetadataImage} (h : Admitted img) :
    ∀ {records : List MetadataRecord}, img.admits records = true →
      Admitted (records.foldl apply img) := by
  intro records
  induction records generalizing img with
  | nil => intro _; exact h
  | cons r rest ih =>
      intro ha
      simp only [admits, Bool.and_eq_true] at ha
      have hv : img.validate r = .ok () := by
        cases hr : img.validate r with
        | error e => rw [hr] at ha; cases ha.1
        | ok u => rfl
      exact ih (.step h hv) ha.2

/-- The images that any sequence of records builds from `new clusterId`. The runs from the derived `Default` are
    not among them. -/
def Built (clusterId : Uuid) (img : MetadataImage) : Prop :=
  ∃ records : List MetadataRecord, img = records.foldl apply (new clusterId)

end MetadataImage

end Krabka.Metadata
