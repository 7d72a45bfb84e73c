import Krabka.Metadata.Kraft.Wire

/-!
# `Metadata.Kraft.ToKraft` — from metadata records to the log

The encoders of `kraft_translate.rs`. Most records map to one KIP-631 record. The whole-map
configurations and the delete-ACL filter fan out: they are resolved against the submitter's image into one
record per key, or per matching entry. Partition records pull the eligible-leader and recovery state out
of that image, and partition updates are written as the difference to it.

`toKraftRecords` is `to_kraft_iter` and `to_kraft_records` in one: the source turns the vector into an
iterator and collects it again.
-/

namespace Krabka.Metadata.Kraft

open Collections FixedWidth Results

/-! ## Configurations and ACLs

A whole map of configurations becomes one record for each key that differs from the image, and a filter one
removal for each entry that it matches there. -/

/-- One record per key of the new map, then one tombstone per key that only the old map has. -/
def configToKraft (resourceType : Int8) (resourceName : String) (old new : BTreeMap String String) :
    List KraftMetadataRecord :=
  (deltas old new).map (fun d =>
    .config { resourceType := resourceType, resourceName := resourceName, name := d.1, value := d.2 })

def topicConfigToKraft (config : TopicConfigRecord) (img : MetadataImage) :
    List KraftMetadataRecord :=
  configToKraft 2 config.topic ((img.topicConfig config.topic).getD ∅) config.overrides

def groupConfigToKraft (config : GroupConfigRecord) (img : MetadataImage) :
    List KraftMetadataRecord :=
  configToKraft 32 config.groupId ((img.groupConfig config.groupId).getD ∅) config.configs

def clientMetricsConfigToKraft (config : ClientMetricsConfigRecord) (img : MetadataImage) :
    List KraftMetadataRecord :=
  configToKraft 16 config.name ((img.clientMetricsConfig config.name).getD ∅) config.configs

def deleteAclToKraft (ω : MapOrder) (filter : AclEntryFilter) (img : MetadataImage) :
    List KraftMetadataRecord :=
  ((img.allAcls ω).filter filter.matches).map (fun entry =>
    .removeAccessControlEntry { id := aclId entry })

def aclToKraft (entry : AclEntry) : KraftMetadataRecord :=
  .accessControlEntry {
    id := aclId entry
    resourceType := resourceTypeToWire entry.resourceType
    resourceName := entry.resourceName
    patternType := patternTypeToWire entry.patternType
    principal := entry.principal
    host := entry.host
    operation := operationToWire entry.operation
    permissionType := permissionToWire entry.permissionType }

def scramCredentialToKraft (scram : ScramCredentialRecord) :
    Except TranslateError UserScramCredentialRecord := do
  let iterations ← okOr
    (.invalidValue "scram iterations" (toString scram.iterations.toNat ++ " exceeds i32"))
    (i32OfU32 scram.iterations)
  let mechanism ← scramMechanismToWire scram.mechanism
  return {
    name := scram.user
    mechanism := mechanism
    salt := scram.salt
    storedKey := scram.storedKey
    serverKey := scram.serverKey
    iterations := iterations }

def deleteScramCredentialToKraft (scram : DeleteScramCredentialRecord) :
    Except TranslateError RemoveUserScramCredentialRecord := do
  let mechanism ← scramMechanismToWire scram.mechanism
  return { name := scram.user, mechanism := mechanism }

/-! ## Brokers and controllers

The wire record of a registration has a list of endpoints only; the host and port of the first listener are
its first entry. -/

def endpointToKraft (e : BrokerEndpoint) : KBrokerEndpoint where
  name := e.name
  host := e.host
  port := e.port
  securityProtocol := protocolToWire e.protocol

def featuresToKraft (features : BTreeMap String (Int16 × Int16)) : List KBrokerFeature :=
  features.toList.map (fun f =>
    { name := f.1, minSupportedVersion := f.2.1, maxSupportedVersion := f.2.2 })

def registerBrokerToKraft (b : BrokerRegistrationRecord) :
    Except TranslateError RegisterBrokerRecord := do
  -- a record without listeners carries its top-level pair in one endpoint with an empty name
  let endPoints :=
    if b.endpoints.isEmpty then [{ host := b.host, port := b.port }]
    else b.endpoints.map endpointToKraft
  let brokerId ← nodeIdToWire b.nodeId "broker_id"
  return {
    brokerId := brokerId
    rack := b.rack
    endPoints := endPoints
    features := featuresToKraft b.features
    logDirs := b.logDirs
    cordonedLogDirs := b.cordonedLogDirs
    brokerEpoch := b.brokerEpoch
    incarnationId := b.incarnationId
    fenced := b.fenced
    inControlledShutdown := b.inControlledShutdown }

def registerControllerToKraft (controller : ControllerRegistrationRecord) :
    Except TranslateError RegisterControllerRecord := do
  let controllerId ← nodeIdToWire controller.nodeId "controller_id"
  return {
    controllerId := controllerId
    incarnationId := controller.incarnationId
    zkMigrationReady := controller.zkMigrationReady
    endPoints := controller.endpoints.map endpointToKraft
    features := featuresToKraft controller.features }

def brokerRegistrationChangeToKraft (change : BrokerRegistrationChangeRecord) :
    Except TranslateError KBrokerRegistrationChangeRecord := do
  let brokerId ← nodeIdToWire change.nodeId "broker_id"
  return {
    brokerId := brokerId
    brokerEpoch := change.brokerEpoch
    fenced := change.fenced.wireValue
    inControlledShutdown := if change.inControlledShutdown then 1 else 0
    logDirs := change.logDirs
    cordonedLogDirs := change.cordonedLogDirs }

/-- The lowest version that carries every field the change sets. -/
def brokerRegistrationChangeVersion (change : KBrokerRegistrationChangeRecord) : Int16 :=
  if change.cordonedLogDirs.isSome then 3
  else if !change.logDirs.isEmpty then 2
  else if change.inControlledShutdown ≠ 0 then 1 else 0

/-! ## Partitions

A partition takes its eligible leaders and its recovery state from the image. An update is written as the
difference to the partition that the image holds. -/

def partitionToKraft (p : PartitionRecord) (topicId : Uuid) (img : MetadataImage) :
    Except TranslateError KPartitionRecord := do
  let eligible := (img.elrOf p.topic p.partition).1
  let lastKnown := (img.elrOf p.topic p.partition).2
  -- one non-empty list puts both on the wire
  let hasElr := !eligible.isEmpty || !lastKnown.isEmpty
  let replicas ← nodesToWire p.replicas "partition replicas"
  let isr ← nodesToWire p.isr "partition isr"
  let removing ← nodesToWire p.removingReplicas "partition removing_replicas"
  let adding ← nodesToWire p.addingReplicas "partition adding_replicas"
  let leader ← partitionLeaderToWire p.leader "partition leader"
  let eligible ← (if hasElr then some eligible else none).mapM
    (nodesToWire · "eligible leader replica")
  let lastKnown ← (if hasElr then some lastKnown else none).mapM
    (nodesToWire · "last known eligible leader replica")
  return {
    partitionId := p.partition
    topicId := topicId
    replicas := replicas
    isr := isr
    removingReplicas := removing
    addingReplicas := adding
    leader := leader
    leaderEpoch := p.leaderEpoch
    partitionEpoch := p.partitionEpoch
    directories := p.directories
    leaderRecoveryState := (img.leaderRecoveryState p.topic p.partition).asI8
    eligibleLeaderReplicas := eligible
    lastKnownElr := lastKnown }

/-- What a writer puts on the wire for a stored partition. -/
structure PartitionWritten (img : MetadataImage) (p : PartitionRecord) (topicId : Uuid)
    (k : KPartitionRecord) : Prop where
  index : p.partition = k.partitionId
  topicId : topicId = k.topicId
  leader : partitionLeaderToWire p.leader "partition leader" = .ok k.leader
  replicas : nodesToWire p.replicas "partition replicas" = .ok k.replicas
  isr : nodesToWire p.isr "partition isr" = .ok k.isr
  removing : nodesToWire p.removingReplicas "partition removing_replicas" = .ok k.removingReplicas
  adding : nodesToWire p.addingReplicas "partition adding_replicas" = .ok k.addingReplicas
  leaderEpoch : p.leaderEpoch = k.leaderEpoch
  partitionEpoch : p.partitionEpoch = k.partitionEpoch
  directories : p.directories = k.directories
  recovery : (img.leaderRecoveryState p.topic p.partition).asI8 = k.leaderRecoveryState
  eligible : (if img.elrOf p.topic p.partition = ([], []) then none
    else some (img.elrOf p.topic p.partition).1).mapM (nodesToWire · "eligible leader replica") =
      .ok k.eligibleLeaderReplicas
  lastKnown : (if img.elrOf p.topic p.partition = ([], []) then none
    else some (img.elrOf p.topic p.partition).2).mapM
      (nodesToWire · "last known eligible leader replica") = .ok k.lastKnownElr

theorem hasElr_of_ne {elr : PartitionElrState} (h : elr ≠ ([], [])) :
    (!elr.1.isEmpty || !elr.2.isEmpty) = true := by
  obtain ⟨eligible, lastKnown⟩ := elr
  cases eligible with
  | cons node eligible => rfl
  | nil =>
    cases lastKnown with
    | cons node lastKnown => rfl
    | nil => exact absurd rfl h

theorem hasElr_eq {α : Type} {elr : PartitionElrState} {a : α} :
    (if (!elr.1.isEmpty || !elr.2.isEmpty) = true then some a else none) =
      if elr = ([], []) then none else some a := by
  by_cases h : elr = ([], [])
  · rw [h]
    rfl
  · rw [hasElr_of_ne h, if_pos rfl, if_neg h]

theorem partitionToKraft_eq_ok {p : PartitionRecord} {topicId : Uuid} {img : MetadataImage}
    {k : KPartitionRecord} :
    partitionToKraft p topicId img = .ok k ↔ PartitionWritten img p topicId k := by
  unfold partitionToKraft
  simp only [hasElr_eq]
  constructor
  · intro h
    obtain ⟨replicas, hreplicas, h⟩ := bind_eq_ok.mp h
    obtain ⟨isr, hisr, h⟩ := bind_eq_ok.mp h
    obtain ⟨removing, hremoving, h⟩ := bind_eq_ok.mp h
    obtain ⟨adding, hadding, h⟩ := bind_eq_ok.mp h
    obtain ⟨leader, hleader, h⟩ := bind_eq_ok.mp h
    obtain ⟨eligible, heligible, h⟩ := bind_eq_ok.mp h
    obtain ⟨lastKnown, hlastKnown, h⟩ := bind_eq_ok.mp h
    rw [pure_eq_ok] at h
    subst h
    exact ⟨rfl, rfl, hleader, hreplicas, hisr, hremoving, hadding, rfl, rfl, rfl, rfl, heligible, hlastKnown⟩
  · intro h
    simp only [h.replicas, h.isr, h.removing, h.adding, h.leader, h.eligible, h.lastKnown, h.recovery, ok_bind]
    rw [h.index, h.topicId, h.leaderEpoch, h.partitionEpoch, h.directories]
    rfl

/-- `{topic}-{partition}`. -/
def partitionName (topic : String) (partition : Int32) : String := topic ++ "-" ++ showI32 partition

/-- The topic of a record that names it. -/
def topicIdOf (img : MetadataImage) (topic : String) : Except TranslateError Uuid :=
  okOr (.unknownTopicName topic) (img.topics[topic]?.map (·.topicId))

/-- The directories that the submitter's image holds, one per replica, with one slot overwritten. -/
def assignedDirectories (partition : PartitionRecord) (slot : Nat) (directory : Uuid) : List Uuid :=
  (resize partition.directories partition.replicas.length migrating).set slot directory

def partitionDirAssignmentToKraft (assignment : PartitionDirAssignmentRecord) (img : MetadataImage) :
    Except TranslateError KPartitionChangeRecord := do
  let topicId ← topicIdOf img assignment.topic
  let partition ← okOr (.invalidReference "partition directory assignment"
      ("unknown partition " ++ partitionName assignment.topic assignment.partition))
    (img.partition assignment.topic assignment.partition)
  let slot ← okOr (.invalidReference "partition directory assignment"
      ("broker " ++ Text.showU64 assignment.replica ++ " is not a replica of " ++
        partitionName assignment.topic assignment.partition))
    (partition.replicas.idxOf? assignment.replica)
  return {
    partitionId := assignment.partition
    topicId := topicId
    directories := some (assignedDirectories partition slot assignment.directory) }

def partitionStateToKraft (img : MetadataImage) (topic : String) (partition : Int32)
    (leaderRecoveryState : Int8) (eligible lastKnown : Option (List NodeId)) :
    Except TranslateError KPartitionChangeRecord := do
  let topicId ← topicIdOf img topic
  let eligible ← eligible.mapM (nodesToWire · "eligible leader replica")
  let lastKnown ← lastKnown.mapM (nodesToWire · "last known eligible leader replica")
  return {
    partitionId := partition
    topicId := topicId
    leaderRecoveryState := leaderRecoveryState
    eligibleLeaderReplicas := eligible
    lastKnownElr := lastKnown }

/-- The wire form of a list of nodes, if the update changes it. -/
def changedNodes (new current : List NodeId) (field : String) :
    Except TranslateError (Option (List Int32)) :=
  (if new ≠ current then some new else none).mapM (nodesToWire · field)

/-- The wire form of the leader, if the update changes it. -/
def changedLeaderToWire (new current : NodeId) (unchanged : Int32) : Except TranslateError Int32 :=
  if new ≠ current then partitionLeaderToWire new "partition leader" else .ok unchanged

def partitionUpdateToKraft (update : PartitionUpdateRecord) (img : MetadataImage) :
    Except TranslateError KPartitionChangeRecord := do
  let p := update.partition
  let current ← okOr (.invalidReference "partition update"
      ("unknown partition " ++ partitionName p.topic p.partition))
    (img.partition p.topic p.partition)
  -- the recovery state and the eligible-leader lists go out as the update has them
  let change ← partitionStateToKraft img p.topic p.partition
    ((update.recoveryState.map LeaderRecoveryState.asI8).getD (-1))
    update.eligibleLeaderReplicas update.lastKnownElr
  -- every other field only where it differs from the submitter's image
  let replicas ← changedNodes p.replicas current.replicas "partition replicas"
  let isr ← changedNodes p.isr current.isr "partition isr"
  let removing ← changedNodes p.removingReplicas current.removingReplicas
    "partition removing replicas"
  let adding ← changedNodes p.addingReplicas current.addingReplicas "partition adding replicas"
  let leader ← changedLeaderToWire p.leader current.leader change.leader
  return { change with
    replicas := replicas
    isr := isr
    removingReplicas := removing
    addingReplicas := adding
    leader := leader
    directories := if p.directories ≠ current.directories then some p.directories else none }

/-! ## Quotas and tokens

An entity is a list of a type and an optional name; a principal is written as text. -/

/-- An absent value is the remove tombstone. -/
def clientQuotaToKraft (q : ClientQuotaRecord) : KClientQuotaRecord where
  entity := q.entity.map (fun e => { entityType := e.entityType, entityName := e.entityName })
  key := q.configKey
  -- a removal carries zero, which no reader looks at
  value := q.configValue.getD F64.zero
  remove := q.configValue.isNone

def delegationTokenToKraft (t : DelegationTokenRecord) : KDelegationTokenRecord where
  owner := t.owner.toString
  requester := t.requester.toString
  renewers := t.renewers.map KafkaPrincipal.toString
  issueTimestamp := t.issueTimestampMs
  maxTimestamp := t.maxTimestampMs
  expirationTimestamp := t.expiryTimestampMs
  tokenId := t.tokenId

/-! ## Krabka-private records

The tags are assigned once and for all, since logs on disk hold them. -/

def privateFeaturesEpochTag : UInt32 := 1001

def privatePartitionOffsetAdvanceTag : UInt32 := 1003

def privateTopicFreezeTag : UInt32 := 1004

def privateBreakGlassProposalTag : UInt32 := 1005

def privateDeleteBreakGlassProposalTag : UInt32 := 1006

def privateTagFloor : UInt32 := 1001

def privateTags : List UInt32 :=
  [privateFeaturesEpochTag, privatePartitionOffsetAdvanceTag, privateTopicFreezeTag,
    privateBreakGlassProposalTag, privateDeleteBreakGlassProposalTag]

def privateRecordVersion : Int16 := 0

/-- The tag that carries a record, or `none` for a record that does not ride a private tag. -/
def privateTag : MetadataRecord → Option UInt32
  | .v1FeaturesEpoch _ => some privateFeaturesEpochTag
  | .v1PartitionOffsetAdvance _ => some privatePartitionOffsetAdvanceTag
  | .v1TopicFreeze _ => some privateTopicFreezeTag
  | .v1BreakGlassProposal _ => some privateBreakGlassProposalTag
  | .v1DeleteBreakGlassProposal _ => some privateDeleteBreakGlassProposalTag
  | _ => none

/-- `version.to_be_bytes()` of an `i16`. -/
def i16ToBeBytes (v : Int16) : List UInt8 :=
  [(v.toUInt16 >>> 8).toUInt8, v.toUInt16.toUInt8]

/-- A private record as the only tagged field of a `NoOp`: its version, then its wincode form. -/
def privateCarrier (codec : Codec) (rec : MetadataRecord) :
    Except TranslateError KraftMetadataRecord := do
  let tag ← okOr (.noCounterpart "private carrier") (privateTag rec)
  let record ← (codec.serialize rec).mapError .encode
  return .noOp { unknownTaggedFields := [⟨tag, i16ToBeBytes privateRecordVersion ++ record⟩] }

/-! ## The dispatch

Which encoder a record goes to. Most give one record, some a list of them. -/

/-- The KIP-631 records of one metadata record. -/
def toKraftRecords (codec : Codec) (ω : MapOrder) (rec : MetadataRecord) (img : MetadataImage) :
    Except TranslateError (List KraftMetadataRecord) :=
  match rec with
  | .v1FeatureLevel f => .ok [.featureLevel { name := f.name, featureLevel := f.level }]
  | .v1BrokerRegistration b => do return [.registerBroker (← registerBrokerToKraft b)]
  | .v1ControllerRegistration c => do return [.registerController (← registerControllerToKraft c)]
  | .v1UnregisterBroker u => do
    let brokerId ← nodeIdToWire u.nodeId "broker_id"
    return [.unregisterBroker { brokerId := brokerId, brokerEpoch := u.brokerEpoch }]
  | .v1BrokerRegistrationChange change => do
    return [.brokerRegistrationChange (← brokerRegistrationChangeToKraft change)]
  | .v1UnregisterController u => do
    let controllerId ← nodeIdToWire u.nodeId "controller_id"
    return [.unregisterController { controllerId := controllerId }]
  | .v1ScramCredential scram => do
    return [.userScramCredential (← scramCredentialToKraft scram)]
  | .v1DeleteScramCredential scram => do
    return [.removeUserScramCredential (← deleteScramCredentialToKraft scram)]
  | .v1AccessControlEntry entry => .ok [aclToKraft entry]
  | .v1ClientQuota q => .ok [.clientQuota (clientQuotaToKraft q)]
  | .v1DelegationToken t => .ok [.delegationToken (delegationTokenToKraft t)]
  | .v1DeleteDelegationToken t => .ok [.removeDelegationToken { tokenId := t.tokenId }]
  | .v1BrokerConfig c =>
    .ok [.config {
      resourceType := 4
      resourceName := if c.nodeId = defaultBrokerConfigNodeId then "" else Text.showU64 c.nodeId
      name := c.configName
      value := c.configValue }]
  | .v1Topic t => .ok [.topic { name := t.name, topicId := t.topicId }]
  | .v1Partition p => do
    let topicId ← topicIdOf img p.topic
    return [.partition (← partitionToKraft p topicId img)]
  | .v1DeleteTopic d => do
    let topicId ← topicIdOf img d.name
    return [.removeTopic { topicId := topicId }]
  | .v1TopicConfig c => .ok (topicConfigToKraft c img)
  | .v1GroupConfig c => .ok (groupConfigToKraft c img)
  | .v1ProducerIds record => do
    let brokerId ← nodeIdToWire record.brokerId "producer IDs broker id"
    return [.producerIds {
      brokerId := brokerId
      brokerEpoch := record.brokerEpoch
      nextProducerId := record.nextProducerId }]
  | .v1DeleteAccessControlEntry filter => .ok (deleteAclToKraft ω filter img)
  | .v1ClientMetricsConfig config => .ok (clientMetricsConfigToKraft config img)
  | .v1PartitionDirAssignment r => do
    return [.partitionChange (← partitionDirAssignmentToKraft r img)]
  | .v1PartitionElr r => do
    return [.partitionChange (← partitionStateToKraft img r.topic r.partition (-1)
      (some r.eligibleLeaderReplicas) (some r.lastKnownElr))]
  | .v1PartitionRecovery r => do
    return [.partitionChange (← partitionStateToKraft img r.topic r.partition r.state.asI8 none none)]
  | .v1PartitionUpdate r => do return [.partitionChange (← partitionUpdateToKraft r img)]
  -- krabka's own kinds have no KIP-631 record
  | .v1FeaturesEpoch _ | .v1PartitionOffsetAdvance _ | .v1TopicFreeze _ | .v1BreakGlassProposal _
  | .v1DeleteBreakGlassProposal _ => do return [← privateCarrier codec rec]
  -- these are control records, which the log layer writes
  | .v1Voters _ => .error (.noCounterpart "V1Voters")
  | .v1KRaftVersion _ => .error (.noCounterpart "V1KRaftVersion")

/-! ## Framing

A record is framed at the version that the finalized metadata.version allows, without the fields that this
version does not have. -/

/-- A registration change below the level that has its log directories is written without them. -/
def stripChange (metadataVersion : Int16) : KraftMetadataRecord → KraftMetadataRecord
  | .brokerRegistrationChange c =>
    .brokerRegistrationChange { c with
      logDirs := if metadataVersion < directoryAssignmentMinLevel then [] else c.logDirs
      cordonedLogDirs :=
        if metadataVersion < cordonedLogDirsMinLevel then none else c.cordonedLogDirs }
  | kr => kr

/-- The version that a record is framed at under a finalized `metadata.version`. -/
def recordVersion (metadataVersion : Int16) : KraftMetadataRecord → Int16
  -- this one follows the fields the record sets; the others follow the finalized level
  | .brokerRegistrationChange c => brokerRegistrationChangeVersion c
  | .partition _ | .partitionChange _ =>
    if elrMinLevel ≤ metadataVersion then 2
    else if directoryAssignmentMinLevel ≤ metadataVersion then 1
    else 0
  | .registerBroker _ =>
    if cordonedLogDirsMinLevel ≤ metadataVersion then 4
    else if directoryAssignmentMinLevel ≤ metadataVersion then 3
    else if 8 ≤ metadataVersion then 2
    else 1
  | _ => 0

/-- A registration is written without the fields that its version does not have. -/
def stripRegister (version : Int16) : KraftMetadataRecord → KraftMetadataRecord
  | .registerBroker b =>
    .registerBroker { b with
      logDirs := if version < 3 then [] else b.logDirs
      cordonedLogDirs := if version < 4 then none else b.cordonedLogDirs }
  | kr => kr

/-- One record, framed. -/
def frameValue (codec : Codec) (metadataVersion : Int16) (kr : KraftMetadataRecord) :
    Except TranslateError (List UInt8) :=
  -- the version of a change depends on what is left after the first strip
  let kr := stripChange metadataVersion kr
  let version := recordVersion metadataVersion kr
  (codec.encodeValue (stripRegister version kr) version).mapError .encode

/-- The blobs that one metadata record puts on the log. -/
def toKraftValues (codec : Codec) (ω : MapOrder) (rec : MetadataRecord) (img : MetadataImage) :
    Except TranslateError (List (List UInt8)) := do
  let metadataVersion := img.finalizedMetadataVersion.getD metadataVersionMax
  let records ← toKraftRecords codec ω rec img
  records.mapM (frameValue codec metadataVersion)

end Krabka.Metadata.Kraft
