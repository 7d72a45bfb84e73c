import Krabka.Metadata.Kraft.ToKraft

/-!
# `Metadata.Kraft.FromKraft` — from the log back to metadata records

The decoders of `kraft_translate.rs`, and the log reader's loop: each blob is decoded against the image that
the blobs before it lead to, and its record is applied. A decoder that resolves an id scans a hash map, so
it takes the order of that map; a replay meets a new order at every step.
-/

namespace Krabka.Metadata.Kraft

open Collections FixedWidth Results

/-! ## Brokers and controllers

The first endpoint is split off again, as the host and port at the top of the registration. -/

def endpointFromKraft (e : KBrokerEndpoint) : Except TranslateError BrokerEndpoint := do
  let protocol ← protocolFromWire e.securityProtocol
  return { name := e.name, host := e.host, port := e.port, protocol := protocol }

def featuresFromKraft (features : List KBrokerFeature) : BTreeMap String (Int16 × Int16) :=
  features.foldl (fun m f => m.insert f.name (f.minSupportedVersion, f.maxSupportedVersion)) ∅

/-- The top-level pair of a registration, and the endpoints that are listeners. -/
def splitEndPoints : List KBrokerEndpoint → String × UInt16 × List KBrokerEndpoint
  | head :: rest =>
    -- an endpoint with an empty name only carries the pair
    if head.name.isEmpty then (head.host, head.port, rest)
    else (head.host, head.port, head :: rest)
  | [] => ("", 0, [])

def registerBrokerFromKraft (b : RegisterBrokerRecord) :
    Except TranslateError BrokerRegistrationRecord := do
  let (host, port, endpointsOnWire) := splitEndPoints b.endPoints
  let endpoints ← endpointsOnWire.mapM endpointFromKraft
  let nodeId ← nodeIdFromWire b.brokerId "register broker id"
  return {
    nodeId := nodeId
    brokerEpoch := b.brokerEpoch
    incarnationId := b.incarnationId
    host := host
    port := port
    rack := b.rack
    endpoints := endpoints
    logDirs := b.logDirs
    fenced := b.fenced
    inControlledShutdown := b.inControlledShutdown
    cordonedLogDirs := b.cordonedLogDirs
    features := featuresFromKraft b.features }

def registerControllerFromKraft (controller : RegisterControllerRecord) :
    Except TranslateError ControllerRegistrationRecord := do
  let endpoints ← controller.endPoints.mapM endpointFromKraft
  let nodeId ← nodeIdFromWire controller.controllerId "controller id"
  return {
    nodeId := nodeId
    incarnationId := controller.incarnationId
    zkMigrationReady := controller.zkMigrationReady
    endpoints := endpoints
    features := featuresFromKraft controller.features }

def controlledShutdownFromWire (b : Int8) : Except TranslateError Bool :=
  if b = 0 then .ok false
  else if b = 1 then .ok true
  else .error (.invalidValue "broker registration change in_controlled_shutdown"
    ("unknown value " ++ toString b.toInt))

def brokerRegistrationChangeFromKraft (change : KBrokerRegistrationChangeRecord) :
    Except TranslateError BrokerRegistrationChangeRecord := do
  let fenced ← okOr (.invalidValue "broker registration change fenced"
      ("unknown value " ++ toString change.fenced.toInt))
    (FencingChange.fromWire change.fenced)
  let inControlledShutdown ← controlledShutdownFromWire change.inControlledShutdown
  let nodeId ← nodeIdFromWire change.brokerId "broker registration change id"
  return {
    nodeId := nodeId
    brokerEpoch := change.brokerEpoch
    fenced := fenced
    inControlledShutdown := inControlledShutdown
    logDirs := change.logDirs
    cordonedLogDirs := change.cordonedLogDirs }

/-! ## Topics and partitions

A partition record names its topic by the id, which is looked up in the image. A change is completed from the
partition that the image holds. -/

/-- The name of a record's topic, by a scan for its id. -/
def topicOfId (ω : MapOrder) (img : MetadataImage) (id : Uuid) : Except TranslateError String :=
  okOr (.unknownTopicId id) (img.topicNameForId ω id)

/-- The partition count and the replication factor are not on the log: the image has them. -/
def topicFromKraft (t : KTopicRecord) (img : MetadataImage) : TopicRecord where
  name := t.name
  topicId := t.topicId
  partitions := img.topicPartitionCount t.name
  replicationFactor :=
    -- the lowest partition index decides, and a topic without partitions gets one
    match (img.partitions[t.name]?.getD ∅).toList.head? with
    | none => 1
    | some p => (i16OfLen p.2.replicas.length).getD 1

def recoveryStateFromWire (field : String) (b : Int8) : Except TranslateError LeaderRecoveryState :=
  if b = 0 then .ok .recovered
  else if b = 1 then .ok .recovering
  else .error (.invalidValue field ("unknown state " ++ toString b.toInt))

def partitionFromKraft (ω : MapOrder) (p : KPartitionRecord) (img : MetadataImage) :
    Except TranslateError MetadataRecord := do
  let topic ← topicOfId ω img p.topicId
  let leader ← partitionLeaderFromWire p.leader "partition leader"
  let replicas ← nodesFromWire p.replicas "partition replica"
  let isr ← nodesFromWire p.isr "partition ISR member"
  let adding ← nodesFromWire p.addingReplicas "adding replica"
  let removing ← nodesFromWire p.removingReplicas "removing replica"
  let partition : PartitionRecord := {
    topic := topic
    partition := p.partitionId
    leader := leader
    replicas := replicas
    isr := isr
    leaderEpoch := p.leaderEpoch
    partitionEpoch := p.partitionEpoch
    addingReplicas := adding
    removingReplicas := removing
    directories := p.directories }
  let recoveryState ← recoveryStateFromWire "partition leader recovery state" p.leaderRecoveryState
  -- a recovered leader without eligible-leader lists is a plain partition record
  if p.eligibleLeaderReplicas.isSome || p.lastKnownElr.isSome || recoveryState == .recovering then do
    let eligible ← p.eligibleLeaderReplicas.mapM (nodesFromWire · "eligible leader replica")
    let lastKnown ← p.lastKnownElr.mapM (nodesFromWire · "last known eligible leader replica")
    return .v1PartitionUpdate {
      partition := partition
      eligibleLeaderReplicas := eligible
      lastKnownElr := lastKnown
      recoveryState := some recoveryState }
  else return .v1Partition partition

/-- A list of nodes that a change may carry; absent, it keeps its current value. -/
def nodesOr (current : List NodeId) (values : Option (List Int32)) (field : String) :
    Except TranslateError (List NodeId) :=
  match values with
  | some values => nodesFromWire values field
  | none => .ok current

/-- `epoch.checked_add(1)`. The record carries no epoch, so an overflow is the image's. -/
def nextEpoch (field detail : String) (epoch : Int32) : Except TranslateError Int32 :=
  okOr (.invalidReference field detail) (checkedAddI32 epoch 1)

/-- The leader and leader epoch after a change. -/
def changedLeader (current : PartitionRecord) (leader : Int32) :
    Except TranslateError (NodeId × LeaderEpoch) :=
  -- a leader on the wire bumps the epoch even if it is the current one
  if leader ≠ -2 then do
    let node ← partitionLeaderFromWire leader "partition change leader"
    let epoch ← nextEpoch "partition change leader epoch" "leader epoch overflow" current.leaderEpoch
    return (node, epoch)
  else .ok (current.leader, current.leaderEpoch)

/-- The directories after a change: one per replica, or as they were. -/
def changedDirectories (current : PartitionRecord) (change : KPartitionChangeRecord)
    (replicas : List NodeId) : Except TranslateError (List Uuid) :=
  match change.directories with
  | some directories =>
    if directories.length ≠ replicas.length then
      let detail := toString directories.length ++ " directories for " ++
        toString replicas.length ++ " replicas"
      -- a mismatch is the record's own fault only if it carries the replicas as well
      .error (if change.replicas.isSome
        then .invalidValue "partition change directories" detail
        else .invalidReference "partition change directories" detail)
    else .ok directories
  | none => .ok current.directories

/-- The partition that a change leads to from `current`. -/
def changedPartition (change : KPartitionChangeRecord) (current : PartitionRecord) :
    Except TranslateError PartitionRecord := do
  let replicas ← nodesOr current.replicas change.replicas "partition change replica"
  let isr ← nodesOr current.isr change.isr "partition change ISR member"
  let removing ← nodesOr current.removingReplicas change.removingReplicas
    "partition change removing replica"
  let adding ← nodesOr current.addingReplicas change.addingReplicas
    "partition change adding replica"
  let (leader, leaderEpoch) ← changedLeader current change.leader
  let directories ← changedDirectories current change replicas
  -- every change bumps the partition epoch
  let partitionEpoch ← nextEpoch "partition change partition epoch" "partition epoch overflow"
    current.partitionEpoch
  return { current with
    replicas := replicas
    isr := isr
    removingReplicas := removing
    addingReplicas := adding
    leader := leader
    leaderEpoch := leaderEpoch
    directories := directories
    partitionEpoch := partitionEpoch }

/-- The recovery state that a change sets, if any. -/
def changedRecoveryState (b : Int8) : Except TranslateError (Option LeaderRecoveryState) :=
  if b ≠ -1 then some <$> recoveryStateFromWire "partition change leader recovery state" b
  else .ok none

def partitionChangeFromKraft (ω : MapOrder) (change : KPartitionChangeRecord) (img : MetadataImage) :
    Except TranslateError MetadataRecord := do
  let topic ← topicOfId ω img change.topicId
  let recoveryState ← changedRecoveryState change.leaderRecoveryState
  let current ← okOr (.invalidReference "partition change"
      ("unknown partition " ++ partitionName topic change.partitionId))
    (img.partition topic change.partitionId)
  let partition ← changedPartition change current
  if change.leaderRecoveryState ≠ -1 ∨ change.eligibleLeaderReplicas.isSome ∨
      change.lastKnownElr.isSome then do
    let eligible ← change.eligibleLeaderReplicas.mapM (nodesFromWire · "eligible leader replica")
    let lastKnown ← change.lastKnownElr.mapM (nodesFromWire · "last known eligible leader replica")
    return .v1PartitionUpdate {
      partition := partition
      eligibleLeaderReplicas := eligible
      lastKnownElr := lastKnown
      recoveryState := recoveryState }
  else return .v1Partition partition

/-! ## Quotas, tokens and configurations

A configuration record holds one key; it is merged into the map that the image holds for the resource. -/

def clientQuotaFromKraft (q : KClientQuotaRecord) : ClientQuotaRecord where
  entity := q.entity.map (fun e => { entityType := e.entityType, entityName := e.entityName })
  configKey := q.key
  configValue := if q.remove then none else some q.value

def principalFromKraft (field s : String) : Except TranslateError KafkaPrincipal :=
  (KafkaPrincipal.parse s).mapError (.invalidValue field)

def delegationTokenFromKraft (t : KDelegationTokenRecord) :
    Except TranslateError DelegationTokenRecord := do
  let owner ← principalFromKraft "delegation token owner" t.owner
  let requester ← principalFromKraft "delegation token requester" t.requester
  let renewers ← t.renewers.mapM (principalFromKraft "delegation token renewer")
  return {
    tokenId := t.tokenId
    owner := owner
    requester := requester
    issueTimestampMs := t.issueTimestamp
    expiryTimestampMs := t.expirationTimestamp
    maxTimestampMs := t.maxTimestamp
    renewers := renewers }

def scramCredentialFromKraft (s : UserScramCredentialRecord) :
    Except TranslateError ScramCredentialRecord := do
  let mechanism ← scramMechanismFromWire s.mechanism
  let iterations ← okOr
    (.invalidValue "scram iterations" (showI32 s.iterations ++ " is negative"))
    (u32OfI32 s.iterations)
  return {
    user := s.name
    mechanism := mechanism
    salt := s.salt
    storedKey := s.storedKey
    serverKey := s.serverKey
    iterations := iterations }

def aclFromKraft (e : AccessControlEntryRecord) : Except TranslateError AclEntry := do
  let resourceType ← resourceTypeFromWire e.resourceType
  let patternType ← patternTypeFromWire e.patternType
  let operation ← operationFromWire e.operation
  let permissionType ← permissionFromWire e.permissionType
  return {
    resourceType := resourceType
    resourceName := e.resourceName
    patternType := patternType
    principal := e.principal
    host := e.host
    operation := operation
    permissionType := permissionType }

/-- One key merged onto the whole map of the resource. -/
def mergeConfig (current : Option (BTreeMap String String)) (c : ConfigRecord) :
    BTreeMap String String :=
  applyDelta (current.getD ∅) (c.name, c.value)

def brokerConfigNode (resourceName : String) : Except TranslateError NodeId :=
  if resourceName.isEmpty then .ok defaultBrokerConfigNodeId
  else (Text.parseU64 resourceName).mapError
    (fun e => .invalidValue "broker config resource_name" e.message)

def configFromKraft (c : ConfigRecord) (img : MetadataImage) : Except TranslateError MetadataRecord :=
  if c.resourceType = 4 then do
    let nodeId ← brokerConfigNode c.resourceName
    return .v1BrokerConfig { nodeId := nodeId, configName := c.name, configValue := c.value }
  else if c.resourceType = 2 then
    .ok (.v1TopicConfig
      { topic := c.resourceName, overrides := mergeConfig (img.topicConfig c.resourceName) c })
  else if c.resourceType = 16 then
    .ok (.v1ClientMetricsConfig
      { name := c.resourceName, configs := mergeConfig (img.clientMetricsConfig c.resourceName) c })
  else if c.resourceType = 32 then
    .ok (.v1GroupConfig
      { groupId := c.resourceName, configs := mergeConfig (img.groupConfig c.resourceName) c })
  else .error (.invalidValue "config resource_type"
    ("unsupported resource_type " ++ toString c.resourceType.toInt))

/-! ## Krabka-private records

The tag picks the kind. A tag that is not assigned, or a second tag beside it, is refused. -/

/-- `i16::from_be_bytes`. -/
def i16OfBeBytes (hi lo : UInt8) : Int16 := (hi.toUInt16 <<< 8 ||| lo.toUInt16).toInt16

def fromPrivateCarrier (codec : Codec) (noOp : NoOpRecord) : Except TranslateError MetadataRecord :=
  match noOp.unknownTaggedFields with
  | [field] =>
    let tag := field.tag
    -- a tag below the range is not krabka's: an ordinary `NoOp`
    if tag < privateTagFloor then .error (.noCounterpart "NoOp")
    else if !privateTags.contains tag then .error (.unknownPrivateTag tag)
    else
      match field.bytes with
      | hi :: lo :: record =>
        let version := i16OfBeBytes hi lo
        if version ≠ privateRecordVersion then
          .error (.unknownPrivateRecordVersion tag version)
        else do
          let (rec, rest) ← (codec.get record).mapError .decode
          if !rest.isEmpty then .error (.trailingPrivateRecordBytes tag rest.length)
          -- the tag and the payload have to agree
          else if privateTag rec ≠ some tag then
            .error (.privateTagMismatch tag (privateTag rec))
          else .ok rec
      | short =>
        .error (.decode ("krabka-private NoOpRecord tag " ++ toString tag.toNat ++ " body is " ++
          toString short.length ++ " bytes, too short for its i16 version"))
  | _ => .error (.noCounterpart "NoOp")

/-! ## The dispatch

Which decoder a record goes to. A record that the translation has no use for is an error that names it. -/

/-- The name in the error of a record that the translation does not model. -/
def kraftVariantName : KraftMetadataRecord → String
  | .brokerRegistrationChange _ => "BrokerRegistrationChange"
  | .partitionChange _ => "PartitionChange"
  | .noOp _ => "NoOp"
  | .beginTransaction _ => "BeginTransaction"
  | .endTransaction => "EndTransaction"
  | .removeAccessControlEntry _ => "RemoveAccessControlEntry"
  | .unknown .. => "Unknown"
  | _ => "unmodeled"

/-- The metadata record of one KIP-631 record, resolved against the image. -/
def fromKraft (codec : Codec) (ω : MapOrder) (rec : KraftMetadataRecord) (img : MetadataImage) :
    Except TranslateError MetadataRecord :=
  match rec with
  | .featureLevel f => .ok (.v1FeatureLevel { name := f.name, level := f.featureLevel })
  | .registerBroker b => .v1BrokerRegistration <$> registerBrokerFromKraft b
  | .brokerRegistrationChange change =>
    .v1BrokerRegistrationChange <$> brokerRegistrationChangeFromKraft change
  | .registerController c => .v1ControllerRegistration <$> registerControllerFromKraft c
  | .unregisterController u => do
    let nodeId ← nodeIdFromWire u.controllerId "unregister controller id"
    return .v1UnregisterController { nodeId := nodeId }
  | .unregisterBroker u => do
    let nodeId ← nodeIdFromWire u.brokerId "unregister broker id"
    return .v1UnregisterBroker { nodeId := nodeId, brokerEpoch := u.brokerEpoch }
  | .userScramCredential s => .v1ScramCredential <$> scramCredentialFromKraft s
  | .removeUserScramCredential s => do
    let mechanism ← scramMechanismFromWire s.mechanism
    return .v1DeleteScramCredential { user := s.name, mechanism := mechanism }
  | .accessControlEntry e => .v1AccessControlEntry <$> aclFromKraft e
  | .clientQuota q => .ok (.v1ClientQuota (clientQuotaFromKraft q))
  | .producerIds record => do
    let brokerId ← nodeIdFromWire record.brokerId "producer IDs broker id"
    return .v1ProducerIds {
      brokerId := brokerId
      brokerEpoch := record.brokerEpoch
      nextProducerId := record.nextProducerId }
  | .delegationToken t => .v1DelegationToken <$> delegationTokenFromKraft t
  | .removeDelegationToken t => .ok (.v1DeleteDelegationToken { tokenId := t.tokenId })
  | .config c => configFromKraft c img
  | .topic t => .ok (.v1Topic (topicFromKraft t img))
  | .partition p => partitionFromKraft ω p img
  | .partitionChange p => partitionChangeFromKraft ω p img
  | .removeTopic t => do
    let name ← topicOfId ω img t.topicId
    return .v1DeleteTopic { name := name }
  | .removeAccessControlEntry r => do
    -- the content hash leads back to the entry, and the filter removes that entry alone
    let entry ← okOr (.unknownAclId r.id) ((img.allAcls ω).find? (fun e => aclId e == r.id))
    return .v1DeleteAccessControlEntry (exactFilter entry)
  | .noOp noOp => fromPrivateCarrier codec noOp
  | .beginTransaction _ | .endTransaction | .unknown .. =>
    .error (.noCounterpart (kraftVariantName rec))

def fromKraftValue (codec : Codec) (ω : MapOrder) (value : List UInt8) (img : MetadataImage) :
    Except TranslateError MetadataRecord := do
  let (rec, _) ← (codec.decodeValue value).mapError .decode
  fromKraft codec ω rec img

/-! ## Replay

One blob after the other, each against the image that the blobs before it made. -/

/-- Decode and apply a log, one entry at a time against the live image. -/
def replayWith {β : Type} (decode : MapOrder → β → MetadataImage → Except TranslateError MetadataRecord) :
    (ℕ → MapOrder) → MetadataImage → List β → Except TranslateError MetadataImage
  | _, img, [] => .ok img
  | ω, img, entry :: rest => do
    -- a decoder that refuses ends the replay
    let rec ← decode (ω 0) entry img
    replayWith decode (fun n => ω (n + 1)) (img.apply rec) rest

/-- The log reader's loop over blobs. -/
def replay (codec : Codec) : (ℕ → MapOrder) → MetadataImage → List (List UInt8) →
    Except TranslateError MetadataImage :=
  replayWith (fromKraftValue codec)

end Krabka.Metadata.Kraft
