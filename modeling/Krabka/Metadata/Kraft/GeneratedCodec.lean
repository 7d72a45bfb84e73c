import Krabka.Protocol.MetadataReencoding
import Krabka.Metadata.Kraft.Wire

/-!
# `Metadata.Kraft.GeneratedCodec` — records in the generated codec

A lawful codec reads back what a version carries. It says nothing about a record that sets more than that, and
nothing about what the writer refuses. For the records that an image is downgraded in (topics, brokers,
partitions and credentials) the generated code is at hand, and `Codec.Generated` ties a codec to it. Then
such a record is written exactly when its lengths fit (`encodeValue_isOk`), and comes back without the fields
that its version does not have (`decodeValue_encodeValue`).
-/

namespace Krabka.Metadata.Kraft

open Results ByteStream Protocol Protocol.MetadataValue

/-! ## Records as the generated code declares them

The structures of `Wire` hold what the translation uses. `generated` puts the defaults in for the other
fields, `ofGenerated` forgets them. -/

def KTopicRecord.generated (t : KTopicRecord) : MetadataValue.TopicRecord where
  name := t.name
  topicId := ⟨t.topicId⟩

def KTopicRecord.ofGenerated (t : MetadataValue.TopicRecord) : KTopicRecord := ⟨t.name, t.topicId.value⟩

def KPartitionRecord.generated (p : KPartitionRecord) : Protocol.PartitionRecord where
  partitionId := p.partitionId
  topicId := ⟨p.topicId⟩
  replicas := p.replicas
  isr := p.isr
  removingReplicas := p.removingReplicas
  addingReplicas := p.addingReplicas
  leader := p.leader
  leaderEpoch := p.leaderEpoch
  partitionEpoch := p.partitionEpoch
  directories := p.directories.map Protocol.Uuid.mk
  leaderRecoveryState := p.leaderRecoveryState
  eligibleLeaderReplicas := p.eligibleLeaderReplicas
  lastKnownElr := p.lastKnownElr

def KPartitionRecord.ofGenerated (p : Protocol.PartitionRecord) : KPartitionRecord where
  partitionId := p.partitionId
  topicId := p.topicId.value
  replicas := p.replicas
  isr := p.isr
  removingReplicas := p.removingReplicas
  addingReplicas := p.addingReplicas
  leader := p.leader
  leaderEpoch := p.leaderEpoch
  partitionEpoch := p.partitionEpoch
  directories := p.directories.map Protocol.Uuid.value
  leaderRecoveryState := p.leaderRecoveryState
  eligibleLeaderReplicas := p.eligibleLeaderReplicas
  lastKnownElr := p.lastKnownElr

def KBrokerEndpoint.generated (e : KBrokerEndpoint) : MetadataValue.BrokerEndpoint where
  name := e.name
  host := e.host
  port := e.port
  securityProtocol := e.securityProtocol

def KBrokerEndpoint.ofGenerated (e : MetadataValue.BrokerEndpoint) : KBrokerEndpoint where
  name := e.name
  host := e.host
  port := e.port
  securityProtocol := e.securityProtocol

def KBrokerFeature.generated (f : KBrokerFeature) : MetadataValue.BrokerFeature where
  name := f.name
  minSupportedVersion := f.minSupportedVersion
  maxSupportedVersion := f.maxSupportedVersion

def KBrokerFeature.ofGenerated (f : MetadataValue.BrokerFeature) : KBrokerFeature where
  name := f.name
  minSupportedVersion := f.minSupportedVersion
  maxSupportedVersion := f.maxSupportedVersion

def RegisterBrokerRecord.generated (b : RegisterBrokerRecord) : MetadataValue.RegisterBrokerRecord where
  brokerId := b.brokerId
  isMigratingZkBroker := b.isMigratingZkBroker
  incarnationId := ⟨b.incarnationId⟩
  brokerEpoch := b.brokerEpoch
  endPoints := b.endPoints.map KBrokerEndpoint.generated
  features := b.features.map KBrokerFeature.generated
  rack := b.rack
  fenced := b.fenced
  inControlledShutdown := b.inControlledShutdown
  logDirs := b.logDirs.map Protocol.Uuid.mk
  cordonedLogDirs := b.cordonedLogDirs.map (List.map Protocol.Uuid.mk)

def RegisterBrokerRecord.ofGenerated (b : MetadataValue.RegisterBrokerRecord) : RegisterBrokerRecord where
  brokerId := b.brokerId
  isMigratingZkBroker := b.isMigratingZkBroker
  incarnationId := b.incarnationId.value
  brokerEpoch := b.brokerEpoch
  endPoints := b.endPoints.map KBrokerEndpoint.ofGenerated
  features := b.features.map KBrokerFeature.ofGenerated
  rack := b.rack
  fenced := b.fenced
  inControlledShutdown := b.inControlledShutdown
  logDirs := b.logDirs.map Protocol.Uuid.value
  cordonedLogDirs := b.cordonedLogDirs.map (List.map Protocol.Uuid.value)

def UserScramCredentialRecord.generated (s : UserScramCredentialRecord) :
    MetadataValue.UserScramCredentialRecord where
  name := s.name
  mechanism := s.mechanism
  salt := s.salt
  storedKey := s.storedKey
  serverKey := s.serverKey
  iterations := s.iterations

def UserScramCredentialRecord.ofGenerated (s : MetadataValue.UserScramCredentialRecord) :
    UserScramCredentialRecord where
  name := s.name
  mechanism := s.mechanism
  salt := s.salt
  storedKey := s.storedKey
  serverKey := s.serverKey
  iterations := s.iterations

def AccessControlEntryRecord.generated (e : AccessControlEntryRecord) :
    MetadataValue.AccessControlEntryRecord where
  id := ⟨e.id⟩
  resourceType := e.resourceType
  resourceName := e.resourceName
  patternType := e.patternType
  principal := e.principal
  host := e.host
  operation := e.operation
  permissionType := e.permissionType

def AccessControlEntryRecord.ofGenerated (e : MetadataValue.AccessControlEntryRecord) :
    AccessControlEntryRecord where
  id := e.id.value
  resourceType := e.resourceType
  resourceName := e.resourceName
  patternType := e.patternType
  principal := e.principal
  host := e.host
  operation := e.operation
  permissionType := e.permissionType

def KDelegationTokenRecord.generated (t : KDelegationTokenRecord) : MetadataValue.DelegationTokenRecord where
  owner := t.owner
  requester := t.requester
  renewers := t.renewers
  issueTimestamp := t.issueTimestamp
  maxTimestamp := t.maxTimestamp
  expirationTimestamp := t.expirationTimestamp
  tokenId := t.tokenId

def KDelegationTokenRecord.ofGenerated (t : MetadataValue.DelegationTokenRecord) : KDelegationTokenRecord where
  owner := t.owner
  requester := t.requester
  renewers := t.renewers
  issueTimestamp := t.issueTimestamp
  maxTimestamp := t.maxTimestamp
  expirationTimestamp := t.expirationTimestamp
  tokenId := t.tokenId

section
variable (others : MetadataRecordType → BodyCodec)

/-- A record of one of the types above. -/
def KraftMetadataRecord.generated : KraftMetadataRecord → Option (Framed (generatedBodies others))
  | .topic t => some (.known .topic t.generated)
  | .partition p => some (.known .partition p.generated)
  | .registerBroker b => some (.known .registerBroker b.generated)
  | .userScramCredential s => some (.known .userScramCredential s.generated)
  | .accessControlEntry e => some (.known .accessControlEntry e.generated)
  | .delegationToken t => some (.known .delegationToken t.generated)
  | _ => none

def KraftMetadataRecord.ofGenerated : Framed (generatedBodies others) → Option KraftMetadataRecord
  | .known .topic t => some (.topic (.ofGenerated t))
  | .known .partition p => some (.partition (.ofGenerated p))
  | .known .registerBroker b => some (.registerBroker (.ofGenerated b))
  | .known .userScramCredential s => some (.userScramCredential (.ofGenerated s))
  | .known .accessControlEntry e => some (.accessControlEntry (.ofGenerated e))
  | .known .delegationToken t => some (.delegationToken (.ofGenerated t))
  | _ => none

end

/-- The codec writes these records as the generated code does, and reads what that code reads. -/
structure Codec.Generated (codec : Codec) (others : MetadataRecordType → BodyCodec) : Prop where
  encodeValue : ∀ {kr : KraftMetadataRecord} {g : Framed (generatedBodies others)},
    kr.generated others = some g → ∀ version, codec.encodeValue kr version =
      (MetadataValue.KraftMetadataRecord.encodeValue g version).mapError ProtocolError.message
  decodeValue : ∀ {bytes : List UInt8} {g : Framed (generatedBodies others)} {version : Int16}
    {kr : KraftMetadataRecord},
    MetadataValue.KraftMetadataRecord.decodeValue (generatedBodies others) bytes = .ok (g, version) →
      KraftMetadataRecord.ofGenerated others g = some kr → codec.decodeValue bytes = .ok (kr, version)

/-! ## What is written, and what comes back

The field codecs of the generated structures are put together, so a record is written when each of its fields
is, and read back field by field. -/

/-- The part of a partition that a version has. -/
def KPartitionRecord.carried (p : KPartitionRecord) (version : Int16) : KPartitionRecord :=
  { p with
    directories := if 1 ≤ version then p.directories else []
    eligibleLeaderReplicas := if 2 ≤ version then p.eligibleLeaderReplicas else none
    lastKnownElr := if 2 ≤ version then p.lastKnownElr else none }

theorem KPartitionRecord.ofGenerated_carried (p : KPartitionRecord) (version : Int16) :
    .ofGenerated (p.generated.carried version) = p.carried version := by
  have hdirectories : (p.generated.carried version).directories.map Protocol.Uuid.value =
      (p.carried version).directories := by
    show (if 1 ≤ version then p.directories.map Protocol.Uuid.mk else []).map Protocol.Uuid.value =
      if 1 ≤ version then p.directories else []
    split
    · rw [List.map_map]
      exact List.map_id _
    · rfl
  unfold ofGenerated
  rw [hdirectories]
  rfl

/-- The part of a registration that a version has. -/
def RegisterBrokerRecord.carried (b : RegisterBrokerRecord) (version : Int16) : RegisterBrokerRecord :=
  { b with
    isMigratingZkBroker := if 2 ≤ version then b.isMigratingZkBroker else false
    inControlledShutdown := if 1 ≤ version then b.inControlledShutdown else false
    logDirs := if 3 ≤ version then b.logDirs else []
    cordonedLogDirs := if 4 ≤ version then b.cordonedLogDirs else none }

theorem RegisterBrokerRecord.ofGenerated_carried (b : RegisterBrokerRecord) (version : Int16) :
    .ofGenerated (b.generated.carried version) = b.carried version := by
  have hback : ∀ dirs : List Uuid, (dirs.map Protocol.Uuid.mk).map Protocol.Uuid.value = dirs := fun dirs => by
    rw [List.map_map]
    exact List.map_id _
  have hlogDirs : (b.generated.carried version).logDirs.map Protocol.Uuid.value =
      (b.carried version).logDirs := by
    show (if 3 ≤ version then b.logDirs.map Protocol.Uuid.mk else []).map Protocol.Uuid.value =
      if 3 ≤ version then b.logDirs else []
    split
    · exact hback b.logDirs
    · rfl
  have hcordoned : (b.generated.carried version).cordonedLogDirs.map (List.map Protocol.Uuid.value) =
      (b.carried version).cordonedLogDirs := by
    show (if 4 ≤ version then b.cordonedLogDirs.map (List.map Protocol.Uuid.mk) else none).map
      (List.map Protocol.Uuid.value) = if 4 ≤ version then b.cordonedLogDirs else none
    split
    · cases b.cordonedLogDirs with
      | none => rfl
      | some dirs => exact congrArg some (hback dirs)
    · rfl
  have hendPoints : (b.generated.carried version).endPoints.map KBrokerEndpoint.ofGenerated = b.endPoints := by
    show (b.endPoints.map KBrokerEndpoint.generated).map KBrokerEndpoint.ofGenerated = b.endPoints
    rw [List.map_map]
    exact List.map_id _
  have hfeatures : (b.generated.carried version).features.map KBrokerFeature.ofGenerated = b.features := by
    show (b.features.map KBrokerFeature.generated).map KBrokerFeature.ofGenerated = b.features
    rw [List.map_map]
    exact List.map_id _
  unfold ofGenerated
  rw [hlogDirs, hcordoned, hendPoints, hfeatures]
  rfl

namespace KraftMetadataRecord

def maxVersion : KraftMetadataRecord → Int16
  | .partition _ => 2
  | .registerBroker _ => 4
  | _ => 0

def carried (version : Int16) : KraftMetadataRecord → KraftMetadataRecord
  | .partition p => .partition (p.carried version)
  | .registerBroker b => .registerBroker (b.carried version)
  | kr => kr

/-- The lengths that the writer does not refuse. -/
def Fits (version : Int16) : KraftMetadataRecord → Prop
  | .topic t => CompactFits t.name.utf8ByteSize
  | .partition p =>
    CompactFits p.replicas.length ∧ CompactFits p.isr.length ∧ CompactFits p.removingReplicas.length ∧
      CompactFits p.addingReplicas.length ∧ (1 ≤ version → CompactFits p.directories.length) ∧
      (2 ≤ version → ∀ l ∈ p.eligibleLeaderReplicas, listBytes l.length 4 < 2 ^ 32) ∧
      (2 ≤ version → ∀ l ∈ p.lastKnownElr, listBytes l.length 4 < 2 ^ 32)
  | .registerBroker b =>
    (CompactFits b.endPoints.length ∧
        ∀ e ∈ b.endPoints, CompactFits e.name.utf8ByteSize ∧ CompactFits e.host.utf8ByteSize) ∧
      (CompactFits b.features.length ∧ ∀ f ∈ b.features, CompactFits f.name.utf8ByteSize) ∧
      (∀ rack ∈ b.rack, CompactFits rack.utf8ByteSize) ∧
      (3 ≤ version → listBytes b.logDirs.length 16 < 2 ^ 32) ∧
      (4 ≤ version → ∀ dirs ∈ b.cordonedLogDirs, listBytes dirs.length 16 < 2 ^ 32)
  | .userScramCredential s =>
    CompactFits s.name.utf8ByteSize ∧ CompactFits s.salt.length ∧ CompactFits s.storedKey.length ∧
      CompactFits s.serverKey.length
  | .accessControlEntry e =>
    CompactFits e.resourceName.utf8ByteSize ∧ CompactFits e.principal.utf8ByteSize ∧
      CompactFits e.host.utf8ByteSize
  | .delegationToken t =>
    CompactFits t.owner.utf8ByteSize ∧ CompactFits t.requester.utf8ByteSize ∧
      (CompactFits t.renewers.length ∧ ∀ renewer ∈ t.renewers, CompactFits renewer.utf8ByteSize) ∧
      CompactFits t.tokenId.utf8ByteSize
  | _ => True

end KraftMetadataRecord

/-- A record that has no unknown tags has none that do not fit. -/
theorem and_noTags {p : Prop} : p ∧ UnknownTaggedFields.Fits [] ↔ p := and_iff_left fits_noTags

theorem fits_generated_endPoint {e : KBrokerEndpoint} :
    e.generated.Fits ↔ CompactFits e.name.utf8ByteSize ∧ CompactFits e.host.utf8ByteSize :=
  and_congr_right fun _ => and_noTags

theorem fits_generated_feature {f : KBrokerFeature} : f.generated.Fits ↔ CompactFits f.name.utf8ByteSize :=
  and_noTags

theorem guarded_partition (p : KPartitionRecord) (version : Int16) :
    Guarded ((0 ≤ version ∧ version ≤ 2) ∧ (KraftMetadataRecord.partition p).Fits version)
      (p.generated.encode version) (Protocol.PartitionRecord.decode version) (p.generated.carried version) where
  writes := by
    have hdirectories : p.generated.directories.length = p.directories.length := List.length_map _
    refine (PartitionRecord.writes_encode rfl).trans (and_congr_right fun _ => ?_)
    unfold Protocol.PartitionRecord.Fits
    rw [hdirectories]
    rfl
  reads := fun hw => Protocol.PartitionRecord.decode_encode rfl hw

theorem guarded_registerBroker (b : RegisterBrokerRecord) (version : Int16) :
    Guarded ((0 ≤ version ∧ version ≤ 4) ∧ (KraftMetadataRecord.registerBroker b).Fits version)
      (b.generated.encode version) (MetadataValue.RegisterBrokerRecord.decode version)
      (b.generated.carried version) := by
  have hguarded := MetadataValue.RegisterBrokerRecord.guarded (r := b.generated) rfl
    (fun e he => by
      obtain ⟨_, _, rfl⟩ := List.mem_map.mp he
      exact ascending_nil)
    (fun f hf => by
      obtain ⟨_, _, rfl⟩ := List.mem_map.mp hf
      exact ascending_nil) version
  refine hguarded.iff (and_congr_right fun _ => ?_)
  unfold MetadataValue.RegisterBrokerRecord.Fits MetadataValue.RegisterBrokerRecord.DirsFit
    KraftMetadataRecord.Fits RegisterBrokerRecord.generated
  simp only [List.length_map, List.forall_mem_map, Option.mem_map, forall_exists_index, and_imp,
    forall_apply_eq_imp_iff₂, fits_generated_endPoint, fits_generated_feature]

section
variable {others : MetadataRecordType → BodyCodec} {kr : KraftMetadataRecord} {version : Int16}

/-- **A record in the generated code**: it is written exactly when the version and the lengths are in range, and
    is read back as what the version carries. -/
theorem guarded_generated {g : Framed (generatedBodies others)} (h : kr.generated others = some g)
    (version : Int16) :
    ∃ t body back, g = .known t body ∧
      Guarded ((0 ≤ version ∧ version ≤ kr.maxVersion) ∧ kr.Fits version)
        ((generatedBodies others t).encode body version) ((generatedBodies others t).decode version) back ∧
      KraftMetadataRecord.ofGenerated others (.known t back) = some (kr.carried version) := by
  cases kr with
  | topic t =>
      cases h
      refine ⟨.topic, t.generated, t.generated, rfl, ?_, rfl⟩
      exact (TopicRecord.guarded ascending_nil version).iff (and_congr_right fun _ => and_noTags)
  | partition p =>
      cases h
      refine ⟨.partition, p.generated, p.generated.carried version, rfl, guarded_partition p version, ?_⟩
      exact congrArg (some ∘ KraftMetadataRecord.partition) (p.ofGenerated_carried version)
  | registerBroker b =>
      cases h
      refine ⟨.registerBroker, b.generated, b.generated.carried version, rfl, guarded_registerBroker b version,
        ?_⟩
      exact congrArg (some ∘ KraftMetadataRecord.registerBroker) (b.ofGenerated_carried version)
  | userScramCredential s =>
      cases h
      refine ⟨.userScramCredential, s.generated, s.generated, rfl, ?_, rfl⟩
      refine (UserScramCredentialRecord.guarded ascending_nil version).iff (and_congr_right fun _ => ?_)
      exact and_congr_right fun _ => and_congr_right fun _ => and_congr_right fun _ => and_noTags
  | accessControlEntry e =>
      cases h
      refine ⟨.accessControlEntry, e.generated, e.generated, rfl, ?_, rfl⟩
      refine (AccessControlEntryRecord.guarded ascending_nil version).iff (and_congr_right fun _ => ?_)
      exact and_congr_right fun _ => and_congr_right fun _ => and_noTags
  | delegationToken t =>
      cases h
      refine ⟨.delegationToken, t.generated, t.generated, rfl, ?_, rfl⟩
      refine (DelegationTokenRecord.guarded ascending_nil version).iff (and_congr_right fun _ => ?_)
      exact and_congr_right fun _ => and_congr_right fun _ => and_congr_right fun _ => and_noTags
  | _ => cases h

/-- **A codec of this kind writes a record exactly when its lengths fit.** -/
theorem Codec.Generated.encodeValue_isOk {codec : Codec} (hgen : codec.Generated others)
    (h : (kr.generated others).isSome) (hmin : 0 ≤ version) (hmax : version ≤ kr.maxVersion) :
    (∃ bytes, codec.encodeValue kr version = .ok bytes) ↔ kr.Fits version := by
  obtain ⟨g, hg⟩ := Option.isSome_iff_exists.mp h
  obtain ⟨t, body, back, rfl, hguarded, -⟩ := guarded_generated hg version
  rw [hgen.encodeValue hg]
  refine Iff.trans ?_ (hguarded.writes.trans (and_iff_right ⟨hmin, hmax⟩))
  constructor
  · rintro ⟨bytes, hbytes⟩
    obtain ⟨w, hw, -⟩ := bind_eq_ok.mp (mapError_eq_ok.mp hbytes)
    exact ⟨w, PartitionRecord.encodeToBytes_eq_ok.mp hw⟩
  · rintro ⟨w, hw⟩
    exact ⟨_, mapError_eq_ok.mpr (bind_eq_ok.mpr ⟨w, PartitionRecord.encodeToBytes_eq_ok.mpr hw, rfl⟩)⟩

/-- **What such a codec wrote comes back as what its version carries.** -/
theorem Codec.Generated.decodeValue_encodeValue {codec : Codec} (hgen : codec.Generated others)
    (h : (kr.generated others).isSome) {bytes : List UInt8}
    (hbytes : codec.encodeValue kr version = .ok bytes) :
    codec.decodeValue bytes = .ok (kr.carried version, version) := by
  obtain ⟨g, hg⟩ := Option.isSome_iff_exists.mp h
  obtain ⟨t, body, back, rfl, hguarded, hback⟩ := guarded_generated hg version
  rw [hgen.encodeValue hg] at hbytes
  obtain ⟨w, hw, hbytes⟩ := bind_eq_ok.mp (mapError_eq_ok.mp hbytes)
  cases hbytes
  rw [PartitionRecord.encodeToBytes_eq_ok] at hw
  have hversion : FixedWidth.i16OfLen (apiVersionToU32 version).toNat = some version :=
    i16OfLen_apiVersionToU32 (hguarded.writes.mp ⟨w, hw⟩).1.1
  have hread := @MetadataValue.KraftMetadataRecord.decodeValue_known (generatedBodies others) _ _ _ _ _ hversion
    (hguarded.reads hw)
  exact hgen.decodeValue hread hback

end

/-! ## A codec of that kind

A table of bytes for the records at hand, which shows that the assumption can be met. -/

/-- The generated code for the records above, and no codec for the others. -/
def tabledCodec : Codec where
  encodeValue kr version :=
    match kr.generated fun _ => emptyBody with
    | some g => (MetadataValue.KraftMetadataRecord.encodeValue g version).mapError ProtocolError.message
    | none => .error "not in the generated code"
  decodeValue bytes := do
    let (g, version) ← (MetadataValue.KraftMetadataRecord.decodeValue (generatedBodies fun _ => emptyBody)
      bytes).mapError ProtocolError.message
    let kr ← okOr "not in the generated code" (KraftMetadataRecord.ofGenerated _ g)
    return (kr, version)
  serialize _ := .error "not in the generated code"
  get _ := .error "not in the generated code"

theorem tabledCodec_generated : tabledCodec.Generated fun _ => emptyBody where
  encodeValue := by
    intro kr g hg version
    unfold tabledCodec
    dsimp only
    rw [hg]
  decodeValue := by
    intro bytes g version kr h hkr
    exact bind_eq_ok.mpr ⟨(g, version), mapError_eq_ok.mpr h, bind_eq_ok.mpr ⟨kr, okOr_eq_ok.mpr hkr, rfl⟩⟩

end Krabka.Metadata.Kraft
