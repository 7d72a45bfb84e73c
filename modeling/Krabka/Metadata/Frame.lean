import Krabka.Metadata.Image

/-!
# `Metadata.Frame` — which tables a record writes

The image is twenty-four tables, and a record of one kind writes only a few of them. `RecordKind.writes`
says which, and `apply_frame` proves it once for every record and every table. All later "this table is
unchanged" facts are instances of it, for one record or, by `foldl_apply_frame`, for a run of them.
-/

namespace Krabka.Metadata

open Collections

/-! ## Kinds of records

A record without its data. -/

/-- The discriminant of a record (`record_variant`). -/
inductive RecordKind where
  | topic
  | partition
  | brokerRegistration
  | deleteTopic
  | topicConfig
  | scramCredential
  | deleteScramCredential
  | accessControlEntry
  | deleteAccessControlEntry
  | brokerConfig
  | clientQuota
  | producerIds
  | delegationToken
  | deleteDelegationToken
  | unregisterBroker
  | kraftVersion
  | voters
  | featureLevel
  | clientMetricsConfig
  | featuresEpoch
  | partitionDirAssignment
  | partitionOffsetAdvance
  | groupConfig
  | controllerRegistration
  | topicFreeze
  | breakGlassProposal
  | deleteBreakGlassProposal
  | partitionElr
  | partitionRecovery
  | partitionUpdate
  | brokerRegistrationChange
  | unregisterController
deriving DecidableEq, Repr

def MetadataRecord.kind : MetadataRecord → RecordKind
  | .v1Topic _ => .topic
  | .v1Partition _ => .partition
  | .v1BrokerRegistration _ => .brokerRegistration
  | .v1DeleteTopic _ => .deleteTopic
  | .v1TopicConfig _ => .topicConfig
  | .v1ScramCredential _ => .scramCredential
  | .v1DeleteScramCredential _ => .deleteScramCredential
  | .v1AccessControlEntry _ => .accessControlEntry
  | .v1DeleteAccessControlEntry _ => .deleteAccessControlEntry
  | .v1BrokerConfig _ => .brokerConfig
  | .v1ClientQuota _ => .clientQuota
  | .v1ProducerIds _ => .producerIds
  | .v1DelegationToken _ => .delegationToken
  | .v1DeleteDelegationToken _ => .deleteDelegationToken
  | .v1UnregisterBroker _ => .unregisterBroker
  | .v1KRaftVersion _ => .kraftVersion
  | .v1Voters _ => .voters
  | .v1FeatureLevel _ => .featureLevel
  | .v1ClientMetricsConfig _ => .clientMetricsConfig
  | .v1FeaturesEpoch _ => .featuresEpoch
  | .v1PartitionDirAssignment _ => .partitionDirAssignment
  | .v1PartitionOffsetAdvance _ => .partitionOffsetAdvance
  | .v1GroupConfig _ => .groupConfig
  | .v1ControllerRegistration _ => .controllerRegistration
  | .v1TopicFreeze _ => .topicFreeze
  | .v1BreakGlassProposal _ => .breakGlassProposal
  | .v1DeleteBreakGlassProposal _ => .deleteBreakGlassProposal
  | .v1PartitionElr _ => .partitionElr
  | .v1PartitionRecovery _ => .partitionRecovery
  | .v1PartitionUpdate _ => .partitionUpdate
  | .v1BrokerRegistrationChange _ => .brokerRegistrationChange
  | .v1UnregisterController _ => .unregisterController

/-! ## Tables

A table is a projection of the image, so one theorem speaks of all of them. -/

inductive Table where
  | topics
  | topicIds
  | partitions
  | partitionNextOffsets
  | partitionElr
  | partitionRecovery
  | brokers
  | controllers
  | topicConfigs
  | brokerConfigs
  | clientMetricsConfigs
  | groupConfigs
  | scramCredentials
  | acls
  | freezesLiteral
  | freezesPrefixed
  | breakGlass
  | clientQuotas
  | producerIds
  | delegationTokens
  | kraftVersion
  | voters
  | featureLevels
  | featuresEpoch
deriving DecidableEq, Repr

/-- What a table holds. -/
def Table.Value : Table → Type
  | .topics => HashMap String TopicRecord
  | .topicIds => HashMap Uuid String
  | .partitions => HashMap String (BTreeMap Int32 PartitionRecord)
  | .partitionNextOffsets => HashMap String (BTreeMap Int32 Int64)
  | .partitionElr => HashMap String (BTreeMap Int32 PartitionElrState)
  | .partitionRecovery => HashMap String (BTreeMap Int32 LeaderRecoveryState)
  | .brokers => HashMap NodeId BrokerRegistrationRecord
  | .controllers => HashMap NodeId ControllerRegistrationRecord
  | .topicConfigs | .clientMetricsConfigs | .groupConfigs => HashMap String (BTreeMap String String)
  | .brokerConfigs => HashMap NodeId (BTreeMap String String)
  | .scramCredentials => HashMap (String × SaslMechanism) ScramCredential
  | .acls => AclIndex
  | .freezesLiteral => HashMap String TopicFreezeRecord
  | .freezesPrefixed => BTreeMap String TopicFreezeRecord
  | .breakGlass => HashMap Uuid BreakGlassProposalRecord
  | .clientQuotas => HashMap EntityKey (BTreeMap String F64)
  | .producerIds => Option ProducerIdsRecord
  | .delegationTokens => HashMap String DelegationToken
  | .kraftVersion => UInt16
  | .voters => VoterSet
  | .featureLevels => BTreeMap String Int16
  | .featuresEpoch => Int64

/-- The table of an image. -/
def Table.get (img : MetadataImage) : (t : Table) → t.Value
  | .topics => img.topics
  | .topicIds => img.topicIds
  | .partitions => img.partitions
  | .partitionNextOffsets => img.partitionNextOffsets
  | .partitionElr => img.partitionElr
  | .partitionRecovery => img.partitionRecovery
  | .brokers => img.brokers
  | .controllers => img.controllers
  | .topicConfigs => img.topicConfigs
  | .brokerConfigs => img.brokerConfigs
  | .clientMetricsConfigs => img.clientMetricsConfigs
  | .groupConfigs => img.groupConfigs
  | .scramCredentials => img.scramCredentials
  | .acls => img.acls
  | .freezesLiteral => img.freezesLiteral
  | .freezesPrefixed => img.freezesPrefixed
  | .breakGlass => img.breakGlass
  | .clientQuotas => img.clientQuotas
  | .producerIds => img.producerIds
  | .delegationTokens => img.delegationTokens
  | .kraftVersion => img.kraftVersion
  | .voters => img.voters
  | .featureLevels => img.featureLevels
  | .featuresEpoch => img.featuresEpoch

/-- The tables that a record of this kind may write. -/
def RecordKind.writes : RecordKind → List Table
  | .topic => [.topics, .topicIds]
  | .partition => [.topics, .partitions]
  | .brokerRegistration | .unregisterBroker | .brokerRegistrationChange => [.brokers]
  | .deleteTopic =>
    [.topics, .topicIds, .partitions, .partitionNextOffsets, .partitionElr, .partitionRecovery,
      .topicConfigs]
  | .topicConfig => [.topicConfigs]
  | .scramCredential | .deleteScramCredential => [.scramCredentials]
  | .accessControlEntry | .deleteAccessControlEntry => [.acls]
  | .brokerConfig => [.brokerConfigs]
  | .clientQuota => [.clientQuotas]
  | .producerIds => [.producerIds]
  | .delegationToken | .deleteDelegationToken => [.delegationTokens]
  | .kraftVersion => [.kraftVersion]
  | .voters => [.voters]
  | .featureLevel => [.featureLevels, .featuresEpoch]
  | .clientMetricsConfig => [.clientMetricsConfigs]
  | .featuresEpoch => [.featuresEpoch]
  | .partitionDirAssignment => [.partitions]
  | .partitionOffsetAdvance => [.partitionNextOffsets]
  | .groupConfig => [.groupConfigs]
  | .controllerRegistration | .unregisterController => [.controllers]
  | .topicFreeze => [.freezesLiteral, .freezesPrefixed]
  | .breakGlassProposal | .deleteBreakGlassProposal => [.breakGlass]
  | .partitionElr => [.partitionElr]
  | .partitionRecovery => [.partitionRecovery]
  | .partitionUpdate => [.topics, .partitions, .partitionElr, .partitionRecovery]

namespace MetadataImage

theorem apply_partitionUpdate_frame (img : MetadataImage) (update : PartitionUpdateRecord) {t : Table}
    (h : t ∉ RecordKind.writes .partitionUpdate) :
    t.get (img.applyPartitionUpdate update) = t.get img := by
  unfold applyPartitionUpdate
  simp only []
  split <;> split <;> cases t <;> first | rfl | exact absurd (by decide) h

theorem apply_topicFreeze_frame (img : MetadataImage) (rec : TopicFreezeRecord) {t : Table}
    (h : t ∉ RecordKind.writes .topicFreeze) : t.get (img.applyTopicFreeze rec) = t.get img := by
  unfold applyTopicFreeze
  split <;> cases t <;> first | rfl | exact absurd (by decide) h

theorem apply_registrationChange_frame (img : MetadataImage) (change : BrokerRegistrationChangeRecord)
    {t : Table} (h : t ∉ RecordKind.writes .brokerRegistrationChange) :
    t.get (img.applyRegistrationChange change) = t.get img := by
  unfold applyRegistrationChange
  split
  · rfl
  · split
    · cases t <;> first | rfl | exact absurd (by decide) h
    · rfl

theorem apply_unregisterBroker_frame (img : MetadataImage) (rec : UnregisterBrokerRecord) {t : Table}
    (h : t ∉ RecordKind.writes .unregisterBroker) :
    t.get (img.applyUnregisterBroker rec) = t.get img := by
  unfold applyUnregisterBroker
  split
  · cases t <;> first | rfl | exact absurd (by decide) h
  · rfl

theorem apply_producerIds_frame (img : MetadataImage) (rec : ProducerIdsRecord) {t : Table}
    (h : t ∉ RecordKind.writes .producerIds) :
    t.get (img.apply (.v1ProducerIds rec)) = t.get img := by
  show t.get (if _ then _ else _) = _
  split
  · cases t <;> first | rfl | exact absurd (by decide) h
  · rfl

theorem apply_partitionDirAssignment_frame (img : MetadataImage) (r : PartitionDirAssignmentRecord)
    {t : Table} (h : t ∉ RecordKind.writes .partitionDirAssignment) :
    t.get (img.applyPartitionDirAssignment r) = t.get img := by
  rcases applyPartitionDirAssignment_cases img r with he | ⟨_, _, _, _, he⟩
  · -- unknown partition or replica: nothing is written
    rw [he]
  · rw [he]
    cases t <;> first | rfl | exact absurd (by decide) h

/-- **Frame.** A record leaves every table alone that its kind does not write. -/
theorem apply_frame (img : MetadataImage) (r : MetadataRecord) {t : Table} (h : t ∉ r.kind.writes) :
    t.get (img.apply r) = t.get img := by
  cases r with
  -- the kinds whose write depends on the image or on an optional field
  | v1PartitionUpdate update => exact apply_partitionUpdate_frame img update h
  | v1TopicFreeze rec => exact apply_topicFreeze_frame img rec h
  | v1BrokerRegistrationChange change => exact apply_registrationChange_frame img change h
  | v1UnregisterBroker rec => exact apply_unregisterBroker_frame img rec h
  | v1ProducerIds rec => exact apply_producerIds_frame img rec h
  | v1PartitionDirAssignment r => exact apply_partitionDirAssignment_frame img r h
  -- every other kind is one update of the record's own tables
  | _ =>
      simp only [MetadataRecord.kind, RecordKind.writes] at h
      cases t <;> first | rfl | exact absurd (by decide) h

/-- The cluster id is not a table: no record changes it. -/
theorem apply_clusterId (img : MetadataImage) (r : MetadataRecord) :
    (img.apply r).clusterId = img.clusterId := by
  cases r with
  | v1PartitionUpdate update =>
      simp only [apply, applyPartitionUpdate]
      split <;> split <;> rfl
  | v1TopicFreeze rec =>
      simp only [apply, applyTopicFreeze]
      split <;> rfl
  | v1BrokerRegistrationChange change =>
      simp only [apply, applyRegistrationChange]
      split
      · rfl
      · split <;> rfl
  | v1UnregisterBroker rec =>
      simp only [apply, applyUnregisterBroker]
      split <;> rfl
  | v1ProducerIds rec =>
      simp only [apply]
      split <;> rfl
  | v1PartitionDirAssignment r =>
      simp only [apply]
      rcases applyPartitionDirAssignment_cases img r with he | ⟨_, _, _, _, he⟩
      · rw [he]
      · rw [he]
  | _ => rfl

theorem foldl_apply_clusterId (records : List MetadataRecord) (img : MetadataImage) :
    (records.foldl apply img).clusterId = img.clusterId := by
  induction records generalizing img with
  | nil => rfl
  | cons r rest ih => rw [List.foldl_cons, ih, apply_clusterId]

/-- A run of records that do not write a table leaves it alone. -/
theorem foldl_apply_frame {t : Table} {records : List MetadataRecord}
    (h : ∀ r ∈ records, t ∉ r.kind.writes) (img : MetadataImage) :
    t.get (records.foldl apply img) = t.get img := by
  induction records generalizing img with
  | nil => rfl
  | cons r rest ih =>
      rw [List.foldl_cons, ih (fun r' hr' => h r' (List.mem_cons_of_mem _ hr')),
        apply_frame img r (h r List.mem_cons_self)]

end MetadataImage

end Krabka.Metadata
