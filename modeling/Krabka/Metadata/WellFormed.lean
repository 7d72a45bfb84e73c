import Krabka.Metadata.Frame

/-!
# `Metadata.WellFormed` — what every image satisfies

`apply` keeps a shape that its readers and the snapshot rely on: a record is stored under its own key,
an inner map that a removal empties is dropped with its key, and a sentinel that means removal (a
recovered leader, two empty eligible-leader lists, a feature level of zero, a thawed freeze) is never
stored. `WellFormed` states that shape for the whole image. It needs no admission check: every record
keeps it (`WellFormed.step`), so every image has it (`wellFormed_of_built`).
-/

namespace Krabka.Metadata

open Collections FixedWidth

/-! ## Canonical entity keys

A key in its order is its own canonical form. -/

instance : Std.Total entityLe := ⟨fun a b => le_total a.1 b.1⟩

instance : IsTrans (String × Option String) entityLe := ⟨fun _ _ _ hab hbc => le_trans hab hbc⟩

/-- A canonical entity is left alone. -/
theorem canonicalizeEntity_canonicalizeEntity (tuple : List (String × Option String)) :
    canonicalizeEntity (canonicalizeEntity tuple) = canonicalizeEntity tuple :=
  (List.pairwise_insertionSort entityLe tuple).insertionSort_eq

namespace MetadataImage

variable {img : MetadataImage}

structure WellFormed (img : MetadataImage) : Prop where
  topics_keyed : Forall img.topics (fun name t => t.name = name)
  partitions_keyed : ForallInner img.partitions (fun topic idx p => p.topic = topic ∧ p.partition = idx)
  partitions_nonempty : NoEmptyInner img.partitions
  offsets_nonempty : NoEmptyInner img.partitionNextOffsets
  elr_stored : ForallInner img.partitionElr (fun _ _ elr => (elr.1.isEmpty && elr.2.isEmpty) = false)
  elr_nonempty : NoEmptyInner img.partitionElr
  recovery_stored : ForallInner img.partitionRecovery (fun _ _ state => state = .recovering)
  recovery_nonempty : NoEmptyInner img.partitionRecovery
  brokers_keyed : Forall img.brokers (fun nodeId b => b.nodeId = nodeId)
  controllers_keyed : Forall img.controllers (fun nodeId c => c.nodeId = nodeId)
  topicConfigs_nonempty : NoEmptyInner img.topicConfigs
  clientMetricsConfigs_nonempty : NoEmptyInner img.clientMetricsConfigs
  groupConfigs_nonempty : NoEmptyInner img.groupConfigs
  scramCredentials_keyed : Forall img.scramCredentials (fun key c => c.mechanism = key.2)
  acls : img.acls.Inv
  freezesLiteral_stored : Forall img.freezesLiteral (fun scope r =>
    r.scope = scope ∧ r.patternType = .literal ∧ r.frozen = true)
  freezesPrefixed_stored : Forall img.freezesPrefixed (fun scope r =>
    r.scope = scope ∧ r.patternType = .prefixed ∧ r.frozen = true)
  breakGlass_keyed : Forall img.breakGlass (fun id r => r.proposalId = id)
  clientQuotas_canonical : Forall img.clientQuotas (fun key _ => canonicalizeEntity key = key)
  delegationTokens_keyed : Forall img.delegationTokens (fun id tok => tok.tokenId = id)
  producerIds_positive : ∀ r, img.producerIds = some r → 0 < r.nextProducerId
  featureLevels_stored : Forall img.featureLevels (fun _ level => level ≠ 0)

/-- An empty image is well formed. -/
theorem wellFormed_new (clusterId : Uuid) : WellFormed (new clusterId) where
  topics_keyed := forall_empty
  partitions_keyed := forallInner_empty
  partitions_nonempty := noEmptyInner_empty
  offsets_nonempty := noEmptyInner_empty
  elr_stored := forallInner_empty
  elr_nonempty := noEmptyInner_empty
  recovery_stored := forallInner_empty
  recovery_nonempty := noEmptyInner_empty
  brokers_keyed := forall_empty
  controllers_keyed := forall_empty
  topicConfigs_nonempty := noEmptyInner_empty
  clientMetricsConfigs_nonempty := noEmptyInner_empty
  groupConfigs_nonempty := noEmptyInner_empty
  scramCredentials_keyed := forall_empty
  acls := AclIndex.inv_empty
  freezesLiteral_stored := forall_empty
  freezesPrefixed_stored := forall_empty
  breakGlass_keyed := forall_empty
  clientQuotas_canonical := forall_empty
  delegationTokens_keyed := forall_empty
  producerIds_positive := fun _ h => by cases h
  featureLevels_stored := forall_empty

/-! ## One record

One lemma for each function of `apply` that does more than set an entry. -/

/-- A topic keeps the image well formed. -/
theorem WellFormed.applyTopic (h : WellFormed img) (t : TopicRecord) :
    WellFormed (img.applyTopic t) :=
  { h with topics_keyed := forall_insert h.topics_keyed rfl }

/-- So does a partition. -/
theorem WellFormed.applyPartition (h : WellFormed img) (p : PartitionRecord) :
    WellFormed (img.applyPartition p) :=
  { h with
    topics_keyed := by
      intro name t ht
      rw [topics_applyPartition] at ht
      split at ht
      · -- the count and the factor change, the name does not
        obtain ⟨t', ht', rfl⟩ := Option.map_eq_some_iff.mp ht
        exact h.topics_keyed name t' ht'
      · exact h.topics_keyed name t ht
    partitions_keyed := forallInner_insert2 h.partitions_keyed ⟨rfl, rfl⟩
    partitions_nonempty := noEmptyInner_insert2 h.partitions_nonempty _ _ _ }

/-- So do its eligible leaders. -/
theorem WellFormed.applyPartitionElr (h : WellFormed img) (topic : String) (idx : Int32)
    (eligible lastKnown : List NodeId) :
    WellFormed (img.applyPartitionElr topic idx eligible lastKnown) :=
  { h with
    elr_stored := by
      show ForallInner (if _ then _ else _) _
      split
      · exact forallInner_erase2 h.elr_stored topic idx
      · rename_i he
        exact forallInner_insert2 h.elr_stored (by simpa using he)
    elr_nonempty := by
      show NoEmptyInner (if _ then _ else _)
      split
      · exact noEmptyInner_erase2 h.elr_nonempty topic idx
      · exact noEmptyInner_insert2 h.elr_nonempty topic idx _ }

/-- So does its recovery state. -/
theorem WellFormed.applyPartitionRecovery (h : WellFormed img) (topic : String) (idx : Int32)
    (state : LeaderRecoveryState) : WellFormed (img.applyPartitionRecovery topic idx state) :=
  { h with
    recovery_stored := by
      show ForallInner (if _ then _ else _) _
      split
      · exact forallInner_erase2 h.recovery_stored topic idx
      · rename_i hs
        refine forallInner_insert2 h.recovery_stored ?_
        cases state with
        | recovered => exact absurd rfl hs
        | recovering => rfl
    recovery_nonempty := by
      show NoEmptyInner (if _ then _ else _)
      split
      · exact noEmptyInner_erase2 h.recovery_nonempty topic idx
      · exact noEmptyInner_insert2 h.recovery_nonempty topic idx _ }

/-- So does an update. -/
theorem WellFormed.applyPartitionUpdate (h : WellFormed img) (update : PartitionUpdateRecord) :
    WellFormed (img.applyPartitionUpdate update) := by
  have hpart := h.applyPartition update.partition
  unfold MetadataImage.applyPartitionUpdate
  cases update.recoveryState with
  | none =>
      simp only []
      split
      · exact hpart.applyPartitionElr _ _ _ _
      · exact hpart
  | some state =>
      simp only []
      split
      · exact (hpart.applyPartitionElr _ _ _ _).applyPartitionRecovery _ _ state
      · exact hpart.applyPartitionRecovery _ _ state

/-- So does a deletion. -/
theorem WellFormed.applyDeleteTopic (h : WellFormed img) (d : DeleteTopicRecord) :
    WellFormed (img.applyDeleteTopic d) :=
  { h with
    topics_keyed := forall_erase h.topics_keyed d.name
    partitions_keyed := forallInner_erase h.partitions_keyed d.name
    partitions_nonempty := noEmptyInner_erase h.partitions_nonempty d.name
    offsets_nonempty := noEmptyInner_erase h.offsets_nonempty d.name
    elr_stored := forallInner_erase h.elr_stored d.name
    elr_nonempty := noEmptyInner_erase h.elr_nonempty d.name
    recovery_stored := forallInner_erase h.recovery_stored d.name
    recovery_nonempty := noEmptyInner_erase h.recovery_nonempty d.name
    topicConfigs_nonempty := noEmptyInner_erase h.topicConfigs_nonempty d.name }

/-- So does a directory assignment. -/
theorem WellFormed.applyPartitionDirAssignment (h : WellFormed img)
    (r : PartitionDirAssignmentRecord) : WellFormed (img.applyPartitionDirAssignment r) := by
  rcases applyPartitionDirAssignment_cases img r with he | ⟨pr, slot, hpr, _, he⟩
  · -- a no-op: the partition or the replica is unknown
    rw [he]
    exact h
  · rw [he]
    exact
      { h with
        partitions_keyed :=
          forallInner_insert2 h.partitions_keyed (h.partitions_keyed r.topic r.partition pr hpr)
        partitions_nonempty := noEmptyInner_insert2 h.partitions_nonempty _ _ _ }

/-- So does a change of a registration. -/
theorem WellFormed.applyRegistrationChange (h : WellFormed img)
    (change : BrokerRegistrationChangeRecord) :
    WellFormed (img.applyRegistrationChange change) := by
  unfold MetadataImage.applyRegistrationChange
  split
  · exact h
  · rename_i broker hb
    split
    · exact
        { h with brokers_keyed := forall_insert h.brokers_keyed (h.brokers_keyed _ broker hb) }
    · exact h

/-- So does a freeze. -/
theorem WellFormed.applyTopicFreeze (h : WellFormed img) (rec : TopicFreezeRecord) :
    WellFormed (img.applyTopicFreeze rec) := by
  unfold MetadataImage.applyTopicFreeze
  split
  · rename_i hp hf
    exact { h with freezesLiteral_stored := forall_insert h.freezesLiteral_stored ⟨rfl, hp, hf⟩ }
  · exact { h with freezesLiteral_stored := forall_erase h.freezesLiteral_stored rec.scope }
  · rename_i hp hf
    exact { h with freezesPrefixed_stored := forall_insert h.freezesPrefixed_stored ⟨rfl, hp, hf⟩ }
  · exact { h with freezesPrefixed_stored := forall_erase h.freezesPrefixed_stored rec.scope }

theorem nextProducerId_nonneg (h : WellFormed img) : 0 ≤ img.nextProducerId := by
  unfold nextProducerId
  cases hp : img.producerIds with
  | none => decide
  | some r => exact Int64.le_of_lt (h.producerIds_positive r hp)

/-- **Step.** Every record keeps the shape. -/
theorem WellFormed.step (h : WellFormed img) (r : MetadataRecord) : WellFormed (img.apply r) := by
  cases r with
  | v1Topic t => exact h.applyTopic t
  | v1Partition p => exact h.applyPartition p
  | v1BrokerRegistration b => exact { h with brokers_keyed := forall_insert h.brokers_keyed rfl }
  | v1BrokerRegistrationChange change => exact h.applyRegistrationChange change
  | v1UnregisterBroker rec =>
      show WellFormed (if _ then _ else _)
      split
      · exact { h with brokers_keyed := forall_erase h.brokers_keyed rec.nodeId }
      · exact h
  | v1ControllerRegistration c =>
      exact { h with controllers_keyed := forall_insert h.controllers_keyed rfl }
  | v1UnregisterController rec =>
      exact { h with controllers_keyed := forall_erase h.controllers_keyed rec.nodeId }
  | v1DeleteTopic d => exact h.applyDeleteTopic d
  | v1TopicConfig c =>
      exact { h with
        topicConfigs_nonempty := noEmptyInner_setOrErase h.topicConfigs_nonempty _ _ }
  | v1ScramCredential r =>
      exact { h with scramCredentials_keyed := forall_insert h.scramCredentials_keyed rfl }
  | v1DeleteScramCredential r =>
      exact { h with scramCredentials_keyed := forall_erase h.scramCredentials_keyed _ }
  | v1AccessControlEntry entry => exact { h with acls := h.acls.insert entry }
  | v1DeleteAccessControlEntry filter => exact { h with acls := h.acls.removeMatching filter }
  -- a broker config may leave an empty inner map, so nothing is claimed of that table
  | v1BrokerConfig rec => exact { h with }
  | v1ClientQuota rec =>
      exact { h with
        clientQuotas_canonical :=
          forall_insert h.clientQuotas_canonical (canonicalizeEntity_canonicalizeEntity _) }
  | v1ProducerIds rec =>
      show WellFormed (if _ then _ else _)
      split
      · rename_i hlt
        refine { h with producerIds_positive := ?_ }
        intro r hr
        injection hr with hr
        rw [← hr]
        -- only a block above the current next id is stored, and that one is at least zero
        exact Int64.lt_of_le_of_lt (nextProducerId_nonneg h) hlt
      · exact h
  | v1DelegationToken rec =>
      exact { h with delegationTokens_keyed := forall_insert h.delegationTokens_keyed rfl }
  | v1DeleteDelegationToken rec =>
      exact { h with delegationTokens_keyed := forall_erase h.delegationTokens_keyed _ }
  | v1KRaftVersion r => exact { h with }
  | v1Voters r => exact { h with }
  | v1FeatureLevel rec =>
      refine { h with featureLevels_stored := ?_ }
      show Forall (if _ then _ else _) _
      split
      · exact forall_erase h.featureLevels_stored rec.name
      · rename_i hl
        exact forall_insert h.featureLevels_stored hl
  | v1ClientMetricsConfig c =>
      exact { h with
        clientMetricsConfigs_nonempty :=
          noEmptyInner_setOrErase h.clientMetricsConfigs_nonempty _ _ }
  | v1GroupConfig c =>
      exact { h with
        groupConfigs_nonempty := noEmptyInner_setOrErase h.groupConfigs_nonempty _ _ }
  | v1FeaturesEpoch rec => exact { h with }
  | v1PartitionDirAssignment r => exact h.applyPartitionDirAssignment r
  | v1PartitionOffsetAdvance r =>
      exact { h with offsets_nonempty := noEmptyInner_insert2 h.offsets_nonempty _ _ _ }
  | v1PartitionElr r => exact h.applyPartitionElr _ _ _ _
  | v1PartitionRecovery r => exact h.applyPartitionRecovery _ _ r.state
  | v1PartitionUpdate r => exact h.applyPartitionUpdate r
  | v1TopicFreeze r => exact h.applyTopicFreeze r
  | v1BreakGlassProposal r =>
      exact { h with breakGlass_keyed := forall_insert h.breakGlass_keyed rfl }
  | v1DeleteBreakGlassProposal id =>
      exact { h with breakGlass_keyed := forall_erase h.breakGlass_keyed id }

/-! ## Runs

The empty image is well formed, and every record keeps it so. -/

/-- **Every run keeps the image well formed.** -/
theorem WellFormed.foldl (h : WellFormed img) (records : List MetadataRecord) :
    WellFormed (records.foldl apply img) := by
  induction records generalizing img with
  | nil => exact h
  | cons r rest ih => exact ih (h.step r)

/-- **Every image is well formed.** -/
theorem wellFormed_of_built {clusterId : Uuid} (h : Built clusterId img) : WellFormed img := by
  obtain ⟨records, rfl⟩ := h
  exact (wellFormed_new clusterId).foldl records

/-- Every image that is reached is well formed. -/
theorem wellFormed_of_admitted (h : Admitted img) : WellFormed img := by
  refine Transition.Reach.invariant ?_ ?_ h
  · rintro img ⟨clusterId, rfl⟩
    exact wellFormed_new clusterId
  · intro img r hi _
    exact hi.step r

end MetadataImage

end Krabka.Metadata
