import Krabka.Metadata.Snapshot

/-!
# `Metadata.EmptyConfigs` — empty inner maps

Seven tables of the image are maps of maps. Five of them drop an inner map with its last key, which
`WellFormed` keeps. The arms of broker configurations and client quotas write one key at a time and leave
the emptied inner map in place; a snapshot has no record for it, so the image that it restores answers
differently. `noEmptyMaps_iff` says for which runs that does not happen.
-/

namespace Krabka.Metadata

open Collections Transition

namespace MetadataImage

variable {img : MetadataImage}

/-- `broker_config`. -/
def brokerConfig (img : MetadataImage) (nodeId : NodeId) : Option (BTreeMap String String) :=
  img.brokerConfigs[nodeId]?

/-- No key of a map of maps holds an empty inner map. -/
structure NoEmptyMaps (img : MetadataImage) : Prop where
  brokerConfigs : NoEmptyInner img.brokerConfigs
  clientQuotas : NoEmptyInner img.clientQuotas
  topicConfigs : NoEmptyInner img.topicConfigs
  clientMetricsConfigs : NoEmptyInner img.clientMetricsConfigs
  groupConfigs : NoEmptyInner img.groupConfigs
  partitionElr : NoEmptyInner img.partitionElr
  partitionRecovery : NoEmptyInner img.partitionRecovery

/-- The image and the one restored from its snapshot give the same broker configurations and quotas. -/
def RestoresConfigs (img : MetadataImage) : Prop :=
  ∀ (ω : MapOrder) (clusterId : Uuid),
    (∀ nodeId, (restored ω img clusterId).brokerConfig nodeId = img.brokerConfig nodeId) ∧
      (restored ω img clusterId).clientQuotas = img.clientQuotas

/-- A removal of a broker configuration or a quota leaves the broker or the entity another key. -/
def RemovalLeavesKey (img : MetadataImage) : MetadataRecord → Prop
  | .v1BrokerConfig rec =>
    rec.configValue = none →
      ∃ name, name ≠ rec.configName ∧ (lookup2 img.brokerConfigs rec.nodeId name).isSome
  | .v1ClientQuota rec =>
    rec.configValue = none →
      ∃ name, name ≠ rec.configKey ∧ (lookup2 img.clientQuotas (entityKey rec.entity) name).isSome
  | _ => True

/-- Five of the seven maps never hold an empty inner map. -/
theorem noEmptyMaps_of_wellFormed (h : WellFormed img) (hbrokers : NoEmptyInner img.brokerConfigs)
    (hquotas : NoEmptyInner img.clientQuotas) : NoEmptyMaps img where
  brokerConfigs := hbrokers
  clientQuotas := hquotas
  topicConfigs := h.topicConfigs_nonempty
  clientMetricsConfigs := h.clientMetricsConfigs_nonempty
  groupConfigs := h.groupConfigs_nonempty
  partitionElr := h.elr_nonempty
  partitionRecovery := h.recovery_nonempty

/-- Without an empty inner map a snapshot forgets nothing of the two tables. -/
theorem restoresConfigs_of_noEmptyMaps (h : WellFormed img) (hempty : NoEmptyMaps img) :
    RestoresConfigs img := by
  intro ω clusterId
  constructor
  · intro nodeId
    unfold brokerConfig
    rw [restored_brokerConfigs ω clusterId, compact_of_noEmptyInner hempty.brokerConfigs]
  · rw [restored_clientQuotas ω h clusterId, compact_of_noEmptyInner hempty.clientQuotas]

/-- **Step.** A record leaves no empty inner map exactly when it does not remove the last key of one. -/
theorem noEmptyMaps_apply_iff (h : WellFormed img) (hempty : NoEmptyMaps img) (r : MetadataRecord) :
    NoEmptyMaps (img.apply r) ↔ img.RemovalLeavesKey r := by
  have hnext : WellFormed (img.apply r) := h.step r
  have hframe : Table.brokerConfigs ∉ r.kind.writes → Table.clientQuotas ∉ r.kind.writes →
      NoEmptyMaps (img.apply r) := by
    intro hb hq
    have hbrokers : (img.apply r).brokerConfigs = img.brokerConfigs := apply_frame img r hb
    have hquotas : (img.apply r).clientQuotas = img.clientQuotas := apply_frame img r hq
    exact noEmptyMaps_of_wellFormed hnext (hbrokers ▸ hempty.brokerConfigs)
      (hquotas ▸ hempty.clientQuotas)
  cases r with
  | v1BrokerConfig rec =>
      have hiff := noEmptyInner_applyDelta2_iff hempty.brokerConfigs rec.nodeId
        (rec.configName, rec.configValue)
      refine Iff.trans ⟨fun hall => hall.brokerConfigs, fun hb => ?_⟩ hiff
      exact noEmptyMaps_of_wellFormed hnext hb hempty.clientQuotas
  | v1ClientQuota rec =>
      have hiff := noEmptyInner_applyDelta2_iff hempty.clientQuotas (entityKey rec.entity)
        (rec.configKey, rec.configValue)
      refine Iff.trans ⟨fun hall => hall.clientQuotas, fun hq => ?_⟩ hiff
      exact noEmptyMaps_of_wellFormed hnext hempty.brokerConfigs hq
  -- the other records do not write the two tables
  | _ => exact iff_of_true (hframe (by simp [MetadataRecord.kind, RecordKind.writes])
      (by simp [MetadataRecord.kind, RecordKind.writes])) trivial

theorem noEmptyMaps_new (clusterId : Uuid) : NoEmptyMaps (new clusterId) :=
  noEmptyMaps_of_wellFormed (wellFormed_new clusterId) noEmptyInner_empty noEmptyInner_empty

/-- **A run keeps every inner map filled, and its snapshots whole, exactly when each removal leaves its
    broker or entity another key.** -/
theorem noEmptyMaps_iff (clusterId : Uuid) (records : List MetadataRecord) :
    (∀ before, before <+: records → NoEmptyMaps (before.foldl apply (new clusterId)) ∧
      RestoresConfigs (before.foldl apply (new clusterId))) ↔
        EachMeets RemovalLeavesKey apply (new clusterId) records := by
  have hrun : (∀ before, before <+: records → NoEmptyMaps (before.foldl apply (new clusterId))) ↔
      EachMeets RemovalLeavesKey apply (new clusterId) records :=
    always_iff_eachMeets (fun (img : MetadataImage) r (h : WellFormed img) => h.step r)
      (fun _ r h hempty => noEmptyMaps_apply_iff h hempty r) records (wellFormed_new clusterId)
      (noEmptyMaps_new clusterId)
  refine Iff.trans (forall_congr' fun before => imp_congr_right fun _ => ?_) hrun
  refine ⟨fun h => h.1, fun h => ⟨h, ?_⟩⟩
  exact restoresConfigs_of_noEmptyMaps ((wellFormed_new clusterId).foldl before) h

/-- A broker configuration is set and removed, and so is a client quota. -/
def setAndRemoved : List MetadataRecord :=
  [ .v1BrokerConfig ⟨1, "log.retention.ms", some "60000"⟩,
    .v1BrokerConfig ⟨1, "log.retention.ms", none⟩,
    .v1ClientQuota ⟨[⟨"user", some "alice"⟩], "producer_byte_rate", some .zero⟩,
    .v1ClientQuota ⟨[⟨"user", some "alice"⟩], "producer_byte_rate", none⟩ ]

/-- **Both leave an empty inner map**, and neither is there once the snapshot is restored. -/
theorem setAndRemoved_leaves_empty :
    let img := setAndRemoved.foldl apply (new 0)
    let img' := restored (HashOrder.sorted MapSite) img 0
    ¬NoEmptyMaps img ∧ img.brokerConfig 1 = some ∅ ∧ img'.brokerConfig 1 = none ∧
      img.clientQuotas[[("user", some "alice")]]? = some ∅ ∧
      img'.clientQuotas[[("user", some "alice")]]? = none := by
  intro img img'
  have hbroker : img.brokerConfig 1 = some ∅ := by decide +kernel
  refine ⟨fun h => ?_, hbroker, by decide +kernel, by decide +kernel, by decide +kernel⟩
  exact absurd (h.brokerConfigs 1 ∅ hbroker) (by decide)

end MetadataImage

end Krabka.Metadata
