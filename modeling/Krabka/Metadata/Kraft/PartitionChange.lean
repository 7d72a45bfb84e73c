import Krabka.Metadata.Kraft.Replay
import Krabka.Metadata.Integrity

/-!
# `Metadata.Kraft.PartitionChange` — the meaning of a partition delta

KIP-631 changes a partition by a record whose absent fields keep their value. The decoder completes it
from the image into a partition record, or into a partition update when it touches the eligible-leader
or the recovery state. Both act as an update (`apply_changeRecord`), so `ChangeRead` is all that a reader
needs to know about a change: which update it stands for, given the current partition.

The eligible-leader lists are the exception to "absent fields keep their value". An update writes them as
a pair, so a change that carries one list alone leaves the stored one. `fieldWise_partitionChange_iff`
says exactly when that shows.
-/

namespace Krabka.Metadata.Kraft

open Collections FixedWidth Results MetadataImage

/-! ## Reading a change

One structure says which values the fields of the change become, and which record they make. -/

/-- The partition that a change makes of `current`, field by field. -/
structure ChangedTo (c : KPartitionChangeRecord) (current p : PartitionRecord) : Prop where
  topic : p.topic = current.topic
  index : p.partition = current.partition
  replicas : nodesOr current.replicas c.replicas "partition change replica" = .ok p.replicas
  isr : nodesOr current.isr c.isr "partition change ISR member" = .ok p.isr
  removing : nodesOr current.removingReplicas c.removingReplicas
    "partition change removing replica" = .ok p.removingReplicas
  adding : nodesOr current.addingReplicas c.addingReplicas
    "partition change adding replica" = .ok p.addingReplicas
  leader : changedLeader current c.leader = .ok (p.leader, p.leaderEpoch)
  directories : changedDirectories current c p.replicas = .ok p.directories
  partitionEpoch : nextEpoch "partition change partition epoch" "partition epoch overflow"
    current.partitionEpoch = .ok p.partitionEpoch

/-- What a change makes of a partition. -/
theorem changedPartition_eq_ok {c : KPartitionChangeRecord} {current p : PartitionRecord} :
    changedPartition c current = .ok p ↔ ChangedTo c current p := by
  constructor
  · intro h
    obtain ⟨replicas, hreplicas, h⟩ := bind_eq_ok.mp h
    obtain ⟨isr, hisr, h⟩ := bind_eq_ok.mp h
    obtain ⟨removing, hremoving, h⟩ := bind_eq_ok.mp h
    obtain ⟨adding, hadding, h⟩ := bind_eq_ok.mp h
    obtain ⟨⟨leader, leaderEpoch⟩, hleader, h⟩ := bind_eq_ok.mp h
    obtain ⟨directories, hdirectories, h⟩ := bind_eq_ok.mp h
    obtain ⟨partitionEpoch, hepoch, h⟩ := bind_eq_ok.mp h
    rw [pure_eq_ok] at h
    subst h
    exact ⟨rfl, rfl, hreplicas, hisr, hremoving, hadding, hleader, hdirectories, hepoch⟩
  · intro h
    unfold changedPartition
    simp only [h.replicas, h.isr, h.removing, h.adding, h.leader, h.directories, h.partitionEpoch,
      ok_bind, ← h.topic, ← h.index]
    rfl

/-- The update that a change stands for, given the current partition. -/
structure ChangeRead (c : KPartitionChangeRecord) (current : PartitionRecord)
    (u : PartitionUpdateRecord) : Prop where
  partition : ChangedTo c current u.partition
  eligible : c.eligibleLeaderReplicas.mapM (nodesFromWire · "eligible leader replica") =
    .ok u.eligibleLeaderReplicas
  lastKnown : c.lastKnownElr.mapM (nodesFromWire · "last known eligible leader replica") =
    .ok u.lastKnownElr
  recovery : changedRecoveryState c.leaderRecoveryState = .ok u.recoveryState

/-- The change touches the eligible-leader or the recovery state. -/
def TouchesState (c : KPartitionChangeRecord) : Prop :=
  c.leaderRecoveryState ≠ -1 ∨ c.eligibleLeaderReplicas.isSome ∨ c.lastKnownElr.isSome

instance (c : KPartitionChangeRecord) : Decidable (TouchesState c) :=
  inferInstanceAs (Decidable (_ ∨ _))

/-- The record that the decoder makes of an update. -/
def changeRecord (c : KPartitionChangeRecord) (u : PartitionUpdateRecord) : MetadataRecord :=
  if TouchesState c then .v1PartitionUpdate u else .v1Partition u.partition

/-- What a change is read as, and where. -/
theorem fromKraft_partitionChange {codec : Codec} {ω : MapOrder} {img : MetadataImage}
    {c : KPartitionChangeRecord} {r : MetadataRecord} :
    fromKraft codec ω (.partitionChange c) img = .ok r ↔
      ∃ topic current u, img.topicNameForId ω c.topicId = some topic ∧
        img.partition topic c.partitionId = some current ∧ ChangeRead c current u ∧
        r = changeRecord c u := by
  constructor
  · intro h
    obtain ⟨topic, htopic, h⟩ := bind_eq_ok.mp h
    obtain ⟨state, hstate, h⟩ := bind_eq_ok.mp h
    obtain ⟨current, hcurrent, h⟩ := bind_eq_ok.mp h
    obtain ⟨p, hp, h⟩ := bind_eq_ok.mp h
    have htopic := okOr_eq_ok.mp htopic
    have hcurrent := okOr_eq_ok.mp hcurrent
    have hp := changedPartition_eq_ok.mp hp
    by_cases ht : TouchesState c
    · have h : _ = Except.ok r := (if_pos ht).symm.trans h
      obtain ⟨eligible, heligible, h⟩ := bind_eq_ok.mp h
      obtain ⟨lastKnown, hlastKnown, h⟩ := bind_eq_ok.mp h
      rw [pure_eq_ok] at h
      refine ⟨topic, current, ⟨p, eligible, lastKnown, state⟩, htopic, hcurrent,
        ⟨hp, heligible, hlastKnown, hstate⟩, ?_⟩
      rw [← h]
      exact (if_pos ht).symm
    · -- a plain partition record: the update has nothing beside it
      have h : _ = Except.ok r := (if_neg ht).symm.trans h
      rw [pure_eq_ok] at h
      simp only [TouchesState, not_or, not_not, Bool.not_eq_true, Option.isSome_eq_false_iff,
        Option.isNone_iff_eq_none] at ht
      refine ⟨topic, current, ⟨p, none, none, none⟩, htopic, hcurrent, ⟨hp, ?_, ?_, ?_⟩, ?_⟩
      · rw [ht.2.1]; rfl
      · rw [ht.2.2]; rfl
      · rw [ht.1]; rfl
      · rw [← h]
        exact (if_neg (by simp [TouchesState, ht])).symm
  · rintro ⟨topic, current, u, htopic, hcurrent, hread, rfl⟩
    simp only [fromKraft, partitionChangeFromKraft, topicOfId, htopic, hcurrent, okOr_some, ok_bind,
      hread.recovery, changedPartition_eq_ok.mpr hread.partition, hread.eligible, hread.lastKnown]
    unfold changeRecord
    by_cases ht : TouchesState c
    · rw [if_pos ht]
      exact if_pos ht
    · rw [if_neg ht]
      exact if_neg ht

/-- Either way, the record acts as the update. -/
theorem apply_changeRecord {c : KPartitionChangeRecord} {current : PartitionRecord}
    {u : PartitionUpdateRecord} (h : ChangeRead c current u) (img : MetadataImage) :
    img.apply (changeRecord c u) = img.applyPartitionUpdate u := by
  unfold changeRecord
  split
  · rfl
  · rename_i ht
    simp only [TouchesState, not_or, not_not, Bool.not_eq_true, Option.isSome_eq_false_iff,
      Option.isNone_iff_eq_none] at ht
    -- the two absent fields make the update a plain partition write
    obtain ⟨hstate, heligible, hlastKnown⟩ := ht
    have heligible' := h.eligible
    have hrecovery' := h.recovery
    rw [heligible] at heligible'
    rw [hstate] at hrecovery'
    have heligible' : u.eligibleLeaderReplicas = none := (pure_eq_ok.mp heligible').symm
    have hrecovery' : u.recoveryState = none := (Except.ok.inj hrecovery').symm
    unfold applyPartitionUpdate
    rw [heligible', hrecovery']
    rfl

/-- A change to a partition of the image decodes, if its fields can be read. -/
theorem decodes_partitionChange {codec : Codec} {img : MetadataImage} {c : KPartitionChangeRecord}
    {topic : String} {current : PartitionRecord} {u : PartitionUpdateRecord}
    (htopic : ∀ ω, img.topicNameForId ω c.topicId = some topic)
    (hcurrent : img.partition topic c.partitionId = some current) (h : ChangeRead c current u) :
    Decodes codec (.partitionChange c) img (changeRecord c u) :=
  fun ω => fromKraft_partitionChange.mpr ⟨topic, current, u, htopic ω, hcurrent, h, rfl⟩

/-! ## What the fields of a change say

An absent field keeps the old value; a field that is there is converted, and replaces it. -/

/-- The nodes of a list are those that the wire names. -/
def NodesAre (nodes : List NodeId) (wire : List Int32) : Prop :=
  nodes.map (fun n => (n.toNat : ℤ)) = wire.map Int32.toInt

instance (nodes : List NodeId) (wire : List Int32) : Decidable (NodesAre nodes wire) :=
  inferInstanceAs (Decidable (_ = _))

/-- The leader is the node that the wire names; -1 names no leader, which the image stores as node 0. -/
def LeaderIs (leader : NodeId) (wire : Int32) : Prop :=
  (leader.toNat : ℤ) = if wire = -1 then 0 else wire.toInt

/-- An optional field of a change: present, `new` is its value; absent, `new` is the old value. -/
def FieldIs {α β : Type} (is : α → β → Prop) (wire : Option β) (old new : α) : Prop :=
  match wire with
  | some w => is new w
  | none => new = old

/-- Numbers that are read as node ids. -/
theorem nodesFromWire_eq_ok {values : List Int32} {field : String} {nodes : List NodeId} :
    nodesFromWire values field = .ok nodes ↔ NodesAre nodes values := by
  unfold nodesFromWire NodesAre
  rw [mapM_eq_ok]
  simp only [nodeIdFromWire_eq_ok]
  rw [eq_comm, ← List.forall₂_eq_eq_eq, List.forall₂_map_left_iff, List.forall₂_map_right_iff]

/-- A list that a change leaves out is as before. -/
theorem nodesOr_eq_ok {old new : List NodeId} {wire : Option (List Int32)} {field : String} :
    nodesOr old wire field = .ok new ↔ FieldIs NodesAre wire old new := by
  cases wire with
  | none =>
      simp only [nodesOr, FieldIs, Except.ok.injEq]
      exact eq_comm
  | some values => exact nodesFromWire_eq_ok

/-- A list that may be absent. -/
theorem mapM_nodesFromWire_eq_ok {wire : Option (List Int32)} {field : String}
    {nodes : Option (List NodeId)} :
    wire.mapM (nodesFromWire · field) = .ok nodes ↔
      Option.Rel (fun values nodes => NodesAre nodes values) wire nodes := by
  rw [optionMapM_eq_ok]
  simp only [nodesFromWire_eq_ok]

/-- The next epoch is one more. -/
theorem nextEpoch_eq_ok {field detail : String} {epoch next : Int32} :
    nextEpoch field detail epoch = .ok next ↔ next.toInt = epoch.toInt + 1 :=
  okOr_eq_ok.trans checkedAddI32_eq_some

/-- A leader, or none. -/
theorem partitionLeaderFromWire_eq_ok {wire : Int32} {field : String} {leader : NodeId} :
    partitionLeaderFromWire wire field = .ok leader ↔ LeaderIs leader wire := by
  unfold partitionLeaderFromWire LeaderIs
  split
  · rw [Except.ok.injEq, ← UInt64.toNat_inj]
    show 0 = leader.toNat ↔ _
    omega
  · rw [nodeIdFromWire_eq_ok]
    exact eq_comm

/-- A change that names a leader begins an epoch; -2 names none. -/
theorem changedLeader_eq_ok {current : PartitionRecord} {wire : Int32} {leader : NodeId}
    {epoch : LeaderEpoch} :
    changedLeader current wire = .ok (leader, epoch) ↔
      if wire = -2 then leader = current.leader ∧ epoch = current.leaderEpoch
      else LeaderIs leader wire ∧ epoch.toInt = current.leaderEpoch.toInt + 1 := by
  unfold changedLeader
  by_cases hw : wire = -2
  · rw [if_neg (not_not.mpr hw), if_pos hw, Except.ok.injEq, Prod.mk.injEq]
    exact and_congr eq_comm eq_comm
  · rw [if_pos hw, if_neg hw, bind_eq_ok]
    constructor
    · rintro ⟨node, hnode, h⟩
      obtain ⟨epoch', hepoch, h⟩ := bind_eq_ok.mp h
      rw [pure_eq_ok, Prod.mk.injEq] at h
      rw [← h.1, ← h.2]
      exact ⟨partitionLeaderFromWire_eq_ok.mp hnode, nextEpoch_eq_ok.mp hepoch⟩
    · rintro ⟨hnode, hepoch⟩
      refine ⟨leader, partitionLeaderFromWire_eq_ok.mpr hnode, bind_eq_ok.mpr ⟨epoch, ?_, rfl⟩⟩
      exact nextEpoch_eq_ok.mpr hepoch

/-- The directories of a change, or those of the replicas that stay. -/
theorem changedDirectories_eq_ok {current : PartitionRecord} {c : KPartitionChangeRecord}
    {replicas : List NodeId} {directories : List Uuid} :
    changedDirectories current c replicas = .ok directories ↔
      FieldIs (fun new wire => new = wire ∧ wire.length = replicas.length) c.directories
        current.directories directories := by
  unfold changedDirectories FieldIs
  cases c.directories with
  | none => simpa using eq_comm
  | some wire =>
      by_cases hlen : wire.length = replicas.length
      · simpa [hlen] using eq_comm
      · simp [hlen]

/-! ## Field by field

A change acts as its fields say, except for a lone list of eligible leaders. -/

/-- The partition record takes every field that the change carries and keeps the others; the epochs move
    by one. -/
structure RecordFieldWise (c : KPartitionChangeRecord) (current p : PartitionRecord) : Prop where
  replicas : FieldIs NodesAre c.replicas current.replicas p.replicas
  isr : FieldIs NodesAre c.isr current.isr p.isr
  removing : FieldIs NodesAre c.removingReplicas current.removingReplicas p.removingReplicas
  adding : FieldIs NodesAre c.addingReplicas current.addingReplicas p.addingReplicas
  directories : FieldIs Eq c.directories current.directories p.directories
  leader : FieldIs LeaderIs (if c.leader = -2 then none else some c.leader) current.leader p.leader
  leaderEpoch : p.leaderEpoch.toInt = current.leaderEpoch.toInt + if c.leader = -2 then 0 else 1
  partitionEpoch : p.partitionEpoch.toInt = current.partitionEpoch.toInt + 1

/-- **A change acts on each field by itself.** -/
theorem ChangedTo.fieldWise {c : KPartitionChangeRecord} {current p : PartitionRecord}
    (h : ChangedTo c current p) : RecordFieldWise c current p := by
  have hleader := changedLeader_eq_ok.mp h.leader
  have hdirectories := changedDirectories_eq_ok.mp h.directories
  refine ⟨nodesOr_eq_ok.mp h.replicas, nodesOr_eq_ok.mp h.isr, nodesOr_eq_ok.mp h.removing,
    nodesOr_eq_ok.mp h.adding, ?_, ?_, ?_, nextEpoch_eq_ok.mp h.partitionEpoch⟩
  · unfold FieldIs at hdirectories ⊢
    cases hwire : c.directories with
    | none => rw [hwire] at hdirectories; exact hdirectories
    | some wire => rw [hwire] at hdirectories; exact hdirectories.1
  · split at hleader
    · rename_i hl; rw [if_pos hl]; exact hleader.1
    · rename_i hl; rw [if_neg hl]; exact hleader.1
  · split at hleader
    · rename_i hl; rw [if_pos hl, hleader.2, add_zero]
    · rename_i hl; rw [if_neg hl]; exact hleader.2

/-- The image `img'` is `img` with the change made to its partition of `topic`, field by field: what the
    change carries is set, what it does not carry is kept, and nothing else moves but the replication
    factor that the topic caches. -/
structure FieldWise (c : KPartitionChangeRecord) (topic : String) (img img' : MetadataImage) :
    Prop where
  record : ∃ current p, img.partition topic c.partitionId = some current ∧
    img'.partition topic c.partitionId = some p ∧ RecordFieldWise c current p
  eligible : FieldIs NodesAre c.eligibleLeaderReplicas (img.elrOf topic c.partitionId).1
    (img'.elrOf topic c.partitionId).1
  lastKnown : FieldIs NodesAre c.lastKnownElr (img.elrOf topic c.partitionId).2
    (img'.elrOf topic c.partitionId).2
  recovery : FieldIs (fun state wire => state.asI8 = wire)
    (if c.leaderRecoveryState = -1 then none else some c.leaderRecoveryState)
    (img.leaderRecoveryState topic c.partitionId) (img'.leaderRecoveryState topic c.partitionId)
  otherPartitions : ∀ name i, ¬(topic = name ∧ c.partitionId = i) →
    img'.partition name i = img.partition name i ∧ img'.elrOf name i = img.elrOf name i ∧
      img'.leaderRecoveryState name i = img.leaderRecoveryState name i
  otherTopics : ∀ name : String, topic ≠ name → img'.topics[name]? = img.topics[name]?
  ownTopic : ∃ t factor, img.topics[topic]? = some t ∧
    img'.topics[topic]? = some { t with replicationFactor := factor }
  otherTables : ∀ t : Table, t ∉ [.topics, .partitions, .partitionElr, .partitionRecovery] →
    t.get img' = t.get img

/-- A list that the change carries without the other is the one already stored. -/
def LoneElrStored (c : KPartitionChangeRecord) (stored : PartitionElrState) : Prop :=
  match c.eligibleLeaderReplicas, c.lastKnownElr with
  | some eligible, none => NodesAre stored.1 eligible
  | none, some lastKnown => NodesAre stored.2 lastKnown
  | _, _ => True

/-- The eligible-leader lists take effect as a pair, so a lone one is in force only if it was before. -/
theorem elr_fieldWise_iff {c : KPartitionChangeRecord} {current : PartitionRecord}
    {u : PartitionUpdateRecord} (h : ChangeRead c current u) (stored : PartitionElrState) :
    FieldIs NodesAre c.eligibleLeaderReplicas stored.1 (elrAfter u stored).1 ∧
      FieldIs NodesAre c.lastKnownElr stored.2 (elrAfter u stored).2 ↔ LoneElrStored c stored := by
  have heligible := mapM_nodesFromWire_eq_ok.mp h.eligible
  have hlastKnown := mapM_nodesFromWire_eq_ok.mp h.lastKnown
  unfold LoneElrStored elrAfter
  -- four cases: which of the two lists the change carries
  generalize c.eligibleLeaderReplicas = we at heligible ⊢
  generalize c.lastKnownElr = wl at hlastKnown ⊢
  generalize u.eligibleLeaderReplicas = e at heligible ⊢
  generalize u.lastKnownElr = l at hlastKnown ⊢
  cases heligible with
  | none =>
      cases hlastKnown with
      | none => simp [FieldIs]
      | some hl => simp [FieldIs]
  | some he =>
      cases hlastKnown with
      | none => simp [FieldIs]
      | some hl => simpa [FieldIs] using ⟨he, hl⟩

/-- A recovery state. -/
theorem recoveryStateFromWire_eq_ok {field : String} {wire : Int8} {state : LeaderRecoveryState} :
    recoveryStateFromWire field wire = .ok state ↔ state.asI8 = wire := by
  constructor
  · intro h
    unfold recoveryStateFromWire at h
    split at h
    · rename_i hwire; rw [← Except.ok.inj h, hwire]; rfl
    · split at h
      · rename_i hwire; rw [← Except.ok.inj h, hwire]; rfl
      · cases h
  · rintro rfl
    exact recoveryStateFromWire_asI8 field state

/-- A recovery state that is left alone is as before. -/
theorem recovery_fieldWise {wire : Int8} {state : Option LeaderRecoveryState}
    (h : changedRecoveryState wire = .ok state) (old : LeaderRecoveryState) :
    FieldIs (fun state wire => state.asI8 = wire) (if wire = -1 then none else some wire) old
      (state.getD old) := by
  unfold changedRecoveryState at h
  by_cases hwire : wire = -1
  · rw [if_neg (not_not.mpr hwire)] at h
    rw [if_pos hwire, ← Except.ok.inj h]
    rfl
  · rw [if_pos hwire, map_eq_pure_bind] at h
    obtain ⟨s, hs, h⟩ := bind_eq_ok.mp h
    rw [if_neg hwire, ← pure_eq_ok.mp h]
    exact recoveryStateFromWire_eq_ok.mp hs

/-- **Partition changes are field-wise, but for a lone eligible-leader list.** A decoded change does to
    the image what its fields say exactly when it carries both lists, or neither, or a list that is
    already stored. -/
theorem fieldWise_partitionChange_iff {codec : Codec} {ω : MapOrder} {clusterId : Uuid}
    {img : MetadataImage} (hb : Built clusterId img) (hd : DistinctTopicIds img)
    {c : KPartitionChangeRecord} {r : MetadataRecord}
    (h : fromKraft codec ω (.partitionChange c) img = .ok r) {topic : String} {t : TopicRecord}
    (ht : img.topics[topic]? = some t) (hid : t.topicId = c.topicId) :
    FieldWise c topic img (img.apply r) ↔ LoneElrStored c (img.elrOf topic c.partitionId) := by
  have hw := wellFormed_of_built hb
  obtain ⟨topic', current, u, htopic, hcurrent, hread, rfl⟩ := fromKraft_partitionChange.mp h
  -- the scan finds the topic of the id, and the partition is stored under its own name
  have hname : topic' = topic := by
    have hscan := topicNameForId_of_get hw.topics_keyed hd ω ht
    rw [hid, htopic] at hscan
    exact Option.some.inj hscan
  subst hname
  obtain ⟨hkey, hidx⟩ := hw.partitions_keyed _ _ _ hcurrent
  have hutopic : u.partition.topic = topic' := hread.partition.topic.trans hkey
  have huidx : u.partition.partition = c.partitionId := hread.partition.index.trans hidx
  rw [apply_changeRecord hread]
  have hself : u.partition.topic = topic' ∧ u.partition.partition = c.partitionId := ⟨hutopic, huidx⟩
  rw [← elr_fieldWise_iff hread]
  have helr := elrOf_applyPartitionUpdate img u topic' c.partitionId
  rw [if_pos hself] at helr
  rw [← helr]
  -- every other part of the claim holds whatever the lists are
  refine ⟨fun hf => ⟨hf.eligible, hf.lastKnown⟩, fun hlists => ?_⟩
  obtain ⟨htopics, -⟩ := applyPartitionUpdate_tables img u
  refine ⟨⟨current, u.partition, hcurrent, ?_, hread.partition.fieldWise⟩, hlists.1, hlists.2, ?_, ?_,
    ?_, ?_, ?_⟩
  · rw [partition_applyPartitionUpdate, if_pos hself]
  · rw [leaderRecoveryState_applyPartitionUpdate, if_pos hself]
    exact recovery_fieldWise hread.recovery _
  · intro name i hne
    have hne : ¬(u.partition.topic = name ∧ u.partition.partition = i) := by
      rwa [hutopic, huidx]
    rw [partition_applyPartitionUpdate, elrOf_applyPartitionUpdate,
      leaderRecoveryState_applyPartitionUpdate, if_neg hne, if_neg hne, if_neg hne]
    exact ⟨rfl, rfl, rfl⟩
  · intro name hne
    rw [htopics, topics_applyPartition, if_neg (hutopic ▸ hne)]
  · -- the partition is not new, so the topic keeps its count
    refine ⟨t, (i16OfLen u.partition.replicas.length).getD t.replicationFactor, ht, ?_⟩
    rw [htopics, topics_applyPartition, if_pos hutopic, ht, hutopic, huidx, hcurrent]
    rfl
  · intro table htable
    exact apply_partitionUpdate_frame img u htable

/-- A topic with one partition on two replicas, one of them out of sync. -/
def shrunkRun : List MetadataRecord :=
  [ .v1Topic ⟨"orders", 1, 0, 2⟩,
    .v1Partition ⟨"orders", 0, 1, [1, 2], [1], 4, [], [], [], 7⟩ ]

/-- The image of that run. -/
def shrunk : MetadataImage := shrunkRun.foldl apply (new 0)

theorem shrunk_admitted : Admitted shrunk := admitted_foldl (admitted_new 0) (by decide)

theorem shrunk_distinct : shrunk.DistinctTopicIds := distinctTopicIds_of_nodup (by decide)

/-- A change that sets both lists is field-wise. -/
theorem fieldWise_both_lists :
    FieldWise { partitionId := 0, topicId := 1, eligibleLeaderReplicas := some [2], lastKnownElr := some [] }
      "orders" shrunk (shrunk.apply (.v1PartitionUpdate
        ⟨⟨"orders", 0, 1, [1, 2], [1], 4, [], [], [], 8⟩, some [2], some [], none⟩)) :=
  (fieldWise_partitionChange_iff ⟨shrunkRun, rfl⟩ shrunk_distinct
    (show fromKraft (Codec.ofTable []) (HashOrder.sorted MapSite) _ _ = .ok _ from rfl)
    (show _ = some ⟨"orders", 1, 1, 2⟩ by decide) rfl).mpr trivial

/-- A change that sets the eligible leader replicas alone is not: they stay empty. -/
theorem fieldWise_fails_lone_list :
    Built 0 shrunk ∧ DistinctTopicIds shrunk ∧
      ∃ r, fromKraft (Codec.ofTable []) (HashOrder.sorted MapSite)
          (.partitionChange { partitionId := 0, topicId := 1, eligibleLeaderReplicas := some [2] })
          shrunk = .ok r ∧
        ¬FieldWise { partitionId := 0, topicId := 1, eligibleLeaderReplicas := some [2] } "orders" shrunk
          (shrunk.apply r) := by
  refine ⟨⟨shrunkRun, rfl⟩, shrunk_distinct, _, rfl, fun hf => ?_⟩
  have heligible : NodesAre _ [2] := hf.eligible
  exact absurd heligible (by decide)

end Krabka.Metadata.Kraft
