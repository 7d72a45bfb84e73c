import Krabka.Metadata.WellFormed

/-!
# `Metadata.Integrity` — the topic tables refer to each other

Six tables of the image describe topics: `topics`, its reverse index `topicIds`, `partitions`,
`partitionElr`, `partitionRecovery` and `topicConfigs`. Eight kinds of records write them
(`writesTopicTables`); every other record leaves all six alone (`apply_sameTables`).

`Integrity` is the invariant of `Admitted` runs that the tables refer only to live topics and existing
partitions and that the cached partition count is the real one. `TopicIdsInverse` says that the reverse
index is exact. The second is not an invariant of every admitted run: `validate` lets a new topic take
an id that is live under another name. It is one of the runs that never do so.
-/

namespace Krabka.Metadata

open Collections FixedWidth

namespace MetadataImage

variable {img img' : MetadataImage}

/-! ## The tables that one record writes

What admission has checked of a record that writes them. -/

/-- The kinds of records that write the topic tables. -/
def RecordKind.writesTopicTables : RecordKind → Bool
  | .topic | .partition | .partitionUpdate | .deleteTopic | .topicConfig | .partitionDirAssignment
  | .partitionElr | .partitionRecovery => true
  | _ => false

/-- The six topic tables agree. -/
structure SameTables (img img' : MetadataImage) : Prop where
  topics : img'.topics = img.topics
  topicIds : img'.topicIds = img.topicIds
  partitions : img'.partitions = img.partitions
  partitionElr : img'.partitionElr = img.partitionElr
  partitionRecovery : img'.partitionRecovery = img.partitionRecovery
  topicConfigs : img'.topicConfigs = img.topicConfigs

/-- A record outside the eight kinds leaves the topic tables alone. -/
theorem apply_sameTables (img : MetadataImage) {r : MetadataRecord}
    (h : RecordKind.writesTopicTables r.kind = false) : SameTables img (img.apply r) := by
  have hframe : ∀ t ∈ [Table.topics, .topicIds, .partitions, .partitionElr, .partitionRecovery,
      .topicConfigs], t ∉ r.kind.writes := by
    cases hk : r.kind <;> rw [hk] at h <;> first | decide | cases h
  exact
    { topics := apply_frame img r (hframe .topics (by decide))
      topicIds := apply_frame img r (hframe .topicIds (by decide))
      partitions := apply_frame img r (hframe .partitions (by decide))
      partitionElr := apply_frame img r (hframe .partitionElr (by decide))
      partitionRecovery := apply_frame img r (hframe .partitionRecovery (by decide))
      topicConfigs := apply_frame img r (hframe .topicConfigs (by decide)) }

/-- A topic that is asked for is there. -/
theorem get_of_requireTopic {topic : String} (h : img.requireTopic topic = .ok ()) :
    ∃ t, img.topics[topic]? = some t := by
  unfold requireTopic at h
  split at h
  · rename_i hc
    rw [Std.ExtTreeMap.contains_eq_isSome_getElem?] at hc
    exact Option.isSome_iff_exists.mp hc
  · cases h

/-- A partition that is asked for is there. -/
theorem get_of_requirePartition {topic : String} {idx : Int32}
    (h : img.requirePartition topic idx = .ok ()) : ∃ p, img.partition topic idx = some p := by
  unfold requirePartition at h
  split at h
  · rename_i hs
    exact Option.isSome_iff_exists.mp hs
  · cases h

/-- An admitted `V1Topic` for a live name keeps the id and the replication factor. -/
theorem same_of_validateTopic {t existing : TopicRecord} (h : img.validateTopic t = .ok ())
    (he : img.topics[t.name]? = some existing) :
    existing.topicId = t.topicId ∧ existing.replicationFactor = t.replicationFactor := by
  unfold validateTopic at h
  rw [he] at h
  simp only [] at h
  split at h
  · cases h
  · rename_i hc
    push Not at hc
    exact ⟨hc.1, hc.2.1⟩

/-! ## Referential integrity

One lemma for each kind of record that touches the tables. -/

/-- The topic tables refer only to what exists, and the cached partition counts are the real ones. -/
structure Integrity (img : MetadataImage) : Prop where
  partitions_live : ∀ topic, topic ∈ img.partitions → topic ∈ img.topics
  topicConfigs_live : ∀ topic, topic ∈ img.topicConfigs → topic ∈ img.topics
  elr_exists : ∀ topic idx state, lookup2 img.partitionElr topic idx = some state →
    ∃ p, img.partition topic idx = some p
  recovery_exists : ∀ topic idx state, lookup2 img.partitionRecovery topic idx = some state →
    ∃ p, img.partition topic idx = some p
  counted : ∀ name t, img.topics[name]? = some t → t.partitions = img.topicPartitionCount name

/-- The count is the number of partitions, up to the largest one. -/
theorem toInt_topicPartitionCount (img : MetadataImage) (topic : String) :
    (img.topicPartitionCount topic).toInt =
      min (((img.partitions[topic]?.getD ∅).size : Nat) : Int) 2147483647 := by
  unfold topicPartitionCount
  cases img.partitions[topic]? with
  | none => decide
  | some parts => exact toInt_i32OfLen_getD parts.size

theorem topicPartitionCount_congr {topic : String}
    (h : (img'.partitions[topic]?.getD ∅).size = (img.partitions[topic]?.getD ∅).size) :
    img'.topicPartitionCount topic = img.topicPartitionCount topic := by
  apply Int32.toInt_inj.mp
  rw [toInt_topicPartitionCount, toInt_topicPartitionCount, h]

/-- Integrity is about these tables only. -/
theorem Integrity.congr (h : Integrity img) (hs : SameTables img img') : Integrity img' := by
  obtain ⟨ht, _, hp, he, hr, hc⟩ := hs
  have hpart : ∀ topic idx, img'.partition topic idx = img.partition topic idx := by
    intro topic idx
    unfold partition
    rw [hp]
  refine ⟨?_, ?_, ?_, ?_, ?_⟩
  · rw [hp, ht]; exact h.partitions_live
  · rw [hc, ht]; exact h.topicConfigs_live
  · simpa only [he, hpart] using h.elr_exists
  · simpa only [hr, hpart] using h.recovery_exists
  · intro name t htn
    have hcount : img'.topicPartitionCount name = img.topicPartitionCount name :=
      topicPartitionCount_congr (by rw [hp])
    rw [ht] at htn
    rw [hcount]
    exact h.counted name t htn

/-- An empty image has nothing to refer to. -/
theorem integrity_new (clusterId : Uuid) : Integrity (new clusterId) where
  partitions_live := fun _ h => absurd h (by simp [new])
  topicConfigs_live := fun _ h => absurd h (by simp [new])
  elr_exists := fun _ _ _ h => by simp [new] at h
  recovery_exists := fun _ _ _ h => by simp [new] at h
  counted := fun _ _ h => by simp [new] at h

/-- A topic that is applied breaks no reference. -/
theorem Integrity.applyTopic (h : Integrity img) (t : TopicRecord) :
    Integrity (img.applyTopic t) where
  partitions_live := fun topic ht => mem_insert_iff.mpr (Or.inr (h.partitions_live topic ht))
  topicConfigs_live := fun topic ht => mem_insert_iff.mpr (Or.inr (h.topicConfigs_live topic ht))
  elr_exists := h.elr_exists
  recovery_exists := h.recovery_exists
  counted := by
    intro name t' ht'
    show t'.partitions = img.topicPartitionCount name
    rw [topics_applyTopic] at ht'
    split at ht'
    · rename_i hn
      injection ht' with ht'
      subst ht' hn
      cases hprev : img.topics[t.name]? with
      | some prev => exact h.counted t.name prev hprev
      | none =>
          -- a name that is not live has no partitions, so a new topic's count is zero
          have hnone : img.partitions[t.name]? = none := by
            cases hp : img.partitions[t.name]? with
            | none => rfl
            | some parts =>
                have hmem := h.partitions_live t.name (mem_iff_get.mpr ⟨parts, hp⟩)
                obtain ⟨t'', ht''⟩ := mem_iff_get.mp hmem
                rw [hprev] at ht''
                cases ht''
          unfold topicPartitionCount
          rw [hnone]
          rfl
    · exact h.counted name t' ht'

/-- The count of a topic grows by one, up to `i32::MAX`, when one of its partitions is new. -/
theorem counted_applyPartition {p : PartitionRecord} {t : TopicRecord}
    (ht : t.partitions = img.topicPartitionCount p.topic) :
    (countPartition (img.partition p.topic p.partition).isNone p.replicas.length t).partitions =
      (img.applyPartition p).topicPartitionCount p.topic := by
  -- both counts saturate at `i32::MAX`, so the comparison is between integers
  have hsize : ((img.applyPartition p).partitions[p.topic]?.getD ∅).size = _ :=
    size_insert2 img.partitions p.topic p.topic p.partition p
  have hold := toInt_topicPartitionCount img p.topic
  apply Int32.toInt_inj.mp
  rw [toInt_topicPartitionCount, hsize]
  unfold countPartition MetadataImage.partition
  cases hl : lookup2 img.partitions p.topic p.partition with
  | none =>
      simp only [Option.isNone_none, if_true, toInt_saturatingAddI32_one, ht, hold, and_self]
      omega
  | some q =>
      simp only [Option.isNone_some, Bool.false_eq_true, if_false, ht, hold, reduceCtorEq, and_false,
        Nat.add_zero]

/-- Neither does a partition of a live topic. -/
theorem Integrity.applyPartition (h : Integrity img) {p : PartitionRecord}
    (hlive : ∃ t, img.topics[p.topic]? = some t) : Integrity (img.applyPartition p) where
  partitions_live := by
    intro topic ht
    rw [mem_iff_get]
    rw [topics_applyPartition]
    rcases mem_insert2_iff.mp ht with rfl | ht
    · -- the record's own topic is live because `validate` asked for it
      obtain ⟨t, htopic⟩ := hlive
      rw [if_pos rfl, htopic]
      exact ⟨_, rfl⟩
    · obtain ⟨t, htopic⟩ := mem_iff_get.mp (h.partitions_live topic ht)
      rw [htopic]
      split <;> exact ⟨_, rfl⟩
  topicConfigs_live := by
    intro topic ht
    obtain ⟨t, htopic⟩ := mem_iff_get.mp (h.topicConfigs_live topic ht)
    rw [mem_iff_get, topics_applyPartition, htopic]
    split <;> exact ⟨_, rfl⟩
  elr_exists := by
    intro topic idx state hs
    obtain ⟨q, hq⟩ := h.elr_exists topic idx state hs
    rw [partition_applyPartition, hq]
    split <;> exact ⟨_, rfl⟩
  recovery_exists := by
    intro topic idx state hs
    obtain ⟨q, hq⟩ := h.recovery_exists topic idx state hs
    rw [partition_applyPartition, hq]
    split <;> exact ⟨_, rfl⟩
  counted := by
    intro name t ht
    rw [topics_applyPartition] at ht
    split at ht
    · rename_i hn
      subst hn
      obtain ⟨t', ht', rfl⟩ := Option.map_eq_some_iff.mp ht
      exact counted_applyPartition (h.counted _ t' ht')
    · rename_i hn
      rw [h.counted name t ht]
      refine (topicPartitionCount_congr ?_).symm
      have hsize : ((img.applyPartition p).partitions[name]?.getD ∅).size = _ :=
        size_insert2 img.partitions p.topic name p.partition p
      rw [hsize, if_neg (fun hc => hn hc.1), Nat.add_zero]

/-- Neither do the eligible leaders of a partition that exists. -/
theorem Integrity.applyPartitionElr (h : Integrity img) {topic : String} {idx : Int32}
    (hexists : ∃ p, img.partition topic idx = some p) (eligible lastKnown : List NodeId) :
    Integrity (img.applyPartitionElr topic idx eligible lastKnown) :=
  { h with
    elr_exists := by
      intro topic' idx' state hs
      show ∃ p, img.partition topic' idx' = some p
      rcases lookup2_of_erase2_or_insert2 hs with ⟨rfl, rfl⟩ | hs
      · exact hexists
      · exact h.elr_exists topic' idx' state hs }

/-- Neither does its recovery state. -/
theorem Integrity.applyPartitionRecovery (h : Integrity img) {topic : String} {idx : Int32}
    (hexists : ∃ p, img.partition topic idx = some p) (state : LeaderRecoveryState) :
    Integrity (img.applyPartitionRecovery topic idx state) :=
  { h with
    recovery_exists := by
      intro topic' idx' state' hs
      show ∃ p, img.partition topic' idx' = some p
      rcases lookup2_of_erase2_or_insert2 hs with ⟨rfl, rfl⟩ | hs
      · exact hexists
      · exact h.recovery_exists topic' idx' state' hs }

/-- Neither does an update of a partition of a live topic. -/
theorem Integrity.applyPartitionUpdate (h : Integrity img) {update : PartitionUpdateRecord}
    (hlive : ∃ t, img.topics[update.partition.topic]? = some t) :
    Integrity (img.applyPartitionUpdate update) := by
  have hpart := h.applyPartition hlive
  -- the partition is written before its eligible-leader and recovery state
  have hexists : ∃ p, (img.applyPartition update.partition).partition update.partition.topic
      update.partition.partition = some p :=
    ⟨update.partition, by rw [partition_applyPartition, if_pos ⟨rfl, rfl⟩]⟩
  unfold MetadataImage.applyPartitionUpdate
  cases update.eligibleLeaderReplicas with
  | none =>
      cases update.recoveryState with
      | none => exact hpart
      | some state => exact hpart.applyPartitionRecovery hexists state
  | some eligible =>
      cases update.lastKnownElr with
      | none =>
          cases update.recoveryState with
          | none => exact hpart
          | some state => exact hpart.applyPartitionRecovery hexists state
      | some lastKnown =>
          have helr := hpart.applyPartitionElr hexists eligible lastKnown
          cases update.recoveryState with
          | none => exact helr
          | some state => exact helr.applyPartitionRecovery hexists state

/-- What is kept beside a partition goes with it when its topic is deleted. -/
theorem exists_of_erase {α β : Type} {beside : HashMap String (BTreeMap Int32 α)}
    {partitions : HashMap String (BTreeMap Int32 β)}
    (h : ∀ topic idx state, lookup2 beside topic idx = some state → ∃ p, lookup2 partitions topic idx = some p)
    (name : String) {topic : String} {idx : Int32} {state : α}
    (hs : lookup2 (beside.erase name) topic idx = some state) :
    ∃ p, lookup2 (partitions.erase name) topic idx = some p := by
  rw [lookup2_erase] at hs ⊢
  split at hs
  · cases hs
  · rename_i hne
    rw [if_neg hne]
    exact h topic idx state hs

/-- A topic that is deleted takes all that refers to it. -/
theorem Integrity.applyDeleteTopic (h : Integrity img) (d : DeleteTopicRecord) :
    Integrity (img.applyDeleteTopic d) where
  partitions_live := by
    intro topic ht
    obtain ⟨hne, ht⟩ := mem_erase_iff.mp ht
    exact mem_erase_iff.mpr ⟨hne, h.partitions_live topic ht⟩
  topicConfigs_live := by
    intro topic ht
    obtain ⟨hne, ht⟩ := mem_erase_iff.mp ht
    exact mem_erase_iff.mpr ⟨hne, h.topicConfigs_live topic ht⟩
  elr_exists := by
    intro topic idx state hs
    exact exists_of_erase h.elr_exists d.name hs
  recovery_exists := by
    intro topic idx state hs
    exact exists_of_erase h.recovery_exists d.name hs
  counted := by
    intro name t ht
    have ht : (img.topics.erase d.name)[name]? = some t := ht
    rw [get_erase] at ht
    split at ht
    · cases ht
    · rename_i hne
      rw [h.counted name t ht]
      refine (topicPartitionCount_congr ?_).symm
      show ((img.partitions.erase d.name)[name]?.getD ∅).size = _
      rw [get_erase, if_neg hne]

/-- A config is set for live topics only. -/
theorem Integrity.setTopicConfig (h : Integrity img) {topic : String}
    (hlive : ∃ t, img.topics[topic]? = some t) (overrides : BTreeMap String String) :
    Integrity { img with topicConfigs := setOrErase img.topicConfigs topic overrides } :=
  { h with
    topicConfigs_live := by
      intro topic' ht
      rcases mem_of_mem_setOrErase ht with rfl | ht
      · exact mem_iff_get.mpr hlive
      · exact h.topicConfigs_live topic' ht }

/-- A directory assignment changes a partition that exists. -/
theorem Integrity.applyPartitionDirAssignment (h : Integrity img)
    (r : PartitionDirAssignmentRecord) : Integrity (img.applyPartitionDirAssignment r) := by
  rcases applyPartitionDirAssignment_cases img r with he | ⟨pr, slot, hpr, _, he⟩
  · rw [he]
    exact h
  · rw [he]
    -- the rewritten record was there before, so the set of existing partitions stays the same
    have hkept : ∀ topic idx p, img.partition topic idx = some p →
        ∃ q, lookup2 (insert2 img.partitions r.topic r.partition
          (assignDirectory pr slot r.directory)) topic idx = some q := by
      intro topic idx p hp
      rw [lookup2_insert2]
      split
      · exact ⟨_, rfl⟩
      · exact ⟨p, hp⟩
    exact
      { h with
        partitions_live := by
          intro topic ht
          rcases mem_insert2_iff.mp ht with rfl | ht
          · exact h.partitions_live r.topic (mem_of_lookup2 hpr)
          · exact h.partitions_live topic ht
        elr_exists := by
          intro topic idx state hs
          obtain ⟨p, hp⟩ := h.elr_exists topic idx state hs
          exact hkept topic idx p hp
        recovery_exists := by
          intro topic idx state hs
          obtain ⟨p, hp⟩ := h.recovery_exists topic idx state hs
          exact hkept topic idx p hp
        counted := by
          intro name t ht
          rw [h.counted name t ht]
          refine (topicPartitionCount_congr ?_).symm
          show ((insert2 img.partitions _ _ _)[name]?.getD ∅).size = _
          have hsome : lookup2 img.partitions r.topic r.partition = some pr := hpr
          rw [size_insert2, hsome]
          simp }

/-- **Step.** An admitted record keeps the integrity of the topic tables. -/
theorem Integrity.step (h : Integrity img) {r : MetadataRecord} (hv : img.validate r = .ok ()) :
    Integrity (img.apply r) := by
  cases r with
  -- the kinds with a check: what `validate` establishes is what the invariant needs
  | v1Topic t => exact h.applyTopic t
  | v1Partition p => exact h.applyPartition (get_of_requireTopic hv)
  | v1PartitionUpdate update => exact h.applyPartitionUpdate (get_of_requireTopic hv)
  | v1DeleteTopic d => exact h.applyDeleteTopic d
  | v1TopicConfig c => exact h.setTopicConfig (get_of_requireTopic hv) c.overrides
  | v1PartitionDirAssignment r => exact h.applyPartitionDirAssignment r
  | v1PartitionElr r => exact h.applyPartitionElr (get_of_requirePartition hv) _ _
  | v1PartitionRecovery r => exact h.applyPartitionRecovery (get_of_requirePartition hv) r.state
  | _ => exact h.congr (apply_sameTables img rfl)

/-- **Every admitted image has referential integrity.** -/
theorem integrity_of_admitted (h : Admitted img) : Integrity img := by
  refine Transition.Reach.invariant ?_ ?_ h
  · rintro img ⟨clusterId, rfl⟩
    exact integrity_new clusterId
  · intro img r hi hv
    exact hi.step hv

/-- **Referential integrity.** At every point of every admitted run the topic tables refer only to live
    topics and existing partitions, hold no empty inner map and no misplaced partition record, and the
    cached partition count of every live topic is the real one. -/
theorem referential_integrity (h : Admitted img) :
    (∀ topic, topic ∈ img.partitions → topic ∈ img.topics) ∧
    (∀ topic, topic ∈ img.topicConfigs → topic ∈ img.topics) ∧
    (∀ topic idx state, lookup2 img.partitionElr topic idx = some state →
      ∃ p, img.partition topic idx = some p) ∧
    (∀ topic idx state, lookup2 img.partitionRecovery topic idx = some state →
      ∃ p, img.partition topic idx = some p) ∧
    NoEmptyInner img.partitions ∧ NoEmptyInner img.partitionElr ∧
    NoEmptyInner img.partitionRecovery ∧ NoEmptyInner img.topicConfigs ∧
    (∀ topic idx p, img.partition topic idx = some p → p.topic = topic ∧ p.partition = idx) ∧
    (∀ name t, img.topics[name]? = some t → t.partitions = img.topicPartitionCount name) := by
  have hi := integrity_of_admitted h
  have hw := wellFormed_of_admitted h
  exact ⟨hi.partitions_live, hi.topicConfigs_live, hi.elr_exists, hi.recovery_exists,
    hw.partitions_nonempty, hw.elr_nonempty, hw.recovery_nonempty, hw.topicConfigs_nonempty,
    hw.partitions_keyed, hi.counted⟩

/-- A topic with one partition, whose eligible-leader state is then set. -/
def ordersRun : List MetadataRecord :=
  [ .v1Topic ⟨"orders", 1, 0, 1⟩,
    .v1Partition ⟨"orders", 0, 1, [1, 2], [1], 0, [], [], [], 0⟩,
    .v1PartitionElr ⟨"orders", 0, [2], []⟩ ]

/-- The run reaches an image with a partition, an eligible-leader entry and a count of one. -/
theorem referential_integrity_orders :
    Admitted (ordersRun.foldl apply (new 0)) ∧
    (∃ t, (ordersRun.foldl apply (new 0)).topics["orders"]? = some t ∧ t.partitions = 1) ∧
    (ordersRun.foldl apply (new 0)).topicPartitionCount "orders" = 1 := by
  have hadm : Admitted (ordersRun.foldl apply (new 0)) :=
    admitted_foldl (admitted_new 0) (by decide)
  have ht : (ordersRun.foldl apply (new 0)).topics["orders"]? = some ⟨"orders", 1, 1, 2⟩ := by decide
  refine ⟨hadm, ⟨_, ht, rfl⟩, ?_⟩
  exact ((referential_integrity hadm).2.2.2.2.2.2.2.2.2 "orders" _ ht).symm

/-! ## The reverse index

Exact as long as no topic takes an id that is live. -/

/-- No two live topics share an id. -/
def DistinctTopicIds (img : MetadataImage) : Prop :=
  ∀ (name name' : String) (t t' : TopicRecord), img.topics[name]? = some t →
    img.topics[name']? = some t' → t.topicId = t'.topicId → name = name'

/-- Ids that are listed once are distinct. -/
theorem distinctTopicIds_of_nodup (h : (img.topics.toList.map (·.2.topicId)).Nodup) :
    DistinctTopicIds img := by
  intro name name' t t' ht ht' hid
  have hmem := Std.ExtTreeMap.mem_toList_iff_getElem?_eq_some.mpr ht
  have hmem' := Std.ExtTreeMap.mem_toList_iff_getElem?_eq_some.mpr ht'
  exact congrArg (·.1) (List.inj_on_of_nodup_map h hmem hmem' hid)

/-- `topicIds` maps an id to a name exactly when the topic of that name has the id. -/
def TopicIdsInverse (img : MetadataImage) : Prop :=
  ∀ (id : Uuid) (name : String),
    img.topicIds[id]? = some name ↔ ∃ t, img.topics[name]? = some t ∧ t.topicId = id

/-- A record that creates a topic takes an id that no live topic has. -/
def TakesFreshId (img : MetadataImage) : MetadataRecord → Prop
  | .v1Topic t =>
    img.topics[t.name]? = none →
      ∀ (name : String) (t' : TopicRecord), img.topics[name]? = some t' → t'.topicId ≠ t.topicId
  | _ => True

/-- Where the index is exact, no two topics share an id. -/
theorem TopicIdsInverse.distinct (h : TopicIdsInverse img) : DistinctTopicIds img := by
  intro name name' t t' ht ht' hid
  have hname := (h t.topicId name).mpr ⟨t, ht, rfl⟩
  have hname' := (h t.topicId name').mpr ⟨t', ht', hid.symm⟩
  rw [hname] at hname'
  exact Option.some.inj hname'

/-- The scan finds only ids of live topics. -/
theorem get_of_topicNameForId (hk : Forall img.topics (fun name t => t.name = name)) {ω : MapOrder}
    {id : Uuid} {name : String} (h : img.topicNameForId ω id = some name) :
    ∃ t, img.topics[name]? = some t ∧ t.topicId = id := by
  obtain ⟨⟨key, t⟩, hf, rfl⟩ := Option.map_eq_some_iff.mp h
  have hget := (mem_iter ω _).mp (List.mem_of_find?_eq_some hf)
  have hname : t.name = key := hk key t hget
  refine ⟨t, ?_, by simpa using List.find?_some hf⟩
  rw [hname]
  exact hget

/-- When ids are distinct, the scan finds the topic of an id in every iteration order. -/
theorem topicNameForId_of_get (hk : Forall img.topics (fun name t => t.name = name))
    (hd : DistinctTopicIds img) (ω : MapOrder) {name : String} {t : TopicRecord}
    (ht : img.topics[name]? = some t) : img.topicNameForId ω t.topicId = some name := by
  unfold topicNameForId
  rw [find?_of_unique ((mem_iter ω _).mpr ht) (by simp)]
  · exact congrArg some (hk name t ht)
  · -- every hit of the scan is the same topic, so the order does not matter
    rintro ⟨name', t'⟩ hmem hid
    have ht' := (mem_iter ω _).mp hmem
    have hname : name' = name := hd name' name t' t ht' ht (by simpa using hid)
    subst hname
    rw [ht] at ht'
    rw [Option.some.inj ht']

/-- The index is exact where it and the ids of the topics are as before. -/
theorem TopicIdsInverse.congr {img' : MetadataImage} (h : TopicIdsInverse img)
    (hids : img'.topicIds = img.topicIds)
    (hiff : ∀ (id : Uuid) (name : String),
      (∃ t, img'.topics[name]? = some t ∧ t.topicId = id) ↔
        ∃ t, img.topics[name]? = some t ∧ t.topicId = id) : TopicIdsInverse img' := by
  intro id name
  rw [hids, h id name, hiff id name]

theorem TopicIdsInverse.of_sameTables (h : TopicIdsInverse img) (hs : SameTables img img') :
    TopicIdsInverse img' :=
  h.congr hs.topicIds (fun id name => by rw [hs.topics])

theorem TopicIdsInverse.applyPartition (h : TopicIdsInverse img) (p : PartitionRecord) :
    TopicIdsInverse (img.applyPartition p) := by
  refine h.congr rfl (fun id name => ?_)
  rw [topics_applyPartition]
  split
  · cases img.topics[name]? with
    | none => rfl
    | some t => simp [countPartition]
  · rfl

/-- **A topic with a fresh id keeps the index exact.** -/
theorem TopicIdsInverse.applyTopic (h : TopicIdsInverse img) {t : TopicRecord}
    (hv : img.validateTopic t = .ok ()) (hfresh : img.TakesFreshId (.v1Topic t)) :
    TopicIdsInverse (img.applyTopic t) := by
  have hids : (img.applyTopic t).topicIds = img.topicIds.insert t.topicId t.name := by
    unfold MetadataImage.applyTopic
    cases hprev : img.topics[t.name]? with
    | none => rfl
    | some prev =>
        -- a live name keeps its id, so no stale entry is dropped
        have hsame := (same_of_validateTopic hv hprev).1
        simp [hsame]
  intro id name
  rw [hids, get_insert, topics_applyTopic]
  by_cases hid : t.topicId = id
  · -- the record's own id: the index now answers with the record's name and no other
    rw [if_pos hid]
    by_cases hname : t.name = name
    · simp [hname, hid]
    · rw [if_neg hname]
      constructor
      · intro hn
        exact absurd (Option.some.inj hn) hname
      · rintro ⟨t', ht', hid'⟩
        exfalso
        cases hprev : img.topics[t.name]? with
        | none => exact hfresh hprev name t' ht' (hid'.trans hid.symm)
        | some prev =>
            have hsame := (same_of_validateTopic hv hprev).1
            exact hname (h.distinct t.name name prev t' hprev ht' (by rw [hsame, hid, hid']))
  · -- any other id: the record's name did not have it and does not get it
    rw [if_neg hid, h id name]
    by_cases hname : t.name = name
    · rw [if_pos hname]
      constructor
      · rintro ⟨t', ht', hid'⟩
        rw [← hname] at ht'
        have hsame := (same_of_validateTopic hv ht').1
        exact absurd (hsame.symm.trans hid') hid
      · rintro ⟨t', ht', hid'⟩
        rw [← Option.some.inj ht'] at hid'
        exact absurd hid' hid
    · rw [if_neg hname]

/-- A deletion keeps the index exact. -/
theorem TopicIdsInverse.applyDeleteTopic (h : TopicIdsInverse img) {d : DeleteTopicRecord} :
    TopicIdsInverse (img.applyDeleteTopic d) := by
  intro id name
  show (img.applyDeleteTopic d).topicIds[id]? = some name ↔
    ∃ t, (img.topics.erase d.name)[name]? = some t ∧ t.topicId = id
  rw [get_erase]
  unfold MetadataImage.applyDeleteTopic
  cases hprev : img.topics[d.name]? with
  -- nothing was live under the name
  | none =>
      simp only []
      rw [h id name]
      split
      · rename_i hn
        rw [← hn, hprev]
      · rfl
  | some prev =>
      simp only [get_erase]
      by_cases hn : d.name = name
      · rw [if_pos hn]
        subst hn
        constructor
        · intro hi
          split at hi
          · cases hi
          · rename_i hne
            obtain ⟨t, ht, hid⟩ := (h id d.name).mp hi
            rw [hprev] at ht
            rw [← Option.some.inj ht] at hid
            exact absurd hid hne
        · rintro ⟨t, ht, _⟩
          cases ht
      · rw [if_neg hn, ← h id name]
        split
        · rename_i hid
          refine ⟨fun hi => (by cases hi), fun hi => ?_⟩
          -- the deleted topic's id belongs to no other topic
          obtain ⟨t, ht, hid'⟩ := (h id name).mp hi
          exact absurd (h.distinct d.name name prev t hprev ht (hid.trans hid'.symm)) hn
        · rfl

/-- **Step.** An admitted record whose new topic takes a fresh id keeps the reverse index exact. -/
theorem TopicIdsInverse.step (h : TopicIdsInverse img) {r : MetadataRecord}
    (hv : img.validate r = .ok ()) (hfresh : img.TakesFreshId r) : TopicIdsInverse (img.apply r) := by
  cases r with
  | v1Topic t => exact h.applyTopic hv hfresh
  | v1Partition p => exact h.applyPartition p
  | v1PartitionUpdate update =>
      refine (h.applyPartition update.partition).congr ?_ ?_
      · simp only [MetadataImage.apply, MetadataImage.applyPartitionUpdate]
        split <;> split <;> rfl
      · intro id name
        simp only [MetadataImage.apply, MetadataImage.applyPartitionUpdate]
        split <;> split <;> rfl
  | v1DeleteTopic d => exact h.applyDeleteTopic
  | v1TopicConfig c => exact h.congr rfl (fun _ _ => Iff.rfl)
  | v1PartitionDirAssignment r =>
      show TopicIdsInverse (img.applyPartitionDirAssignment r)
      rcases applyPartitionDirAssignment_cases img r with he | ⟨pr, slot, _, _, he⟩
      · rw [he]
        exact h
      · rw [he]
        exact h.congr rfl (fun _ _ => Iff.rfl)
  | v1PartitionElr r => exact h.congr rfl (fun _ _ => Iff.rfl)
  | v1PartitionRecovery r => exact h.congr rfl (fun _ _ => Iff.rfl)
  | _ => exact h.of_sameTables (apply_sameTables img rfl)

/-- An index that is exact behind a new topic tells its id from the others. -/
theorem TopicIdsInverse.takesFreshId {r : MetadataRecord} (h : TopicIdsInverse (img.apply r)) :
    img.TakesFreshId r := by
  unfold TakesFreshId
  split
  · rename_i t
    intro hnew name t' ht' hid
    have hne : t.name ≠ name := by
      rintro rfl
      rw [hnew] at ht'
      cases ht'
    have hcreated : (img.apply (.v1Topic t)).topics[t.name]? = some { t with partitions := 0 } := by
      show (img.applyTopic t).topics[t.name]? = _
      rw [topics_applyTopic, if_pos rfl, hnew]
      rfl
    have hkept : (img.apply (.v1Topic t)).topics[name]? = some t' := by
      show (img.applyTopic t).topics[name]? = _
      rw [topics_applyTopic, if_neg hne, ht']
    exact hne (h.distinct _ _ _ _ hcreated hkept hid.symm)
  · trivial

/-- The runs in which every new topic also takes an id that no live topic has. -/
def AdmittedFresh : MetadataImage → Prop :=
  Transition.Reach (fun img => ∃ clusterId, img = new clusterId)
    (fun img r => img.validate r = .ok () ∧ img.TakesFreshId r) apply

/-- **The reverse index is exact** along every admitted run whose new topics take fresh ids: it is the
    inverse of `topics`, its two readers answer for exactly the ids of live topics, and the decoder's
    scan agrees with it in every iteration order. It stays exact over the next record exactly when a topic
    that this creates takes a fresh id. -/
theorem topicIds_exact_of_fresh_ids (h : AdmittedFresh img) :
    TopicIdsInverse img ∧
    (∀ (id : Uuid) (t : TopicRecord), img.topicById id = some t ↔
      ∃ name : String, img.topics[name]? = some t ∧ t.topicId = id) ∧
    (∀ id name, img.topicNameById id = some name ↔
      ∃ t, img.topics[name]? = some t ∧ t.topicId = id) ∧
    (∀ ω id, img.topicNameForId ω id = img.topicNameById id) ∧
    ∀ r, img.validate r = .ok () → (TopicIdsInverse (img.apply r) ↔ img.TakesFreshId r) := by
  have hinv : TopicIdsInverse img := by
    refine Transition.Reach.invariant ?_ ?_ h
    · rintro img ⟨clusterId, rfl⟩ id name
      simp [new]
    · intro img r hi hg
      exact hi.step hg.1 hg.2
  have hkeyed := (wellFormed_of_admitted (h.mono (fun _ _ hg => hg.1))).topics_keyed
  refine ⟨hinv, ?_, hinv, ?_, fun r hvalid => ⟨TopicIdsInverse.takesFreshId, hinv.step hvalid⟩⟩
  · intro id t
    unfold topicById
    rw [Option.bind_eq_some_iff]
    constructor
    · rintro ⟨name, hid, ht⟩
      obtain ⟨t', ht', hid'⟩ := (hinv id name).mp hid
      rw [ht] at ht'
      rw [← Option.some.inj ht'] at hid'
      exact ⟨name, ht, hid'⟩
    · rintro ⟨name, ht, hid⟩
      exact ⟨name, (hinv id name).mpr ⟨t, ht, hid⟩, ht⟩
  · intro ω id
    cases hid : img.topicNameById id with
    | some name =>
        obtain ⟨t, ht, rfl⟩ := (hinv id name).mp hid
        exact topicNameForId_of_get hkeyed hinv.distinct ω ht
    | none =>
        cases hscan : img.topicNameForId ω id with
        | none => rfl
        | some name =>
            rw [← hid]
            exact ((hinv id name).mpr (get_of_topicNameForId hkeyed hscan)).symm

/-- Two topics under two ids. -/
theorem topicIds_exact_of_fresh_ids_pair :
    ∃ img : MetadataImage, AdmittedFresh img ∧ img.topicNameById 2 = some "b" ∧
      img.topicNameForId (HashOrder.sorted MapSite) 2 = some "b" := by
  have hrun : AdmittedFresh
      (((new 0).apply (.v1Topic ⟨"a", 1, 0, 1⟩)).apply (.v1Topic ⟨"b", 2, 0, 1⟩)) := by
    refine .step (.step (.init ⟨0, rfl⟩) ⟨rfl, ?_⟩) ⟨by decide, ?_⟩
    · intro _ name t ht
      simp [new] at ht
    · intro _ name t ht
      have htopics : ((new 0).apply (.v1Topic ⟨"a", 1, 0, 1⟩)).topics[name]? = some t := ht
      have happly := topics_applyTopic (new 0) ⟨"a", 1, 0, 1⟩ name
      rw [show (new 0).apply (.v1Topic ⟨"a", 1, 0, 1⟩) = (new 0).applyTopic ⟨"a", 1, 0, 1⟩ from rfl,
        happly] at htopics
      split at htopics
      · rw [← Option.some.inj htopics]
        decide
      · simp [new] at htopics
  have hname : (((new 0).apply (.v1Topic ⟨"a", 1, 0, 1⟩)).apply
      (.v1Topic ⟨"b", 2, 0, 1⟩)).topicNameById 2 = some "b" := by decide
  refine ⟨_, hrun, hname, ?_⟩
  rw [(topicIds_exact_of_fresh_ids hrun).2.2.2.1]
  exact hname

/-- Two live topics under one id, and then the second of them deleted. -/
def collidingRun : List MetadataRecord :=
  [.v1Topic ⟨"a", 1, 0, 1⟩, .v1Topic ⟨"b", 1, 0, 1⟩, .v1DeleteTopic ⟨"b"⟩]

/-- `validate` admits a new topic under a live id. The second topic takes over the index entry of the
    first, and deleting it leaves the first one live and unknown to the index. -/
theorem topicIds_not_inverse :
    (new 0).admits collidingRun = true ∧
    (collidingRun.foldl apply (new 0)).topics["a"]? = some ⟨"a", 1, 0, 1⟩ ∧
    (collidingRun.foldl apply (new 0)).topicById 1 = none ∧
    (collidingRun.foldl apply (new 0)).topicNameForId (HashOrder.sorted MapSite) 1 = some "a" ∧
    ¬∀ img : MetadataImage, Admitted img → TopicIdsInverse img := by
  have hadm : (new 0).admits collidingRun = true := by decide
  have hlive : (collidingRun.foldl apply (new 0)).topics["a"]? = some ⟨"a", 1, 0, 1⟩ := by decide
  refine ⟨hadm, hlive, by decide, by decide, fun hall => ?_⟩
  have hinv := hall _ (admitted_foldl (admitted_new 0) hadm)
  have hindexed := (hinv 1 "a").mpr ⟨_, hlive, rfl⟩
  have hnone : (collidingRun.foldl apply (new 0)).topicIds[(1 : Uuid)]? = none := by decide
  rw [hnone] at hindexed
  cases hindexed

end MetadataImage

end Krabka.Metadata
