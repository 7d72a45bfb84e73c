import Krabka.Metadata.Kraft.PartitionChange

/-!
# `Metadata.Kraft.PartitionRead` — reading a partition record and writing it back

A partition record on the wire becomes three parts of the image: the partition, its eligible leaders and its
recovery state. `PartitionRead` is what a reader needs to know about it, and `PartitionWritten` what a
writer puts there. `writesBack_iff` compares the two. A leader 0 is not what comes out, since the image uses
it for no leader; nor is a record without leader state when the image has such state from before.
-/

namespace Krabka.Metadata.Kraft

open Collections FixedWidth Results MetadataImage

variable {codec : Codec} {ω : MapOrder} {img : MetadataImage} {k : KPartitionRecord} {topic : String}

/-! ## Reading

What the reader asks of the bytes and of the image, with no monad left in it. -/

/-- The update that a record stands for: the partition, and the state that it names. -/
structure PartitionRead (k : KPartitionRecord) (topic : String) (u : PartitionUpdateRecord) : Prop where
  topic : u.partition.topic = topic
  index : u.partition.partition = k.partitionId
  leader : partitionLeaderFromWire k.leader "partition leader" = .ok u.partition.leader
  replicas : nodesFromWire k.replicas "partition replica" = .ok u.partition.replicas
  isr : nodesFromWire k.isr "partition ISR member" = .ok u.partition.isr
  adding : nodesFromWire k.addingReplicas "adding replica" = .ok u.partition.addingReplicas
  removing : nodesFromWire k.removingReplicas "removing replica" = .ok u.partition.removingReplicas
  leaderEpoch : u.partition.leaderEpoch = k.leaderEpoch
  partitionEpoch : u.partition.partitionEpoch = k.partitionEpoch
  directories : u.partition.directories = k.directories
  recovery : some <$> recoveryStateFromWire "partition leader recovery state" k.leaderRecoveryState =
    .ok u.recoveryState
  eligible : k.eligibleLeaderReplicas.mapM (nodesFromWire · "eligible leader replica") =
    .ok u.eligibleLeaderReplicas
  lastKnown : k.lastKnownElr.mapM (nodesFromWire · "last known eligible leader replica") =
    .ok u.lastKnownElr

/-- The record names a state other than the default one. -/
def NamesState (u : PartitionUpdateRecord) : Prop :=
  u.eligibleLeaderReplicas.isSome ∨ u.lastKnownElr.isSome ∨ u.recoveryState = some .recovering

instance (u : PartitionUpdateRecord) : Decidable (NamesState u) := inferInstanceAs (Decidable (_ ∨ _))

/-- What the decoder makes of an update. -/
def readRecord (u : PartitionUpdateRecord) : MetadataRecord :=
  if NamesState u then .v1PartitionUpdate u else .v1Partition u.partition

theorem namesState_iff {p : PartitionRecord} {eligible lastKnown : Option (List NodeId)}
    {state : LeaderRecoveryState} :
    (eligible.isSome || lastKnown.isSome || state == .recovering) = true ↔
      NamesState ⟨p, eligible, lastKnown, some state⟩ := by
  simp [NamesState, or_assoc]

/-- What a partition record is read as, and where. -/
theorem fromKraft_partition {r : MetadataRecord} :
    fromKraft codec ω (.partition k) img = .ok r ↔
      ∃ topic u, img.topicNameForId ω k.topicId = some topic ∧ PartitionRead k topic u ∧
        r = readRecord u := by
  constructor
  · intro h
    obtain ⟨topic, htopic, h⟩ := bind_eq_ok.mp h
    obtain ⟨leader, hleader, h⟩ := bind_eq_ok.mp h
    obtain ⟨replicas, hreplicas, h⟩ := bind_eq_ok.mp h
    obtain ⟨isr, hisr, h⟩ := bind_eq_ok.mp h
    obtain ⟨adding, hadding, h⟩ := bind_eq_ok.mp h
    obtain ⟨removing, hremoving, h⟩ := bind_eq_ok.mp h
    obtain ⟨state, hstate, h⟩ := bind_eq_ok.mp h
    have htopic := okOr_eq_ok.mp htopic
    have hread : ∀ eligible lastKnown,
        k.eligibleLeaderReplicas.mapM (nodesFromWire · "eligible leader replica") = .ok eligible →
        k.lastKnownElr.mapM (nodesFromWire · "last known eligible leader replica") = .ok lastKnown →
        PartitionRead k topic ⟨⟨topic, k.partitionId, leader, replicas, isr, k.leaderEpoch, adding, removing,
          k.directories, k.partitionEpoch⟩, eligible, lastKnown, some state⟩ :=
      fun eligible lastKnown heligible hlastKnown => ⟨rfl, rfl, hleader, hreplicas, hisr, hadding, hremoving,
        rfl, rfl, rfl, by rw [hstate]; rfl, heligible, hlastKnown⟩
    by_cases hnames : (k.eligibleLeaderReplicas.isSome || k.lastKnownElr.isSome || state == .recovering) = true
    · have h : _ = Except.ok r := (if_pos hnames).symm.trans h
      obtain ⟨eligible, heligible, h⟩ := bind_eq_ok.mp h
      obtain ⟨lastKnown, hlastKnown, h⟩ := bind_eq_ok.mp h
      rw [pure_eq_ok] at h
      refine ⟨topic, _, htopic, hread eligible lastKnown heligible hlastKnown, ?_⟩
      rw [← isSome_of_optionMapM heligible, ← isSome_of_optionMapM hlastKnown] at hnames
      rw [← h]
      exact (if_pos (namesState_iff.mp hnames)).symm
    · have h : _ = Except.ok r := (if_neg hnames).symm.trans h
      rw [pure_eq_ok] at h
      -- neither list is there, so there is nothing beside the partition
      have habsent : k.eligibleLeaderReplicas = none ∧ k.lastKnownElr = none := by
        simpa [and_assoc] using (not_or.mp (mt (Bool.or_eq_true _ _).mpr hnames)).1
      obtain ⟨heligible, hlastKnown⟩ := habsent
      refine ⟨topic, _, htopic, hread none none (by rw [heligible]; rfl) (by rw [hlastKnown]; rfl), ?_⟩
      rw [heligible, hlastKnown] at hnames
      rw [← h]
      exact (if_neg (mt namesState_iff.mpr hnames)).symm
  · rintro ⟨topic, ⟨p, eligible, lastKnown, recovery⟩, htopic, hread, rfl⟩
    obtain ⟨state, hstate, hsome⟩ := map_eq_ok.mp hread.recovery
    obtain rfl : some state = recovery := hsome
    simp only [fromKraft, partitionFromKraft, topicOfId, htopic, okOr_some, ok_bind, hread.leader,
      hread.replicas, hread.isr, hread.adding, hread.removing, hstate, hread.eligible, hread.lastKnown,
      ← hread.topic, ← hread.index, ← hread.leaderEpoch, ← hread.partitionEpoch, ← hread.directories,
      ← isSome_of_optionMapM hread.eligible, ← isSome_of_optionMapM hread.lastKnown]
    unfold readRecord
    by_cases hnames : NamesState ⟨p, eligible, lastKnown, some state⟩
    · rw [if_pos hnames]
      exact if_pos (namesState_iff.mpr hnames)
    · rw [if_neg hnames]
      exact if_neg (mt namesState_iff.mp hnames)

/-! ## What the image holds then

The three lookups at the partition after the record is applied. -/

/-- An update that names no state has no list and has recovered. -/
theorem PartitionRead.absent_of_not_namesState {u : PartitionUpdateRecord} (h : PartitionRead k topic u)
    (hnames : ¬NamesState u) : u.eligibleLeaderReplicas = none ∧ u.lastKnownElr = none ∧
      u.recoveryState = some .recovered := by
  obtain ⟨state, -, hsome⟩ := map_eq_ok.mp h.recovery
  simp only [NamesState, not_or, Bool.not_eq_true, Option.isSome_eq_false_iff,
    Option.isNone_iff_eq_none] at hnames
  obtain ⟨heligible, hlastKnown, hrecovery⟩ := hnames
  refine ⟨heligible, hlastKnown, ?_⟩
  rw [← hsome] at hrecovery ⊢
  cases state with
  | recovered => rfl
  | recovering => exact absurd rfl hrecovery

/-- A plain partition record writes no more than the update would that names no state. -/
theorem apply_readRecord (u : PartitionUpdateRecord) :
    img.apply (readRecord u) =
      img.applyPartitionUpdate (if NamesState u then u else ⟨u.partition, none, none, none⟩) := by
  unfold readRecord
  split <;> rfl

/-- The partition that is read is the one that the record states. -/
theorem partition_readRecord {u : PartitionUpdateRecord} (h : PartitionRead k topic u) :
    (img.apply (readRecord u)).partition topic k.partitionId = some u.partition := by
  rw [apply_readRecord u, partition_applyPartitionUpdate]
  have hsame : (if NamesState u then u else ⟨u.partition, none, none, none⟩).partition = u.partition := by
    split <;> rfl
  rw [hsame]
  exact if_pos ⟨h.topic, h.index⟩

/-- Its eligible leaders are those of the record, or as before. -/
theorem elrOf_readRecord {u : PartitionUpdateRecord} (h : PartitionRead k topic u) :
    (img.apply (readRecord u)).elrOf topic k.partitionId = elrAfter u (img.elrOf topic k.partitionId) := by
  rw [apply_readRecord u, elrOf_applyPartitionUpdate]
  by_cases hnames : NamesState u
  · rw [if_pos hnames]
    exact if_pos ⟨h.topic, h.index⟩
  · obtain ⟨heligible, -, -⟩ := h.absent_of_not_namesState hnames
    rw [if_neg hnames]
    unfold elrAfter
    rw [heligible]
    exact ite_self _

/-- Its recovery state is that of the record, if it names one. -/
theorem leaderRecoveryState_readRecord {u : PartitionUpdateRecord} (h : PartitionRead k topic u) :
    (img.apply (readRecord u)).leaderRecoveryState topic k.partitionId =
      if NamesState u then u.recoveryState.getD .recovered
      else img.leaderRecoveryState topic k.partitionId := by
  rw [apply_readRecord u, leaderRecoveryState_applyPartitionUpdate]
  obtain ⟨state, -, hsome⟩ := map_eq_ok.mp h.recovery
  by_cases hnames : NamesState u
  · rw [if_pos hnames, if_pos hnames, if_pos ⟨h.topic, h.index⟩, ← hsome]
    rfl
  · rw [if_neg hnames, if_neg hnames]
    exact ite_self _

/-! ## Writing

The lists of nodes go back as they came, since the reader took no negative one. -/

/-- Node ids that were read are written back. -/
theorem nodesToWire_of_fromWire {values : List Int32} {nodes : List NodeId} {field : String}
    (h : nodesFromWire values field = .ok nodes) (field' : String) :
    nodesToWire nodes field' = .ok values :=
  mapM_roundTrip (fun _ _ hn => nodeIdAs_eq_ok.mpr (nodeIdFromWire_eq_ok.mp hn)) h

theorem eq_nil_of_nodesFromWire {values : List Int32} {field : String}
    (h : nodesFromWire values field = .ok []) : values = [] :=
  List.forall₂_nil_right_iff.mp (mapM_eq_ok.mp h)

/-! ## Both ways

The written record is compared with the one that was read, field by field. Each field comes back on its own
condition, and the claim is their conjunction. -/

/-- A leader read from the wire goes back as it was, unless it is node 0. -/
theorem partitionLeaderToWire_of_fromWire {value : Int32} {leader : NodeId} {field field' : String}
    (h : partitionLeaderFromWire value field = .ok leader) :
    partitionLeaderToWire leader field' = .ok value ↔ value ≠ 0 := by
  unfold partitionLeaderFromWire at h
  unfold partitionLeaderToWire
  by_cases hnone : value = -1
  · rw [if_pos hnone] at h
    rw [← Except.ok.inj h, if_pos rfl, hnone]
    exact iff_of_true rfl (by decide)
  · rw [if_neg hnone] at h
    have hvalue := nodeIdFromWire_eq_ok.mp h
    by_cases hzero : leader = 0
    · have hsame : value = 0 := by
        rw [hzero] at hvalue
        exact Int32.toInt_inj.mp hvalue
      rw [if_pos hzero, Except.ok.injEq]
      exact iff_of_false (fun hback => hnone hback.symm) (not_not.mpr hsame)
    · rw [if_neg hzero]
      refine iff_of_true (nodeIdAs_eq_ok.mpr hvalue) fun hsame => hzero ?_
      rw [hsame] at hvalue
      exact UInt64.toNat_inj.mp (Int.ofNat.inj hvalue).symm

/-- The records that the claim of a round trip is about: the ids are node ids, and the eligible-leader lists
    come as a pair that says something. -/
structure Acceptable (k : KPartitionRecord) : Prop where
  leader : k.leader = -1 ∨ 0 ≤ k.leader
  replicas : ∀ v ∈ k.replicas, 0 ≤ v
  isr : ∀ v ∈ k.isr, 0 ≤ v
  adding : ∀ v ∈ k.addingReplicas, 0 ≤ v
  removing : ∀ v ∈ k.removingReplicas, 0 ≤ v
  recovery : k.leaderRecoveryState = 0 ∨ k.leaderRecoveryState = 1
  elr : (k.eligibleLeaderReplicas = none ∧ k.lastKnownElr = none) ∨
    ∃ eligible lastKnown, k.eligibleLeaderReplicas = some eligible ∧ k.lastKnownElr = some lastKnown ∧
      eligible ++ lastKnown ≠ [] ∧ ∀ v ∈ eligible ++ lastKnown, 0 ≤ v

/-- Numbers that are not negative are node ids. -/
theorem nodesFromWire_of_nonneg {values : List Int32} (h : ∀ v ∈ values, 0 ≤ v) (field : String) :
    ∃ nodes, nodesFromWire values field = .ok nodes := by
  refine mapM_of_forall fun v hv => ?_
  have hnonneg : 0 ≤ v.toInt := Int32.le_iff_toInt_le.mp (h v hv)
  unfold nodeIdFromWire u64OfI32
  rw [if_pos hnonneg]
  exact ⟨_, rfl⟩

/-- A leader is a node id or -1. -/
theorem partitionLeaderFromWire_of_nonneg {value : Int32} (h : value = -1 ∨ 0 ≤ value) (field : String) :
    ∃ leader, partitionLeaderFromWire value field = .ok leader := by
  unfold partitionLeaderFromWire
  by_cases hnone : value = -1
  · rw [if_pos hnone]
    exact ⟨0, rfl⟩
  · rw [if_neg hnone]
    have hnonneg : 0 ≤ value.toInt := Int32.le_iff_toInt_le.mp (h.resolve_left hnone)
    unfold nodeIdFromWire u64OfI32
    rw [if_pos hnonneg]
    exact ⟨_, rfl⟩

/-- The known recovery states are read. -/
theorem recoveryStateFromWire_of_known {b : Int8} (h : b = 0 ∨ b = 1) (field : String) :
    ∃ state, recoveryStateFromWire field b = .ok state := by
  rcases h with rfl | rfl
  · exact ⟨.recovered, rfl⟩
  · exact ⟨.recovering, rfl⟩

/-- Such a record is read. -/
theorem Acceptable.exists_read (h : Acceptable k) (topic : String) : ∃ u, PartitionRead k topic u := by
  obtain ⟨leader, hleader⟩ := partitionLeaderFromWire_of_nonneg h.leader "partition leader"
  obtain ⟨replicas, hreplicas⟩ := nodesFromWire_of_nonneg h.replicas "partition replica"
  obtain ⟨isr, hisr⟩ := nodesFromWire_of_nonneg h.isr "partition ISR member"
  obtain ⟨adding, hadding⟩ := nodesFromWire_of_nonneg h.adding "adding replica"
  obtain ⟨removing, hremoving⟩ := nodesFromWire_of_nonneg h.removing "removing replica"
  obtain ⟨state, hstate⟩ := recoveryStateFromWire_of_known h.recovery "partition leader recovery state"
  obtain ⟨elr, heligible, hlastKnown⟩ : ∃ elr : Option (List NodeId) × Option (List NodeId),
      k.eligibleLeaderReplicas.mapM (nodesFromWire · "eligible leader replica") = .ok elr.1 ∧
      k.lastKnownElr.mapM (nodesFromWire · "last known eligible leader replica") = .ok elr.2 := by
    rcases h.elr with ⟨heligible, hlastKnown⟩ | ⟨eligible, lastKnown, heligible, hlastKnown, -, hnonneg⟩
    · rw [heligible, hlastKnown]
      exact ⟨(none, none), rfl, rfl⟩
    · obtain ⟨nodes, hnodes⟩ := nodesFromWire_of_nonneg
        (fun v hv => hnonneg v (List.mem_append_left _ hv)) "eligible leader replica"
      obtain ⟨known, hknown⟩ := nodesFromWire_of_nonneg
        (fun v hv => hnonneg v (List.mem_append_right _ hv)) "last known eligible leader replica"
      rw [heligible, hlastKnown]
      exact ⟨(some nodes, some known), optionMapM_eq_ok.mpr (.some hnodes),
        optionMapM_eq_ok.mpr (.some hknown)⟩
  exact ⟨⟨⟨topic, k.partitionId, leader, replicas, isr, k.leaderEpoch, adding, removing, k.directories,
    k.partitionEpoch⟩, elr.1, elr.2, some state⟩, rfl, rfl, hleader, hreplicas, hisr, hadding, hremoving,
    rfl, rfl, rfl, by rw [hstate]; rfl, heligible, hlastKnown⟩

/-- An update changes no topic id. -/
theorem topicIdOf_applyPartitionUpdate {t : TopicRecord} (ht : img.topics[topic]? = some t)
    (u : PartitionUpdateRecord) : topicIdOf (img.applyPartitionUpdate u) topic = .ok t.topicId := by
  unfold topicIdOf
  rw [(applyPartitionUpdate_tables img u).1, topics_applyPartition, ht]
  split <;> rfl

/-- The record comes out of the image as it went in. -/
def WritesBack (codec : Codec) (ω : MapOrder) (img : MetadataImage) (topic : String) (k : KPartitionRecord) :
    Prop :=
  ∃ r, fromKraft codec ω (.partition k) img = .ok r ∧
    ∃ p, (img.apply r).partition topic k.partitionId = some p ∧
      ∃ topicId, topicIdOf (img.apply r) topic = .ok topicId ∧
        partitionToKraft p topicId (img.apply r) = .ok k

/-- The eligible-leader lists come out as they went in, if the image had none or gets some. -/
theorem elr_writesBack_iff {u : PartitionUpdateRecord} (hk : Acceptable k) (h : PartitionRead k topic u)
    (stored : PartitionElrState) :
    ((if elrAfter u stored = ([], []) then none else some (elrAfter u stored).1).mapM
        (nodesToWire · "eligible leader replica") = .ok k.eligibleLeaderReplicas ∧
      (if elrAfter u stored = ([], []) then none else some (elrAfter u stored).2).mapM
        (nodesToWire · "last known eligible leader replica") = .ok k.lastKnownElr) ↔
      (k.eligibleLeaderReplicas = none → stored = ([], [])) := by
  have heligible' := optionMapM_eq_ok.mp h.eligible
  have hlastKnown' := optionMapM_eq_ok.mp h.lastKnown
  unfold elrAfter
  rcases hk.elr with ⟨heligible, hlastKnown⟩ | ⟨eligible, lastKnown, heligible, hlastKnown, hne, -⟩
  · rw [heligible] at heligible'
    generalize u.eligibleLeaderReplicas = e at heligible' ⊢
    cases heligible'
    rw [heligible, hlastKnown]
    by_cases hempty : stored = ([], [])
    · simp only [hempty, if_true]
      exact iff_of_true ⟨rfl, rfl⟩ fun _ => trivial
    · simp only [if_neg hempty]
      refine iff_of_false (fun hback => ?_) fun himp => hempty (himp trivial)
      cases optionMapM_eq_ok.mp hback.1
  · rw [heligible] at heligible'
    rw [hlastKnown] at hlastKnown'
    generalize u.eligibleLeaderReplicas = e at heligible' ⊢
    generalize u.lastKnownElr = l at hlastKnown' ⊢
    cases heligible' with
    | some he =>
        cases hlastKnown' with
        | some hl =>
            rename_i nodes known
            rw [heligible, hlastKnown]
            have hsome : (nodes, known) ≠ (([], []) : PartitionElrState) := by
              intro hempty
              cases hempty
              rw [eq_nil_of_nodesFromWire he, eq_nil_of_nodesFromWire hl] at hne
              exact hne rfl
            simp only [if_neg hsome]
            refine iff_of_true ⟨optionMapM_eq_ok.mpr (.some (nodesToWire_of_fromWire he _)),
              optionMapM_eq_ok.mpr (.some (nodesToWire_of_fromWire hl _))⟩ fun hnone => ?_
            cases hnone

/-- The recovery state comes out as it went in, if the record names it or the image has the default. -/
theorem recovery_writesBack_iff {u : PartitionUpdateRecord} (hk : Acceptable k) (h : PartitionRead k topic u)
    (stored : LeaderRecoveryState) :
    (if NamesState u then u.recoveryState.getD .recovered else stored).asI8 = k.leaderRecoveryState ↔
      (k.eligibleLeaderReplicas = none → k.leaderRecoveryState = 0 → stored = .recovered) := by
  obtain ⟨state, hstate, hsome⟩ := map_eq_ok.mp h.recovery
  have hbyte := recoveryStateFromWire_eq_ok.mp hstate
  by_cases hnames : NamesState u
  · rw [if_pos hnames, ← hsome]
    refine iff_of_true hbyte fun hnone hzero => ?_
    -- with no list and the default state the record would name none
    exfalso
    have hlast : k.lastKnownElr = none := by
      rcases hk.elr with ⟨-, hlast⟩ | ⟨_, _, hsome, -⟩
      · exact hlast
      · rw [hnone] at hsome
        cases hsome
    have heligible := isSome_of_optionMapM h.eligible
    have hlastKnown := isSome_of_optionMapM h.lastKnown
    rw [hnone] at heligible
    rw [hlast] at hlastKnown
    rcases hnames with hsome' | hsome' | hrecovering
    · rw [heligible] at hsome'
      cases hsome'
    · rw [hlastKnown] at hsome'
      cases hsome'
    · rw [← hsome] at hrecovering
      rw [← hbyte, Option.some.inj hrecovering] at hzero
      exact absurd hzero (by decide)
  · obtain ⟨heligible, -, hrecovered⟩ := h.absent_of_not_namesState hnames
    rw [hrecovered] at hsome
    cases hsome
    have hnone : k.eligibleLeaderReplicas = none := by
      have hsame := isSome_of_optionMapM h.eligible
      rw [heligible] at hsame
      exact Option.isNone_iff_eq_none.mp (by simpa using hsame.symm)
    rw [if_neg hnames, ← hbyte]
    constructor
    · intro hback _ _
      cases stored with
      | recovered => rfl
      | recovering => exact absurd hback (by decide)
    · intro himp
      rw [himp hnone rfl]

/-- **A partition record read and written back.** It comes out as it went in exactly when its leader is not
    node 0 and, where it says nothing about eligible leaders or recovery, the image had no such state. -/
theorem writesBack_iff {clusterId : Uuid} (hb : Built clusterId img) (hd : img.DistinctTopicIds)
    {t : TopicRecord} (ht : img.topics[topic]? = some t) (hid : t.topicId = k.topicId) (hk : Acceptable k) :
    WritesBack codec ω img topic k ↔
      k.leader ≠ 0 ∧ (k.eligibleLeaderReplicas = none → img.elrOf topic k.partitionId = ([], [])) ∧
        (k.eligibleLeaderReplicas = none → k.leaderRecoveryState = 0 →
          img.leaderRecoveryState topic k.partitionId = .recovered) := by
  have hw := wellFormed_of_built hb
  have hscan : img.topicNameForId ω k.topicId = some topic :=
    hid ▸ topicNameForId_of_get hw.topics_keyed hd ω ht
  obtain ⟨u, hu⟩ := hk.exists_read topic
  have hdecode : fromKraft codec ω (.partition k) img = .ok (readRecord u) :=
    fromKraft_partition.mpr ⟨topic, u, hscan, hu, rfl⟩
  have hpartition : (img.apply (readRecord u)).partition topic k.partitionId = some u.partition :=
    partition_readRecord hu
  have htopicId : topicIdOf (img.apply (readRecord u)) topic = .ok k.topicId := by
    rw [apply_readRecord, ← hid]
    exact topicIdOf_applyPartitionUpdate ht _
  -- what is left to compare is the leader and the two states
  have hwritten : partitionToKraft u.partition k.topicId (img.apply (readRecord u)) = .ok k ↔
      k.leader ≠ 0 ∧ (k.eligibleLeaderReplicas = none → img.elrOf topic k.partitionId = ([], [])) ∧
        (k.eligibleLeaderReplicas = none → k.leaderRecoveryState = 0 →
          img.leaderRecoveryState topic k.partitionId = .recovered) := by
    rw [partitionToKraft_eq_ok, ← elr_writesBack_iff hk hu, ← recovery_writesBack_iff hk hu,
      ← partitionLeaderToWire_of_fromWire hu.leader, ← elrOf_readRecord hu,
      ← leaderRecoveryState_readRecord hu]
    constructor
    · intro h
      have heligible := h.eligible
      have hlastKnown := h.lastKnown
      have hrecovery := h.recovery
      rw [hu.topic, hu.index] at heligible hlastKnown hrecovery
      exact ⟨h.leader, ⟨heligible, hlastKnown⟩, hrecovery⟩
    · rintro ⟨hleader, ⟨heligible, hlastKnown⟩, hrecovery⟩
      refine ⟨hu.index, rfl, hleader, nodesToWire_of_fromWire hu.replicas _, nodesToWire_of_fromWire hu.isr _,
        nodesToWire_of_fromWire hu.removing _, nodesToWire_of_fromWire hu.adding _, hu.leaderEpoch,
        hu.partitionEpoch, hu.directories, ?_, ?_, ?_⟩
      · rwa [hu.topic, hu.index]
      · rwa [hu.topic, hu.index]
      · rwa [hu.topic, hu.index]
  refine Iff.trans ?_ hwritten
  constructor
  · rintro ⟨r, hr, p, hp, id, hid', h⟩
    obtain rfl := Except.ok.inj (hdecode.symm.trans hr)
    obtain rfl := Option.some.inj (hpartition.symm.trans hp)
    obtain rfl := Except.ok.inj (htopicId.symm.trans hid')
    exact h
  · exact fun h => ⟨readRecord u, hdecode, u.partition, hpartition, k.topicId, htopicId, h⟩

/-- A partition of three replicas, the first two in sync and the third an eligible leader. -/
def kafkaPartition : KPartitionRecord where
  partitionId := 0
  topicId := 1
  replicas := [0, 1, 2]
  isr := [0, 1]
  removingReplicas := []
  addingReplicas := []
  leader := 1
  leaderEpoch := 4
  partitionEpoch := 7
  directories := []
  leaderRecoveryState := 0
  eligibleLeaderReplicas := some [2]
  lastKnownElr := some []

theorem acceptable_kafkaPartition : Acceptable kafkaPartition where
  leader := by decide
  replicas := by simp [kafkaPartition]
  isr := by simp [kafkaPartition]
  adding := by simp [kafkaPartition]
  removing := by simp [kafkaPartition]
  recovery := by decide
  elr := Or.inr ⟨[2], [], rfl, rfl, by decide, by simp⟩

theorem writesBack_kafkaPartition :
    WritesBack (Codec.ofTable []) (HashOrder.sorted MapSite) shrunk "orders" kafkaPartition :=
  (writesBack_iff ⟨shrunkRun, rfl⟩ shrunk_distinct (show _ = some ⟨"orders", 1, 1, 2⟩ by decide) rfl
    acceptable_kafkaPartition).mpr ⟨by decide, fun h => (by cases h), fun h => (by cases h)⟩

/-- Broker 0 leads the partition, which has no eligible leaders. -/
def ledByZero : KPartitionRecord :=
  { kafkaPartition with leader := 0, eligibleLeaderReplicas := none, lastKnownElr := none }

theorem acceptable_ledByZero : Acceptable ledByZero where
  leader := by decide
  replicas := by simp [ledByZero, kafkaPartition]
  isr := by simp [ledByZero, kafkaPartition]
  adding := by simp [ledByZero, kafkaPartition]
  removing := by simp [ledByZero, kafkaPartition]
  recovery := by decide
  elr := Or.inl ⟨rfl, rfl⟩

/-- The partition of `shrunk` with an eligible leader on record. -/
def shrunkEligible : MetadataImage := shrunk.apply (.v1PartitionElr ⟨"orders", 0, [2], []⟩)

/-- The same partition, led by broker 1 and without eligible leaders. -/
def withoutElr : KPartitionRecord := { ledByZero with leader := 1 }

theorem acceptable_withoutElr : Acceptable withoutElr :=
  { acceptable_ledByZero with leader := by decide }

/-- The first comes back without a leader, the second with the eligible leader from before. -/
theorem not_writesBack :
    (Built 0 shrunk ∧ DistinctTopicIds shrunk ∧ shrunk.topics["orders"]? = some ⟨"orders", 1, 1, 2⟩ ∧
      Acceptable ledByZero ∧
      ¬WritesBack (Codec.ofTable []) (HashOrder.sorted MapSite) shrunk "orders" ledByZero) ∧
    (Built 0 shrunkEligible ∧ DistinctTopicIds shrunkEligible ∧
      shrunkEligible.topics["orders"]? = some ⟨"orders", 1, 1, 2⟩ ∧ Acceptable withoutElr ∧
      ¬WritesBack (Codec.ofTable []) (HashOrder.sorted MapSite) shrunkEligible "orders" withoutElr) := by
  refine ⟨⟨⟨shrunkRun, rfl⟩, shrunk_distinct, by decide, acceptable_ledByZero, ?_⟩,
    ⟨shrunkRun ++ [.v1PartitionElr ⟨"orders", 0, [2], []⟩], rfl⟩, distinctTopicIds_of_nodup (by decide),
    by decide, acceptable_withoutElr, ?_⟩
  · rintro ⟨r, hr, p, hp, id, -, hwritten⟩
    have hread : fromKraft (Codec.ofTable []) (HashOrder.sorted MapSite) (.partition ledByZero) shrunk =
        .ok (.v1Partition ⟨"orders", 0, 0, [0, 1, 2], [0, 1], 4, [], [], [], 7⟩) := rfl
    obtain rfl := Except.ok.inj (hread.symm.trans hr)
    have hstored : (shrunk.apply (.v1Partition ⟨"orders", 0, 0, [0, 1, 2], [0, 1], 4, [], [], [], 7⟩)).partition
        "orders" 0 = some ⟨"orders", 0, 0, [0, 1, 2], [0, 1], 4, [], [], [], 7⟩ := by decide
    obtain rfl := Option.some.inj (hstored.symm.trans hp)
    exact absurd (partitionToKraft_eq_ok.mp hwritten).leader (by decide)
  · rintro ⟨r, hr, p, hp, id, -, hwritten⟩
    have hread : fromKraft (Codec.ofTable []) (HashOrder.sorted MapSite) (.partition withoutElr)
        shrunkEligible = .ok (.v1Partition ⟨"orders", 0, 1, [0, 1, 2], [0, 1], 4, [], [], [], 7⟩) := rfl
    obtain rfl := Except.ok.inj (hread.symm.trans hr)
    have hstored : (shrunkEligible.apply
        (.v1Partition ⟨"orders", 0, 1, [0, 1, 2], [0, 1], 4, [], [], [], 7⟩)).partition "orders" 0 =
          some ⟨"orders", 0, 1, [0, 1, 2], [0, 1], 4, [], [], [], 7⟩ := by decide
    obtain rfl := Option.some.inj (hstored.symm.trans hp)
    have helr : (shrunkEligible.apply
        (.v1Partition ⟨"orders", 0, 1, [0, 1, 2], [0, 1], 4, [], [], [], 7⟩)).elrOf "orders" 0 =
          ([2], []) := by decide
    have heligible := (partitionToKraft_eq_ok.mp hwritten).eligible
    rw [helr] at heligible
    cases optionMapM_eq_ok.mp heligible

end Krabka.Metadata.Kraft
