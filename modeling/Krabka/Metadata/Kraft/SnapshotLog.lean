import Krabka.Metadata.Kraft.LogPath
import Krabka.Metadata.Kraft.PartitionChange
import Krabka.Metadata.SnapshotAdmission

/-!
# `Metadata.Kraft.SnapshotLog` — a snapshot written to the log

A snapshot on the log is `to_records` with every record encoded against the image itself. Three parts of
it concern a partition. Its `V1Partition` already takes the eligible-leader and recovery state out of the
image, so after the partitions the replay has all of the partition state (`replays_partitions`). The
records of that state follow once more, each as a partition delta, and a decoded delta advances the
partition epoch (`Advanced`). A partition with neither state has no such delta and comes back as it was;
`snapshot_partitions_iff` says that no other does.
-/

namespace Krabka.Metadata.Kraft

open Collections FixedWidth Results MetadataImage

variable {codec : Codec}

/-! ## The blobs of a snapshot

Every record of the listing is encoded against the image itself. The listing is cut behind the partitions:
what comes later is the tail. -/

/-- The records of a snapshot that have a counterpart on the log. -/
def loggedRecords (ω : MapOrder) (img : MetadataImage) : List MetadataRecord :=
  (img.toRecords ω).filter (fun r => r.kind ≠ .kraftVersion ∧ r.kind ≠ .voters)

/-- Their blobs, each record encoded against the image that the snapshot is of. -/
def snapshotValues (codec : Codec) (ω : MapOrder) (img : MetadataImage) :
    Except TranslateError (List (List UInt8)) := do
  let blobs ← (loggedRecords ω img).mapM (toKraftValues codec ω · img)
  return blobs.flatten

/-- The blobs of a list of records frame the records that these translate to. -/
theorem framed_toKraftValues (hc : codec.Lawful) {ω : MapOrder} {img : MetadataImage}
    (hmv : FramesAtMax img) {records : List MetadataRecord} {blobss : List (List (List UInt8))}
    (h : List.Forall₂ (fun r blobs => toKraftValues codec ω r img = .ok blobs) records blobss) :
    ∃ krss, List.Forall₂ (fun r krs => toKraftRecords codec ω r img = .ok krs) records krss ∧
      List.Forall₂ (fun blob kr => ∀ ω img', fromKraftValue codec ω blob img' =
        fromKraft codec ω kr img') blobss.flatten krss.flatten := by
  -- induction on the records, each with the blobs that frame it
  induction h with
  | nil => exact ⟨[], .nil, .nil⟩
  | cons hblobs _ ih =>
      obtain ⟨krs, hkrs, hframed⟩ := replay_toKraftValues hc hmv hblobs
      obtain ⟨krss, hkrss, hrest⟩ := ih
      exact ⟨krs :: krss, .cons hkrs hkrss, List.rel_append hframed hrest⟩

/-- The replay of a snapshot is that of the values its records are written as. -/
theorem replay_snapshotValues (hc : codec.Lawful) {ω : MapOrder} {img : MetadataImage}
    (hmv : FramesAtMax img) {blobs : List (List UInt8)} (h : snapshotValues codec ω img = .ok blobs) :
    ∃ krss, (loggedRecords ω img).mapM (toKraftRecords codec ω · img) = .ok krss ∧
      ∀ ωs img', replay codec ωs img' blobs = replayWith (fromKraft codec) ωs img' krss.flatten := by
  obtain ⟨blobss, hblobss, h⟩ := bind_eq_ok.mp h
  rw [pure_eq_ok] at h
  subst h
  obtain ⟨krss, hkrss, hframed⟩ := framed_toKraftValues hc hmv (mapM_eq_ok.mp hblobss)
  exact ⟨krss, mapM_eq_ok.mpr hkrss, fun ωs img' => replayWith_congr hframed ωs img'⟩

/-- The records after the partitions. -/
def tailRecords (ω : MapOrder) (img : MetadataImage) : List MetadataRecord :=
  (((img.segments ω).drop 5).flatMap (·.2)).filter
    (fun r => r.kind ≠ .kraftVersion ∧ r.kind ≠ .voters)

/-- The kinds behind the partitions. -/
theorem kind_of_mem_tail {ω : MapOrder} {img : MetadataImage} :
    ∀ r ∈ tailRecords ω img, r.kind ∈ (snapshotKinds.drop 5).filter
      (fun k => k ≠ .kraftVersion ∧ k ≠ .voters) := by
  intro r hr
  obtain ⟨hr, hkind⟩ := List.mem_filter.mp hr
  exact List.mem_filter.mpr ⟨img.kind_of_mem_drop ω 5 r hr, hkind⟩

/-- Each piece of leader state in the image has its record in the tail. -/
theorem mem_tailRecords_elr {ω : MapOrder} {img : MetadataImage} {e : PartitionElrRecord} :
    .v1PartitionElr e ∈ tailRecords ω img ↔
      lookup2 img.partitionElr e.topic e.partition = some (e.eligibleLeaderReplicas, e.lastKnownElr) := by
  cases e
  rw [← mem_iter2 ω .partitionElr]
  simp [tailRecords, segments, MetadataRecord.kind]

/-- The recovery states that are listed are those of the image. -/
theorem mem_tailRecords_recovery {ω : MapOrder} {img : MetadataImage} {e : PartitionRecoveryRecord} :
    .v1PartitionRecovery e ∈ tailRecords ω img ↔
      lookup2 img.partitionRecovery e.topic e.partition = some e.state := by
  cases e
  rw [← mem_iter2 ω .partitionRecovery]
  simp [tailRecords, segments, MetadataRecord.kind]

/-- What is logged: topics and partitions stand in the middle. -/
theorem loggedRecords_split (ω : MapOrder) (img : MetadataImage) : loggedRecords ω img =
    ((img.segments ω).take 3).flatMap (·.2) ++ ((img.topicRecords ω).map .v1Topic ++
      ((img.partitionRecords ω).map .v1Partition ++ tailRecords ω img)) := by
  unfold loggedRecords tailRecords
  rw [toRecords_split, List.filter_append, List.filter_append, List.filter_append]
  have hhead : (((img.segments ω).take 3).flatMap (·.2)).filter
      (fun r => r.kind ≠ .kraftVersion ∧ r.kind ≠ .voters) =
        ((img.segments ω).take 3).flatMap (·.2) := by
    refine List.filter_eq_self.mpr (fun r hr => ?_)
    have hkinds : ∀ k ∈ snapshotKinds.take 3, k ≠ .kraftVersion ∧ k ≠ .voters := by decide
    exact decide_eq_true (hkinds r.kind (img.kind_of_mem_take ω 3 r hr))
  have hmap : ∀ {α : Type} (ctor : α → MetadataRecord) (l : List α),
      (∀ a, (ctor a).kind ≠ .kraftVersion ∧ (ctor a).kind ≠ .voters) →
      (l.map ctor).filter (fun r => r.kind ≠ .kraftVersion ∧ r.kind ≠ .voters) = l.map ctor := by
    intro α ctor l hctor
    refine List.filter_eq_self.mpr (fun r hr => ?_)
    obtain ⟨a, _, rfl⟩ := List.mem_map.mp hr
    exact decide_eq_true (hctor a)
  rw [hhead, hmap .v1Topic _ (by simp [MetadataRecord.kind]),
    hmap .v1Partition _ (by simp [MetadataRecord.kind])]

/-! ## Records beside the partitions

A record that writes none of the tables a partition is kept in comes back without touching them. -/

/-- The tables that hold the partition state. -/
def stateTables : List Table := [.partitions, .partitionElr, .partitionRecovery]

def partitionTables : List Table := .topics :: stateTables

/-- The record decodes against every image, and what it decodes to is not about partitions. -/
def Beside (codec : Codec) (kr : KraftMetadataRecord) : Prop :=
  ∀ img, ∃ r, Decodes codec kr img r ∧ ∀ t ∈ partitionTables, t ∉ r.kind.writes

def besideKinds : List RecordKind :=
  [.topicConfig, .clientMetricsConfig, .groupConfig] ++ directKinds

/-- The other kinds do not touch the partitions. -/
theorem besideKinds_writes : ∀ k ∈ besideKinds, ∀ t ∈ partitionTables, t ∉ k.writes := by decide

/-- Nor do the values that they are written as. -/
theorem beside_toKraftRecords (hc : codec.Lawful) {ω : MapOrder} {r : MetadataRecord}
    {img : MetadataImage} {krs : List KraftMetadataRecord} (hr : r.kind ∈ besideKinds)
    (h : toKraftRecords codec ω r img = .ok krs) : ∀ kr ∈ krs, Beside codec kr := by
  have hwrites := besideKinds_writes r.kind hr
  rcases List.mem_append.mp hr with hconfig | hdirect
  · cases r with
    | v1TopicConfig c | v1ClientMetricsConfig c | v1GroupConfig c =>
        injection h with h
        subst h
        intro kr hkr img'
        obtain ⟨d, _, rfl⟩ := List.mem_map.mp hkr
        exact ⟨_, fun _ => rfl, hwrites⟩
    | _ => simp [MetadataRecord.kind] at hconfig
  · obtain ⟨kr, r', rfl, hkind, -, hdec⟩ := comesBack_direct hc hdirect h
    intro kr' hkr' img'
    rw [List.mem_singleton.mp hkr']
    exact ⟨r', hdec img', hkind ▸ hwrites⟩

/-- They replay on every image and leave topics and partitions alone. -/
theorem replays_beside : ∀ {krs : List KraftMetadataRecord}, (∀ kr ∈ krs, Beside codec kr) →
    ∀ img, ∃ img', Replays codec img krs img' ∧ ∀ t ∈ partitionTables, t.get img' = t.get img := by
  intro krs
  induction krs with
  | nil => intro _ img; exact ⟨img, .nil _, fun _ _ => rfl⟩
  | cons kr rest ih =>
      intro h img
      obtain ⟨r, hdec, hwrites⟩ := h kr List.mem_cons_self img
      obtain ⟨img', hrest, htables⟩ := ih (fun kr' hkr' => h kr' (List.mem_cons_of_mem _ hkr'))
        (img.apply r)
      refine ⟨img', .cons hdec hrest, fun t ht => ?_⟩
      rw [htables t ht, apply_frame img r (hwrites t ht)]

/-! ## Topics

The topics come first, so that every later record finds its id. -/

/-- What a replica makes of a topic of the snapshot. -/
def createTopic (img : MetadataImage) (t : TopicRecord) : MetadataImage :=
  img.applyTopic (topicFromKraft ⟨t.name, t.topicId⟩ img)

/-- The topics of a snapshot decode whatever the image. -/
theorem replays_createTopic {ω : MapOrder} {img : MetadataImage} {ts : List TopicRecord}
    {krss : List (List KraftMetadataRecord)}
    (h : (ts.map .v1Topic).mapM (toKraftRecords codec ω · img) = .ok krss) (start : MetadataImage) :
    Replays codec start krss.flatten (ts.foldl createTopic start) := by
  have hall := mapM_eq_ok.mp h
  rw [List.forall₂_map_left_iff] at hall
  clear h
  induction hall generalizing start with
  | nil => exact .nil _
  | cons ht _ ih =>
      rw [List.flatten_cons, ← Except.ok.inj ht]
      exact .cons (fun _ => rfl) (ih _)

/-- Replaying the topics gives every one its id back. -/
theorem sameTopicIds_createTopic {img start : MetadataImage} (hw : img.WellFormed) (ω : MapOrder)
    (hempty : start.topics = ∅) :
    SameTopicIds img ((img.topicRecords ω).foldl createTopic start) := by
  intro name
  -- creating a topic is a write of its id at its name
  refine get_foldl_put (fun (img : MetadataImage) (k : String) => img.topics[k]?.map (·.topicId))
    TopicRecord.name TopicRecord.topicId (fun k => img.topics[k]?.map (·.topicId)) ?_ ?_ ?_ ?_ name
  · intro img' t k
    unfold createTopic
    rw [topics_applyTopic, apply_ite (Option.map _)]
    rfl
  · intro k
    rw [hempty, get_empty]
    rfl
  · intro t ht
    obtain ⟨⟨k, t'⟩, he, rfl⟩ := List.mem_map.mp ht
    have hget := (mem_iter ω _).mp he
    show img.topics[t'.name]?.map _ = _
    rw [hw.topics_keyed k t' hget, hget]
    rfl
  · intro k id hid
    obtain ⟨t, ht, _⟩ := Option.map_eq_some_iff.mp hid
    exact ⟨t, List.mem_map.mpr ⟨(k, t), (mem_iter ω _).mpr ht, rfl⟩, hw.topics_keyed k t ht⟩

/-- Creating topics touches the tables of topics only. -/
theorem foldl_createTopic_frame {t : Table} (ht : t ∉ RecordKind.writes .topic) (ts : List TopicRecord)
    (img : MetadataImage) : t.get (ts.foldl createTopic img) = t.get img := by
  induction ts generalizing img with
  | nil => rfl
  | cons tr rest ih =>
      rw [List.foldl_cons, ih]
      exact apply_frame img (.v1Topic (topicFromKraft ⟨tr.name, tr.topicId⟩ img)) ht

/-! ## Partitions

`Rebuilding` says how far the replay has come: the partitions so far are there with all of their state, and
nothing else is. -/

/-- What readers see of a partition: the record, the eligible leaders and the recovery state. -/
def partitionState (img : MetadataImage) (topic : String) (idx : Int32) :
    Option PartitionRecord × PartitionElrState × LeaderRecoveryState :=
  (img.partition topic idx, img.elrOf topic idx, img.leaderRecoveryState topic idx)

def SamePartitionState (img img' : MetadataImage) : Prop :=
  ∀ topic idx, partitionState img' topic idx = partitionState img topic idx

/-- The state of a partition is read off these tables. -/
theorem partitionState_of_tables {img img' : MetadataImage}
    (h : ∀ t ∈ stateTables, t.get img' = t.get img) : SamePartitionState img img' := by
  intro topic idx
  have hpartitions : img'.partitions = img.partitions := h .partitions (by decide)
  have helr : img'.partitionElr = img.partitionElr := h .partitionElr (by decide)
  have hrecovery : img'.partitionRecovery = img.partitionRecovery := h .partitionRecovery (by decide)
  unfold partitionState MetadataImage.partition elrOf leaderRecoveryState
  rw [hpartitions, helr, hrecovery]

/-- An update is seen at its partition and nowhere else. -/
theorem partitionState_applyPartitionUpdate (img : MetadataImage) (u : PartitionUpdateRecord)
    (topic : String) (idx : Int32) :
    partitionState (img.applyPartitionUpdate u) topic idx =
      if u.partition.topic = topic ∧ u.partition.partition = idx then
        (some u.partition, elrAfter u (img.elrOf topic idx),
          u.recoveryState.getD (img.leaderRecoveryState topic idx))
      else partitionState img topic idx := by
  unfold partitionState
  rw [partition_applyPartitionUpdate, elrOf_applyPartitionUpdate,
    leaderRecoveryState_applyPartitionUpdate]
  split <;> rfl

/-- The partition has no eligible leaders on record, and its leader is not recovering. -/
def NoLeaderState (img : MetadataImage) (topic : String) (idx : Int32) : Prop :=
  img.elrOf topic idx = ([], []) ∧ img.leaderRecoveryState topic idx = .recovered

/-- What a partition of the snapshot does to a replica: an update that writes the leader state there is,
    and leaves the stored state where there is none. -/
theorem apply_fromLog_update (img img' : MetadataImage) (p : PartitionRecord) :
    ∃ u : PartitionUpdateRecord, u.partition = p ∧
      img'.apply (partitionFromLog img p) = img'.applyPartitionUpdate u ∧
      (∀ stored, stored = img.elrOf p.topic p.partition ∨ stored = ([], []) →
        elrAfter u stored = img.elrOf p.topic p.partition) ∧
      ∀ stored, stored = img.leaderRecoveryState p.topic p.partition ∨ stored = .recovered →
        u.recoveryState.getD stored = img.leaderRecoveryState p.topic p.partition := by
  unfold partitionFromLog
  -- three shapes: both states written, the recovery state alone, or neither
  by_cases hne : (!(img.elrOf p.topic p.partition).1.isEmpty ||
      !(img.elrOf p.topic p.partition).2.isEmpty) = true
  · refine ⟨⟨p, some (img.elrOf p.topic p.partition).1, some (img.elrOf p.topic p.partition).2,
      some (img.leaderRecoveryState p.topic p.partition)⟩, rfl, ?_, fun _ _ => rfl, fun _ _ => rfl⟩
    simp only [hne, Bool.true_or, if_true, apply]
  · have hnone : img.elrOf p.topic p.partition = ([], []) := by
      simpa [Prod.ext_iff] using hne
    have hkept : ∀ stored : PartitionElrState,
        stored = img.elrOf p.topic p.partition ∨ stored = ([], []) →
          stored = img.elrOf p.topic p.partition := by
      intro stored hstored
      rw [hnone] at hstored ⊢
      exact hstored.elim id id
    cases hstate : img.leaderRecoveryState p.topic p.partition with
    | recovering =>
        refine ⟨⟨p, none, none, some .recovering⟩, rfl, ?_, hkept, fun _ _ => rfl⟩
        simp only [hne, beq_self_eq_true, Bool.or_true, if_true, Bool.false_eq_true, if_false, apply]
    | recovered =>
        refine ⟨⟨p, none, none, none⟩, rfl, ?_, hkept, fun stored hstored => hstored.elim id id⟩
        simp only [hne, Bool.false_or, beq_iff_eq, reduceCtorEq, if_false, apply, applyPartitionUpdate]

/-- A partition of the snapshot restores its whole state, over none as over the same. -/
theorem partitionState_fromLog {img img' : MetadataImage} {p : PartitionRecord}
    (hp : img.partition p.topic p.partition = some p)
    (hbefore : partitionState img' p.topic p.partition = partitionState img p.topic p.partition ∨
      NoLeaderState img' p.topic p.partition) (topic : String) (idx : Int32) :
    partitionState (img'.apply (partitionFromLog img p)) topic idx =
      if p.topic = topic ∧ p.partition = idx then partitionState img topic idx
      else partitionState img' topic idx := by
  obtain ⟨u, rfl, happly, helr, hrecovery⟩ := apply_fromLog_update img img' p
  rw [happly, partitionState_applyPartitionUpdate]
  split
  · rename_i hself
    obtain ⟨rfl, rfl⟩ := hself
    have helr' := helr (img'.elrOf u.partition.topic u.partition.partition)
      (hbefore.imp (fun h => congrArg (·.2.1) h) (·.1))
    have hrecovery' := hrecovery (img'.leaderRecoveryState u.partition.topic u.partition.partition)
      (hbefore.imp (fun h => congrArg (·.2.2) h) (·.2))
    unfold partitionState
    rw [helr', hrecovery', hp]
  · rfl

/-- On the way through the partitions `todo`: every partition has the state it has in `img`, or has no
    leader state yet and is still to come. -/
def Rebuilding (img : MetadataImage) (todo : List PartitionRecord) (img' : MetadataImage) : Prop :=
  ∀ topic idx, partitionState img' topic idx = partitionState img topic idx ∨
    (NoLeaderState img' topic idx ∧ ∃ p ∈ todo, p.topic = topic ∧ p.partition = idx)

/-- **One more record rebuilds one more partition.** -/
theorem Rebuilding.step {img img' : MetadataImage} {p : PartitionRecord} {todo : List PartitionRecord}
    (hp : img.partition p.topic p.partition = some p) (h : Rebuilding img (p :: todo) img') :
    Rebuilding img todo (img'.apply (partitionFromLog img p)) := by
  have hstate := partitionState_fromLog hp ((h p.topic p.partition).imp id (·.1))
  intro topic idx
  -- this partition is done now; any other is where it was
  by_cases hself : p.topic = topic ∧ p.partition = idx
  · left
    rw [hstate, if_pos hself]
  · have hother : partitionState (img'.apply (partitionFromLog img p)) topic idx =
        partitionState img' topic idx := by
      rw [hstate, if_neg hself]
    rcases h topic idx with hdone | ⟨hnone, q, hq, hkey⟩
    · exact Or.inl (hother.trans hdone)
    · right
      refine ⟨?_, q, ?_, hkey⟩
      · unfold NoLeaderState at hnone ⊢
        rw [show MetadataImage.elrOf _ topic idx = _ from congrArg (·.2.1) hother,
          show MetadataImage.leaderRecoveryState _ topic idx = _ from congrArg (·.2.2) hother]
        exact hnone
      · rcases List.mem_cons.mp hq with rfl | hq
        · exact absurd hkey hself
        · exact hq

/-- Before the partitions: there are none, and each that `img` has is to come. -/
theorem rebuilding_of_empty {img start : MetadataImage} {todo : List PartitionRecord}
    (hempty : ∀ topic idx, partitionState start topic idx = (none, ([], []), .recovered))
    (htodo : ∀ topic idx p, img.partition topic idx = some p →
      p ∈ todo ∧ p.topic = topic ∧ p.partition = idx)
    (hnone : ∀ topic idx, img.partition topic idx = none → NoLeaderState img topic idx) :
    Rebuilding img todo start := by
  intro topic idx
  cases hp : img.partition topic idx with
  | some p =>
      right
      exact ⟨⟨congrArg (·.2.1) (hempty topic idx), congrArg (·.2.2) (hempty topic idx)⟩, p,
        htodo topic idx p hp⟩
  | none =>
      left
      obtain ⟨helr, hrecovery⟩ := hnone topic idx hp
      rw [hempty]
      unfold partitionState
      rw [hp, helr, hrecovery]

/-- No partition, no state of it. -/
theorem noLeaderState_of_none {img : MetadataImage} (hi : img.Integrity) {topic : String} {idx : Int32}
    (hp : img.partition topic idx = none) : NoLeaderState img topic idx := by
  constructor
  · unfold elrOf
    cases hstored : lookup2 img.partitionElr topic idx with
    | none => rfl
    | some elr =>
        obtain ⟨p, hp'⟩ := hi.elr_exists topic idx elr hstored
        rw [hp] at hp'
        cases hp'
  · unfold leaderRecoveryState
    cases hstored : lookup2 img.partitionRecovery topic idx with
    | none => rfl
    | some state =>
        obtain ⟨p, hp'⟩ := hi.recovery_exists topic idx state hstored
        rw [hp] at hp'
        cases hp'

/-- At the start nothing is rebuilt. -/
theorem rebuilding_start {img start : MetadataImage} (hw : img.WellFormed) (hi : img.Integrity)
    (hempty : ∀ topic idx, partitionState start topic idx = (none, ([], []), .recovered))
    (ω : MapOrder) : Rebuilding img (img.partitionRecords ω) start :=
  rebuilding_of_empty hempty
    (fun topic idx p hp => ⟨List.mem_map.mpr ⟨(topic, idx, p), (mem_iter2 ω _).mpr hp, rfl⟩,
      hw.partitions_keyed topic idx p hp⟩)
    (fun _ _ hp => noLeaderState_of_none hi hp)

/-- A partition changes no id. -/
theorem SameTopicIds.partitionFromLog (img img' : MetadataImage) (p : PartitionRecord) :
    SameTopicIds img' (img'.apply (partitionFromLog img p)) := by
  unfold Kraft.partitionFromLog
  simp only []
  split
  · exact .applyPartitionUpdate img' _
  · exact .applyPartition img' p

/-- **The partitions of a snapshot bring back all of the partition state.** -/
theorem replays_partitions {img : MetadataImage} (hd : img.DistinctTopicIds) {ω : MapOrder}
    {ps : List PartitionRecord} {krss : List (List KraftMetadataRecord)}
    (h : List.Forall₂ (fun p krs => toKraftRecords codec ω (.v1Partition p) img = .ok krs) ps krss)
    (hps : ∀ p ∈ ps, img.partition p.topic p.partition = some p) {img' : MetadataImage}
    (hw : img'.WellFormed) (hids : SameTopicIds img img') (hr : Rebuilding img ps img') :
    ∃ img'', Replays codec img' krss.flatten img'' ∧ img''.WellFormed ∧ SameTopicIds img img'' ∧
      SamePartitionState img img'' := by
  induction h generalizing img' with
  | nil =>
      refine ⟨img', .nil _, hw, hids, fun topic idx => ?_⟩
      -- nothing is left to come, so every partition is done
      rcases hr topic idx with hdone | ⟨_, p, hp, _⟩
      · exact hdone
      · cases hp
  | @cons p krs ps krss hp _ ih =>
      obtain ⟨id, hid, hp⟩ := bind_eq_ok.mp hp
      obtain ⟨kp, hkp, hp⟩ := bind_eq_ok.mp hp
      rw [pure_eq_ok] at hp
      subst hp
      obtain ⟨t, ht, rfl⟩ := get_of_topicIdOf hid
      have hdec : Decodes codec (.partition kp) img' (partitionFromLog img p) :=
        decodes_partition hkp (hids.topicNameForId hw hd ht)
      obtain ⟨img'', hrest, hend⟩ := ih (fun q hq => hps q (List.mem_cons_of_mem _ hq))
        (hw.step (partitionFromLog img p)) (hids.trans (.partitionFromLog img img' p))
        (hr.step (hps p List.mem_cons_self))
      exact ⟨img'', .cons hdec hrest, hend⟩

/-! ## Deltas after the partitions

What a delta can do to a partition that is already complete is to raise its epoch. `Advanced` is that
relation; it is kept along the tail. -/

/-- Topics keep their ids, and no partition goes back in its epoch. -/
structure Advanced (img img' : MetadataImage) : Prop where
  ids : SameTopicIds img img'
  epochs : ∀ topic idx p, img.partition topic idx = some p →
    ∃ p', img'.partition topic idx = some p' ∧ p.partitionEpoch.toInt ≤ p'.partitionEpoch.toInt

theorem Advanced.refl (img : MetadataImage) : Advanced img img :=
  ⟨.refl img, fun _ _ p hp => ⟨p, hp, le_refl _⟩⟩

/-- Partitions that went ahead twice went ahead. -/
theorem Advanced.trans {a b c : MetadataImage} (h : Advanced a b) (h' : Advanced b c) :
    Advanced a c := by
  refine ⟨h.ids.trans h'.ids, fun topic idx p hp => ?_⟩
  obtain ⟨p', hp', hle⟩ := h.epochs topic idx p hp
  obtain ⟨p'', hp'', hle'⟩ := h'.epochs topic idx p' hp'
  exact ⟨p'', hp'', hle.trans hle'⟩

/-- A decoded delta advances its partition by one epoch and leaves the other partitions alone. -/
theorem partition_of_partitionChange {ω : MapOrder} {img : MetadataImage} (hw : img.WellFormed)
    {c : KPartitionChangeRecord} {r : MetadataRecord}
    (h : fromKraft codec ω (.partitionChange c) img = .ok r) :
    ∃ topic current p, img.topicNameForId ω c.topicId = some topic ∧
      img.partition topic c.partitionId = some current ∧
      p.partitionEpoch.toInt = current.partitionEpoch.toInt + 1 ∧ SameTopicIds img (img.apply r) ∧
      ∀ name i, (img.apply r).partition name i =
        if topic = name ∧ c.partitionId = i then some p else img.partition name i := by
  obtain ⟨topic, current, u, htopic, hcurrent, hread, rfl⟩ := fromKraft_partitionChange.mp h
  obtain ⟨hkey, hidx⟩ := hw.partitions_keyed _ _ _ hcurrent
  rw [apply_changeRecord hread]
  refine ⟨topic, current, u.partition, htopic, hcurrent,
    nextEpoch_eq_ok.mp hread.partition.partitionEpoch, .applyPartitionUpdate img u, fun name i => ?_⟩
  rw [partition_applyPartitionUpdate, hread.partition.topic, hread.partition.index, hkey, hidx]

/-- The records of the snapshot after its partitions: deltas, and records beside the partitions. -/
def TailRecord (codec : Codec) (kr : KraftMetadataRecord) : Prop :=
  Beside codec kr ∨ ∃ c, kr = .partitionChange c

/-- A state record names its topic and partition. -/
theorem names_of_partitionStateToKraft {img : MetadataImage} {topic : String} {idx : Int32}
    {state : Int8} {eligible lastKnown : Option (List NodeId)} {c : KPartitionChangeRecord}
    (h : partitionStateToKraft img topic idx state eligible lastKnown = .ok c) :
    c.partitionId = idx ∧ ∃ t, img.topics[topic]? = some t ∧ c.topicId = t.topicId := by
  obtain ⟨id, hid, h⟩ := bind_eq_ok.mp h
  obtain ⟨_, _, h⟩ := bind_eq_ok.mp h
  obtain ⟨_, _, h⟩ := bind_eq_ok.mp h
  rw [pure_eq_ok] at h
  subst h
  obtain ⟨t, ht, htid⟩ := get_of_topicIdOf hid
  exact ⟨rfl, t, ht, htid.symm⟩

/-- A delta in the tail is there for some leader state. -/
theorem beside_or_delta (hc : codec.Lawful) {ω : MapOrder} {img : MetadataImage} (hw : img.WellFormed)
    {tail : List (List KraftMetadataRecord)}
    (h : (tailRecords ω img).mapM (toKraftRecords codec ω · img) = .ok tail) :
    ∀ kr ∈ tail.flatten, Beside codec kr ∨
      ((∃ c, kr = .partitionChange c) ∧ ∃ topic idx, ¬NoLeaderState img topic idx) := by
  intro kr hkr
  obtain ⟨krs, hkrs, hkr⟩ := List.mem_flatten.mp hkr
  obtain ⟨r, hr, hkrs⟩ := exists_of_mem_mapM h hkrs
  have hkinds : ∀ k ∈ (snapshotKinds.drop 5).filter (fun k => k ≠ .kraftVersion ∧ k ≠ .voters),
      k ∈ besideKinds ∨ k = .partitionElr ∨ k = .partitionRecovery := by decide
  rcases hkinds r.kind (kind_of_mem_tail r hr) with hbeside | hdelta
  · exact Or.inl (beside_toKraftRecords hc hbeside hkrs kr hkr)
  · right
    cases r with
    | v1PartitionElr e =>
        obtain ⟨c, _, hkrs⟩ := bind_eq_ok.mp hkrs
        rw [← pure_eq_ok.mp hkrs] at hkr
        refine ⟨⟨c, List.mem_singleton.mp hkr⟩, e.topic, e.partition, fun hnone => ?_⟩
        have hstored := mem_tailRecords_elr.mp hr
        have hne := hw.elr_stored _ _ _ hstored
        -- two empty lists are never stored
        have hnil := hnone.1
        unfold elrOf at hnil
        rw [hstored, Option.getD_some] at hnil
        rw [hnil] at hne
        cases hne
    | v1PartitionRecovery e =>
        obtain ⟨c, _, hkrs⟩ := bind_eq_ok.mp hkrs
        rw [← pure_eq_ok.mp hkrs] at hkr
        refine ⟨⟨c, List.mem_singleton.mp hkr⟩, e.topic, e.partition, fun hnone => ?_⟩
        have hstored := mem_tailRecords_recovery.mp hr
        have hrecovering := hw.recovery_stored _ _ _ hstored
        -- nor is a recovered leader
        have hrecovered := hnone.2
        unfold leaderRecoveryState at hrecovered
        rw [hstored, Option.getD_some, hrecovering] at hrecovered
        cases hrecovered
    | _ => simp [MetadataRecord.kind] at hdelta

/-- A record of the tail only takes partitions ahead. -/
theorem Advanced.step {ω : MapOrder} {img : MetadataImage} (hw : img.WellFormed)
    {kr : KraftMetadataRecord} (hkr : TailRecord codec kr) {r : MetadataRecord}
    (h : fromKraft codec ω kr img = .ok r) : Advanced img (img.apply r) := by
  rcases hkr with hbeside | ⟨c, rfl⟩
  · obtain ⟨r', hdec, hwrites⟩ := hbeside img
    rw [Except.ok.inj (h.symm.trans (hdec ω))]
    have htopics : (img.apply r').topics = img.topics :=
      apply_frame img r' (hwrites .topics (by decide))
    have hpartitions : (img.apply r').partitions = img.partitions :=
      apply_frame img r' (hwrites .partitions (by decide))
    refine ⟨fun name => by rw [htopics], fun topic idx p hp => ⟨p, ?_, le_refl _⟩⟩
    unfold MetadataImage.partition
    rw [hpartitions]
    exact hp
  · obtain ⟨topic, current, p, _, hcurrent, hepoch, hids, hpartition⟩ :=
      partition_of_partitionChange hw h
    refine ⟨hids, fun name i q hq => ?_⟩
    rw [hpartition]
    split
    · rename_i hself
      rw [← hself.1, ← hself.2, hcurrent] at hq
      injection hq with hq
      subst hq
      exact ⟨p, rfl, by omega⟩
    · exact ⟨q, hq, le_refl _⟩

/-- So does a run of such records. -/
theorem Advanced.replay : ∀ {krs : List KraftMetadataRecord}, (∀ kr ∈ krs, TailRecord codec kr) →
    ∀ {ω : ℕ → MapOrder} {img img' : MetadataImage}, img.WellFormed →
      replayWith (fromKraft codec) ω img krs = .ok img' → Advanced img img' := by
  intro krs
  induction krs with
  | nil =>
      intro _ ω img img' _ h
      injection h with h
      exact h ▸ .refl img
  | cons kr rest ih =>
      intro htail ω img img' hw h
      obtain ⟨r, hr, h⟩ := bind_eq_ok.mp h
      have hstep := Advanced.step hw (htail kr List.mem_cons_self) hr
      exact hstep.trans (ih (fun kr' hkr' => htail kr' (List.mem_cons_of_mem _ hkr')) (hw.step r) h)

/-- A replay that holds a delta of a partition ends in a later epoch of it. -/
theorem epoch_lt_of_delta {img start end' : MetadataImage} (hd : img.DistinctTopicIds)
    (hw : start.WellFormed) (hids : SameTopicIds img start) {krs : List KraftMetadataRecord}
    (htail : ∀ kr ∈ krs, TailRecord codec kr) {ω : ℕ → MapOrder}
    (h : replayWith (fromKraft codec) ω start krs = .ok end') {c : KPartitionChangeRecord}
    (hc : .partitionChange c ∈ krs) {topic : String} {t : TopicRecord}
    (ht : img.topics[topic]? = some t) (hid : c.topicId = t.topicId) {p p' : PartitionRecord}
    (hp : start.partition topic c.partitionId = some p)
    (hp' : end'.partition topic c.partitionId = some p') :
    p.partitionEpoch.toInt < p'.partitionEpoch.toInt := by
  -- before the delta the epoch does not fall, at the delta it rises, after it it does not fall
  obtain ⟨before, after, rfl⟩ := List.append_of_mem hc
  rw [replayWith_append] at h
  obtain ⟨mid, hmid, h⟩ := bind_eq_ok.mp h
  obtain ⟨r, hr, h⟩ := bind_eq_ok.mp h
  have hwmid := wellFormed_replayWith hw hmid
  have hbefore := Advanced.replay (fun kr hkr => htail kr (List.mem_append_left _ hkr)) hw hmid
  have hafter := Advanced.replay
    (fun kr hkr => htail kr (List.mem_append_right _ (List.mem_cons_of_mem _ hkr))) (hwmid.step r) h
  obtain ⟨q, hq, hle⟩ := hbefore.epochs topic c.partitionId p hp
  obtain ⟨topic', current, next, htopic, hcurrent, hepoch, -, hpartition⟩ :=
    partition_of_partitionChange hwmid hr
  -- the id still leads to the topic it had in `img`
  have hname : some topic' = some topic := by
    rw [← htopic, hid]
    exact (hids.trans hbefore.ids).topicNameForId hwmid hd ht _
  injection hname with hname
  subst hname
  rw [hq] at hcurrent
  injection hcurrent with hcurrent
  subst hcurrent
  obtain ⟨q', hq', hle'⟩ := hafter.epochs topic' c.partitionId next
    ((hpartition _ _).trans (if_pos ⟨rfl, rfl⟩))
  rw [hp'] at hq'
  injection hq' with hq'
  subst hq'
  omega

/-! ## The snapshot law

A partition comes back exactly when the tail has no delta for it, and it has one for a partition with eligible
leaders or a recovery state. -/

/-- The replay up to the partitions has all of the partition state, and the encoded tail is ahead. -/
theorem replays_before_tail (hc : codec.Lawful) {img : MetadataImage} (hadm : Admitted img)
    (hd : img.DistinctTopicIds) {ω : MapOrder} {krss : List (List KraftMetadataRecord)}
    (h : (loggedRecords ω img).mapM (toKraftRecords codec ω · img) = .ok krss) (clusterId : Uuid) :
    ∃ before tail restored, krss.flatten = before ++ tail.flatten ∧
      (tailRecords ω img).mapM (toKraftRecords codec ω · img) = .ok tail ∧
      Replays codec (new clusterId) before restored ∧ restored.WellFormed ∧
      SameTopicIds img restored ∧ SamePartitionState img restored := by
  have hw := wellFormed_of_admitted hadm
  rw [loggedRecords_split] at h
  obtain ⟨heads, krss', hheads, h', rfl⟩ := mapM_append_eq_ok.mp h
  obtain ⟨topics, krss'', htopics, h'', rfl⟩ := mapM_append_eq_ok.mp h'
  obtain ⟨parts, tail, hparts, htail, rfl⟩ := mapM_append_eq_ok.mp h''
  -- brokers, controllers and their configurations
  have hbeside : ∀ kr ∈ heads.flatten, Beside codec kr := by
    intro kr hkr
    obtain ⟨krs, hkrs, hkr⟩ := List.mem_flatten.mp hkr
    obtain ⟨r, hr, hkrs⟩ := exists_of_mem_mapM hheads hkrs
    have hkinds : ∀ k ∈ snapshotKinds.take 3, k ∈ besideKinds := by decide
    exact beside_toKraftRecords hc (hkinds r.kind (img.kind_of_mem_take ω 3 r hr)) hkrs kr hkr
  obtain ⟨start, hstart, htables⟩ := replays_beside hbeside (new clusterId)
  have hwstart := wellFormed_replayWith (wellFormed_new clusterId) (hstart (fun _ => ω))
  -- topics
  have hcreate := replays_createTopic htopics start
  have hwcreated := wellFormed_replayWith hwstart (hcreate (fun _ => ω))
  have hids := sameTopicIds_createTopic hw ω (htables .topics (by decide))
  have hempty : ∀ topic idx, partitionState ((img.topicRecords ω).foldl createTopic start) topic idx =
      (none, ([], []), .recovered) := by
    have hsame : SamePartitionState (new clusterId)
        ((img.topicRecords ω).foldl createTopic start) := by
      refine partitionState_of_tables (fun t ht => ?_)
      have hwrites : ∀ t ∈ stateTables, t ∉ RecordKind.writes .topic := by decide
      rw [foldl_createTopic_frame (hwrites t ht), htables t (List.mem_cons_of_mem _ ht)]
    intro topic idx
    rw [hsame]
    unfold partitionState MetadataImage.partition elrOf leaderRecoveryState
    simp [new, lookup2_empty]
  -- partitions
  have hall := mapM_eq_ok.mp hparts
  rw [List.forall₂_map_left_iff] at hall
  have hkeyed : ∀ p ∈ img.partitionRecords ω, img.partition p.topic p.partition = some p := by
    intro p hp
    obtain ⟨⟨topic, idx, p'⟩, he, rfl⟩ := List.mem_map.mp hp
    obtain ⟨htopic, hidx⟩ := partitionRecords_keyed ω hw _ he
    rw [htopic, hidx]
    exact (mem_iter2 ω _).mp he
  obtain ⟨restored, hrestore, hend⟩ := replays_partitions hd hall hkeyed hwcreated hids
    (rebuilding_start hw (integrity_of_admitted hadm) hempty ω)
  refine ⟨heads.flatten ++ (topics.flatten ++ parts.flatten), tail, restored, ?_, htail,
    hstart.append (hcreate.append hrestore), hend⟩
  simp only [List.flatten_append, List.append_assoc]

/-- If the tail replays to the partition state it started from, no partition has leader state that the
    tail writes again: its delta would show in the epoch. -/
theorem no_partition_of_delta {img restored img' : MetadataImage} (hd : img.DistinctTopicIds)
    (hw : restored.WellFormed) (hids : SameTopicIds img restored)
    (hstate : SamePartitionState img restored) (hsame : SamePartitionState img img') {ω : MapOrder}
    {tail : List (List KraftMetadataRecord)}
    (htail : (tailRecords ω img).mapM (toKraftRecords codec ω · img) = .ok tail)
    (hkinds : ∀ kr ∈ tail.flatten, TailRecord codec kr) {ωs : ℕ → MapOrder}
    (h : replayWith (fromKraft codec) ωs restored tail.flatten = .ok img') {r : MetadataRecord}
    (hr : r ∈ tailRecords ω img) {topic : String} {idx : Int32} {state : Int8}
    {eligible lastKnown : Option (List NodeId)}
    (henc : toKraftRecords codec ω r img = (do
      return [.partitionChange (← partitionStateToKraft img topic idx state eligible lastKnown)])) :
    img.partition topic idx = none := by
  obtain ⟨krs, hkrs, hok⟩ := mapM_ok_of_mem htail hr
  obtain ⟨c, hc, hok⟩ := bind_eq_ok.mp (henc.symm.trans hok)
  obtain ⟨rfl, t, ht, hid⟩ := names_of_partitionStateToKraft hc
  have hmem : .partitionChange c ∈ tail.flatten := by
    refine List.mem_flatten.mpr ⟨krs, hkrs, ?_⟩
    rw [← pure_eq_ok.mp hok]
    exact List.mem_singleton_self _
  cases hp : img.partition topic c.partitionId with
  | none => rfl
  | some p =>
      have hstart : restored.partition topic c.partitionId = some p :=
        (congrArg (·.1) (hstate topic c.partitionId)).trans hp
      have hend : img'.partition topic c.partitionId = some p :=
        (congrArg (·.1) (hsame topic c.partitionId)).trans hp
      have hlt := epoch_lt_of_delta hd hw hids hkinds h hmem ht hid hstart hend
      exact absurd hlt (lt_irrefl _)

/-- **Snapshots on the log and partition state.** Replaying the blobs of a snapshot gives every partition
    back as it was exactly when no partition has eligible leaders on record or a recovering leader. -/
theorem snapshot_partitions_iff (hc : codec.Lawful) {img : MetadataImage} (hadm : Admitted img)
    (hd : img.DistinctTopicIds) (hmv : FramesAtMax img) {ω : MapOrder} {blobs : List (List UInt8)}
    (h : snapshotValues codec ω img = .ok blobs) (ωs : ℕ → MapOrder) :
    (∃ img', replay codec ωs (new img.clusterId) blobs = .ok img' ∧ SamePartitionState img img') ↔
      ∀ topic idx, NoLeaderState img topic idx := by
  obtain ⟨krss, hkrss, hreplay⟩ := replay_snapshotValues hc hmv h
  obtain ⟨before, tail, restored, hsplit, htail, hbefore, hw, hids, hstate⟩ :=
    replays_before_tail hc hadm hd hkrss img.clusterId
  have hrest : ∀ img', replay codec ωs (new img.clusterId) blobs = .ok img' ↔
      replayWith (fromKraft codec) (fun n => ωs (n + before.length)) restored tail.flatten =
        .ok img' := by
    intro img'
    rw [hreplay, hsplit, replayWith_append, hbefore ωs, ok_bind]
  have hkinds := beside_or_delta hc (wellFormed_of_admitted hadm) htail
  simp only [hrest]
  constructor
  · rintro ⟨img', himg', hsame⟩ topic idx
    have htails : ∀ kr ∈ tail.flatten, TailRecord codec kr :=
      fun kr hkr => (hkinds kr hkr).imp id (·.1)
    have hi := integrity_of_admitted hadm
    constructor
    · unfold elrOf
      cases hstored : lookup2 img.partitionElr topic idx with
      | none => rfl
      | some elr =>
          have hr : .v1PartitionElr ⟨topic, idx, elr.1, elr.2⟩ ∈ tailRecords ω img :=
            mem_tailRecords_elr.mpr hstored
          obtain ⟨p, hp⟩ := hi.elr_exists topic idx elr hstored
          rw [no_partition_of_delta hd hw hids hstate hsame htail htails himg' hr rfl] at hp
          cases hp
    · unfold leaderRecoveryState
      cases hstored : lookup2 img.partitionRecovery topic idx with
      | none => rfl
      | some state =>
          have hr : .v1PartitionRecovery ⟨topic, idx, state⟩ ∈ tailRecords ω img :=
            mem_tailRecords_recovery.mpr hstored
          obtain ⟨p, hp⟩ := hi.recovery_exists topic idx state hstored
          rw [no_partition_of_delta hd hw hids hstate hsame htail htails himg' hr rfl] at hp
          cases hp
  · -- no leader state, no delta: the tail leaves the partitions alone
    intro hnone
    have hbeside : ∀ kr ∈ tail.flatten, Beside codec kr := by
      intro kr hkr
      rcases hkinds kr hkr with hbeside | ⟨-, topic, idx, hstate⟩
      · exact hbeside
      · exact absurd (hnone topic idx) hstate
    obtain ⟨img', himg', htables⟩ := replays_beside hbeside restored
    refine ⟨img', himg' _, fun topic idx => ?_⟩
    rw [partitionState_of_tables (fun t ht => htables t (List.mem_cons_of_mem _ ht)), hstate]

/-- The partition of `shrunk` with its second replica still eligible. -/
def eligible : MetadataImage := shrunk.apply (.v1PartitionElr ⟨"orders", 0, [2], []⟩)

theorem eligible_admitted : Admitted eligible := .step shrunk_admitted (by decide)

/-- The bytes of small values: a 32-bit integer, and the id 1. -/
def i32Bytes (n : UInt8) : List UInt8 := [0, 0, 0, n]

def idBytes : List UInt8 := List.replicate 15 0 ++ [1]

def topicBlob : List UInt8 := [1, 2, 0] ++ compactString "orders" ++ idBytes ++ [0]

/-- The partition of `shrunk` and then its tagged fields. -/
def partitionBlob (tagged : List UInt8) : List UInt8 :=
  [1, 3, 2] ++ i32Bytes 0 ++ idBytes ++ [3] ++ i32Bytes 1 ++ i32Bytes 2 ++ [2] ++ i32Bytes 1 ++ [1, 1] ++
    i32Bytes 1 ++ i32Bytes 4 ++ i32Bytes 7 ++ [1] ++ tagged

/-- The second replica as the eligible leader, in the partition and in a delta. -/
def eligiblePartitionBlob : List UInt8 :=
  partitionBlob ([2, 1, 5, 2] ++ i32Bytes 2 ++ [2, 1, 1])

def eligibleBlob : List UInt8 :=
  [1, 5, 2] ++ i32Bytes 0 ++ idBytes ++ [2, 6, 5, 2] ++ i32Bytes 2 ++ [7, 1, 1]

def shrunkWire : KPartitionRecord where
  partitionId := 0
  topicId := 1
  replicas := [1, 2]
  isr := [1]
  removingReplicas := []
  addingReplicas := []
  leader := 1
  leaderEpoch := 4
  partitionEpoch := 7
  directories := []
  leaderRecoveryState := 0
  eligibleLeaderReplicas := none
  lastKnownElr := none

def eligibleWire : KPartitionChangeRecord where
  partitionId := 0
  topicId := 1
  eligibleLeaderReplicas := some [2]
  lastKnownElr := some []

def snapshotCodec : Codec := Codec.ofTable
  [((.topic ⟨"orders", 1⟩, 0), topicBlob),
    ((.partition shrunkWire, 2), partitionBlob [0]),
    ((.partition { shrunkWire with eligibleLeaderReplicas := some [2], lastKnownElr := some [] }, 2),
      eligiblePartitionBlob),
    ((.partitionChange eligibleWire, 2), eligibleBlob)]

theorem snapshotCodec_lawful : snapshotCodec.Lawful := Codec.ofTable_lawful (by decide)

/-- Without leader state the partition comes back. -/
theorem snapshot_partitions_shrunk :
    ∃ img', replay snapshotCodec (fun _ => HashOrder.sorted MapSite) (new 0)
      [topicBlob, partitionBlob [0]] = .ok img' ∧ SamePartitionState shrunk img' := by
  have hblobs : snapshotValues snapshotCodec (HashOrder.sorted MapSite) shrunk =
      .ok [topicBlob, partitionBlob [0]] := rfl
  have hnone : ∀ topic idx, NoLeaderState shrunk topic idx := by
    intro topic idx
    have helr : shrunk.partitionElr = ∅ := by decide
    have hrecovery : shrunk.partitionRecovery = ∅ := by decide
    unfold NoLeaderState elrOf leaderRecoveryState
    rw [helr, hrecovery, lookup2_empty, lookup2_empty]
    exact ⟨rfl, rfl⟩
  exact (snapshot_partitions_iff snapshotCodec_lawful shrunk_admitted shrunk_distinct
    (Or.inl (by decide)) hblobs _).mpr hnone

/-- With an eligible leader on record it comes back one epoch late. -/
theorem snapshot_partitions_late :
    Admitted eligible ∧ eligible.DistinctTopicIds ∧ FramesAtMax eligible ∧ snapshotCodec.Lawful ∧
      snapshotValues snapshotCodec (HashOrder.sorted MapSite) eligible =
        .ok [topicBlob, eligiblePartitionBlob, eligibleBlob] ∧
      ¬∃ img', replay snapshotCodec (fun _ => HashOrder.sorted MapSite) (new eligible.clusterId)
        [topicBlob, eligiblePartitionBlob, eligibleBlob] = .ok img' ∧
          SamePartitionState eligible img' := by
  refine ⟨eligible_admitted, distinctTopicIds_of_nodup (by decide), Or.inl (by decide),
    snapshotCodec_lawful, rfl, ?_⟩
  rintro ⟨img', himg', hsame⟩
  have hbefore : (eligible.partition "orders" 0).map (·.partitionEpoch) = some 7 := by decide
  have hafter : (img'.partition "orders" 0).map (·.partitionEpoch) = some 8 := by
    rw [← Except.ok.inj himg']
    rfl
  have hpartition : img'.partition "orders" 0 = eligible.partition "orders" 0 :=
    congrArg (·.1) (hsame "orders" 0)
  rw [hpartition, hbefore] at hafter
  exact absurd hafter (by decide)

end Krabka.Metadata.Kraft
