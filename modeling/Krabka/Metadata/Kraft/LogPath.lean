import Krabka.Metadata.Kraft.Replay

/-!
# `Metadata.Kraft.LogPath` — the log carries a record to every replica

A controller applies nothing itself: it encodes a record against its image, commits the blobs, and every
replica decodes them one at a time against its own image and applies what it gets. `log_path_simulation`
says that this does to the image what applying the record would have done.

Most records come back from the log as they were (`comesBack_direct`). Three kinds do not, and the
argument is about where the replay ends. A configuration comes back key by key, and each step holds the
old map with the deltas so far. An ACL filter comes back as one filter per entry, and each step holds the
entries not yet removed. A partition comes back with the eligible-leader and recovery state that the
submitter's image had, which is what the replica's image has.
-/

namespace Krabka.Metadata.Kraft

open Collections Results MetadataImage

variable {codec : Codec}

/-! ## Configurations

The replay of the keys that differ, in any order, turns the old map into the new one. -/

/-- Deltas on one resource replay to the image with the new map of the resource. `put configs` is the
    image whose table of such resources is `configs`, and `recOf m` the record that sets the map `m`. -/
theorem replays_configToKraft (resourceType : Int8) (resourceName : String)
    (put : HashMap String (BTreeMap String String) → MetadataImage)
    (recOf : BTreeMap String String → MetadataRecord)
    (hdecodes : ∀ configs name value,
      Decodes codec (.config ⟨resourceType, resourceName, name, value⟩) (put configs)
        (recOf (applyDelta (configs[resourceName]?.getD ∅) (name, value))))
    (happly : ∀ configs m, (put configs).apply (recOf m) = put (setOrErase configs resourceName m))
    {configs : HashMap String (BTreeMap String String)} (hne : NoEmptyInner configs)
    (new : BTreeMap String String) :
    Replays codec (put configs)
      (configToKraft resourceType resourceName (configs[resourceName]?.getD ∅) new)
      (put (setOrErase configs resourceName new)) := by
  -- on the way, the resource has the old map with the deltas so far
  have hreplays : ∀ (ds : List (String × Option String)) (m : BTreeMap String String),
      Replays codec (put (setOrErase configs resourceName m))
        (ds.map (fun d => .config ⟨resourceType, resourceName, d.1, d.2⟩))
        (put (setOrErase configs resourceName (ds.foldl applyDelta m))) := by
    intro ds
    induction ds with
    | nil => intro m; exact .nil _
    | cons d rest ih =>
        intro m
        refine .cons (hdecodes _ d.1 d.2) ?_
        rw [happly, setOrErase_setOrErase, setOrErase_getD]
        exact ih (applyDelta m d)
  have h := hreplays (deltas (configs[resourceName]?.getD ∅) new) (configs[resourceName]?.getD ∅)
  rwa [foldl_applyDelta_deltas, setOrErase_self hne] at h

/-- A topic config is replayed from its single settings. -/
theorem replays_topicConfig {img : MetadataImage} (hw : img.WellFormed) (c : TopicConfigRecord) :
    Replays codec img (topicConfigToKraft c img) (img.apply (.v1TopicConfig c)) :=
  replays_configToKraft 2 c.topic (fun configs => { img with topicConfigs := configs })
    (fun m => .v1TopicConfig ⟨c.topic, m⟩) (fun _ _ _ _ => rfl) (fun _ _ => rfl)
    hw.topicConfigs_nonempty c.overrides

/-- So is a group config. -/
theorem replays_groupConfig {img : MetadataImage} (hw : img.WellFormed) (c : GroupConfigRecord) :
    Replays codec img (groupConfigToKraft c img) (img.apply (.v1GroupConfig c)) :=
  replays_configToKraft 32 c.groupId (fun configs => { img with groupConfigs := configs })
    (fun m => .v1GroupConfig ⟨c.groupId, m⟩) (fun _ _ _ _ => rfl) (fun _ _ => rfl)
    hw.groupConfigs_nonempty c.configs

/-- So is the config of client metrics. -/
theorem replays_clientMetricsConfig {img : MetadataImage} (hw : img.WellFormed)
    (c : ClientMetricsConfigRecord) :
    Replays codec img (clientMetricsConfigToKraft c img) (img.apply (.v1ClientMetricsConfig c)) :=
  replays_configToKraft 16 c.name (fun configs => { img with clientMetricsConfigs := configs })
    (fun m => .v1ClientMetricsConfig ⟨c.name, m⟩) (fun _ _ _ _ => rfl) (fun _ _ => rfl)
    hw.clientMetricsConfigs_nonempty c.configs

/-! ## ACL filters

Two entries have different ids, so a removal by id takes the one entry that was meant. -/

/-- An exact filter matches its own entry. -/
theorem exactFilter_matches {e x : AclEntry} : (exactFilter e).matches x = true ↔ x = e := by
  constructor
  · intro h
    -- a filter with every axis set leaves no field free
    cases e
    cases x
    simp only [exactFilter, AclEntryFilter.matches, axisMatches, Bool.and_eq_true, beq_iff_eq] at h
    obtain ⟨⟨⟨⟨⟨⟨rfl, rfl⟩, rfl⟩, rfl⟩, rfl⟩, rfl⟩, rfl⟩ := h
    rfl
  · rintro rfl
    simp [exactFilter, AclEntryFilter.matches, axisMatches]

/-- No two entries of the image have the same id on the log. -/
def DistinctAclIds (img : MetadataImage) : Prop :=
  ∀ ω, ∀ e ∈ img.allAcls ω, ∀ e' ∈ img.allAcls ω, aclId e = aclId e' → e = e'

theorem distinctAclIds_of_empty {img : MetadataImage} (h : img.acls = {}) : DistinctAclIds img := by
  intro ω e he
  unfold allAcls at he
  rw [h, AclIndex.mem_iter_iff AclIndex.inv_empty ω] at he
  exact absurd he (AclIndex.not_holds_empty e)

/-- Remove the entries one at a time. -/
def removeEntries (es : List AclEntry) (idx : AclIndex) : AclIndex :=
  es.foldl (fun idx e => idx.removeMatching (exactFilter e)) idx

/-- Removing entries one by one leaves all the others. -/
theorem removeEntries_spec :
    ∀ (es : List AclEntry) {idx : AclIndex}, idx.Inv → (removeEntries es idx).Inv ∧
      ∀ rt pt name, (removeEntries es idx).bucketAt rt pt name =
        (idx.bucketAt rt pt name).filter (fun x => !es.contains x) := by
  intro es
  induction es with
  | nil =>
      intro idx h
      refine ⟨h, fun rt pt name => ?_⟩
      simp [removeEntries]
  | cons e rest ih =>
      intro idx h
      obtain ⟨hinv, hbucket⟩ := ih (h.removeMatching (exactFilter e))
      refine ⟨hinv, fun rt pt name => ?_⟩
      refine (hbucket rt pt name).trans ?_
      rw [AclIndex.bucketAt_removeMatching h, List.filter_filter]
      refine List.filter_congr (fun x _ => ?_)
      rw [Bool.eq_iff_iff]
      simp [← exactFilter_matches, and_comm]

/-- Removing the matches of a filter one at a time removes what the filter does. -/
theorem removeEntries_filter {idx : AclIndex} (h : idx.Inv) (ω : MapOrder) (filter : AclEntryFilter) :
    removeEntries ((idx.iter ω).filter filter.matches) idx = idx.removeMatching filter := by
  obtain ⟨hinv, hbucket⟩ := removeEntries_spec ((idx.iter ω).filter filter.matches) h
  refine AclIndex.ext_bucketAt hinv (h.removeMatching filter) (fun rt pt name => ?_)
  rw [hbucket, AclIndex.bucketAt_removeMatching h]
  refine List.filter_congr (fun x hx => ?_)
  -- what is in a bucket is in the listing that the filter was resolved against
  have hholds : x ∈ idx.iter ω := by
    obtain ⟨hrt, hpt, hname⟩ := h.placed rt pt name x hx
    refine (AclIndex.mem_iter_iff h ω).mpr ?_
    unfold AclIndex.Holds
    rwa [hrt, hpt, hname]
  rw [Bool.eq_iff_iff]
  simp [hholds]

/-- The removals replay one by one: an id leads to its own entry as long as that entry is there. -/
theorem replays_removals (img : MetadataImage) :
    ∀ (es : List AclEntry) {idx : AclIndex}, idx.Inv → es.Nodup → (∀ e ∈ es, idx.Holds e) →
      (∀ e e', idx.Holds e → idx.Holds e' → aclId e = aclId e' → e = e') →
      Replays codec { img with acls := idx } (es.map (fun e => .removeAccessControlEntry ⟨aclId e⟩))
        { img with acls := removeEntries es idx } := by
  intro es
  induction es with
  | nil => intro idx _ _ _ _; exact .nil _
  | cons e rest ih =>
      intro idx h hnodup hheld hdistinct
      obtain ⟨hfresh, hnodup⟩ := List.nodup_cons.mp hnodup
      have hdec : Decodes codec (.removeAccessControlEntry ⟨aclId e⟩) { img with acls := idx }
          (.v1DeleteAccessControlEntry (exactFilter e)) := by
        intro ω
        have hmem := (AclIndex.mem_iter_iff h ω).mpr (hheld e List.mem_cons_self)
        -- the entry is still there, and no other has its id
        have hfind : (idx.iter ω).find? (fun e' => aclId e' == aclId e) = some e := by
          refine find?_of_unique hmem (by simp) (fun e' he' hid => ?_)
          exact hdistinct e' e ((AclIndex.mem_iter_iff h ω).mp he')
            ((AclIndex.mem_iter_iff h ω).mp hmem) (by simpa using hid)
        simp only [fromKraft, allAcls, hfind, okOr_some, ok_bind]
        rfl
      refine .cons hdec (ih (h.removeMatching _) hnodup (fun e' he' => ?_) (fun a b ha hb => ?_))
      · -- the entries still to go are not the one just removed
        refine (AclIndex.holds_removeMatching h).mpr ⟨hheld e' (List.mem_cons_of_mem _ he'), ?_⟩
        rw [Bool.eq_false_iff, ne_eq, exactFilter_matches]
        rintro rfl
        exact hfresh he'
      · exact hdistinct a b ((AclIndex.holds_removeMatching h).mp ha).1
          ((AclIndex.holds_removeMatching h).mp hb).1

/-- A deletion is replayed from the entries that it matches. -/
theorem replays_deleteAcl {img : MetadataImage} (hw : img.WellFormed) (hd : DistinctAclIds img)
    (ω : MapOrder) (filter : AclEntryFilter) :
    Replays codec img (deleteAclToKraft ω filter img)
      (img.apply (.v1DeleteAccessControlEntry filter)) := by
  have h : Replays codec img _ _ := replays_removals img ((img.allAcls ω).filter filter.matches)
    hw.acls ((AclIndex.nodup_iter hw.acls ω).filter _)
    (fun e he => (AclIndex.mem_iter_iff hw.acls ω).mp (List.mem_filter.mp he).1)
    (fun e e' he he' => hd ω e ((AclIndex.mem_iter_iff hw.acls ω).mpr he) e'
      ((AclIndex.mem_iter_iff hw.acls ω).mpr he'))
  -- one removal per match, and the matches are what the filter removes
  unfold allAcls at h
  rw [removeEntries_filter hw.acls] at h
  exact h

/-! ## Partitions

The record that comes back holds what the image held beside the partition. Applying it is the same as applying
the record that was submitted. -/

/-- What the log gives back for a partition that is encoded against `img`: the record, with the
    eligible-leader and recovery state that `img` holds for it, if any. -/
def partitionFromLog (img : MetadataImage) (p : PartitionRecord) : MetadataRecord :=
  let elr := img.elrOf p.topic p.partition
  let state := img.leaderRecoveryState p.topic p.partition
  let hasElr := !elr.1.isEmpty || !elr.2.isEmpty
  if hasElr || state == .recovering then
    .v1PartitionUpdate {
      partition := p
      eligibleLeaderReplicas := if hasElr then some elr.1 else none
      lastKnownElr := if hasElr then some elr.2 else none
      recoveryState := some state }
  else .v1Partition p

/-- A partition is read from what it is written as. -/
theorem decodes_partition {img img' : MetadataImage} {p : PartitionRecord} {id : Uuid}
    {kp : KPartitionRecord} (h : partitionToKraft p id img = .ok kp)
    (htopic : ∀ ω, img'.topicNameForId ω id = some p.topic) :
    Decodes codec (.partition kp) img' (partitionFromLog img p) := by
  have hw := partitionToKraft_eq_ok.mp h
  intro ω
  have heligible := nodesFromWire_of_mapM hw.eligible "eligible leader replica"
  have hlastKnown := nodesFromWire_of_mapM hw.lastKnown "last known eligible leader replica"
  simp only [fromKraft, partitionFromKraft, topicOfId, ← hw.topicId, htopic ω, okOr_some, ok_bind,
    partitionLeaderFromWire_of_toWire hw.leader, nodesFromWire_of_nodesToWire hw.replicas,
    nodesFromWire_of_nodesToWire hw.isr, nodesFromWire_of_nodesToWire hw.adding,
    nodesFromWire_of_nodesToWire hw.removing, ← hw.index, ← hw.leaderEpoch, ← hw.partitionEpoch,
    ← hw.directories, ← hw.recovery, recoveryStateFromWire_asI8, heligible, hlastKnown,
    isSome_of_optionMapM hw.eligible, isSome_of_optionMapM hw.lastKnown]
  unfold partitionFromLog
  simp only [hasElr_eq]
  -- both lists are on the wire or neither
  by_cases hnone : img.elrOf p.topic p.partition = ([], [])
  · simp only [hnone, if_true, Option.isSome_none, List.isEmpty_nil, Bool.not_true, Bool.or_self]
    split <;> rfl
  · simp only [hnone, hasElr_of_ne hnone, if_false, Option.isSome_some, Bool.true_or, if_true]
    rfl

/-- Writing the eligible-leader state that is stored changes nothing. -/
theorem applyPartitionElr_elrOf {img : MetadataImage} (hw : img.WellFormed) (topic : String)
    (idx : Int32) :
    img.applyPartitionElr topic idx (img.elrOf topic idx).1 (img.elrOf topic idx).2 = img := by
  unfold applyPartitionElr elrOf
  cases hstored : lookup2 img.partitionElr topic idx with
  | none =>
      simp only [Option.getD_none, List.isEmpty_nil, Bool.and_self, if_true]
      rw [erase2_of_lookup2 hw.elr_nonempty hstored]
  | some elr =>
      have hne := hw.elr_stored topic idx elr hstored
      simp only [Option.getD_some, hne, Bool.false_eq_true, if_false]
      rw [insert2_of_lookup2 hw.elr_nonempty hstored]

/-- Nor does writing the recovery state that is stored. -/
theorem applyPartitionRecovery_leaderRecoveryState {img : MetadataImage} (hw : img.WellFormed)
    (topic : String) (idx : Int32) :
    img.applyPartitionRecovery topic idx (img.leaderRecoveryState topic idx) = img := by
  unfold applyPartitionRecovery leaderRecoveryState
  cases hstored : lookup2 img.partitionRecovery topic idx with
  | none =>
      simp only [Option.getD_none, if_true]
      rw [erase2_of_lookup2 hw.recovery_nonempty hstored]
  | some state =>
      have hrecovering := hw.recovery_stored topic idx state hstored
      subst hrecovering
      simp only [Option.getD_some, reduceCtorEq, if_false]
      rw [insert2_of_lookup2 hw.recovery_nonempty hstored]

/-- On the image it was encoded against, the record that comes back acts as the partition did: the
    eligible-leader and recovery state it brings are those already stored. -/
theorem apply_partitionFromLog {img : MetadataImage} (hw : img.WellFormed) (p : PartitionRecord) :
    img.apply (partitionFromLog img p) = img.applyPartition p := by
  have hw' := hw.applyPartition p
  -- writing back the state that is stored changes nothing
  have helr : (img.applyPartition p).applyPartitionElr p.topic p.partition
      (img.elrOf p.topic p.partition).1 (img.elrOf p.topic p.partition).2 = img.applyPartition p :=
    applyPartitionElr_elrOf hw' p.topic p.partition
  have hrecovery : (img.applyPartition p).applyPartitionRecovery p.topic p.partition
      (img.leaderRecoveryState p.topic p.partition) = img.applyPartition p :=
    applyPartitionRecovery_leaderRecoveryState hw' p.topic p.partition
  unfold partitionFromLog
  by_cases hne : (!(img.elrOf p.topic p.partition).1.isEmpty ||
      !(img.elrOf p.topic p.partition).2.isEmpty) = true
  · simp only [hne, Bool.true_or, if_true, apply, applyPartitionUpdate, helr, hrecovery]
  · simp only [hne, Bool.false_or, Bool.false_eq_true, if_false]
    split
    · simp only [apply, applyPartitionUpdate, hrecovery]
    · rfl

/-! ## Every record

The kinds of record are gone through once, and the run is an induction over the records with the replay of
each. -/

/-- The kinds of records that `log_path_simulation` leaves out: two have no counterpart on the log, a
    topic comes back with the counts of the image, and the other four are partition deltas. -/
def offPath : List RecordKind :=
  [.voters, .kraftVersion, .topic, .partitionUpdate, .partitionElr, .partitionRecovery,
    .partitionDirAssignment]

/-- **Whatever a record is written as replays to its effect.** -/
theorem replays_toKraftRecords (hc : codec.Lawful) {img : MetadataImage} (hw : img.WellFormed)
    (hd : img.DistinctTopicIds) (hacls : DistinctAclIds img) {r : MetadataRecord}
    (hkind : r.kind ∉ offPath) (hs : SurvivesLog r) {ω : MapOrder} {krs : List KraftMetadataRecord}
    (h : toKraftRecords codec ω r img = .ok krs) : Replays codec img krs (img.apply r) := by
  by_cases hdirect : r.kind ∈ directKinds
  · obtain ⟨kr, r', rfl, -, hsame, hdec⟩ := comesBack_direct hc hdirect h
    rw [← hsame hs]
    exact .single (hdec img)
  · cases r with
    | v1TopicConfig c => exact Except.ok.inj h ▸ replays_topicConfig hw c
    | v1GroupConfig c => exact Except.ok.inj h ▸ replays_groupConfig hw c
    | v1ClientMetricsConfig c => exact Except.ok.inj h ▸ replays_clientMetricsConfig hw c
    | v1DeleteAccessControlEntry filter => exact Except.ok.inj h ▸ replays_deleteAcl hw hacls ω filter
    | v1DeleteTopic d =>
        obtain ⟨id, hid, h⟩ := bind_eq_ok.mp h
        obtain ⟨t, ht, rfl⟩ := get_of_topicIdOf hid
        rw [← pure_eq_ok.mp h]
        refine .single (fun ω => ?_)
        simp only [fromKraft, topicOfId, topicNameForId_of_get hw.topics_keyed hd ω ht, okOr_some,
          ok_bind]
        rfl
    | v1Partition p =>
        obtain ⟨id, hid, hrest⟩ := bind_eq_ok.mp h
        obtain ⟨kp, hkp, hkrs⟩ := bind_eq_ok.mp hrest
        obtain ⟨t, ht, rfl⟩ := get_of_topicIdOf hid
        rw [← pure_eq_ok.mp hkrs]
        have hdec : Decodes codec (.partition kp) img (partitionFromLog img p) :=
          decodes_partition hkp (fun ω => topicNameForId_of_get hw.topics_keyed hd ω ht)
        have hreplays := Replays.single hdec
        rwa [apply_partitionFromLog hw] at hreplays
    | v1Voters _ | v1KRaftVersion _ | v1Topic _ | v1PartitionUpdate _ | v1PartitionElr _
    | v1PartitionRecovery _ | v1PartitionDirAssignment _ =>
        simp [MetadataRecord.kind, offPath] at hkind
    | _ => simp [MetadataRecord.kind, directKinds] at hdirect

/-- **Log-path simulation.** If a record is encoded against an image, then decoding and applying its
    blobs one after the other on that image never fails and ends in the image that the record itself
    gives, in whatever orders the maps iterate. -/
theorem log_path_simulation (hc : codec.Lawful) {img : MetadataImage} (hadm : Admitted img)
    (hd : img.DistinctTopicIds) (hacls : DistinctAclIds img) (hmv : FramesAtMax img)
    {r : MetadataRecord} (hkind : r.kind ∉ offPath) (hs : SurvivesLog r) {ω : MapOrder}
    {blobs : List (List UInt8)} (h : toKraftValues codec ω r img = .ok blobs) (ωs : ℕ → MapOrder) :
    replay codec ωs img blobs = .ok (img.apply r) := by
  obtain ⟨krs, hkrs, hblobs⟩ := replay_toKraftValues hc hmv h
  have hreplays := replays_toKraftRecords hc (wellFormed_of_admitted hadm) hd hacls hkind hs hkrs
  exact (replayWith_congr hblobs ωs img).trans (hreplays ωs)

/-- A topic with a retention time. -/
def retainedRun : List MetadataRecord :=
  [ .v1Topic ⟨"orders", 1, 0, 1⟩,
    .v1TopicConfig ⟨"orders", (∅ : BTreeMap String String).insert "retention.ms" "1000"⟩ ]

def retained : MetadataImage := retainedRun.foldl apply (new 0)

/-- It is compacted instead: one key is set, the other goes. -/
def compaction : TopicConfigRecord :=
  ⟨"orders", (∅ : BTreeMap String String).insert "cleanup.policy" "compact"⟩

/-- The compact form of a short ASCII string. -/
def compactString (s : String) : List UInt8 :=
  UInt8.ofNat (s.length + 1) :: s.toList.map (fun c => UInt8.ofNat c.toNat)

def setPolicyBlob : List UInt8 :=
  [1, 4, 0, 2] ++ compactString "orders" ++ compactString "cleanup.policy" ++
    compactString "compact" ++ [0]

def dropRetentionBlob : List UInt8 :=
  [1, 4, 0, 2] ++ compactString "orders" ++ compactString "retention.ms" ++ [0, 0]

def compactionCodec : Codec := Codec.ofTable
  [((.config ⟨2, "orders", "cleanup.policy", some "compact"⟩, 0), setPolicyBlob),
    ((.config ⟨2, "orders", "retention.ms", none⟩, 0), dropRetentionBlob)]

theorem compactionCodec_lawful : compactionCodec.Lawful := Codec.ofTable_lawful (by decide)

/-- The two blobs of the new configuration replay to it. -/
theorem log_path_simulation_compaction :
    replay compactionCodec (fun _ => HashOrder.sorted MapSite) retained
        [setPolicyBlob, dropRetentionBlob] =
      .ok (retained.apply (.v1TopicConfig compaction)) := by
  have hadm : Admitted retained := admitted_foldl (admitted_new 0) (by decide)
  have hblobs : toKraftValues compactionCodec (HashOrder.sorted MapSite) (.v1TopicConfig compaction)
      retained = .ok [setPolicyBlob, dropRetentionBlob] := rfl
  have hs : SurvivesLog (.v1TopicConfig compaction) := trivial
  exact log_path_simulation compactionCodec_lawful hadm (distinctTopicIds_of_nodup (by decide))
    (distinctAclIds_of_empty (by decide)) (Or.inl (by decide)) (by decide) hs hblobs _

end Krabka.Metadata.Kraft
