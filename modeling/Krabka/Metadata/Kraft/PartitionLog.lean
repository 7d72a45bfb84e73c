import Krabka.Metadata.Kraft.PartitionChange

/-!
# `Metadata.Kraft.PartitionLog` — partition updates through the log

Two records reach the log as a partition change computed from the submitter's image.

A partition update is written as its difference to that image. The change has no field for the leader
epoch: the reader advances it when the leader is set, and the writer sets the leader when it differs. An
update that advances the epoch under the same leader is therefore read back without the advance.

A directory assignment is a delta of one slot, but the change carries the whole vector. Of two
assignments computed from the same image, the second to commit puts the first one's slot back.
-/

namespace Krabka.Metadata.Kraft

open Collections FixedWidth Results MetadataImage

/-! ## Partition updates

The change that is written is completed from the partition it was computed from, so every field but the epoch
is the one that was meant. -/

/-- A list that changed is read as the new one, and one that did not as the old. -/
theorem nodesOr_of_changedNodes {new current : List NodeId} {field : String}
    {wire : Option (List Int32)} (h : changedNodes new current field = .ok wire) (field' : String) :
    nodesOr current wire field' = .ok new := by
  unfold changedNodes at h
  by_cases hne : new = current
  · -- unchanged: absent on the wire, and the reader keeps the current list
    rw [if_neg (not_not.mpr hne)] at h
    rw [← pure_eq_ok.mp h, hne]
    rfl
  · rw [if_pos hne] at h
    cases optionMapM_eq_ok.mp h with
    | some hnodes => exact nodesFromWire_of_nodesToWire hnodes field'

/-- The leader is on the wire exactly when it differs, and is read back with the epoch that fits. -/
theorem changedLeader_of_toWire {current : PartitionRecord} {leader : NodeId} {epoch : LeaderEpoch}
    {wire : Int32} (h : changedLeaderToWire leader current.leader (-2) = .ok wire)
    (hepoch : leader ≠ current.leader → epoch.toInt = current.leaderEpoch.toInt + 1) :
    changedLeader current wire =
      .ok (leader, if leader = current.leader then current.leaderEpoch else epoch) := by
  rw [changedLeader_eq_ok]
  unfold changedLeaderToWire at h
  by_cases hsame : leader = current.leader
  · rw [if_neg (not_not.mpr hsame)] at h
    rw [← Except.ok.inj h, if_pos rfl, if_pos hsame]
    exact ⟨hsame, rfl⟩
  · -- a changed leader is never the marker -2, so the reader advances the epoch
    rw [if_pos hsame] at h
    rw [if_neg (partitionLeaderToWire_ne h), if_neg hsame]
    exact ⟨partitionLeaderFromWire_eq_ok.mp (partitionLeaderFromWire_of_toWire h ""), hepoch hsame⟩

/-- The update that the log gives back: the leader epoch is the current one if the leader is. -/
def updateFromLog (current : PartitionRecord) (u : PartitionUpdateRecord) : PartitionUpdateRecord :=
  { u with
    partition :=
      { u.partition with
        leaderEpoch :=
          if u.partition.leader = current.leader then current.leaderEpoch
          else u.partition.leaderEpoch } }

/-- A change is read back as the update it was written from, but for the leader epoch. -/
theorem changeRead_of_partitionUpdateToKraft {img : MetadataImage} {u : PartitionUpdateRecord}
    {current : PartitionRecord} {c : KPartitionChangeRecord}
    (hcurrent : img.partition u.partition.topic u.partition.partition = some current)
    (hkeyed : current.topic = u.partition.topic ∧ current.partition = u.partition.partition)
    (hepoch : u.partition.partitionEpoch.toInt = current.partitionEpoch.toInt + 1)
    (hleader : u.partition.leader ≠ current.leader →
      u.partition.leaderEpoch.toInt = current.leaderEpoch.toInt + 1)
    (hdirs : u.partition.directories = current.directories ∨
      u.partition.directories.length = u.partition.replicas.length)
    (h : partitionUpdateToKraft u img = .ok c) :
    (∃ t, img.topics[u.partition.topic]? = some t ∧ t.topicId = c.topicId) ∧
      c.partitionId = u.partition.partition ∧ ChangeRead c current (updateFromLog current u) := by
  obtain ⟨current', hcurrent', h⟩ := bind_eq_ok.mp h
  rw [okOr_eq_ok, hcurrent, Option.some.injEq] at hcurrent'
  subst hcurrent'
  obtain ⟨state, hstate, h⟩ := bind_eq_ok.mp h
  obtain ⟨id, hid, hstate⟩ := bind_eq_ok.mp hstate
  obtain ⟨eligible, heligible, hstate⟩ := bind_eq_ok.mp hstate
  obtain ⟨lastKnown, hlastKnown, hstate⟩ := bind_eq_ok.mp hstate
  rw [pure_eq_ok] at hstate
  subst hstate
  obtain ⟨replicas, hreplicas, h⟩ := bind_eq_ok.mp h
  obtain ⟨isr, hisr, h⟩ := bind_eq_ok.mp h
  obtain ⟨removing, hremoving, h⟩ := bind_eq_ok.mp h
  obtain ⟨adding, hadding, h⟩ := bind_eq_ok.mp h
  obtain ⟨leader, hwire, h⟩ := bind_eq_ok.mp h
  rw [pure_eq_ok] at h
  subst h
  refine ⟨get_of_topicIdOf hid, rfl, ⟨?_, nodesFromWire_of_mapM heligible _,
    nodesFromWire_of_mapM hlastKnown _, changedRecoveryState_asI8 _⟩⟩
  refine ⟨hkeyed.1.symm, hkeyed.2.symm, nodesOr_of_changedNodes hreplicas _,
    nodesOr_of_changedNodes hisr _, nodesOr_of_changedNodes hremoving _,
    nodesOr_of_changedNodes hadding _, changedLeader_of_toWire hwire hleader, ?_,
    nextEpoch_eq_ok.mpr hepoch⟩
  -- directories on the wire have to be one per replica; unchanged ones are not on it
  rw [changedDirectories_eq_ok]
  by_cases hsame : u.partition.directories = current.directories
  · simp only [hsame, ne_eq, not_true_eq_false, if_false]
    exact hsame
  · simp only [hsame, ne_eq, not_false_eq_true, if_true]
    exact ⟨rfl, hdirs.resolve_left hsame⟩

/-- **A partition update survives the log unless it advances the epoch of an unchanged leader.** -/
theorem partitionUpdate_logged_iff {codec : Codec} (hc : codec.Lawful) {img : MetadataImage}
    (hadm : Admitted img) (hd : img.DistinctTopicIds) (hmv : FramesAtMax img)
    {u : PartitionUpdateRecord} {current : PartitionRecord}
    (hcurrent : img.partition u.partition.topic u.partition.partition = some current)
    (hepoch : u.partition.partitionEpoch.toInt = current.partitionEpoch.toInt + 1)
    (hleader : u.partition.leader ≠ current.leader →
      u.partition.leaderEpoch.toInt = current.leaderEpoch.toInt + 1)
    (hdirs : u.partition.directories = current.directories ∨
      u.partition.directories.length = u.partition.replicas.length)
    {ω : MapOrder} {blobs : List (List UInt8)}
    (h : toKraftValues codec ω (.v1PartitionUpdate u) img = .ok blobs) :
    (∃ blob, blobs = [blob] ∧ ∀ ω', ∃ r, fromKraftValue codec ω' blob img = .ok r ∧
        img.apply r = img.apply (.v1PartitionUpdate u)) ↔
      (u.partition.leader = current.leader → u.partition.leaderEpoch = current.leaderEpoch) := by
  have hw := wellFormed_of_admitted hadm
  obtain ⟨krs, hkrs, hblobs⟩ := replay_toKraftValues hc hmv h
  obtain ⟨c, hchange, hkrs⟩ := bind_eq_ok.mp hkrs
  rw [pure_eq_ok] at hkrs
  subst hkrs
  obtain ⟨blob, rest, hblob, hrest, rfl⟩ := List.forall₂_cons_right_iff.mp hblobs
  rw [List.forall₂_nil_right_iff] at hrest
  subst hrest
  -- what the blob decodes to is known: the update with the reader's leader epoch
  have hkeyed := hw.partitions_keyed _ _ _ hcurrent
  obtain ⟨⟨t, ht, hid⟩, hidx, hread⟩ := changeRead_of_partitionUpdateToKraft hcurrent hkeyed hepoch
    hleader hdirs hchange
  have htopic : ∀ ω, img.topicNameForId ω c.topicId = some u.partition.topic :=
    fun ω => hid ▸ topicNameForId_of_get hw.topics_keyed hd ω ht
  have hlogged : ∀ ω', fromKraftValue codec ω' blob img =
      .ok (changeRecord c (updateFromLog current u)) :=
    fun ω' => (hblob ω' img).trans (decodes_partitionChange htopic (hidx ▸ hcurrent) hread ω')
  constructor
  · rintro ⟨blob', hsingle, hsame⟩ hleader'
    obtain ⟨r, hr, happly⟩ := hsame ω
    rw [← (List.cons.inj hsingle).1, hlogged ω, Except.ok.injEq] at hr
    subst hr
    rw [apply_changeRecord hread] at happly
    -- compare the partition record that the two images store
    have hp : (img.applyPartitionUpdate (updateFromLog current u)).partition u.partition.topic
        u.partition.partition =
          (img.applyPartitionUpdate u).partition u.partition.topic u.partition.partition :=
      congrArg (fun img => img.partition u.partition.topic u.partition.partition) happly
    rw [partition_applyPartitionUpdate, partition_applyPartitionUpdate, if_pos ⟨rfl, rfl⟩,
      if_pos ⟨rfl, rfl⟩] at hp
    have hle := congrArg PartitionRecord.leaderEpoch (Option.some.inj hp)
    exact (hle.symm.trans (if_pos hleader'))
  · intro hsame
    refine ⟨blob, rfl, fun ω' => ⟨_, hlogged ω', ?_⟩⟩
    have hu : updateFromLog current u = u := by
      unfold updateFromLog
      split
      · rename_i hl
        rw [← hsame hl]
      · rfl
    rw [apply_changeRecord hread, hu]
    rfl

/-- The partition of `shrunk`. -/
def shrunkPartition : PartitionRecord := ⟨"orders", 0, 1, [1, 2], [1], 4, [], [], [], 7⟩

theorem shrunk_partition : shrunk.partition "orders" 0 = some shrunkPartition := by decide

/-- The second replica is back in sync; the partition is at the given leader epoch. -/
def expandIsr (leaderEpoch : LeaderEpoch) : PartitionUpdateRecord where
  partition := ⟨"orders", 0, 1, [1, 2], [1, 2], leaderEpoch, [], [], [], 8⟩
  eligibleLeaderReplicas := none
  lastKnownElr := none
  recoveryState := none

/-- The bytes of the change that `expandIsr` is logged as. -/
def expandBlob : List UInt8 :=
  [1, 5, 2, 0, 0, 0, 0, 0, 0, 0, 0, 0, 0, 0, 0, 0, 0, 0, 0, 0, 0, 0, 1,
    1, 0, 9, 3, 0, 0, 0, 1, 0, 0, 0, 2]

def expandCodec : Codec := Codec.ofTable
  [((.partitionChange { partitionId := 0, topicId := 1, isr := some [1, 2] }, 2), expandBlob)]

theorem expandCodec_lawful : expandCodec.Lawful := Codec.ofTable_lawful (by decide)

/-- At the current epoch the update comes back. -/
theorem partitionUpdate_logged_same_epoch :
    ∃ blob, [expandBlob] = [blob] ∧ ∀ ω, ∃ r, fromKraftValue expandCodec ω blob shrunk = .ok r ∧
      shrunk.apply r = shrunk.apply (.v1PartitionUpdate (expandIsr 4)) := by
  have hcurrent : shrunk.partition (expandIsr 4).partition.topic (expandIsr 4).partition.partition =
      some shrunkPartition := shrunk_partition
  have hblobs : toKraftValues expandCodec (HashOrder.sorted MapSite)
      (.v1PartitionUpdate (expandIsr 4)) shrunk = .ok [expandBlob] := rfl
  exact (partitionUpdate_logged_iff expandCodec_lawful shrunk_admitted shrunk_distinct
    (Or.inl (by decide)) hcurrent (by decide) (fun h => absurd rfl h) (Or.inl rfl) hblobs).mpr
      (fun _ => rfl)

/-- At the next epoch, under the same leader, it comes back at the current one. -/
theorem partitionUpdate_loses_epoch :
    Admitted shrunk ∧ DistinctTopicIds shrunk ∧ FramesAtMax shrunk ∧ expandCodec.Lawful ∧
      shrunk.partition "orders" 0 = some shrunkPartition ∧
      toKraftValues expandCodec (HashOrder.sorted MapSite) (.v1PartitionUpdate (expandIsr 5)) shrunk =
        .ok [expandBlob] ∧
      ∃ r, fromKraftValue expandCodec (HashOrder.sorted MapSite) expandBlob shrunk = .ok r ∧
        shrunk.apply r ≠ shrunk.apply (.v1PartitionUpdate (expandIsr 5)) := by
  refine ⟨shrunk_admitted, shrunk_distinct, Or.inl (by decide), expandCodec_lawful,
    shrunk_partition, rfl, _, rfl, fun h => ?_⟩
  have hp := congrArg (fun img => img.partition "orders" 0) h
  exact absurd hp (by decide)

/-! ## Directory assignments

The vector of the second change is that of the image before both. -/

/-- The change that carries a whole vector of directories and nothing else. -/
def directoriesChange (idx : Int32) (topicId : Uuid) (directories : List Uuid) :
    KPartitionChangeRecord where
  partitionId := idx
  topicId := topicId
  directories := some directories

/-- The partition with other directories, at the given epoch. -/
def withDirectories (p : PartitionRecord) (directories : List Uuid) (epoch : Int32) : PartitionRecord :=
  { p with directories := directories, partitionEpoch := epoch }

/-- A change of the directories alone. -/
theorem changedPartition_directories {idx : Int32} {id : Uuid} {directories : List Uuid}
    {p : PartitionRecord} (hlen : directories.length = p.replicas.length) :
    changedPartition (directoriesChange idx id directories) p =
      (nextEpoch "partition change partition epoch" "partition epoch overflow" p.partitionEpoch >>=
        fun epoch => .ok (withDirectories p directories epoch)) := by
  have hdirs : changedDirectories p (directoriesChange idx id directories) p.replicas =
      .ok directories := changedDirectories_eq_ok.mpr ⟨rfl, hlen⟩
  show (changedDirectories p (directoriesChange idx id directories) p.replicas >>= _) = _
  rw [hdirs]
  rfl

/-- Such a change sets the directories and advances the partition epoch, if it can. -/
theorem fromKraft_directoriesChange {codec : Codec} {ω : MapOrder} {img : MetadataImage}
    {topic : String} {idx : Int32} {id : Uuid} {directories : List Uuid} {p : PartitionRecord}
    {r : MetadataRecord} (htopic : img.topicNameForId ω id = some topic)
    (hp : img.partition topic idx = some p) (hlen : directories.length = p.replicas.length) :
    fromKraft codec ω (.partitionChange (directoriesChange idx id directories)) img = .ok r ↔
      ∃ epoch : Int32, epoch.toInt = p.partitionEpoch.toInt + 1 ∧
        r = .v1Partition (withDirectories p directories epoch) := by
  have hdecode : fromKraft codec ω (.partitionChange (directoriesChange idx id directories)) img =
      (changedPartition (directoriesChange idx id directories) p >>= fun p => .ok (.v1Partition p)) := by
    simp only [fromKraft, partitionChangeFromKraft, directoriesChange, topicOfId, htopic, hp, okOr_some,
      ok_bind]
    rfl
  rw [hdecode, changedPartition_directories hlen, bind_assoc, bind_eq_ok]
  simp only [nextEpoch_eq_ok, ok_bind, Except.ok.injEq]
  exact exists_congr (fun epoch => and_congr_right (fun _ => eq_comm))

/-- Two such changes in a row: the second vector is what stays. -/
theorem replay_directoriesChange_pair {codec : Codec} {img : MetadataImage} (hw : img.WellFormed)
    (hd : img.DistinctTopicIds) {topic : String} {t : TopicRecord} (ht : img.topics[topic]? = some t)
    {idx : Int32} {p : PartitionRecord} (hp : img.partition topic idx = some p)
    {first second : List Uuid} (hfirst : first.length = p.replicas.length)
    (hsecond : second.length = p.replicas.length) (ω : ℕ → MapOrder)
    (P : Option PartitionRecord → Prop) :
    (∃ img', replayWith (fromKraft codec) ω img
        [.partitionChange (directoriesChange idx t.topicId first),
          .partitionChange (directoriesChange idx t.topicId second)] = .ok img' ∧
        P (img'.partition topic idx)) ↔
      ∃ epoch : Int32, epoch.toInt = p.partitionEpoch.toInt + 2 ∧
        P (some (withDirectories p second epoch)) := by
  obtain ⟨hkey, hidx⟩ := hw.partitions_keyed _ _ _ hp
  have htopic : ∀ ω, img.topicNameForId ω t.topicId = some topic :=
    fun ω => topicNameForId_of_get hw.topics_keyed hd ω ht
  -- the image between the two: the same topic ids, the first vector in place
  have hbetween : ∀ (epoch : Int32) (ω : MapOrder) (r : MetadataRecord),
      fromKraft codec ω (.partitionChange (directoriesChange idx t.topicId second))
        (img.apply (.v1Partition (withDirectories p first epoch))) = .ok r ↔
      ∃ epoch' : Int32, epoch'.toInt = epoch.toInt + 1 ∧
        r = .v1Partition (withDirectories p second epoch') := by
    intro epoch ω r
    have hq : (img.applyPartition (withDirectories p first epoch)).partition
        topic idx = some (withDirectories p first epoch) :=
      (partition_applyPartition _ _ _ _).trans (if_pos ⟨hkey, hidx⟩)
    have hids := (SameTopicIds.applyPartition img (withDirectories p first epoch)).topicNameForId
      (hw.applyPartition _) hd ht ω
    exact fromKraft_directoriesChange hids hq hsecond
  have hend : ∀ (img' : MetadataImage) (epoch : Int32),
      (img'.apply (.v1Partition (withDirectories p second epoch))).partition
        topic idx = some (withDirectories p second epoch) :=
    fun img' epoch => (partition_applyPartition _ _ _ _).trans (if_pos ⟨hkey, hidx⟩)
  constructor
  · rintro ⟨img', h, hP⟩
    obtain ⟨r, hr, h⟩ := bind_eq_ok.mp h
    obtain ⟨epoch, hepoch, rfl⟩ := (fromKraft_directoriesChange (htopic _) hp hfirst).mp hr
    obtain ⟨r', hr', h⟩ := bind_eq_ok.mp h
    obtain ⟨epoch', hepoch', rfl⟩ := (hbetween epoch _ r').mp hr'
    rw [← Except.ok.inj h, hend] at hP
    exact ⟨epoch', by omega, hP⟩
  · rintro ⟨epoch', hepoch', hP⟩
    have hlt := epoch'.toInt_lt
    have hle := p.partitionEpoch.le_toInt
    -- room for two advances is room for one
    obtain ⟨epoch, hepoch⟩ : ∃ epoch : Int32, epoch.toInt = p.partitionEpoch.toInt + 1 :=
      ⟨_, Int32.toInt_ofInt_of_le (by omega) (by omega)⟩
    have hr : fromKraft codec (ω 0) (.partitionChange (directoriesChange idx t.topicId first)) img =
        .ok _ := (fromKraft_directoriesChange (htopic (ω 0)) hp hfirst).mpr ⟨epoch, hepoch, rfl⟩
    have hr' := (hbetween epoch (ω (0 + 1)) _).mpr ⟨epoch', by omega, rfl⟩
    refine ⟨_, ?_, (hend (img.apply (.v1Partition (withDirectories p first epoch))) epoch').symm ▸ hP⟩
    simp only [replayWith, hr, ok_bind, hr']

/-- The directory that a partition holds for a replica. -/
def directoryOf (p : PartitionRecord) (replica : NodeId) : Option Uuid :=
  (p.replicas.idxOf? replica).bind (fun slot => p.directories[slot]?)

/-- The same with the missing tail of the directories read as `MIGRATING`. -/
def paddedDirectoryOf (p : PartitionRecord) (replica : NodeId) : Option Uuid :=
  directoryOf { p with directories := resize p.directories p.replicas.length migrating } replica

/-- The image holds the directory that the assignment reports. -/
def Reported (img : MetadataImage) (a : PartitionDirAssignmentRecord) : Prop :=
  (img.partition a.topic a.partition).bind (directoryOf · a.replica) = some a.directory

theorem length_resize {α : Type} (l : List α) (n : Nat) (a : α) : (resize l n a).length = n := by
  unfold resize
  simp only [List.length_append, List.length_take, List.length_replicate]
  omega

/-- There is a directory for every replica. -/
theorem length_assignedDirectories (p : PartitionRecord) (slot : Nat) (directory : Uuid) :
    (assignedDirectories p slot directory).length = p.replicas.length := by
  unfold assignedDirectories
  rw [List.length_set, length_resize]

/-- After an assignment the replica has the directory it reported, and every other replica the one it
    had in the padded vector. -/
theorem directoryOf_assigned {p : PartitionRecord} {replica : NodeId} {slot : Nat}
    (hslot : p.replicas.idxOf? replica = some slot) (directory : Uuid) (epoch : Int32)
    (other : NodeId) :
    directoryOf (withDirectories p (assignedDirectories p slot directory) epoch) other =
      if other = replica then some directory else paddedDirectoryOf p other := by
  obtain ⟨hlt, hget, -⟩ := List.idxOf?_eq_some_iff.mp hslot
  show (p.replicas.idxOf? other).bind (fun s => (assignedDirectories p slot directory)[s]?) = _
  by_cases hother : other = replica
  · rw [if_pos hother, hother, hslot]
    show (List.set _ slot directory)[slot]? = _
    rw [List.getElem?_set_self (by rw [length_resize]; exact hlt)]
  · rw [if_neg hother]
    show _ = (p.replicas.idxOf? other).bind (fun s => (resize _ _ _)[s]?)
    cases hs : p.replicas.idxOf? other with
    | none => rfl
    | some s =>
        show (List.set _ slot directory)[s]? = _
        rw [List.getElem?_set_ne]
        · rfl
        · -- two replicas at one slot are one replica
          rintro rfl
          obtain ⟨_, hget', -⟩ := List.idxOf?_eq_some_iff.mp hs
          exact hother (hget'.symm.trans hget)

/-- What an assignment is written as: all the directories of its partition. -/
theorem partitionDirAssignmentToKraft_eq_ok {a : PartitionDirAssignmentRecord} {img : MetadataImage}
    {c : KPartitionChangeRecord} (h : partitionDirAssignmentToKraft a img = .ok c) :
    ∃ t p slot, img.topics[a.topic]? = some t ∧ img.partition a.topic a.partition = some p ∧
      p.replicas.idxOf? a.replica = some slot ∧
      c = directoriesChange a.partition t.topicId (assignedDirectories p slot a.directory) := by
  obtain ⟨id, hid, h⟩ := bind_eq_ok.mp h
  obtain ⟨p, hp, h⟩ := bind_eq_ok.mp h
  obtain ⟨slot, hslot, h⟩ := bind_eq_ok.mp h
  obtain ⟨t, ht, rfl⟩ := get_of_topicIdOf hid
  exact ⟨t, p, slot, ht, okOr_eq_ok.mp hp, okOr_eq_ok.mp hslot, (pure_eq_ok.mp h).symm⟩

/-- The two assignments in one order: the first one's directory stays only if it was there before. -/
theorem replay_assignments_iff (codec : Codec) {img : MetadataImage} (hw : img.WellFormed)
    (hd : img.DistinctTopicIds) {a b : PartitionDirAssignmentRecord} {p : PartitionRecord}
    (hp : img.partition a.topic a.partition = some p)
    (hsame : b.topic = a.topic ∧ b.partition = a.partition) (hne : a.replica ≠ b.replica)
    {ca cb : KPartitionChangeRecord} (ha : partitionDirAssignmentToKraft a img = .ok ca)
    (hb : partitionDirAssignmentToKraft b img = .ok cb) (ω : ℕ → MapOrder) :
    (∃ img', replayWith (fromKraft codec) ω img [.partitionChange ca, .partitionChange cb] =
        .ok img' ∧ Reported img' a ∧ Reported img' b) ↔
      p.partitionEpoch.toInt + 2 ≤ 2147483647 ∧ paddedDirectoryOf p a.replica = some a.directory := by
  obtain ⟨t, pa, slot, ht, hpa, hslot, rfl⟩ := partitionDirAssignmentToKraft_eq_ok ha
  obtain ⟨t', pb, slot', ht', hpb, hslot', rfl⟩ := partitionDirAssignmentToKraft_eq_ok hb
  rw [hp, Option.some.injEq] at hpa
  rw [hsame.1, hsame.2, hp, Option.some.injEq] at hpb
  rw [hsame.1, ht, Option.some.injEq] at ht'
  -- both were written from the same partition of the same image
  subst hpa hpb ht'
  unfold Reported
  rw [hsame.1, hsame.2]
  refine (replay_directoriesChange_pair hw hd ht hp (length_assignedDirectories _ _ _)
    (length_assignedDirectories _ _ _) ω (fun q => q.bind (directoryOf · a.replica) = some a.directory ∧
      q.bind (directoryOf · b.replica) = some b.directory)).trans ?_
  simp only [Option.bind_some, directoryOf_assigned hslot', if_neg hne, if_true, and_true]
  constructor
  · rintro ⟨epoch, hepoch, hdir⟩
    have hlt := epoch.toInt_lt
    exact ⟨by omega, hdir⟩
  · rintro ⟨hbound, hdir⟩
    have hle := p.partitionEpoch.le_toInt
    exact ⟨_, Int32.toInt_ofInt_of_le (by omega) (by omega), hdir⟩

/-- **Two directory assignments from one image.** Both are kept, in both orders of their commits, exactly
    when the partition epoch has room for two changes and neither assignment says anything new. -/
theorem dirAssignments_logged_iff {codec : Codec} (hc : codec.Lawful) {img : MetadataImage}
    (hadm : Admitted img) (hd : img.DistinctTopicIds) (hmv : FramesAtMax img)
    {a b : PartitionDirAssignmentRecord} {p : PartitionRecord}
    (hp : img.partition a.topic a.partition = some p)
    (hsame : b.topic = a.topic ∧ b.partition = a.partition) (hne : a.replica ≠ b.replica)
    {ωa ωb : MapOrder} {blobsA blobsB : List (List UInt8)}
    (ha : toKraftValues codec ωa (.v1PartitionDirAssignment a) img = .ok blobsA)
    (hb : toKraftValues codec ωb (.v1PartitionDirAssignment b) img = .ok blobsB) :
    (∀ ω, (∃ img', replay codec ω img (blobsA ++ blobsB) = .ok img' ∧
          Reported img' a ∧ Reported img' b) ∧
        (∃ img', replay codec ω img (blobsB ++ blobsA) = .ok img' ∧
          Reported img' a ∧ Reported img' b)) ↔
      p.partitionEpoch.toInt + 2 ≤ 2147483647 ∧ paddedDirectoryOf p a.replica = some a.directory ∧
        paddedDirectoryOf p b.replica = some b.directory := by
  have hw := wellFormed_of_admitted hadm
  obtain ⟨krsA, hkrsA, hblobsA⟩ := replay_toKraftValues hc hmv ha
  obtain ⟨krsB, hkrsB, hblobsB⟩ := replay_toKraftValues hc hmv hb
  obtain ⟨ca, hca, hkrsA⟩ := bind_eq_ok.mp hkrsA
  obtain ⟨cb, hcb, hkrsB⟩ := bind_eq_ok.mp hkrsB
  rw [pure_eq_ok] at hkrsA hkrsB
  subst hkrsA hkrsB
  have hp' : img.partition b.topic b.partition = some p := by rw [hsame.1, hsame.2, hp]
  -- the blobs of either order replay as the two changes
  have hab : ∀ ω, replay codec ω img (blobsA ++ blobsB) =
      replayWith (fromKraft codec) ω img [.partitionChange ca, .partitionChange cb] :=
    fun ω => replayWith_congr (List.rel_append hblobsA hblobsB) ω img
  have hba : ∀ ω, replay codec ω img (blobsB ++ blobsA) =
      replayWith (fromKraft codec) ω img [.partitionChange cb, .partitionChange ca] :=
    fun ω => replayWith_congr (List.rel_append hblobsB hblobsA) ω img
  have hfirst := replay_assignments_iff codec hw hd hp hsame hne hca hcb
  have hsecond := replay_assignments_iff codec hw hd hp' ⟨hsame.1.symm, hsame.2.symm⟩ hne.symm hcb hca
  simp only [hab, hba]
  constructor
  · intro h
    obtain ⟨hkept, img', himg', hra, hrb⟩ := h (fun _ => ωa)
    obtain ⟨hbound, hda⟩ := (hfirst _).mp hkept
    obtain ⟨-, hdb⟩ := (hsecond _).mp ⟨img', himg', hrb, hra⟩
    exact ⟨hbound, hda, hdb⟩
  · rintro ⟨hbound, hda, hdb⟩ ω
    obtain ⟨img', himg', hrb, hra⟩ := (hsecond ω).mpr ⟨hbound, hdb⟩
    exact ⟨(hfirst ω).mpr ⟨hbound, hda⟩, img', himg', hra, hrb⟩

/-- The bytes of a change that assigns two directories to the partition of `shrunk`. -/
def directoriesBlob (d d' : UInt8) : List UInt8 :=
  [1, 5, 2, 0, 0, 0, 0] ++ List.replicate 15 0 ++ [1] ++ [1, 8, 33, 3] ++
    List.replicate 15 0 ++ [d] ++ List.replicate 15 0 ++ [d']

def directoriesCodec : Codec := Codec.ofTable
  [((.partitionChange (directoriesChange 0 1 [10, 0]), 2), directoriesBlob 10 0),
    ((.partitionChange (directoriesChange 0 1 [0, 20]), 2), directoriesBlob 0 20),
    ((.partitionChange (directoriesChange 0 1 [10, 20]), 2), directoriesBlob 10 20)]

theorem directoriesCodec_lawful : directoriesCodec.Lawful := Codec.ofTable_lawful (by decide)

/-- The partition of `shrunk` with both directories assigned. -/
def assigned : MetadataImage :=
  shrunk.apply (.v1Partition ⟨"orders", 0, 1, [1, 2], [1], 4, [], [], [10, 20], 8⟩)

/-- The directories that the two replicas report. -/
def reportOne : PartitionDirAssignmentRecord := ⟨"orders", 0, 1, 10⟩

def reportTwo : PartitionDirAssignmentRecord := ⟨"orders", 0, 2, 20⟩

/-- Two replicas that report what is already recorded both keep it. -/
theorem dirAssignments_logged_again :
    (∃ img', replay directoriesCodec (fun _ => HashOrder.sorted MapSite) assigned
          ([directoriesBlob 10 20] ++ [directoriesBlob 10 20]) = .ok img' ∧
          Reported img' reportOne ∧ Reported img' reportTwo) ∧
      (∃ img', replay directoriesCodec (fun _ => HashOrder.sorted MapSite) assigned
          ([directoriesBlob 10 20] ++ [directoriesBlob 10 20]) = .ok img' ∧
          Reported img' reportOne ∧ Reported img' reportTwo) := by
  have hadm : Admitted assigned := .step shrunk_admitted (by decide)
  have hp : assigned.partition "orders" 0 =
      some ⟨"orders", 0, 1, [1, 2], [1], 4, [], [], [10, 20], 8⟩ := by decide
  have hsame : reportTwo.topic = reportOne.topic ∧ reportTwo.partition = reportOne.partition :=
    ⟨rfl, rfl⟩
  have ha : toKraftValues directoriesCodec (HashOrder.sorted MapSite)
      (.v1PartitionDirAssignment reportOne) assigned = .ok [directoriesBlob 10 20] := rfl
  have hb : toKraftValues directoriesCodec (HashOrder.sorted MapSite)
      (.v1PartitionDirAssignment reportTwo) assigned = .ok [directoriesBlob 10 20] := rfl
  exact (dirAssignments_logged_iff directoriesCodec_lawful hadm
    (distinctTopicIds_of_nodup (by decide)) (Or.inl (by decide)) hp hsame (by decide) ha hb).mpr
      (by decide) (fun _ => HashOrder.sorted MapSite)

/-- Two replicas that report for the first time: the later commit erases the earlier report. -/
theorem dirAssignments_lose_report :
    Admitted shrunk ∧ DistinctTopicIds shrunk ∧ FramesAtMax shrunk ∧ directoriesCodec.Lawful ∧
      shrunk.partition "orders" 0 = some shrunkPartition ∧
      toKraftValues directoriesCodec (HashOrder.sorted MapSite)
        (.v1PartitionDirAssignment reportOne) shrunk = .ok [directoriesBlob 10 0] ∧
      toKraftValues directoriesCodec (HashOrder.sorted MapSite)
        (.v1PartitionDirAssignment reportTwo) shrunk = .ok [directoriesBlob 0 20] ∧
      ∃ img', replay directoriesCodec (fun _ => HashOrder.sorted MapSite) shrunk
          ([directoriesBlob 10 0] ++ [directoriesBlob 0 20]) = .ok img' ∧
        ¬Reported img' reportOne := by
  refine ⟨shrunk_admitted, shrunk_distinct, Or.inl (by decide), directoriesCodec_lawful,
    shrunk_partition, rfl, rfl, _, rfl, ?_⟩
  unfold Reported
  decide

end Krabka.Metadata.Kraft
