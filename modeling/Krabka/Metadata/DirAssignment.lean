import Krabka.Metadata.Frame

/-!
# `Metadata.DirAssignment` — directory assignments are one-slot deltas

A broker reports the log directory of its replica, and `apply` writes one slot of the partition's list of
directories. Two images that agree but for that slot (`SameBut`) keep doing so whatever records follow
(`SameBut.foldl`), and reports of different replicas commute (`applyPartitionDirAssignment_comm`): the slots
are places of distinct nodes in one replica list, and the padding does not depend on who pads first.
-/

namespace Krabka.Metadata

open Collections

/-! ## One slot of a partition

The list is padded to the replicas and one place of it is set. -/

/-- What a reader sees in a slot: an absent one is `MIGRATING`. -/
def PartitionRecord.directoryAt (p : PartitionRecord) (i : Nat) : Uuid := p.directories[i]?.getD migrating

/-- The directories, padded to the replicas. -/
def PartitionRecord.paddedDirectories (p : PartitionRecord) : List Uuid :=
  if p.directories.length < p.replicas.length then resize p.directories p.replicas.length migrating
  else p.directories

/-- An assignment pads the directories and sets one of them. -/
theorem assignDirectory_eq (p : PartitionRecord) (slot : Nat) (directory : Uuid) :
    MetadataImage.assignDirectory p slot directory =
      { p with directories := p.paddedDirectories.set slot directory } := rfl

/-- A short list is filled up. -/
theorem resize_of_lt {α : Type} {l : List α} {n : Nat} {a : α} (h : l.length < n) :
    resize l n a = l ++ List.replicate (n - l.length) a := by
  unfold resize
  rw [List.take_of_length_le (Nat.le_of_lt h)]

/-- There is a directory for every replica. -/
theorem le_length_paddedDirectories (p : PartitionRecord) :
    p.replicas.length ≤ p.paddedDirectories.length := by
  unfold PartitionRecord.paddedDirectories
  split
  · rename_i h
    rw [resize_of_lt h, List.length_append, List.length_replicate]
    omega
  · omega

/-- A list that is long enough is not padded. -/
theorem paddedDirectories_of_le {p : PartitionRecord} (h : p.replicas.length ≤ p.directories.length) :
    p.paddedDirectories = p.directories := if_neg (Nat.not_lt.mpr h)

/-- Padding does not change what a reader sees. -/
theorem getD_paddedDirectories (p : PartitionRecord) (i : Nat) :
    p.paddedDirectories[i]?.getD migrating = p.directoryAt i := by
  unfold PartitionRecord.paddedDirectories PartitionRecord.directoryAt
  split
  · rename_i h
    rw [resize_of_lt h]
    by_cases hi : i < p.directories.length
    · rw [List.getElem?_append_left hi]
    · rw [List.getElem?_append_right (Nat.not_lt.mp hi), List.getElem?_replicate,
        List.getElem?_eq_none (Nat.not_lt.mp hi)]
      split <;> rfl
  · rfl

namespace MetadataImage

/-- The slot holds the directory that was assigned. -/
theorem directories_assignDirectory_self {p : PartitionRecord} {slot : Nat} {directory : Uuid}
    (h : slot < p.replicas.length) :
    (assignDirectory p slot directory).directories[slot]? = some directory := by
  rw [assignDirectory_eq]
  exact List.getElem?_set_self (Nat.lt_of_lt_of_le h (le_length_paddedDirectories p))

/-- No other slot changes. -/
theorem directoryAt_assignDirectory_of_ne {p : PartitionRecord} {slot i : Nat} {directory : Uuid}
    (h : slot ≠ i) : (assignDirectory p slot directory).directoryAt i = p.directoryAt i := by
  rw [← getD_paddedDirectories p i, assignDirectory_eq]
  unfold PartitionRecord.directoryAt
  rw [List.getElem?_set_ne h]

/-- Two writes of different slots commute: whoever comes first pads. -/
theorem assignDirectory_comm {p : PartitionRecord} {i j : Nat} (h : i ≠ j) (d e : Uuid) :
    assignDirectory (assignDirectory p i d) j e = assignDirectory (assignDirectory p j e) i d := by
  have hpadded : ∀ slot directory,
      (assignDirectory p slot directory).paddedDirectories = p.paddedDirectories.set slot directory := by
    intro slot directory
    refine paddedDirectories_of_le ?_
    rw [assignDirectory_eq]
    simpa using le_length_paddedDirectories p
  rw [assignDirectory_eq (assignDirectory p i d), assignDirectory_eq (assignDirectory p j e), hpadded,
    hpadded, List.set_comm d e h]
  rfl

/-! ## The slot of a report

The place of the replica in the list of replicas. -/

variable {img a b : MetadataImage} {r s : PartitionDirAssignmentRecord}

/-- The slot that a report is about: the place of its replica in the partition, if it has one. -/
def slotOf (img : MetadataImage) (r : PartitionDirAssignmentRecord) : Option Nat :=
  (img.partition r.topic r.partition).bind (fun p => p.replicas.idxOf? r.replica)

/-- A report of an unknown partition or a node that is no replica of it changes nothing. -/
theorem applyPartitionDirAssignment_of_none (h : img.slotOf r = none) :
    img.applyPartitionDirAssignment r = img := by
  unfold slotOf at h
  unfold applyPartitionDirAssignment
  cases hp : img.partition r.topic r.partition with
  | none => rfl
  | some p =>
      rw [hp] at h
      simp only [Option.bind_some] at h
      simp only [h]

theorem applyPartitionDirAssignment_of_some {p : PartitionRecord} {slot : Nat}
    (hp : img.partition r.topic r.partition = some p) (hs : p.replicas.idxOf? r.replica = some slot) :
    img.applyPartitionDirAssignment r =
      { img with
        partitions := insert2 img.partitions r.topic r.partition (assignDirectory p slot r.directory) } := by
  unfold applyPartitionDirAssignment
  simp only [hp, hs]

/-- A slot belongs to a partition that exists. -/
theorem exists_of_slotOf {slot : Nat} (h : img.slotOf r = some slot) :
    ∃ p, img.partition r.topic r.partition = some p ∧ p.replicas.idxOf? r.replica = some slot :=
  Option.bind_eq_some_iff.mp h

/-- A slot is that of one of the replicas. -/
theorem slot_lt {replicas : List NodeId} {replica : NodeId} {slot : Nat}
    (h : replicas.idxOf? replica = some slot) : slot < replicas.length ∧ replicas[slot]? = some replica := by
  obtain ⟨hlt, hget, -⟩ := List.idxOf?_eq_some_iff.mp h
  exact ⟨hlt, by rw [List.getElem?_eq_getElem hlt, hget]⟩

/-- An assignment is seen at its partition and nowhere else. -/
theorem partition_applyPartitionDirAssignment {p : PartitionRecord} {slot : Nat}
    (hp : img.partition r.topic r.partition = some p) (hs : p.replicas.idxOf? r.replica = some slot)
    (topic : String) (idx : Int32) :
    (img.applyPartitionDirAssignment r).partition topic idx =
      if r.topic = topic ∧ r.partition = idx then some (assignDirectory p slot r.directory)
      else img.partition topic idx := by
  rw [applyPartitionDirAssignment_of_some hp hs]
  exact lookup2_insert2 _ _ _ _ _ _

/-- No report changes a replica list, so none moves the slot of another. -/
theorem slotOf_applyPartitionDirAssignment :
    (img.applyPartitionDirAssignment r).slotOf s = img.slotOf s := by
  cases hslot : img.slotOf r with
  | none => rw [applyPartitionDirAssignment_of_none hslot]
  | some slot =>
      obtain ⟨p, hp, hs⟩ := exists_of_slotOf hslot
      unfold slotOf
      rw [partition_applyPartitionDirAssignment hp hs]
      split
      · rename_i hsame
        rw [← hsame.1, ← hsame.2, hp]
        rfl
      · rfl

/-- **Reports of different replicas commute.** -/
theorem applyPartitionDirAssignment_comm
    (h : ¬(r.topic = s.topic ∧ r.partition = s.partition ∧ r.replica = s.replica)) :
    (img.applyPartitionDirAssignment r).applyPartitionDirAssignment s =
      (img.applyPartitionDirAssignment s).applyPartitionDirAssignment r := by
  cases hr : img.slotOf r with
  | none =>
      have hr' : (img.applyPartitionDirAssignment s).slotOf r = none :=
        slotOf_applyPartitionDirAssignment.trans hr
      rw [applyPartitionDirAssignment_of_none hr, applyPartitionDirAssignment_of_none hr']
  | some i =>
      cases hs : img.slotOf s with
      | none =>
          have hs' : (img.applyPartitionDirAssignment r).slotOf s = none :=
            slotOf_applyPartitionDirAssignment.trans hs
          rw [applyPartitionDirAssignment_of_none hs, applyPartitionDirAssignment_of_none hs']
      | some j =>
          obtain ⟨p, hp, hi⟩ := exists_of_slotOf hr
          obtain ⟨q, hq, hj⟩ := exists_of_slotOf hs
          by_cases hpart : r.topic = s.topic ∧ r.partition = s.partition
          · -- one partition: the two replicas are different, and so are their slots
            obtain ⟨htopic, hidx⟩ := hpart
            have hpq : p = q := by
              rw [htopic, hidx, hq] at hp
              exact (Option.some.inj hp).symm
            subst hpq
            have hne : i ≠ j := by
              rintro rfl
              have := (slot_lt hi).2.symm.trans (slot_lt hj).2
              exact h ⟨htopic, hidx, Option.some.inj this⟩
            have hafterR : (img.applyPartitionDirAssignment r).partition s.topic s.partition =
                some (assignDirectory p i r.directory) := by
              rw [partition_applyPartitionDirAssignment hp hi, if_pos ⟨htopic, hidx⟩]
            have hafterS : (img.applyPartitionDirAssignment s).partition r.topic r.partition =
                some (assignDirectory p j s.directory) := by
              rw [partition_applyPartitionDirAssignment hq hj, if_pos ⟨htopic.symm, hidx.symm⟩]
            rw [applyPartitionDirAssignment_of_some hafterR hj,
              applyPartitionDirAssignment_of_some hafterS hi, applyPartitionDirAssignment_of_some hp hi,
              applyPartitionDirAssignment_of_some hq hj, htopic, hidx]
            simp only [insert2_insert2, assignDirectory_comm hne]
          · have hpart' : ¬(s.topic = r.topic ∧ s.partition = r.partition) :=
              fun hc => hpart ⟨hc.1.symm, hc.2.symm⟩
            have hafterR : (img.applyPartitionDirAssignment r).partition s.topic s.partition = some q := by
              rw [partition_applyPartitionDirAssignment hp hi, if_neg hpart, hq]
            have hafterS : (img.applyPartitionDirAssignment s).partition r.topic r.partition = some p := by
              rw [partition_applyPartitionDirAssignment hq hj, if_neg hpart', hp]
            rw [applyPartitionDirAssignment_of_some hafterR hj,
              applyPartitionDirAssignment_of_some hafterS hi, applyPartitionDirAssignment_of_some hp hi,
              applyPartitionDirAssignment_of_some hq hj]
            simp only [insert2_comm _ hpart]

/-! ## Images that agree but for one slot

The relation is kept by every record, since none reads a slot that it does not write. -/

end MetadataImage

/-- The same partition, but for one slot of its directories. -/
structure PartitionRecord.SameBut (slot : Option Nat) (p q : PartitionRecord) : Prop where
  rest : q = { p with directories := q.directories }
  slots : ∀ i, slot ≠ some i → q.directoryAt i = p.directoryAt i

theorem PartitionRecord.SameBut.refl (slot : Option Nat) (p : PartitionRecord) : p.SameBut slot p :=
  ⟨rfl, fun _ _ => rfl⟩

theorem PartitionRecord.SameBut.replicas {slot : Option Nat} {p q : PartitionRecord}
    (h : p.SameBut slot q) : q.replicas = p.replicas := by rw [h.rest]

namespace MetadataImage

variable {img a b : MetadataImage} {r s : PartitionDirAssignmentRecord} {topic : String} {idx : Int32}
  {slot : Option Nat}

def withPartitions (img : MetadataImage) (m : HashMap String (BTreeMap Int32 PartitionRecord)) :
    MetadataImage :=
  { img with partitions := m }

/-- The same image, but for one slot of one partition's directories. -/
structure SameBut (topic : String) (idx : Int32) (slot : Option Nat) (a b : MetadataImage) : Prop where
  rest : b = a.withPartitions b.partitions
  keys : ∀ name, name ∈ b.partitions ↔ name ∈ a.partitions
  others : ∀ name i, ¬(topic = name ∧ idx = i) → b.partition name i = a.partition name i
  own : Option.Rel (PartitionRecord.SameBut slot) (a.partition topic idx) (b.partition topic idx)

theorem rel_refl {α : Type} {R : α → α → Prop} (h : ∀ x, R x x) (o : Option α) : Option.Rel R o o := by
  cases o with
  | none => exact .none
  | some x => exact .some (h x)

theorem isNone_of_rel {α : Type} {R : α → α → Prop} {x y : Option α} (h : Option.Rel R x y) :
    y.isNone = x.isNone := by
  cases h <;> rfl

theorem SameBut.refl (topic : String) (idx : Int32) (slot : Option Nat) (a : MetadataImage) :
    SameBut topic idx slot a a where
  rest := rfl
  keys := fun _ => Iff.rfl
  others := fun _ _ _ => rfl
  own := rel_refl (PartitionRecord.SameBut.refl slot) _

/-- A report writes its own slot and nothing else. -/
theorem sameBut_applyPartitionDirAssignment (img : MetadataImage) (r : PartitionDirAssignmentRecord) :
    SameBut r.topic r.partition (img.slotOf r) img (img.applyPartitionDirAssignment r) := by
  cases hslot : img.slotOf r with
  | none =>
      rw [applyPartitionDirAssignment_of_none hslot]
      exact .refl _ _ _ _
  | some slot =>
      obtain ⟨p, hp, hs⟩ := exists_of_slotOf hslot
      have hpart := partition_applyPartitionDirAssignment hp hs
      refine ⟨?_, fun name => ?_, fun name i hne => ?_, ?_⟩
      · rw [applyPartitionDirAssignment_of_some hp hs]
        rfl
      · rw [applyPartitionDirAssignment_of_some hp hs, mem_insert2_iff]
        refine ⟨fun h => h.elim (fun htopic => ?_) id, Or.inr⟩
        rw [← htopic]
        exact mem_of_lookup2 hp
      · rw [hpart, if_neg hne]
      · rw [hpart, if_pos ⟨rfl, rfl⟩, hp]
        refine .some ⟨by rw [assignDirectory_eq], fun i hi => ?_⟩
        exact directoryAt_assignDirectory_of_ne fun hc => hi (congrArg some hc)

/-- A record that does not write the partitions does not look at them either. -/
theorem apply_withPartitions {rec : MetadataRecord} (h : Table.partitions ∉ rec.kind.writes)
    (img : MetadataImage) (m : HashMap String (BTreeMap Int32 PartitionRecord)) :
    (img.withPartitions m).apply rec = (img.apply rec).withPartitions m := by
  have hite : ∀ (c : Prop) [Decidable c] (x y : MetadataImage),
      (if c then x.withPartitions m else y.withPartitions m) = (if c then x else y).withPartitions m :=
    fun c _ x y => (apply_ite (fun img => withPartitions img m) c x y).symm
  cases rec with
  | v1Partition _ | v1DeleteTopic _ | v1PartitionDirAssignment _ | v1PartitionUpdate _ =>
      exact absurd (by simp [MetadataRecord.kind, RecordKind.writes]) h
  | v1BrokerRegistrationChange change =>
      show (img.withPartitions m).applyRegistrationChange change =
        (img.applyRegistrationChange change).withPartitions m
      unfold applyRegistrationChange
      have hbrokers : (img.withPartitions m).brokers = img.brokers := rfl
      rw [hbrokers]
      cases img.brokers[change.nodeId]? with
      | none => rfl
      | some broker =>
          exact hite (broker.brokerEpoch = change.brokerEpoch)
            { img with brokers := img.brokers.insert change.nodeId (change.appliedTo broker) } img
  | v1UnregisterBroker rec =>
      exact hite (img.brokerEpoch rec.nodeId = some rec.brokerEpoch)
        { img with brokers := img.brokers.erase rec.nodeId } img
  | v1ProducerIds rec =>
      exact hite (img.nextProducerId < rec.nextProducerId) { img with producerIds := some rec } img
  | v1TopicFreeze rec =>
      show (img.withPartitions m).applyTopicFreeze rec = (img.applyTopicFreeze rec).withPartitions m
      unfold applyTopicFreeze
      cases rec.patternType <;> cases rec.frozen <;> rfl
  | _ => rfl

/-- A record that writes no partitions keeps the images the same. -/
theorem SameBut.apply_frame (h : SameBut topic idx slot a b) {rec : MetadataRecord}
    (hrec : Table.partitions ∉ rec.kind.writes) : SameBut topic idx slot (a.apply rec) (b.apply rec) := by
  have ha : (a.apply rec).partitions = a.partitions := MetadataImage.apply_frame a rec hrec
  have hb : (b.apply rec).partitions = b.partitions := MetadataImage.apply_frame b rec hrec
  refine ⟨?_, fun name => ?_, fun name i hne => ?_, ?_⟩
  · rw [hb]
    conv_lhs => rw [h.rest]
    exact apply_withPartitions hrec a b.partitions
  · rw [ha, hb]
    exact h.keys name
  · unfold partition
    rw [ha, hb]
    exact h.others name i hne
  · unfold partition
    rw [ha, hb]
    exact h.own

theorem SameBut.isNone (h : SameBut topic idx slot a b) (name : String) (i : Int32) :
    (b.partition name i).isNone = (a.partition name i).isNone := by
  by_cases hsame : topic = name ∧ idx = i
  · obtain ⟨rfl, rfl⟩ := hsame
    exact isNone_of_rel h.own
  · rw [h.others name i hsame]

/-- A partition of the one image is in the other: the same, or the same but for the slot. -/
theorem SameBut.partition_eq_some (h : SameBut topic idx slot a b) {name : String} {i : Int32}
    {p : PartitionRecord} (hp : a.partition name i = some p) :
    ∃ q, b.partition name i = some q ∧ p.SameBut slot q ∧ (¬(topic = name ∧ idx = i) → q = p) := by
  by_cases hsame : topic = name ∧ idx = i
  · obtain ⟨rfl, rfl⟩ := hsame
    have hown := h.own
    rw [hp] at hown
    cases hq : b.partition topic idx with
    | none =>
        rw [hq] at hown
        cases hown
    | some q =>
        rw [hq] at hown
        cases hown with
        | some hpq => exact ⟨q, rfl, hpq, fun hc => absurd ⟨rfl, rfl⟩ hc⟩
  · exact ⟨p, (h.others name i hsame).trans hp, .refl slot p, fun _ => rfl⟩

/-- A partition that is applied to both keeps them the same. -/
theorem SameBut.applyPartition (h : SameBut topic idx slot a b) (p : PartitionRecord) :
    SameBut topic idx slot (a.applyPartition p) (b.applyPartition p) := by
  have htopics : b.topics = a.topics := by
    rw [h.rest]
    rfl
  refine ⟨?_, fun name => ?_, fun name i hne => ?_, ?_⟩
  · unfold MetadataImage.applyPartition
    rw [h.isNone, htopics]
    conv_lhs => rw [h.rest]
    rfl
  · show name ∈ insert2 _ _ _ _ ↔ name ∈ insert2 _ _ _ _
    rw [mem_insert2_iff, mem_insert2_iff, h.keys name]
  · rw [partition_applyPartition, partition_applyPartition, h.others name i hne]
  · rw [partition_applyPartition, partition_applyPartition]
    split
    · exact .some (.refl slot p)
    · exact h.own

theorem SameBut.applyDeleteTopic (h : SameBut topic idx slot a b) (d : DeleteTopicRecord) :
    SameBut topic idx slot (a.applyDeleteTopic d) (b.applyDeleteTopic d) := by
  have hpart : ∀ (img : MetadataImage) name i, (img.applyDeleteTopic d).partition name i =
      if d.name = name then none else img.partition name i :=
    fun img name i => lookup2_erase img.partitions d.name name i
  refine ⟨?_, fun name => ?_, fun name i hne => ?_, ?_⟩
  · unfold MetadataImage.applyDeleteTopic
    conv_lhs => rw [h.rest]
    rfl
  · show name ∈ b.partitions.erase d.name ↔ name ∈ a.partitions.erase d.name
    rw [mem_erase_iff, mem_erase_iff, h.keys name]
  · rw [hpart, hpart, h.others name i hne]
  · rw [hpart, hpart]
    split
    · exact .none
    · exact h.own

theorem sameBut_assignDirectory {p q : PartitionRecord} (h : p.SameBut slot q) {j : Nat}
    (hj : j < p.replicas.length) (directory : Uuid) :
    (assignDirectory p j directory).SameBut slot (assignDirectory q j directory) := by
  have hj' : j < q.replicas.length := by rwa [h.replicas]
  refine ⟨?_, fun i hi => ?_⟩
  · have hrest := h.rest
    generalize q.directories = directories at hrest
    subst hrest
    rfl
  · by_cases hij : j = i
    · subst hij
      unfold PartitionRecord.directoryAt
      rw [directories_assignDirectory_self hj, directories_assignDirectory_self hj']
    · rw [directoryAt_assignDirectory_of_ne hij, directoryAt_assignDirectory_of_ne hij, h.slots i hi]

/-- A later report finds the same slot in both images, and leaves it the same in both. -/
theorem SameBut.applyPartitionDirAssignment (h : SameBut topic idx slot a b)
    (s : PartitionDirAssignmentRecord) :
    SameBut topic idx slot (a.applyPartitionDirAssignment s) (b.applyPartitionDirAssignment s) := by
  cases ha : a.partition s.topic s.partition with
  | none =>
      have hb : (b.partition s.topic s.partition).isNone := by rw [h.isNone, ha]; rfl
      have hslotA : a.slotOf s = none := by unfold slotOf; rw [ha]; rfl
      have hslotB : b.slotOf s = none := by unfold slotOf; rw [Option.isNone_iff_eq_none.mp hb]; rfl
      rw [applyPartitionDirAssignment_of_none hslotA, applyPartitionDirAssignment_of_none hslotB]
      exact h
  | some p =>
      obtain ⟨q, hb, hpq, heq⟩ := h.partition_eq_some ha
      cases hj : p.replicas.idxOf? s.replica with
      | none =>
          have hslotA : a.slotOf s = none := by unfold slotOf; rw [ha]; exact hj
          have hslotB : b.slotOf s = none := by unfold slotOf; rw [hb]; rw [← hpq.replicas] at hj; exact hj
          rw [applyPartitionDirAssignment_of_none hslotA, applyPartitionDirAssignment_of_none hslotB]
          exact h
      | some j =>
          have hj' : q.replicas.idxOf? s.replica = some j := by rw [hpq.replicas]; exact hj
          have hpartA := partition_applyPartitionDirAssignment ha hj
          have hpartB := partition_applyPartitionDirAssignment hb hj'
          refine ⟨?_, fun name => ?_, fun name i hne => ?_, ?_⟩
          · rw [applyPartitionDirAssignment_of_some ha hj, applyPartitionDirAssignment_of_some hb hj']
            conv_lhs => rw [h.rest]
            rfl
          · rw [applyPartitionDirAssignment_of_some ha hj, applyPartitionDirAssignment_of_some hb hj',
              mem_insert2_iff, mem_insert2_iff, h.keys name]
          · rw [hpartA, hpartB]
            split
            · rename_i hs
              rw [heq fun hc => hne ⟨hc.1.trans hs.1, hc.2.trans hs.2⟩]
            · exact h.others name i hne
          · rw [hpartA, hpartB]
            split
            · exact .some (sameBut_assignDirectory hpq (slot_lt hj).1 s.directory)
            · exact h.own

/-- An update is the record of its partition, and then those of its other parts. -/
theorem SameBut.applyPartitionUpdate (h : SameBut topic idx slot a b) (u : PartitionUpdateRecord) :
    SameBut topic idx slot (a.applyPartitionUpdate u) (b.applyPartitionUpdate u) := by
  have helr : ∀ {a b : MetadataImage} eligible lastKnown, SameBut topic idx slot a b →
      SameBut topic idx slot
        (a.applyPartitionElr u.partition.topic u.partition.partition eligible lastKnown)
        (b.applyPartitionElr u.partition.topic u.partition.partition eligible lastKnown) :=
    fun eligible lastKnown h =>
      have hkind : Table.partitions ∉ (MetadataRecord.v1PartitionElr
          ⟨u.partition.topic, u.partition.partition, eligible, lastKnown⟩).kind.writes := by
        simp [MetadataRecord.kind, RecordKind.writes]
      h.apply_frame hkind
  have hrecovery : ∀ {a b : MetadataImage} state, SameBut topic idx slot a b →
      SameBut topic idx slot
        (a.applyPartitionRecovery u.partition.topic u.partition.partition state)
        (b.applyPartitionRecovery u.partition.topic u.partition.partition state) :=
    fun state h =>
      have hkind : Table.partitions ∉ (MetadataRecord.v1PartitionRecovery
          ⟨u.partition.topic, u.partition.partition, state⟩).kind.writes := by
        simp [MetadataRecord.kind, RecordKind.writes]
      h.apply_frame hkind
  have hpart := h.applyPartition u.partition
  unfold MetadataImage.applyPartitionUpdate
  cases u.recoveryState with
  | none =>
      simp only []
      split
      · exact helr _ _ hpart
      · exact hpart
  | some state =>
      simp only []
      split
      · exact hrecovery state (helr _ _ hpart)
      · exact hrecovery state hpart

/-- **Step.** Images that agree but for a slot do so after every record. -/
theorem SameBut.step (h : SameBut topic idx slot a b) (rec : MetadataRecord) :
    SameBut topic idx slot (a.apply rec) (b.apply rec) := by
  cases rec with
  | v1Partition p => exact h.applyPartition p
  | v1DeleteTopic d => exact h.applyDeleteTopic d
  | v1PartitionDirAssignment s => exact h.applyPartitionDirAssignment s
  | v1PartitionUpdate u => exact h.applyPartitionUpdate u
  | _ => exact h.apply_frame (by simp [MetadataRecord.kind, RecordKind.writes])

/-- **Run.** -/
theorem SameBut.foldl (h : SameBut topic idx slot a b) (records : List MetadataRecord) :
    SameBut topic idx slot (records.foldl apply a) (records.foldl apply b) := by
  induction records generalizing a b with
  | nil => exact h
  | cons rec rest ih => exact ih (h.step rec)

/-! ## Reports

Any run, any two reports of different replicas. -/

/-- **Directory assignments.** Two reports that differ in topic, partition or replica commute; a report,
    between any records before it and any after it, changes its own slot of its own partition and nothing
    else of the image; the slot then holds the reported directory; and a report of an unknown partition or
    of a node that is no replica changes nothing. -/
theorem dirAssignments_are_deltas :
    (∀ (img : MetadataImage) (r s : PartitionDirAssignmentRecord),
      ¬(r.topic = s.topic ∧ r.partition = s.partition ∧ r.replica = s.replica) →
        (img.apply (.v1PartitionDirAssignment r)).apply (.v1PartitionDirAssignment s) =
          (img.apply (.v1PartitionDirAssignment s)).apply (.v1PartitionDirAssignment r)) ∧
    (∀ (img : MetadataImage) (before : List MetadataRecord) (r : PartitionDirAssignmentRecord)
      (after : List MetadataRecord),
      SameBut r.topic r.partition ((before.foldl apply img).slotOf r)
        ((before ++ after).foldl apply img)
        ((before ++ .v1PartitionDirAssignment r :: after).foldl apply img)) ∧
    (∀ (img : MetadataImage) (r : PartitionDirAssignmentRecord) (p : PartitionRecord) (slot : Nat),
      img.partition r.topic r.partition = some p → p.replicas.idxOf? r.replica = some slot →
        ∃ q, (img.apply (.v1PartitionDirAssignment r)).partition r.topic r.partition = some q ∧
          q.directories[slot]? = some r.directory) ∧
    ∀ (img : MetadataImage) (r : PartitionDirAssignmentRecord),
      (∀ p, img.partition r.topic r.partition = some p → r.replica ∉ p.replicas) →
        img.apply (.v1PartitionDirAssignment r) = img := by
  refine ⟨fun img r s h => applyPartitionDirAssignment_comm h, ?_, ?_, ?_⟩
  · intro img before r after
    rw [List.foldl_append, List.foldl_append, List.foldl_cons]
    exact (sameBut_applyPartitionDirAssignment (before.foldl apply img) r).foldl after
  · intro img r p slot hp hs
    refine ⟨assignDirectory p slot r.directory, ?_, directories_assignDirectory_self (slot_lt hs).1⟩
    exact (partition_applyPartitionDirAssignment hp hs _ _).trans (if_pos ⟨rfl, rfl⟩)
  · intro img r hno
    refine applyPartitionDirAssignment_of_none ?_
    unfold slotOf
    rw [Option.bind_eq_none_iff]
    intro p hp
    exact List.idxOf?_eq_none_iff.mpr (hno p hp)

/-- A partition with three replicas and one directory on record. -/
def shortDirectories : MetadataImage :=
  [.v1Topic ⟨"orders", 1, 0, 3⟩, .v1Partition ⟨"orders", 0, 1, [1, 2, 3], [1, 2], 0, [], [], [7], 0⟩].foldl
    apply (new 0)

/-- Two reports in either order, and the slot that neither is about. -/
theorem dirAssignments_are_deltas_short :
    (shortDirectories.apply (.v1PartitionDirAssignment ⟨"orders", 0, 2, 8⟩)).apply
        (.v1PartitionDirAssignment ⟨"orders", 0, 3, 9⟩) =
      (shortDirectories.apply (.v1PartitionDirAssignment ⟨"orders", 0, 3, 9⟩)).apply
        (.v1PartitionDirAssignment ⟨"orders", 0, 2, 8⟩) ∧
    (∃ q, (shortDirectories.apply (.v1PartitionDirAssignment ⟨"orders", 0, 3, 9⟩)).partition "orders" 0 =
        some q ∧ q.directories[2]? = some 9) ∧
    shortDirectories.apply (.v1PartitionDirAssignment ⟨"orders", 0, 4, 9⟩) = shortDirectories := by
  refine ⟨dirAssignments_are_deltas.1 _ _ _ (by decide), ?_, ?_⟩
  · exact dirAssignments_are_deltas.2.2.1 shortDirectories ⟨"orders", 0, 3, 9⟩
      ⟨"orders", 0, 1, [1, 2, 3], [1, 2], 0, [], [], [7], 0⟩ 2 (by decide +kernel) (by decide)
  · refine dirAssignments_are_deltas.2.2.2 shortDirectories ⟨"orders", 0, 4, 9⟩ fun p hp => ?_
    have hstored : shortDirectories.partition "orders" 0 =
        some ⟨"orders", 0, 1, [1, 2, 3], [1, 2], 0, [], [], [7], 0⟩ := by decide +kernel
    rw [hstored] at hp
    cases hp
    decide

end MetadataImage

end Krabka.Metadata
