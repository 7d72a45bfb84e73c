import Krabka.Lib.Tiling
import Krabka.Metadata.Integrity
import Krabka.Metadata.Snapshot

/-!
# `Metadata.Sequencer` — the offsets of diskless partitions

A diskless partition has no log of its own to count offsets with. The metadata log does it: an advance
takes the next offsets of its partition, and a snapshot compresses all advances of a partition into one.

## Contents
* `partitionNextOffset` — what each record does to it.
* `grants` — the ranges that the advances of a run hand out.
* `sequencer_gap_free` — they tile the offsets, over any records and any snapshots.
* `sequencer_follows_topics_iff` — when the offsets of a topic go away with it.
-/

namespace Krabka.Metadata

open Collections Tiling

namespace MetadataImage

variable {img : MetadataImage}

/-! ## The next offset

A lookup, and what each kind of record makes of it. -/

/-- `partition_next_offset`. -/
def partitionNextOffset (img : MetadataImage) (topic : String) (idx : Int32) : Option Int64 :=
  lookup2 img.partitionNextOffsets topic idx

/-- The offset that the next advance starts at. -/
def baseOffset (img : MetadataImage) (topic : String) (idx : Int32) : Int :=
  ((img.partitionNextOffset topic idx).getD 0).toInt

/-- At the start no partition has an offset. -/
theorem partitionNextOffset_new (clusterId : Uuid) (topic : String) (idx : Int32) :
    (new clusterId).partitionNextOffset topic idx = none := lookup2_empty topic idx

/-- An advance is seen at its partition and nowhere else. -/
theorem partitionNextOffset_advance (img : MetadataImage) (r : PartitionOffsetAdvanceRecord)
    (topic : String) (idx : Int32) :
    (img.apply (.v1PartitionOffsetAdvance r)).partitionNextOffset topic idx =
      if r.topic = topic ∧ r.partition = idx then
        some ((img.partitionNextOffset topic idx).getD 0 + r.count)
      else img.partitionNextOffset topic idx := by
  refine (lookup2_insert2 _ _ _ _ _ _).trans ?_
  split
  · rename_i h
    rw [h.1, h.2]
    rfl
  · rfl

/-- A topic that is deleted forgets its offsets. -/
theorem partitionNextOffset_deleteTopic (img : MetadataImage) (d : DeleteTopicRecord)
    (topic : String) (idx : Int32) :
    (img.apply (.v1DeleteTopic d)).partitionNextOffset topic idx =
      if d.name = topic then none else img.partitionNextOffset topic idx :=
  lookup2_erase _ _ _ _

/-- No other kind of record writes the offsets. -/
theorem partitionNextOffset_frame (img : MetadataImage) {r : MetadataRecord}
    (hadvance : r.kind ≠ .partitionOffsetAdvance) (hdelete : r.kind ≠ .deleteTopic)
    (topic : String) (idx : Int32) :
    (img.apply r).partitionNextOffset topic idx = img.partitionNextOffset topic idx := by
  have hwrites : Table.partitionNextOffsets ∉ r.kind.writes := by
    cases hk : r.kind <;> rw [hk] at hadvance hdelete <;>
      first | decide | exact absurd rfl hadvance | exact absurd rfl hdelete
  have htable : (img.apply r).partitionNextOffsets = img.partitionNextOffsets :=
    apply_frame img r hwrites
  unfold partitionNextOffset
  rw [htable]

/-- A snapshot restores the offsets. -/
theorem partitionNextOffset_restored (h : WellFormed img) (ω : MapOrder) (clusterId : Uuid)
    (topic : String) (idx : Int32) :
    (restored ω img clusterId).partitionNextOffset topic idx = img.partitionNextOffset topic idx := by
  unfold partitionNextOffset
  rw [restored_partitionNextOffsets ω h clusterId]

/-! ## Runs with snapshots

A snapshot may come between any two records. -/

/-- What happens to a replica's image: a record of the log, or a restore from its snapshot. -/
inductive ReplicaStep where
  | record (r : MetadataRecord)
  | restore (ω : MapOrder) (clusterId : Uuid)

def step (img : MetadataImage) : ReplicaStep → MetadataImage
  | .record r => img.apply r
  | .restore ω clusterId => restored ω img clusterId

def run (img : MetadataImage) (steps : List ReplicaStep) : MetadataImage := steps.foldl step img

/-- Every step keeps the image well formed. -/
theorem WellFormed.replicaStep (h : WellFormed img) (s : ReplicaStep) : WellFormed (img.step s) := by
  cases s with
  | record r => exact h.step r
  | restore ω clusterId => exact wellFormed_of_built ⟨img.toRecords ω, rfl⟩

/-- The step moves the offset of this partition or drops it. -/
def ReplicaStep.Sequences (topic : String) (idx : Int32) : ReplicaStep → Prop
  | .record (.v1PartitionOffsetAdvance r) => r.topic = topic ∧ r.partition = idx
  | .record (.v1DeleteTopic d) => d.name = topic
  | _ => False

/-- A step that does not sequence a partition leaves its offset. -/
theorem partitionNextOffset_step (h : WellFormed img) {s : ReplicaStep} {topic : String} {idx : Int32}
    (hs : ¬s.Sequences topic idx) :
    (img.step s).partitionNextOffset topic idx = img.partitionNextOffset topic idx := by
  cases s with
  | restore ω clusterId => exact partitionNextOffset_restored h ω clusterId topic idx
  | record r =>
      by_cases hadvance : r.kind = .partitionOffsetAdvance
      · cases r <;> cases hadvance
        exact (partitionNextOffset_advance img _ topic idx).trans (if_neg hs)
      · by_cases hdelete : r.kind = .deleteTopic
        · cases r <;> cases hdelete
          exact (partitionNextOffset_deleteTopic img _ topic idx).trans (if_neg hs)
        · exact partitionNextOffset_frame img hadvance hdelete topic idx

/-! ## What the advances hand out

A range for each advance, from the offset in front of it. -/

/-- The grants to a partition since its topic was last deleted, `(base, count)` each, after one more
step. -/
def grantStep (topic : String) (idx : Int32) (img : MetadataImage) (gs : List (Int × Int)) :
    ReplicaStep → List (Int × Int)
  | .record (.v1PartitionOffsetAdvance r) =>
      if r.topic = topic ∧ r.partition = idx then gs ++ [(img.baseOffset topic idx, r.count.toInt)]
      else gs
  | .record (.v1DeleteTopic d) => if d.name = topic then [] else gs
  | _ => gs

def grantsFrom (topic : String) (idx : Int32) (img : MetadataImage) (gs : List (Int × Int)) :
    List ReplicaStep → List (Int × Int)
  | [] => gs
  | s :: rest => grantsFrom topic idx (img.step s) (grantStep topic idx img gs s) rest

/-- The grants of a run. -/
def grants (clusterId : Uuid) (steps : List ReplicaStep) (topic : String) (idx : Int32) :
    List (Int × Int) := grantsFrom topic idx (new clusterId) [] steps

/-- An advance hands something out and does not overflow. -/
def AdvanceFits (img : MetadataImage) : ReplicaStep → Prop
  | .record (.v1PartitionOffsetAdvance r) =>
      0 < r.count.toInt ∧ img.baseOffset r.topic r.partition + r.count.toInt < 2 ^ 63
  | _ => True

/-- Every advance of the run does. -/
def AdvancesFit (img : MetadataImage) : List ReplicaStep → Prop
  | [] => True
  | s :: rest => img.AdvanceFits s ∧ (img.step s).AdvancesFit rest

/-- Nor does it grant anything. -/
theorem grantStep_of_not_sequences {topic : String} {idx : Int32} {gs : List (Int × Int)}
    {s : ReplicaStep} (hs : ¬s.Sequences topic idx) : grantStep topic idx img gs s = gs := by
  unfold ReplicaStep.Sequences at hs
  unfold grantStep
  split
  · exact if_neg hs
  · exact if_neg hs
  · rfl

/-- An advance that fits moves the base by its count. -/
theorem baseOffset_advance {r : PartitionOffsetAdvanceRecord} (h0 : 0 ≤ img.baseOffset r.topic r.partition)
    (h : img.AdvanceFits (.record (.v1PartitionOffsetAdvance r))) :
    (img.apply (.v1PartitionOffsetAdvance r)).baseOffset r.topic r.partition =
      img.baseOffset r.topic r.partition + r.count.toInt := by
  obtain ⟨hpos, hlt⟩ := h
  unfold baseOffset at h0 hlt ⊢
  rw [partitionNextOffset_advance, if_pos ⟨rfl, rfl⟩, Option.getD_some, Int64.toInt_add]
  exact Int.bmod_eq_of_le (by omega) (by omega)

/-- **One step keeps the offsets tiled.** -/
theorem tiles_step (hw : WellFormed img) {topic : String} {idx : Int32} {gs : List (Int × Int)}
    {s : ReplicaStep} (hfits : img.AdvanceFits s) (h : Tiles 0 gs (img.baseOffset topic idx)) :
    Tiles 0 (grantStep topic idx img gs s) ((img.step s).baseOffset topic idx) := by
  by_cases hs : s.Sequences topic idx
  · unfold ReplicaStep.Sequences at hs
    split at hs
    · rename_i r
      obtain ⟨rfl, rfl⟩ := hs
      have hgrant : grantStep r.topic r.partition img gs (.record (.v1PartitionOffsetAdvance r)) =
          gs ++ [(img.baseOffset r.topic r.partition, r.count.toInt)] := if_pos ⟨rfl, rfl⟩
      rw [hgrant]
      have hnext := baseOffset_advance h.le hfits
      exact hnext ▸ .grant h hfits.1
    · rename_i d
      subst hs
      have hgrant : grantStep d.name idx img gs (.record (.v1DeleteTopic d)) = [] := if_pos rfl
      have hnext : (img.step (.record (.v1DeleteTopic d))).baseOffset d.name idx = 0 := by
        unfold baseOffset
        rw [show img.step (.record (.v1DeleteTopic d)) = img.apply (.v1DeleteTopic d) from rfl,
          partitionNextOffset_deleteTopic, if_pos rfl]
        rfl
      rw [hgrant, hnext]
      exact .nil
    · exact hs.elim
  · have hnext : (img.step s).baseOffset topic idx = img.baseOffset topic idx := by
      unfold baseOffset
      rw [partitionNextOffset_step hw hs]
    rw [grantStep_of_not_sequences hs, hnext]
    exact h

/-- **A run keeps them tiled.** -/
theorem tiles_run {topic : String} {idx : Int32} {steps : List ReplicaStep} :
    ∀ {img : MetadataImage} {gs : List (Int × Int)}, WellFormed img → img.AdvancesFit steps →
      Tiles 0 gs (img.baseOffset topic idx) →
      Tiles 0 (grantsFrom topic idx img gs steps) ((img.run steps).baseOffset topic idx) := by
  induction steps with
  | nil => exact fun _ _ h => h
  | cons s rest ih =>
      intro img gs hw hfit h
      exact ih (hw.replicaStep s) hfit.2 (tiles_step hw hfit.1 h)

/-- So does every run. -/
theorem wellFormed_run {steps : List ReplicaStep} (h : WellFormed img) : WellFormed (img.run steps) := by
  induction steps generalizing img with
  | nil => exact h
  | cons s rest ih => exact ih (h.replicaStep s)

/-- **The sequencer has no gaps and no overlaps.** After any run of records and restores, the grants to a
partition since its topic was last deleted are disjoint, in log order, and cover exactly the offsets below
the next one; and a step that neither advances the partition nor deletes its topic leaves it alone. -/
theorem sequencer_gap_free (clusterId : Uuid) {steps : List ReplicaStep}
    (hfit : (new clusterId).AdvancesFit steps) (topic : String) (idx : Int32) :
    (grants clusterId steps topic idx).Pairwise (fun g g' => Disjoint (range g) (range g')) ∧
      (grants clusterId steps topic idx).Pairwise (fun g g' => g.1 + g.2 ≤ g'.1) ∧
      (⋃ g ∈ grants clusterId steps topic idx, range g) =
        Set.Ico 0 (((new clusterId).run steps).baseOffset topic idx) ∧
      ∀ s : ReplicaStep, ¬s.Sequences topic idx →
        (((new clusterId).run steps).step s).partitionNextOffset topic idx =
          ((new clusterId).run steps).partitionNextOffset topic idx := by
  have hw : WellFormed (new clusterId) := wellFormed_new clusterId
  have htiles : Tiles 0 (grants clusterId steps topic idx)
      (((new clusterId).run steps).baseOffset topic idx) := by
    refine tiles_run hw hfit ?_
    unfold baseOffset
    rw [partitionNextOffset_new]
    exact .nil
  exact ⟨htiles.disjoint, htiles.ordered, htiles.iUnion,
    fun s hs => partitionNextOffset_step (wellFormed_run hw) hs⟩

/-- Two advances with a snapshot between them, while another topic goes away. -/
def disklessRun : List ReplicaStep :=
  [ .record (.v1PartitionOffsetAdvance ⟨"orders", 0, 3⟩),
    .restore (HashOrder.sorted MapSite) 0,
    .record (.v1DeleteTopic ⟨"payments"⟩),
    .record (.v1PartitionOffsetAdvance ⟨"orders", 0, 2⟩) ]

theorem sequencer_gap_free_orders :
    grants 0 disklessRun "orders" 0 = [(0, 3), (3, 2)] ∧
      (⋃ g ∈ grants 0 disklessRun "orders" 0, range g) =
        Set.Ico 0 (((new 0).run disklessRun).baseOffset "orders" 0) := by
  refine ⟨by decide +kernel, (sequencer_gap_free 0 ?_ "orders" 0).2.2.1⟩
  exact ⟨⟨by decide, by decide⟩, trivial, trivial, ⟨by decide, by decide +kernel⟩, trivial⟩

/-! ## Offsets and topics

An offset belongs to a partition of a live topic, unless an advance has named a partition that is not there.
-/

/-- Every partition with offsets exists, and its topic is live. -/
def KeysLive (img : MetadataImage) : Prop :=
  ∀ topic idx, (img.partitionNextOffset topic idx).isSome = true →
    topic ∈ img.topics ∧ (img.partition topic idx).isSome = true

/-- An advance names a partition that exists. -/
def NamesPartition (img : MetadataImage) : MetadataRecord → Prop
  | .v1PartitionOffsetAdvance r => (img.partition r.topic r.partition).isSome = true
  | _ => True

/-- Every advance of the run does, when it is applied. -/
def AdvancesNamePartitions (img : MetadataImage) : List MetadataRecord → Prop
  | [] => True
  | r :: rest => img.NamesPartition r ∧ (img.apply r).AdvancesNamePartitions rest

/-- The advance of a partition. -/
def Advances (topic : String) (idx : Int32) : MetadataRecord → Prop
  | .v1PartitionOffsetAdvance r => r.topic = topic ∧ r.partition = idx
  | _ => False

/-- At every point of the run the offsets belong to live topics, and from the creation of a topic on the
first advance of each of its partitions starts at zero. -/
def Contained (img : MetadataImage) (records : List MetadataRecord) : Prop :=
  (∀ before, before <+: records → (before.foldl apply img).KeysLive) ∧
  ∀ before t since r, before ++ .v1Topic t :: (since ++ [.v1PartitionOffsetAdvance r]) <+: records →
    t.name ∉ (before.foldl apply img).topics → r.topic = t.name →
    (∀ a ∈ since, ¬Advances t.name r.partition a) →
    ((before ++ .v1Topic t :: since).foldl apply img).baseOffset r.topic r.partition = 0

/-- A record that writes no partitions changes none. -/
theorem partition_frame (img : MetadataImage) {r : MetadataRecord}
    (h : Table.partitions ∉ r.kind.writes) (topic : String) (idx : Int32) :
    (img.apply r).partition topic idx = img.partition topic idx := by
  have htable : (img.apply r).partitions = img.partitions := apply_frame img r h
  unfold partition
  rw [htable]

/-- Only the deletion of its topic takes a partition away. -/
theorem partition_isSome_apply {r : MetadataRecord} {topic : String} {idx : Int32}
    (hdelete : ∀ d, r = .v1DeleteTopic d → d.name ≠ topic)
    (h : (img.partition topic idx).isSome = true) :
    ((img.apply r).partition topic idx).isSome = true := by
  cases r with
  | v1Partition p =>
      rw [show (img.apply (.v1Partition p)) = img.applyPartition p from rfl, partition_applyPartition]
      split
      · rfl
      · exact h
  | v1PartitionUpdate u =>
      rw [show (img.apply (.v1PartitionUpdate u)) = img.applyPartitionUpdate u from rfl,
        partition_applyPartitionUpdate]
      split
      · rfl
      · exact h
  | v1DeleteTopic d =>
      have hlookup : (img.apply (.v1DeleteTopic d)).partition topic idx =
          if d.name = topic then none else img.partition topic idx := lookup2_erase _ _ _ _
      rw [hlookup, if_neg (hdelete d rfl)]
      exact h
  | v1PartitionDirAssignment r =>
      rcases applyPartitionDirAssignment_cases img r with he | ⟨pr, slot, -, -, he⟩
      · rwa [show img.apply (.v1PartitionDirAssignment r) = img from he]
      · rw [show img.apply (.v1PartitionDirAssignment r) = _ from he]
        unfold partition
        rw [lookup2_insert2]
        split
        · rfl
        · exact h
  | _ => rwa [partition_frame img (by simp only [MetadataRecord.kind]; decide)]

theorem keysLive_new (clusterId : Uuid) : (new clusterId).KeysLive := by
  intro topic idx h
  rw [partitionNextOffset_new] at h
  cases h

/-- An existing partition has a live topic. -/
theorem live_of_partition (h : Integrity img) {topic : String} {idx : Int32}
    (hp : (img.partition topic idx).isSome = true) : topic ∈ img.topics := by
  obtain ⟨p, hp⟩ := Option.isSome_iff_exists.mp hp
  exact h.partitions_live topic (mem_of_lookup2 hp)

/-- **Step.** -/
theorem KeysLive.step (h : img.KeysLive) (hi : Integrity img) {r : MetadataRecord}
    (hv : img.validate r = .ok ()) (hr : img.NamesPartition r) : (img.apply r).KeysLive := by
  intro topic idx hnext
  suffices hp : ((img.apply r).partition topic idx).isSome = true from
    ⟨live_of_partition (hi.step hv) hp, hp⟩
  by_cases hadvance : r.kind = .partitionOffsetAdvance
  · cases r <;> cases hadvance
    refine partition_isSome_apply (fun d hd => by cases hd) ?_
    rw [partitionNextOffset_advance] at hnext
    split at hnext
    · rename_i hsame
      rw [← hsame.1, ← hsame.2]
      exact hr
    · exact (h topic idx hnext).2
  · by_cases hdelete : r.kind = .deleteTopic
    · cases r <;> cases hdelete
      rw [partitionNextOffset_deleteTopic] at hnext
      split at hnext
      · cases hnext
      · rename_i hne
        refine partition_isSome_apply (fun d hd => ?_) (h topic idx hnext).2
        cases hd
        exact hne
    · rw [partitionNextOffset_frame img hadvance hdelete] at hnext
      refine partition_isSome_apply (fun d hd => ?_) (h topic idx hnext).2
      rw [hd] at hdelete
      exact absurd rfl hdelete

/-- An advance that names no partition leaves offsets without one. -/
theorem namesPartition_of_keysLive {r : MetadataRecord} (h : (img.apply r).KeysLive) :
    img.NamesPartition r := by
  unfold NamesPartition
  split
  · rename_i r
    have hnext : ((img.apply (.v1PartitionOffsetAdvance r)).partitionNextOffset r.topic
        r.partition).isSome = true := by
      rw [partitionNextOffset_advance, if_pos ⟨rfl, rfl⟩]
      rfl
    rw [← partition_frame img (r := .v1PartitionOffsetAdvance r)
      (by simp only [MetadataRecord.kind]; decide)]
    exact (h r.topic r.partition hnext).2
  · trivial

theorem validate_of_admits {r : MetadataRecord} {rest : List MetadataRecord}
    (h : img.admits (r :: rest) = true) :
    img.validate r = .ok () ∧ (img.apply r).admits rest = true := by
  unfold admits at h
  rw [Bool.and_eq_true] at h
  refine ⟨?_, h.2⟩
  cases hr : img.validate r with
  | error e => rw [hr] at h; cases h.1
  | ok u => rfl

/-- **Run.** The offsets stay with live topics exactly as long as the advances name partitions. -/
theorem keysLive_run_iff {records : List MetadataRecord} :
    ∀ {img : MetadataImage}, Integrity img → img.KeysLive → img.admits records = true →
      ((∀ before, before <+: records → (before.foldl apply img).KeysLive) ↔
        img.AdvancesNamePartitions records) := by
  induction records with
  | nil =>
      intro img _ hk _
      refine ⟨fun _ => trivial, fun _ before hpre => ?_⟩
      rw [List.prefix_nil.mp hpre]
      exact hk
  | cons r rest ih =>
      intro img hi hk ha
      obtain ⟨hv, hrest⟩ := validate_of_admits ha
      constructor
      · intro h
        have hstep : (img.apply r).KeysLive := h [r] ⟨rest, rfl⟩
        refine ⟨namesPartition_of_keysLive hstep, (ih (hi.step hv) hstep hrest).mp ?_⟩
        intro before hpre
        exact h (r :: before) ((List.prefix_cons_inj r).mpr hpre)
      · rintro ⟨hr, hnames⟩ before hpre
        obtain rfl | ⟨later, rfl, hlater⟩ := List.prefix_cons_iff.mp hpre
        · exact hk
        · exact (ih (hi.step hv) (hk.step hi hv hr) hrest).mpr hnames later hlater

/-- Without an advance a partition without offsets stays without. -/
theorem partitionNextOffset_foldl_eq_none {topic : String} {idx : Int32}
    {records : List MetadataRecord} (h : ∀ a ∈ records, ¬Advances topic idx a) :
    ∀ {img : MetadataImage}, img.partitionNextOffset topic idx = none →
      (records.foldl apply img).partitionNextOffset topic idx = none := by
  induction records with
  | nil => exact fun h => h
  | cons r rest ih =>
      intro img hnone
      obtain ⟨hr, hrest⟩ := List.forall_mem_cons.mp h
      refine ih hrest ?_
      by_cases hadvance : r.kind = .partitionOffsetAdvance
      · cases r <;> cases hadvance
        exact (partitionNextOffset_advance img _ topic idx).trans ((if_neg hr).trans hnone)
      · by_cases hdelete : r.kind = .deleteTopic
        · cases r <;> cases hdelete
          rw [partitionNextOffset_deleteTopic, hnone]
          exact ite_self none
        · rw [partitionNextOffset_frame img hadvance hdelete]
          exact hnone

/-- **A topic that was not live starts at zero.** -/
theorem baseOffset_of_created (h : img.KeysLive) {t : TopicRecord} {idx : Int32}
    (hnew : t.name ∉ img.topics) {since : List MetadataRecord}
    (hsince : ∀ a ∈ since, ¬Advances t.name idx a) :
    ((.v1Topic t :: since).foldl apply img).baseOffset t.name idx = 0 := by
  have hnone : img.partitionNextOffset t.name idx = none := by
    rw [← Option.not_isSome_iff_eq_none]
    exact fun hsome => hnew (h t.name idx hsome).1
  have hcreated : (img.apply (.v1Topic t)).partitionNextOffset t.name idx = none := by
    rw [partitionNextOffset_frame img (fun h => by cases h) (fun h => by cases h)]
    exact hnone
  unfold baseOffset
  rw [List.foldl_cons, partitionNextOffset_foldl_eq_none hsince hcreated]
  rfl

/-- **The offsets go away with their topic exactly when every advance names an existing partition.** -/
theorem sequencer_follows_topics_iff (clusterId : Uuid) {records : List MetadataRecord}
    (ha : (new clusterId).admits records = true) :
    (new clusterId).Contained records ↔ (new clusterId).AdvancesNamePartitions records := by
  have hrun := keysLive_run_iff (integrity_new clusterId) (keysLive_new clusterId) ha
  refine ⟨fun h => hrun.mp h.1, fun h => ⟨hrun.mpr h, ?_⟩⟩
  intro before t since r hpre hnew htopic hsince
  have hlive := hrun.mpr h before ((List.prefix_append _ _).trans hpre)
  rw [List.foldl_append, htopic]
  exact baseOffset_of_created hlive hnew hsince

/-- A topic with one partition. -/
def ordersTopic : List MetadataRecord :=
  [.v1Topic ⟨"orders", 1, 0, 1⟩, .v1Partition ⟨"orders", 0, 1, [1], [1], 0, [], [], [], 0⟩]

/-- It is used, deleted, created again and used again. -/
def recreatedRun : List MetadataRecord :=
  ordersTopic ++ [.v1PartitionOffsetAdvance ⟨"orders", 0, 5⟩, .v1DeleteTopic ⟨"orders"⟩] ++
    ordersTopic ++ [.v1PartitionOffsetAdvance ⟨"orders", 0, 2⟩]

theorem sequencer_follows_recreated : (new 0).Contained recreatedRun :=
  (sequencer_follows_topics_iff 0 (by decide)).mpr
    ⟨trivial, trivial, rfl, trivial, trivial, trivial, rfl, trivial⟩

/-- The advance of a produce request commits behind the deletion of its topic. -/
def lateAdvanceRun : List MetadataRecord :=
  ordersTopic ++ [.v1DeleteTopic ⟨"orders"⟩, .v1PartitionOffsetAdvance ⟨"orders", 0, 5⟩] ++ ordersTopic

/-- **The deleted topic gets offsets**, and the one created under its name starts behind them. -/
theorem sequencer_outlives_topic :
    (new 0).admits lateAdvanceRun = true ∧ ¬(new 0).Contained lateAdvanceRun ∧
      (lateAdvanceRun.foldl apply (new 0)).baseOffset "orders" 0 = 5 := by
  refine ⟨by decide, fun h => ?_, by decide⟩
  have hlive := h.1 (lateAdvanceRun.take 4) (List.take_prefix 4 _) "orders" 0 (by decide)
  exact absurd hlive.2 (by decide)

end MetadataImage

end Krabka.Metadata
