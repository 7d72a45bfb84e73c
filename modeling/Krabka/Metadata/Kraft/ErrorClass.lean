import Krabka.Metadata.Kraft.PartitionRead

/-!
# `Metadata.Kraft.ErrorClass` — what an error says about the bytes

A reader that refuses a record says whether more log could help: `InvalidValue` is the fault of the bytes,
any other refusal depends on the image. `invalidValue_classifies` says that the partition decoders keep to
this. A change that some image accepts meets no `InvalidValue` on any (`not_invalidValue_of_changeRead`), and
on an image made to fit the record nothing else can go wrong (`stepsFail_of_fits`).
-/

namespace Krabka.Metadata.Kraft

open Collections FixedWidth Results MetadataImage

variable {codec : Codec} {ω : MapOrder} {img : MetadataImage} {P : TranslateError → Prop}

def IsInvalidValue (e : TranslateError) : Prop := ∃ field detail, e = .invalidValue field detail

theorem isInvalidValue (field detail : String) : IsInvalidValue (.invalidValue field detail) :=
  ⟨field, detail, rfl⟩

/-- The error may go away with another image. -/
def DependsOnImage (e : TranslateError) : Prop := ¬IsInvalidValue e

/-- A reference that is missing is not the fault of the bytes. -/
theorem dependsOnImage_reference (field detail : String) :
    DependsOnImage (.invalidReference field detail) := by
  rintro ⟨_, _, h⟩
  cases h

theorem dependsOnImage_topicId (id : Uuid) : DependsOnImage (.unknownTopicId id) := by
  rintro ⟨_, _, h⟩
  cases h

/-! ## Errors of the bytes

A number that is negative or not in the list is wrong on every image. -/

/-- Node ids fail for their values. -/
theorem failsAs_nodesFromWire (hP : ∀ field detail, P (.invalidValue field detail)) (values : List Int32)
    (field : String) : FailsAs P (nodesFromWire values field) :=
  FailsAs.mapM fun _ _ => FailsAs.okOr (hP _ _) _

/-- So does a leader. -/
theorem failsAs_partitionLeaderFromWire (hP : ∀ field detail, P (.invalidValue field detail)) (value : Int32)
    (field : String) : FailsAs P (partitionLeaderFromWire value field) := by
  unfold partitionLeaderFromWire
  split
  · exact FailsAs.ok 0
  · exact FailsAs.okOr (hP _ _) _

/-- So does a recovery state. -/
theorem failsAs_recoveryStateFromWire (hP : ∀ field detail, P (.invalidValue field detail)) (field : String)
    (b : Int8) : FailsAs P (recoveryStateFromWire field b) := by
  unfold recoveryStateFromWire
  split
  · exact FailsAs.ok _
  · split
    · exact FailsAs.ok _
    · exact FailsAs.error (hP _ _)

/-! ## Partition records

The only other refusal of a partition record is an unknown topic id, and an image with that topic does not
have it. -/

/-- Once its topic is known, only the bytes of a partition record can be at fault. -/
theorem failsAs_partition {k : KPartitionRecord} {topic : String}
    (htopic : img.topicNameForId ω k.topicId = some topic) :
    FailsAs IsInvalidValue (fromKraft codec ω (.partition k) img) := by
  have hnodes := failsAs_nodesFromWire isInvalidValue
  refine FailsAs.bind (FailsAs.of_eq_ok (okOr_eq_ok.mpr htopic)) fun _ _ => ?_
  refine FailsAs.bind (failsAs_partitionLeaderFromWire isInvalidValue _ _) fun _ _ => ?_
  refine FailsAs.bind (hnodes _ _) fun _ _ => ?_
  refine FailsAs.bind (hnodes _ _) fun _ _ => ?_
  refine FailsAs.bind (hnodes _ _) fun _ _ => ?_
  refine FailsAs.bind (hnodes _ _) fun _ _ => ?_
  refine FailsAs.bind (failsAs_recoveryStateFromWire isInvalidValue _ _) fun _ _ => ?_
  split
  · refine FailsAs.bind (FailsAs.optionMapM fun _ => hnodes _ _) fun _ _ => ?_
    refine FailsAs.bind (FailsAs.optionMapM fun _ => hnodes _ _) fun _ _ => ?_
    exact FailsAs.ok _
  · exact FailsAs.ok _

/-- A partition of an unknown topic fails for the topic. -/
theorem failsAs_of_no_topic {k : KPartitionRecord} (hP : P (.unknownTopicId k.topicId))
    (hname : img.topicNameForId ω k.topicId = none) :
    FailsAs P (fromKraft codec ω (.partition k) img) := by
  refine FailsAs.bind (FailsAs.okOr hP _) fun _ ha => ?_
  have hsome := okOr_eq_ok.mp ha
  rw [hname] at hsome
  cases hsome

/-- What was read of a partition can be read under another name. -/
theorem PartitionRead.withTopic {k : KPartitionRecord} {topic : String} {u : PartitionUpdateRecord}
    (h : PartitionRead k topic u) (name : String) :
    PartitionRead k name { u with partition := { u.partition with topic := name } } :=
  { h with topic := rfl }

/-- A record that one image accepts is refused by another only for its topic. -/
theorem not_invalidValue_of_partitionRead {k : KPartitionRecord} {topic : String}
    {u : PartitionUpdateRecord} (h : PartitionRead k topic u) :
    FailsAs DependsOnImage (fromKraft codec ω (.partition k) img) := by
  cases hname : img.topicNameForId ω k.topicId with
  | none => exact failsAs_of_no_topic (dependsOnImage_topicId _) hname
  | some name =>
      exact FailsAs.of_eq_ok (fromKraft_partition.mpr ⟨name, _, hname, h.withTopic name, rfl⟩)

/-! ## Partition changes

A change goes through its fields in the order of the source. `StepsFail` says which step it stops at. -/

/-- How the steps of a change fail that look at the bytes alone, and how the directories do. -/
structure StepsFail (P : TranslateError → Prop) (c : KPartitionChangeRecord) (current : PartitionRecord) :
    Prop where
  replicas : FailsAs P (nodesOr current.replicas c.replicas "partition change replica")
  isr : FailsAs P (nodesOr current.isr c.isr "partition change ISR member")
  removing : FailsAs P (nodesOr current.removingReplicas c.removingReplicas
    "partition change removing replica")
  adding : FailsAs P (nodesOr current.addingReplicas c.addingReplicas "partition change adding replica")
  leader : FailsAs P (changedLeader current c.leader)
  directories : ∀ replicas, nodesOr current.replicas c.replicas "partition change replica" = .ok replicas →
    FailsAs P (changedDirectories current c replicas)
  partitionEpoch : FailsAs P (nextEpoch "partition change partition epoch" "partition epoch overflow"
    current.partitionEpoch)
  eligible : FailsAs P (c.eligibleLeaderReplicas.mapM (nodesFromWire · "eligible leader replica"))
  lastKnown : FailsAs P (c.lastKnownElr.mapM (nodesFromWire · "last known eligible leader replica"))

/-- A change fails as its steps do. -/
theorem failsAs_partitionChange {c : KPartitionChangeRecord}
    (htopic : FailsAs P (topicOfId ω img c.topicId))
    (hrecovery : FailsAs P (changedRecoveryState c.leaderRecoveryState))
    (hcurrent : ∀ topic, img.topicNameForId ω c.topicId = some topic →
      FailsAs P (okOr (.invalidReference "partition change"
        ("unknown partition " ++ partitionName topic c.partitionId)) (img.partition topic c.partitionId)))
    (hsteps : ∀ topic current, img.topicNameForId ω c.topicId = some topic →
      img.partition topic c.partitionId = some current → StepsFail P c current) :
    FailsAs P (fromKraft codec ω (.partitionChange c) img) := by
  refine htopic.bind fun topic hname => ?_
  have hname := okOr_eq_ok.mp hname
  refine hrecovery.bind fun state _ => ?_
  refine (hcurrent topic hname).bind fun current hp => ?_
  have hfail := hsteps topic current hname (okOr_eq_ok.mp hp)
  refine FailsAs.bind ?_ fun p _ => ?_
  · refine hfail.replicas.bind fun replicas hreplicas => ?_
    refine hfail.isr.bind fun _ _ => ?_
    refine hfail.removing.bind fun _ _ => ?_
    refine hfail.adding.bind fun _ _ => ?_
    refine hfail.leader.bind fun _ _ => ?_
    refine (hfail.directories replicas hreplicas).bind fun _ _ => ?_
    exact hfail.partitionEpoch.bind fun _ _ => FailsAs.ok _
  · split
    · refine hfail.eligible.bind fun _ _ => ?_
      exact hfail.lastKnown.bind fun _ _ => FailsAs.ok _
    · exact FailsAs.ok _

/-- A list that one image reads, every image reads. -/
theorem failsAs_nodesOr {old new : List NodeId} {wire : Option (List Int32)} {field : String}
    (h : nodesOr old wire field = .ok new) (old' : List NodeId) : FailsAs P (nodesOr old' wire field) := by
  cases wire with
  | none => exact FailsAs.ok old'
  | some values => exact FailsAs.of_eq_ok h

/-- A change that one image accepts is refused by another only for what that image holds. -/
theorem stepsFail_of_changeRead {c : KPartitionChangeRecord} {old : PartitionRecord}
    {u : PartitionUpdateRecord} (h : ChangeRead c old u) (current : PartitionRecord) :
    StepsFail DependsOnImage c current where
  replicas := failsAs_nodesOr h.partition.replicas _
  isr := failsAs_nodesOr h.partition.isr _
  removing := failsAs_nodesOr h.partition.removing _
  adding := failsAs_nodesOr h.partition.adding _
  leader := by
    have hread := changedLeader_eq_ok.mp h.partition.leader
    unfold changedLeader
    by_cases hkept : c.leader = -2
    · rw [if_neg (not_not.mpr hkept)]
      exact FailsAs.ok _
    · rw [if_neg hkept] at hread
      rw [if_pos hkept]
      refine FailsAs.bind (FailsAs.of_eq_ok (partitionLeaderFromWire_eq_ok.mpr hread.1)) fun _ _ => ?_
      refine FailsAs.bind (FailsAs.okOr (dependsOnImage_reference _ _) _) fun _ _ => ?_
      exact FailsAs.ok _
  directories := by
    intro replicas hreplicas
    have hread := changedDirectories_eq_ok.mp h.partition.directories
    unfold changedDirectories
    cases hdirs : c.directories with
    | none => exact FailsAs.ok _
    | some directories =>
        rw [hdirs] at hread
        simp only []
        split
        · rename_i hlen
          cases hwire : c.replicas with
          | none => exact FailsAs.error (dependsOnImage_reference _ _)
          | some values =>
              -- the record brings its replicas, and they are the ones that fitted
              have hsame := h.partition.replicas
              rw [hwire] at hsame hreplicas
              obtain rfl := Except.ok.inj (hsame.symm.trans hreplicas)
              exact absurd hread.2 hlen
        · exact FailsAs.ok _
  partitionEpoch := FailsAs.okOr (dependsOnImage_reference _ _) _
  eligible := FailsAs.of_eq_ok h.eligible
  lastKnown := FailsAs.of_eq_ok h.lastKnown

/-- **A change that some image accepts is never called invalid**, on any image. -/
theorem not_invalidValue_of_changeRead {c : KPartitionChangeRecord} {old : PartitionRecord}
    {u : PartitionUpdateRecord} (h : ChangeRead c old u) :
    FailsAs DependsOnImage (fromKraft codec ω (.partitionChange c) img) := by
  exact failsAs_partitionChange (FailsAs.okOr (dependsOnImage_topicId _) _) (FailsAs.of_eq_ok h.recovery)
    (fun _ _ => FailsAs.okOr (dependsOnImage_reference _ _) _)
    fun _ current _ _ => stepsFail_of_changeRead h current

/-- What is left to say of a change is how its epochs fail, and its directories against the image. -/
theorem stepsFail_of_image {c : KPartitionChangeRecord} {current : PartitionRecord}
    (hvalue : ∀ field detail, P (.invalidValue field detail))
    (hleaderEpoch : ∀ field detail, FailsAs P (nextEpoch field detail current.leaderEpoch))
    (hpartitionEpoch : ∀ field detail, FailsAs P (nextEpoch field detail current.partitionEpoch))
    (hdirs : ∀ directories, c.directories = some directories →
      directories.length ≠ current.replicas.length → ∀ field detail, P (.invalidReference field detail)) :
    StepsFail P c current := by
  have hnodes := failsAs_nodesFromWire hvalue
  have hlist : ∀ old wire field, FailsAs P (nodesOr old wire field) := by
    intro old wire field
    cases wire with
    | none => exact FailsAs.ok old
    | some values => exact hnodes values field
  refine ⟨hlist _ _ _, hlist _ _ _, hlist _ _ _, hlist _ _ _, ?_, ?_, hpartitionEpoch _ _,
    FailsAs.optionMapM fun _ => hnodes _ _, FailsAs.optionMapM fun _ => hnodes _ _⟩
  · unfold changedLeader
    split
    · refine FailsAs.bind (failsAs_partitionLeaderFromWire hvalue _ _) fun _ _ => ?_
      exact (hleaderEpoch _ _).bind fun _ _ => FailsAs.ok _
    · exact FailsAs.ok _
  · intro replicas hreplicas
    unfold changedDirectories
    cases hsome : c.directories with
    | none => exact FailsAs.ok _
    | some directories =>
        simp only []
        split
        · rename_i hlen
          cases hwire : c.replicas with
          | none =>
              rw [hwire] at hreplicas
              obtain rfl := Except.ok.inj hreplicas
              exact FailsAs.error (hdirs directories hsome hlen _ _)
          | some values => exact FailsAs.error (hvalue _ _)
        · exact FailsAs.ok _

/-- Where the epochs can advance and the directories fit, only the bytes can be at fault. -/
theorem stepsFail_of_fits {c : KPartitionChangeRecord} {current : PartitionRecord}
    (hleaderEpoch : current.leaderEpoch = 0) (hpartitionEpoch : current.partitionEpoch = 0)
    (hdirs : ∀ directories, c.directories = some directories →
      directories.length = current.replicas.length) :
    StepsFail IsInvalidValue c current := by
  have hepoch : ∀ field detail, FailsAs IsInvalidValue (nextEpoch field detail 0) :=
    fun field detail => FailsAs.of_eq_ok (nextEpoch_eq_ok.mpr (by decide : (1 : Int32).toInt = _))
  exact stepsFail_of_image isInvalidValue (fun _ _ => hleaderEpoch ▸ hepoch _ _)
    (fun _ _ => hpartitionEpoch ▸ hepoch _ _) fun directories hsome hne => absurd (hdirs directories hsome) hne

/-- The errors of the two decoders. -/
def Refusal (e : TranslateError) : Prop :=
  IsInvalidValue e ∨ (∃ id, e = .unknownTopicId id) ∨ ∃ field detail, e = .invalidReference field detail

theorem refusal_value (field detail : String) : Refusal (.invalidValue field detail) :=
  Or.inl (isInvalidValue field detail)

theorem refusal_topicId (id : Uuid) : Refusal (.unknownTopicId id) := Or.inr (Or.inl ⟨id, rfl⟩)

theorem refusal_reference (field detail : String) : Refusal (.invalidReference field detail) :=
  Or.inr (Or.inr ⟨field, detail, rfl⟩)

theorem failsAs_changedRecoveryState (hP : ∀ field detail, P (.invalidValue field detail)) (b : Int8) :
    FailsAs P (changedRecoveryState b) := by
  unfold changedRecoveryState
  split
  · exact (failsAs_recoveryStateFromWire hP _ _).map
  · exact FailsAs.ok none

/-- A partition record is refused in one of these ways. -/
theorem refusal_partition (k : KPartitionRecord) :
    FailsAs Refusal (fromKraft codec ω (.partition k) img) := by
  cases hname : img.topicNameForId ω k.topicId with
  | none => exact failsAs_of_no_topic (refusal_topicId _) hname
  | some name => exact fun e he => Or.inl (failsAs_partition hname e he)

/-- So is a change. -/
theorem refusal_partitionChange (c : KPartitionChangeRecord) :
    FailsAs Refusal (fromKraft codec ω (.partitionChange c) img) := by
  have hepoch : ∀ field detail epoch, FailsAs Refusal (nextEpoch field detail epoch) :=
    fun field detail epoch => FailsAs.okOr (refusal_reference field detail) _
  exact failsAs_partitionChange (FailsAs.okOr (refusal_topicId _) _)
    (failsAs_changedRecoveryState refusal_value _) (fun _ _ => FailsAs.okOr (refusal_reference _ _) _)
    fun _ _ _ _ => stepsFail_of_image refusal_value (fun _ _ => hepoch _ _ _) (fun _ _ => hepoch _ _ _)
      fun _ _ _ => refusal_reference

/-! ## An image that fits the record

One topic with the id of the record and one partition with its index. -/

/-- An image with one topic of the given id. -/
def oneTopic (id : Uuid) : MetadataImage := (new 0).apply (.v1Topic ⟨"orders", id, 0, 1⟩)

/-- The same with one partition of the given replicas, at its first epochs. -/
def fitting (id : Uuid) (idx : Int32) (replicas : List NodeId) : MetadataImage :=
  (oneTopic id).apply (.v1Partition ⟨"orders", idx, 0, replicas, [], 0, [], [], [], 0⟩)

theorem oneTopic_topics (id : Uuid) (name : String) :
    (oneTopic id).topics[name]? = if "orders" = name then some ⟨"orders", id, 0, 1⟩ else none := by
  have hempty : ∀ name : String, (new 0).topics[name]? = none := fun name => get_empty name
  refine (topics_applyTopic (new 0) ⟨"orders", id, 0, 1⟩ name).trans ?_
  simp only [hempty]
  rfl

/-- The only topic of a fitting image. -/
theorem fitting_topics {id : Uuid} {idx : Int32} {replicas : List NodeId} {name : String} {t : TopicRecord}
    (h : (fitting id idx replicas).topics[name]? = some t) : name = "orders" ∧ t.topicId = id := by
  have htopics := topics_applyPartition (oneTopic id) ⟨"orders", idx, 0, replicas, [], 0, [], [], [], 0⟩ name
  rw [show (fitting id idx replicas).topics[name]? = _ from htopics, oneTopic_topics] at h
  by_cases hname : "orders" = name
  · rw [if_pos hname, if_pos hname] at h
    exact ⟨hname.symm, (Option.some.inj h) ▸ rfl⟩
  · rw [if_neg hname, if_neg hname] at h
    cases h

/-- A fitting image can be reached. -/
theorem fitting_admitted (id : Uuid) (idx : Int32) (replicas : List NodeId) :
    Admitted (fitting id idx replicas) := by
  have hlive : (oneTopic id).topics.contains "orders" = true := by
    rw [Std.ExtTreeMap.contains_eq_isSome_getElem?, oneTopic_topics]
    rfl
  refine .step (.step (admitted_new 0) rfl) ?_
  exact if_pos hlive

/-- The partition of a fitting image. -/
theorem fitting_partition (id : Uuid) (idx : Int32) (replicas : List NodeId) :
    (fitting id idx replicas).partition "orders" idx =
      some ⟨"orders", idx, 0, replicas, [], 0, [], [], [], 0⟩ :=
  (partition_applyPartition _ ⟨"orders", idx, 0, replicas, [], 0, [], [], [], 0⟩ _ _).trans
    (if_pos ⟨rfl, rfl⟩)

/-- Its topic is found by its id. -/
theorem fitting_topicNameForId (id : Uuid) (idx : Int32) (replicas : List NodeId) (ω : MapOrder) :
    (fitting id idx replicas).topicNameForId ω id = some "orders" := by
  have hw := wellFormed_of_admitted (fitting_admitted id idx replicas)
  have hd : (fitting id idx replicas).DistinctTopicIds := fun name name' _ _ ht ht' _ =>
    (fitting_topics ht).1.trans (fitting_topics ht').1.symm
  obtain ⟨t, ht⟩ : ∃ t, (fitting id idx replicas).topics["orders"]? = some t := by
    have hlive := (integrity_of_admitted (fitting_admitted id idx replicas)).partitions_live "orders"
      (mem_of_lookup2 (fitting_partition id idx replicas))
    exact Option.isSome_iff_exists.mp (Std.ExtTreeMap.isSome_getElem?_iff_mem.mpr hlive)
  have hname := topicNameForId_of_get hw.topics_keyed hd ω ht
  rwa [(fitting_topics ht).2] at hname

/-! ## The two classes

A record is refused with `InvalidValue` on every image that refuses it or on none. -/

/-- A record that no image makes `InvalidValue` is accepted where only the bytes can be at fault. -/
theorem exists_ok_of_failsAs {kr : KraftMetadataRecord} {img : MetadataImage}
    (hfail : ∀ ω, FailsAs IsInvalidValue (fromKraft codec ω kr img))
    (hnever : ∀ ω e, fromKraft codec ω kr img = .error e → ¬IsInvalidValue e) :
    ∀ ω, ∃ r, fromKraft codec ω kr img = .ok r := by
  intro ω
  cases h : fromKraft codec ω kr img with
  | ok r => exact ⟨r, rfl⟩
  | error e => exact absurd (hfail ω e h) (hnever ω e h)

/-- The records that refer to a partition. -/
def OfPartition : KraftMetadataRecord → Prop
  | .partition _ | .partitionChange _ => True
  | _ => False

/-- **Errors classify bytes against state.** A record that one image refuses as `InvalidValue` no image
    accepts; a record that none refuses so, some image accepts, one that a log of valid records leads to; and
    a refusal that is not `InvalidValue` is about the topic or about what the image holds. -/
theorem invalidValue_classifies (codec : Codec) {kr : KraftMetadataRecord} (hkr : OfPartition kr) :
    (∀ ω img e, fromKraft codec ω kr img = .error e → IsInvalidValue e →
      ∀ ω' img' r, fromKraft codec ω' kr img' ≠ .ok r) ∧
    ((∀ ω img, Admitted img → ∀ e, fromKraft codec ω kr img = .error e → ¬IsInvalidValue e) →
      ∃ img, Admitted img ∧ ∀ ω, ∃ r, fromKraft codec ω kr img = .ok r) ∧
    ∀ ω img e, fromKraft codec ω kr img = .error e →
      IsInvalidValue e ∨ (∃ id, e = .unknownTopicId id) ∨ ∃ field detail, e = .invalidReference field detail := by
  cases kr with
  | partition k =>
      refine ⟨?_, ?_, fun ω img => refusal_partition k⟩
      · intro ω img e he hinvalid ω' img' r hr
        obtain ⟨topic, u, -, hread, -⟩ := fromKraft_partition.mp hr
        exact not_invalidValue_of_partitionRead hread e he hinvalid
      · intro hnever
        refine ⟨fitting k.topicId 0 [], fitting_admitted _ _ _, exists_ok_of_failsAs (fun ω => ?_)
          fun ω => hnever ω _ (fitting_admitted _ _ _)⟩
        exact failsAs_partition (fitting_topicNameForId k.topicId 0 [] ω)
  | partitionChange c =>
      refine ⟨?_, ?_, fun ω img => refusal_partitionChange c⟩
      · intro ω img e he hinvalid ω' img' r hr
        obtain ⟨topic, current, u, -, -, hread, -⟩ := fromKraft_partitionChange.mp hr
        exact not_invalidValue_of_changeRead hread e he hinvalid
      · intro hnever
        -- as many replicas as the change has directories
        obtain ⟨replicas, hreplicas⟩ : ∃ replicas : List NodeId, ∀ directories,
            c.directories = some directories → directories.length = replicas.length := by
          refine ⟨List.replicate (c.directories.getD []).length 1, fun directories hdirs => ?_⟩
          rw [hdirs, List.length_replicate]
          rfl
        have hp := fitting_partition c.topicId c.partitionId replicas
        refine ⟨fitting c.topicId c.partitionId replicas, fitting_admitted _ _ _,
          exists_ok_of_failsAs (fun ω => ?_) fun ω => hnever ω _ (fitting_admitted _ _ _)⟩
        have hname := fitting_topicNameForId c.topicId c.partitionId replicas ω
        refine failsAs_partitionChange (FailsAs.of_eq_ok (okOr_eq_ok.mpr hname))
          (failsAs_changedRecoveryState isInvalidValue _) ?_ ?_
        · rintro topic htopic
          obtain rfl := Option.some.inj (hname.symm.trans htopic)
          exact FailsAs.of_eq_ok (okOr_eq_ok.mpr hp)
        · rintro topic current htopic hcurrent
          obtain rfl := Option.some.inj (hname.symm.trans htopic)
          obtain rfl := Option.some.inj (hp.symm.trans hcurrent)
          exact stepsFail_of_fits rfl rfl hreplicas
  | _ => cases hkr

/-- A change that names a leader below the markers is refused for good. -/
theorem invalidValue_classifies_leader :
    fromKraft (Codec.ofTable []) (HashOrder.sorted MapSite)
        (.partitionChange { partitionId := 0, topicId := 1, leader := -3 }) shrunk =
      .error (.invalidValue "partition change leader" "-3 is negative") ∧
    ∀ ω img r, fromKraft (Codec.ofTable []) ω
        (.partitionChange { partitionId := 0, topicId := 1, leader := -3 }) img ≠ .ok r := by
  have he : fromKraft (Codec.ofTable []) (HashOrder.sorted MapSite)
        (.partitionChange { partitionId := 0, topicId := 1, leader := -3 }) shrunk =
      .error (.invalidValue "partition change leader" "-3 is negative") := by decide
  have hkr : OfPartition (.partitionChange { partitionId := 0, topicId := 1, leader := -3 }) := trivial
  exact ⟨he, (invalidValue_classifies (Codec.ofTable []) hkr).1 _ _ _ he (isInvalidValue _ _)⟩

end Krabka.Metadata.Kraft
