import Krabka.Metadata.Snapshot
import Krabka.Metadata.Integrity

/-!
# `Metadata.SnapshotAdmission` — admission on a restored image

A replica that restored a snapshot should admit the same records as one that replayed the log. What
`validate` reads is restored exactly, except for one cached field: the replication factor of a topic.
`apply` takes it from the last partition written in log order, and the snapshot replays the partitions of
a topic by ascending index instead.

`restored_topics` says what the restored topics are. `AdmissionEq` relates two images that differ in the
cached factor of topics that can grow no more; it is a bisimulation for `apply` that `validate` cannot
see. Together they settle exactly when a snapshot is invisible to admission (`FactorsCurrent`).
-/

namespace Krabka.Metadata

open Collections FixedWidth

namespace MetadataImage

/-! ## The restored topics

The topics of a snapshot are created first, then every partition is counted in. No other record of the listing
touches them. -/

/-- The topic record after the partitions `ps`, all new, are written in order. -/
def countPartitions (ps : List PartitionRecord) (t : TopicRecord) : TopicRecord :=
  ps.foldl (fun t p => countPartition true p.replicas.length t) t

/-- The partitions of a topic by ascending index. -/
def partitionsOf (img : MetadataImage) (topic : String) : List PartitionRecord :=
  (img.partitions[topic]?.getD ∅).toList.map (·.2)

/-- Replaying topics over live ones without partitions keeps just the records. -/
theorem foldl_apply_topics :
    ∀ (l : List TopicRecord) {img : MetadataImage},
      Forall img.topics (fun _ t => t.partitions = 0) →
      ((l.map MetadataRecord.v1Topic).foldl apply img).topics =
        l.foldl (fun m t => m.insert t.name { t with partitions := 0 }) img.topics := by
  -- the topics come before any partition, so every count the replay reads is zero
  intro l
  induction l with
  | nil => intro img _; rfl
  | cons t rest ih =>
      intro img hzero
      have htopics : (img.apply (.v1Topic t)).topics =
          img.topics.insert t.name { t with partitions := 0 } := by
        show img.topics.insert t.name _ = _
        cases hprev : img.topics[t.name]? with
        | none => rfl
        | some prev =>
            have hcount : prev.partitions = 0 := hzero t.name prev hprev
            simp only [hcount]
      rw [List.map_cons, List.foldl_cons, List.foldl_cons, ih ?_, htopics]
      rw [htopics]
      exact forall_insert hzero rfl

/-- Replaying partitions counts each once on its topic, and touches no other topic. -/
theorem foldl_apply_partitions :
    ∀ (l : List PartitionRecord), (l.map (fun p => (p.topic, p.partition))).Nodup →
      ∀ {img : MetadataImage}, (∀ p ∈ l, img.partition p.topic p.partition = none) →
      ∀ name : String, ((l.map MetadataRecord.v1Partition).foldl apply img).topics[name]? =
        img.topics[name]?.map (countPartitions (l.filter (fun p => p.topic = name))) := by
  -- each partition of the list is new to the image, since no two share an index
  intro l
  induction l with
  | nil =>
      intro _ img _ name
      cases h : img.topics[name]? <;> simp [h, countPartitions]
  | cons p rest ih =>
      intro hnodup img hnew name
      rw [List.map_cons, List.nodup_cons] at hnodup
      have hnew' : ∀ q ∈ rest, (img.applyPartition p).partition q.topic q.partition = none := by
        intro q hq
        rw [partition_applyPartition, if_neg]
        · exact hnew q (List.mem_cons_of_mem _ hq)
        · rintro ⟨ht, hi⟩
          exact hnodup.1 (List.mem_map.mpr ⟨q, hq, Prod.ext ht.symm hi.symm⟩)
      rw [List.map_cons, List.foldl_cons]
      show ((rest.map MetadataRecord.v1Partition).foldl apply (img.applyPartition p)).topics[name]? = _
      rw [ih hnodup.2 hnew' name, topics_applyPartition, hnew p List.mem_cons_self]
      by_cases hname : p.topic = name
      · rw [if_pos hname, List.filter_cons_of_pos (by simpa using hname), Option.map_map]
        rfl
      · rw [if_neg hname, List.filter_cons_of_neg (by simpa using hname)]

section Topics

variable (ω : MapOrder) (img : MetadataImage)

/-- The topics and the partitions of a snapshot, in the order they are written. -/
def topicRecords : List TopicRecord := (ω.iter .topics img.topics).map (·.2)

def partitionRecords : List PartitionRecord := (iter2 ω .partitions img.partitions).map (·.2.2)

/-- The snapshot lists the topics and then the partitions. -/
theorem toRecords_split : img.toRecords ω =
    ((img.segments ω).take 3).flatMap (·.2) ++ ((img.topicRecords ω).map .v1Topic ++
      ((img.partitionRecords ω).map .v1Partition ++ ((img.segments ω).drop 5).flatMap (·.2))) := by
  have hdrop : ((img.segments ω).drop 3).flatMap (·.2) = (img.topicRecords ω).map .v1Topic ++
      ((img.partitionRecords ω).map .v1Partition ++ ((img.segments ω).drop 5).flatMap (·.2)) := by
    simp only [topicRecords, partitionRecords, List.map_map]
    rfl
  unfold toRecords
  rw [← hdrop, ← List.flatMap_append, List.take_append_drop]

variable {img} (h : WellFormed img)

include h

/-- The topics rebuild `topics` with every count at zero. -/
theorem foldl_insert_topicRecords (name : String) :
    ((img.topicRecords ω).foldl (fun (m : HashMap String TopicRecord) t =>
      m.insert t.name { t with partitions := 0 }) ∅)[name]? =
        img.topics[name]?.map (fun t => { t with partitions := 0 }) := by
  unfold topicRecords
  rw [List.foldl_map]
  refine get_foldl_put (fun (m : HashMap String TopicRecord) k => m[k]?)
    (fun e : String × TopicRecord => e.2.name) (fun e => { e.2 with partitions := 0 })
    (fun k => img.topics[k]?.map (fun t => { t with partitions := 0 })) ?_ ?_ ?_ ?_ name
  · intro m e k
    exact get_insert m e.2.name k _
  · intro k
    exact get_empty k
  · rintro ⟨k, t⟩ he
    have ht := (mem_iter ω _).mp he
    have hname : t.name = k := h.topics_keyed k t ht
    simp only [hname, ht, Option.map_some]
  · intro k t ht
    obtain ⟨t', ht', _⟩ := Option.map_eq_some_iff.mp ht
    exact ⟨(k, t'), (mem_iter ω _).mpr ht', h.topics_keyed k t' ht'⟩

/-- A partition record states the topic and the index it is kept under. -/
theorem partitionRecords_keyed : ∀ e ∈ iter2 ω .partitions img.partitions,
    e.2.2.topic = e.1 ∧ e.2.2.partition = e.2.1 := by
  rintro ⟨topic, idx, p⟩ he
  exact h.partitions_keyed topic idx p ((mem_iter2 ω _).mp he)

/-- No partition is listed twice. -/
theorem nodup_partitionRecords :
    ((img.partitionRecords ω).map (fun p => (p.topic, p.partition))).Nodup := by
  have hmap : (img.partitionRecords ω).map (fun p => (p.topic, p.partition)) =
      (iter2 ω .partitions img.partitions).map (fun e => (e.1, e.2.1)) := by
    unfold partitionRecords
    rw [List.map_map]
    refine List.map_congr_left (fun e he => ?_)
    obtain ⟨htopic, hidx⟩ := partitionRecords_keyed ω h e he
    exact Prod.ext htopic hidx
  rw [hmap]
  exact nodup_iter2 ω _ _

/-- The records of one topic are its partitions. -/
theorem filter_partitionRecords (name : String) :
    (img.partitionRecords ω).filter (fun p => p.topic = name) = img.partitionsOf name := by
  have hfilter : (img.partitionRecords ω).filter (fun p => p.topic = name) =
      ((iter2 ω .partitions img.partitions).filter (fun e => e.1 = name)).map (·.2.2) := by
    unfold partitionRecords
    rw [List.filter_map]
    refine congrArg _ (List.filter_congr (fun e he => ?_))
    simp only [Function.comp_apply, (partitionRecords_keyed ω h e he).1]
  rw [hfilter, filter_iter2, List.map_map]
  rfl

/-- What replaying the topics and then the partitions of a snapshot makes of a topic. -/
theorem restored_topics_get (clusterId : Uuid) (name : String) :
    (restored ω img clusterId).topics[name]? =
      img.topics[name]?.map
        (fun t => countPartitions (img.partitionsOf name) { t with partitions := 0 }) := by
  -- nothing before the topics writes a topic or a partition, and nothing after the partitions a topic
  have hbefore : ∀ t ∈ [Table.topics, .partitions],
      ∀ r ∈ ((img.segments ω).take 3).flatMap (·.2), t ∉ r.kind.writes := by
    intro t ht r hr
    have hkinds : ∀ k ∈ snapshotKinds.take 3, ∀ t ∈ [Table.topics, .partitions], t ∉ k.writes := by
      decide
    exact hkinds r.kind (img.kind_of_mem_take ω 3 r hr) t ht
  have hafter : ∀ r ∈ ((img.segments ω).drop 5).flatMap (·.2), Table.topics ∉ r.kind.writes := by
    intro r hr
    have hkinds : ∀ k ∈ snapshotKinds.drop 5, Table.topics ∉ k.writes := by decide
    exact hkinds r.kind (img.kind_of_mem_drop ω 5 r hr)
  unfold restored fromRecords
  rw [toRecords_split, List.foldl_append, List.foldl_append, List.foldl_append]
  generalize hstart : (((img.segments ω).take 3).flatMap (·.2)).foldl apply (new clusterId) = start
  have htopics : start.topics = ∅ := by
    rw [← hstart]
    exact foldl_apply_frame (t := .topics) (hbefore .topics (by decide)) (new clusterId)
  have hparts : start.partitions = ∅ := by
    rw [← hstart]
    exact foldl_apply_frame (t := .partitions) (hbefore .partitions (by decide)) (new clusterId)
  generalize hcreated : ((img.topicRecords ω).map MetadataRecord.v1Topic).foldl apply start = created
  have htopics' : created.topics[name]? =
      img.topics[name]?.map (fun t => { t with partitions := 0 }) := by
    rw [← hcreated, foldl_apply_topics _ (by rw [htopics]; exact forall_empty), htopics]
    exact foldl_insert_topicRecords ω h name
  have hparts' : created.partitions = ∅ := by
    rw [← hcreated, ← hparts]
    refine foldl_apply_frame (t := .partitions) (fun r hr => ?_) start
    obtain ⟨t, _, rfl⟩ := List.mem_map.mp hr
    simp [MetadataRecord.kind, RecordKind.writes]
  have hlast := foldl_apply_frame (t := .topics) hafter
    (((img.partitionRecords ω).map .v1Partition).foldl apply created)
  refine (congrArg (fun m : HashMap String TopicRecord => m[name]?) hlast).trans ?_
  show (((img.partitionRecords ω).map MetadataRecord.v1Partition).foldl apply created).topics[name]? = _
  rw [foldl_apply_partitions _ (nodup_partitionRecords ω h), htopics', Option.map_map,
    filter_partitionRecords ω h]
  · rfl
  · intro p _
    unfold MetadataImage.partition
    rw [hparts', lookup2_empty]

end Topics

/-! ## The cached fields after a restore

The number of partitions is the number of records; the replication factor is that of the last one in the order
of the listing. -/

/-- The partitions of a topic whose replica count fits the factor's sixteen bits. -/
def fittingPartitions (img : MetadataImage) (topic : String) : List PartitionRecord :=
  (img.partitionsOf topic).filter (fun p => p.replicas.length < 2 ^ 15)

/-- Counting changes neither name nor id. -/
theorem countPartitions_keeps (ps : List PartitionRecord) (t : TopicRecord) :
    (countPartitions ps t).name = t.name ∧ (countPartitions ps t).topicId = t.topicId := by
  unfold countPartitions
  induction ps generalizing t with
  | nil => exact ⟨rfl, rfl⟩
  | cons p rest ih => exact ih (countPartition true p.replicas.length t)

/-- Each record counts one, up to the largest count. -/
theorem toInt_countPartitions (ps : List PartitionRecord) (t : TopicRecord) :
    (countPartitions ps t).partitions.toInt = min (t.partitions.toInt + ps.length) 2147483647 := by
  unfold countPartitions
  induction ps generalizing t with
  | nil =>
      have := t.partitions.toInt_lt
      show t.partitions.toInt = _
      simp only [List.length_nil]
      omega
  | cons p rest ih =>
      rw [List.foldl_cons, ih, List.length_cons]
      show min ((saturatingAddI32 t.partitions 1).toInt + _) _ = _
      rw [toInt_saturatingAddI32_one]
      omega

/-- The factor is that of the last partition whose replica count fits, if any does. -/
theorem replicationFactor_countPartitions (ps : List PartitionRecord) (t : TopicRecord) :
    (countPartitions ps t).replicationFactor =
      ((ps.filter (fun p => p.replicas.length < 2 ^ 15)).getLast?.map
        (fun p => Int16.ofNat p.replicas.length)).getD t.replicationFactor := by
  unfold countPartitions
  induction ps generalizing t with
  | nil => rfl
  | cons p rest ih =>
      rw [List.foldl_cons, ih]
      show Option.getD _ ((i16OfLen p.replicas.length).getD t.replicationFactor) = _
      by_cases hp : p.replicas.length < 2 ^ 15
      · rw [List.filter_cons_of_pos (by simpa using hp), List.getLast?_cons, i16OfLen, if_pos hp]
        cases (rest.filter _).getLast? <;> rfl
      · rw [List.filter_cons_of_neg (by simpa using hp), i16OfLen, if_neg hp]
        rfl

theorem length_partitionsOf (img : MetadataImage) (topic : String) :
    (img.partitionsOf topic).length = (img.partitions[topic]?.getD ∅).size := by
  unfold partitionsOf
  rw [List.length_map, Std.ExtTreeMap.length_toList]

/-- **The restored topics.** They differ from the image's in the cached factor only, which is that of
    the highest partition whose replica count fits. -/
theorem restored_topics {img : MetadataImage} (ω : MapOrder) (h : Admitted img) (clusterId : Uuid)
    (name : String) :
    (restored ω img clusterId).topics[name]? =
      img.topics[name]?.map (fun t =>
        { t with
          replicationFactor := ((img.fittingPartitions name).getLast?.map
            (fun p => Int16.ofNat p.replicas.length)).getD t.replicationFactor }) := by
  rw [restored_topics_get ω (wellFormed_of_admitted h)]
  cases ht : img.topics[name]? with
  | none => rfl
  | some t =>
      refine congrArg some ?_
      obtain ⟨hname, hid⟩ := countPartitions_keeps (img.partitionsOf name) { t with partitions := 0 }
      have hfactor := replicationFactor_countPartitions (img.partitionsOf name)
        { t with partitions := 0 }
      -- the counted partitions are those of the map, and both counts saturate at `i32::MAX`
      have hcount : (countPartitions (img.partitionsOf name) { t with partitions := 0 }).partitions =
          t.partitions := by
        apply Int32.toInt_inj.mp
        rw [toInt_countPartitions, (integrity_of_admitted h).counted name t ht,
          toInt_topicPartitionCount, length_partitionsOf]
        show min ((0 : Int32).toInt + _) _ = _
        rw [show (0 : Int32).toInt = 0 by decide, Int.zero_add]
      cases hc : countPartitions (img.partitionsOf name) { t with partitions := 0 } with
      | mk name' id' partitions' factor' =>
          rw [hc] at hname hid hfactor hcount
          simp only at hname hid hfactor hcount
          show countPartitions (img.partitionsOf name) { t with partitions := 0 } = _
          rw [hc, hname, hid, hfactor, hcount]
          rfl

/-! ## A relation that admission cannot see

Images that agree in everything but the replication factor of full topics. Each reader of `validate` gives the
same on both. -/

/-- Two records of one topic that `validate` treats alike: the cached factors may differ where no
    further partition can be admitted. -/
def SameTopic (full : Prop) : Option TopicRecord → Option TopicRecord → Prop
  | none, none => True
  | some t, some t' =>
    t'.topicId = t.topicId ∧ (t'.replicationFactor = t.replicationFactor ∨ full)
  | _, _ => False

/-- The topic has as many partitions as its count can tell. -/
def Full (img : MetadataImage) (topic : String) : Prop :=
  img.topicPartitionCount topic = Int32.maxValue

structure AdmissionEq (img img' : MetadataImage) : Prop where
  topics : ∀ name : String, SameTopic (img.Full name) img.topics[name]? img'.topics[name]?
  partitions : img'.partitions = img.partitions
  brokers : img'.brokers = img.brokers
  controllers : img'.controllers = img.controllers
  breakGlass : img'.breakGlass = img.breakGlass
  producerIds : img'.producerIds = img.producerIds

variable {img img' : MetadataImage}

theorem SameTopic.isSome_eq {full : Prop} :
    ∀ {o o' : Option TopicRecord}, SameTopic full o o' → o'.isSome = o.isSome := by
  rintro (_ | t) (_ | t') h
  · rfl
  · exact h.elim
  · exact h.elim
  · rfl

/-- A weaker proviso keeps the relation. -/
theorem SameTopic.mono {full full' : Prop} (hf : full → full') :
    ∀ {o o' : Option TopicRecord}, SameTopic full o o' → SameTopic full' o o' := by
  rintro (_ | t) (_ | t') h
  · trivial
  · exact h.elim
  · exact h.elim
  · exact ⟨h.1, h.2.imp id hf⟩

/-- A replica count that fits sets both factors, one that does not leaves both. -/
theorem SameTopic.countPartition {full : Prop} (isNew : Bool) (replicas : Nat) :
    ∀ {o o' : Option TopicRecord}, SameTopic full o o' →
      SameTopic full (o.map (countPartition isNew replicas)) (o'.map (countPartition isNew replicas)) := by
  rintro (_ | t) (_ | t') h
  · trivial
  · exact h.elim
  · exact h.elim
  · refine ⟨h.1, ?_⟩
    show (i16OfLen replicas).getD t'.replicationFactor =
      (i16OfLen replicas).getD t.replicationFactor ∨ full
    cases i16OfLen replicas with
    | some factor => exact Or.inl rfl
    | none => exact h.2

/-- A topic with fewer partitions than it could have is not full. -/
theorem not_full_of_lt {topic : String} {n : Int32} (h : img.topicPartitionCount topic < n) :
    ¬img.Full topic := by
  intro hfull
  rw [hfull] at h
  have h := Int32.lt_iff_toInt_lt.mp h
  have hmax : Int32.maxValue.toInt = 2147483647 := by decide
  have := n.toInt_lt
  omega

theorem AdmissionEq.partition (h : AdmissionEq img img') (topic : String) (idx : Int32) :
    img'.partition topic idx = img.partition topic idx := by
  unfold MetadataImage.partition
  rw [h.partitions]

theorem AdmissionEq.topicPartitionCount (h : AdmissionEq img img') (topic : String) :
    img'.topicPartitionCount topic = img.topicPartitionCount topic := by
  unfold MetadataImage.topicPartitionCount
  rw [h.partitions]

/-- Images that admit alike validate a topic alike. -/
theorem AdmissionEq.validateTopic (h : AdmissionEq img img') (t : TopicRecord) :
    img'.validateTopic t = img.validateTopic t := by
  have hsame := h.topics t.name
  unfold MetadataImage.validateTopic
  rw [h.topicPartitionCount]
  cases ht : img.topics[t.name]? with
  | none =>
      cases ht' : img'.topics[t.name]? with
      | none => rfl
      | some e' =>
          rw [ht, ht'] at hsame
          exact hsame.elim
  | some e =>
      cases ht' : img'.topics[t.name]? with
      | none =>
          rw [ht, ht'] at hsame
          exact hsame.elim
      | some e' =>
          rw [ht, ht'] at hsame
          obtain ⟨hid, hfactor⟩ := hsame
          -- both ask for the same id and count; what is left is the factor
          simp only [hid]
          by_cases hle : t.partitions ≤ img.topicPartitionCount t.name
          · simp only [hle, or_true, if_true]
          · -- a topic that admits more partitions is not full, so the cached factors agree
            have hnot := not_full_of_lt (Int32.not_le.mp hle)
            rw [hfactor.resolve_right hnot]

theorem AdmissionEq.requireTopic (h : AdmissionEq img img') (topic : String) :
    img'.requireTopic topic = img.requireTopic topic := by
  unfold MetadataImage.requireTopic
  rw [Std.ExtTreeMap.contains_eq_isSome_getElem?, Std.ExtTreeMap.contains_eq_isSome_getElem?,
    (h.topics topic).isSome_eq]

theorem AdmissionEq.requirePartition (h : AdmissionEq img img') (topic : String) (idx : Int32) :
    img'.requirePartition topic idx = img.requirePartition topic idx := by
  unfold MetadataImage.requirePartition
  rw [h.partition]

theorem AdmissionEq.requireBrokerEpoch (h : AdmissionEq img img') (nodeId : NodeId) (epoch : Int64)
    (reason : String) :
    img'.requireBrokerEpoch nodeId epoch reason = img.requireBrokerEpoch nodeId epoch reason := by
  unfold MetadataImage.requireBrokerEpoch MetadataImage.brokerEpoch
  rw [h.brokers]

theorem AdmissionEq.nextProducerId (h : AdmissionEq img img') :
    img'.nextProducerId = img.nextProducerId := by
  unfold MetadataImage.nextProducerId
  rw [h.producerIds]

/-- **Observation.** Related images admit the same records. -/
theorem AdmissionEq.validate (h : AdmissionEq img img') (r : MetadataRecord) :
    img'.validate r = img.validate r := by
  cases r with
  | v1Topic t => exact h.validateTopic t
  | v1Partition p => exact h.requireTopic p.topic
  | v1PartitionUpdate update => exact h.requireTopic update.partition.topic
  | v1PartitionElr record => exact h.requirePartition record.topic record.partition
  | v1PartitionRecovery record => exact h.requirePartition record.topic record.partition
  | v1DeleteTopic d => exact h.requireTopic d.name
  | v1TopicConfig c => exact h.requireTopic c.topic
  | v1BrokerRegistrationChange change => exact h.requireBrokerEpoch _ _ _
  | v1UnregisterBroker rec => exact h.requireBrokerEpoch _ _ _
  | v1UnregisterController rec =>
      show (if img'.controllers.contains _ then _ else _) = _
      rw [h.controllers]
      rfl
  | v1BreakGlassProposal proposal =>
      show img'.validateBreakGlassProposal proposal = img.validateBreakGlassProposal proposal
      unfold MetadataImage.validateBreakGlassProposal
      rw [h.breakGlass]
  | v1ProducerIds record =>
      show img'.validateProducerIds record = img.validateProducerIds record
      unfold MetadataImage.validateProducerIds
      rw [h.nextProducerId, h.requireBrokerEpoch]
  | _ => rfl

/-! ### The relation is kept by every record

One lemma for each kind of record that touches the topics. -/

/-- Writing a partition never takes a topic below its full count. -/
theorem Full.insert2 {name topic : String} {idx : Int32} {p : PartitionRecord} (h : img.Full name)
    (hp : img'.partitions = insert2 img.partitions topic idx p) : img'.Full name := by
  have h : img.topicPartitionCount name = Int32.maxValue := h
  have hold := toInt_topicPartitionCount img name
  rw [h, show Int32.maxValue.toInt = 2147483647 by decide] at hold
  show img'.topicPartitionCount name = Int32.maxValue
  apply Int32.toInt_inj.mp
  rw [toInt_topicPartitionCount, hp, size_insert2, show Int32.maxValue.toInt = 2147483647 by decide]
  -- the inner map grows or stays, and the count cannot pass `i32::MAX`
  omega

/-- A topic that is applied to both keeps them alike. -/
theorem AdmissionEq.applyTopic (h : AdmissionEq img img') (t : TopicRecord) :
    AdmissionEq (img.applyTopic t) (img'.applyTopic t) :=
  { h with
    topics := by
      intro name
      rw [topics_applyTopic, topics_applyTopic]
      split
      · -- the record gives both images its own id and factor
        exact ⟨rfl, Or.inl rfl⟩
      · exact h.topics name }

/-- So does a partition. -/
theorem AdmissionEq.applyPartition (h : AdmissionEq img img') (p : PartitionRecord) :
    AdmissionEq (img.applyPartition p) (img'.applyPartition p) where
  topics := by
    intro name
    have hfull : img.Full name → (img.applyPartition p).Full name := fun hf => hf.insert2 rfl
    rw [topics_applyPartition, topics_applyPartition, h.partition]
    split
    · exact ((h.topics name).countPartition _ _).mono hfull
    · exact (h.topics name).mono hfull
  partitions := by
    show insert2 img'.partitions _ _ _ = insert2 img.partitions _ _ _
    rw [h.partitions]
  brokers := h.brokers
  controllers := h.controllers
  breakGlass := h.breakGlass
  producerIds := h.producerIds

/-- The relation reads nothing of the eligible-leader and recovery tables. -/
theorem AdmissionEq.congr (h : AdmissionEq img img') {a a' : MetadataImage}
    (ha : a.topics = img.topics ∧ a.partitions = img.partitions ∧ a.brokers = img.brokers ∧
      a.controllers = img.controllers ∧ a.breakGlass = img.breakGlass ∧
      a.producerIds = img.producerIds)
    (ha' : a'.topics = img'.topics ∧ a'.partitions = img'.partitions ∧ a'.brokers = img'.brokers ∧
      a'.controllers = img'.controllers ∧ a'.breakGlass = img'.breakGlass ∧
      a'.producerIds = img'.producerIds) : AdmissionEq a a' := by
  obtain ⟨e1, e2, e3, e4, e5, e6⟩ := ha
  obtain ⟨e1', e2', e3', e4', e5', e6'⟩ := ha'
  refine ⟨fun name => ?_, ?_, ?_, ?_, ?_, ?_⟩
  · unfold Full MetadataImage.topicPartitionCount
    rw [e1, e1', e2]
    exact h.topics name
  · rw [e2, e2']; exact h.partitions
  · rw [e3, e3']; exact h.brokers
  · rw [e4, e4']; exact h.controllers
  · rw [e5, e5']; exact h.breakGlass
  · rw [e6, e6']; exact h.producerIds

/-- So does a deletion. -/
theorem AdmissionEq.applyDeleteTopic (h : AdmissionEq img img') (d : DeleteTopicRecord) :
    AdmissionEq (img.applyDeleteTopic d) (img'.applyDeleteTopic d) :=
  { h with
    topics := by
      intro name
      show SameTopic _ (img.topics.erase d.name)[name]? (img'.topics.erase d.name)[name]?
      rw [get_erase, get_erase]
      split
      · trivial
      · rename_i hne
        refine (h.topics name).mono (fun hf => ?_)
        have hcount : (img.applyDeleteTopic d).topicPartitionCount name =
            img.topicPartitionCount name := by
          refine topicPartitionCount_congr ?_
          show ((img.partitions.erase d.name)[name]?.getD ∅).size = _
          rw [get_erase, if_neg hne]
        exact hcount.trans hf
    partitions := by
      show img'.partitions.erase d.name = img.partitions.erase d.name
      rw [h.partitions] }

/-- So does a directory assignment. -/
theorem AdmissionEq.applyPartitionDirAssignment (h : AdmissionEq img img')
    (r : PartitionDirAssignmentRecord) :
    AdmissionEq (img.applyPartitionDirAssignment r) (img'.applyPartitionDirAssignment r) := by
  unfold MetadataImage.applyPartitionDirAssignment
  rw [h.partition]
  cases img.partition r.topic r.partition with
  | none => exact h
  | some pr =>
      simp only []
      cases pr.replicas.idxOf? r.replica with
      | none => exact h
      | some slot =>
          refine { h with topics := fun name => (h.topics name).mono (fun hf => hf.insert2 rfl),
                          partitions := ?_ }
          show insert2 img'.partitions _ _ _ = insert2 img.partitions _ _ _
          rw [h.partitions]

/-- **Step.** Applying one record to both images keeps them related. -/
theorem AdmissionEq.step (h : AdmissionEq img img') (r : MetadataRecord) :
    AdmissionEq (img.apply r) (img'.apply r) := by
  cases r with
  | v1Topic t => exact h.applyTopic t
  | v1Partition p => exact h.applyPartition p
  | v1PartitionUpdate update =>
      exact (h.applyPartition update.partition).congr (applyPartitionUpdate_tables img update)
        (applyPartitionUpdate_tables img' update)
  | v1DeleteTopic d => exact h.applyDeleteTopic d
  | v1PartitionDirAssignment r => exact h.applyPartitionDirAssignment r
  | v1BrokerRegistration b =>
      exact { h with brokers := congrArg (fun m => m.insert b.nodeId b) h.brokers }
  -- the guards read only what the relation equates, so both images take one branch
  | v1BrokerRegistrationChange change =>
      show AdmissionEq (img.applyRegistrationChange change) (img'.applyRegistrationChange change)
      unfold MetadataImage.applyRegistrationChange
      rw [h.brokers]
      cases img.brokers[change.nodeId]? with
      | none => exact h
      | some broker =>
          simp only []
          split
          · exact { h with brokers := rfl }
          · exact h
  | v1UnregisterBroker rec =>
      show AdmissionEq (img.applyUnregisterBroker rec) (img'.applyUnregisterBroker rec)
      unfold MetadataImage.applyUnregisterBroker MetadataImage.brokerEpoch
      rw [h.brokers]
      split
      · exact { h with brokers := rfl }
      · exact h
  | v1ControllerRegistration c =>
      exact { h with controllers := congrArg (fun m => m.insert c.nodeId c) h.controllers }
  | v1UnregisterController rec =>
      exact { h with controllers := congrArg (fun m => m.erase rec.nodeId) h.controllers }
  | v1BreakGlassProposal r =>
      exact { h with breakGlass := congrArg (fun m => m.insert r.proposalId r) h.breakGlass }
  | v1DeleteBreakGlassProposal id =>
      exact { h with breakGlass := congrArg (fun m => m.erase id) h.breakGlass }
  | v1ProducerIds rec =>
      show AdmissionEq (if _ then _ else _) (if _ then _ else _)
      rw [h.nextProducerId]
      split
      · exact { h with producerIds := rfl }
      · exact h
  | v1TopicFreeze rec =>
      show AdmissionEq (img.applyTopicFreeze rec) (img'.applyTopicFreeze rec)
      unfold MetadataImage.applyTopicFreeze
      split <;> exact { h with }
  | _ => exact { h with }

/-! ## When the snapshot is invisible

If the cached factor is current, admission agrees along every run. If it is not, a topic that can still grow
shows the difference. -/

/-- Every live topic that can still grow caches the replica count of the highest of its partitions whose
    count fits sixteen bits. -/
def FactorsCurrent (img : MetadataImage) : Prop :=
  ∀ (name : String) (t : TopicRecord), img.topics[name]? = some t →
    img.topicPartitionCount name < Int32.maxValue →
      ∀ p, (img.fittingPartitions name).getLast? = some p →
        Int16.ofNat p.replicas.length = t.replicationFactor

/-- **A restored image admits what the image admits**, where the factors are current. -/
theorem admissionEq_restored (ω : MapOrder) (h : Admitted img) (hf : FactorsCurrent img)
    (clusterId : Uuid) : AdmissionEq img (restored ω img clusterId) where
  topics := by
    intro name
    rw [restored_topics ω h]
    cases ht : img.topics[name]? with
    | none => trivial
    | some t =>
        refine ⟨rfl, ?_⟩
        -- a full topic may disagree; any other has the factor that `FactorsCurrent` states
        by_cases hfull : img.Full name
        · exact Or.inr hfull
        · have hlt : img.topicPartitionCount name < Int32.maxValue := by
            rw [Int32.lt_iff_toInt_lt]
            have hle := toInt_topicPartitionCount img name
            have hne : (img.topicPartitionCount name).toInt ≠ Int32.maxValue.toInt :=
              fun he => hfull (Int32.toInt_inj.mp he)
            rw [show Int32.maxValue.toInt = 2147483647 by decide] at hne ⊢
            omega
          refine Or.inl ?_
          cases hlast : (img.fittingPartitions name).getLast? with
          | none => simp only [Option.map_none, Option.getD_none]
          | some p =>
              simp only [Option.map_some, Option.getD_some]
              exact hf name t ht hlt p hlast
  partitions := restored_partitions ω (wellFormed_of_admitted h) clusterId
  brokers := restored_brokers ω (wellFormed_of_admitted h) clusterId
  controllers := restored_controllers ω (wellFormed_of_admitted h) clusterId
  breakGlass := restored_breakGlass ω (wellFormed_of_admitted h) clusterId
  producerIds := restored_producerIds ω (wellFormed_of_admitted h) clusterId

/-- An expansion of a live topic that can still grow is admitted exactly under the cached factor. -/
theorem validateTopic_expansion {name : String} {t : TopicRecord} (ht : img.topics[name]? = some t)
    (hgrow : img.topicPartitionCount name < Int32.maxValue) (factor : Int16) :
    img.validateTopic ⟨name, t.topicId, Int32.maxValue, factor⟩ = .ok () ↔
      t.replicationFactor = factor := by
  unfold validateTopic
  rw [ht]
  have hnot : ¬Int32.maxValue ≤ img.topicPartitionCount name := Int32.not_le.mpr hgrow
  by_cases hf : t.replicationFactor = factor
  · simp [hf, hnot]
  · simp [hf]

/-- **A snapshot is invisible to admission exactly when the cached factors are current.** Two replicas,
    one that replayed the log and one that restored the snapshot, apply the same further records and
    admit the same records at every step, if and only if every topic that can still grow caches the
    factor that the snapshot's order of partitions gives it. -/
theorem snapshot_invisible_iff (h : Admitted img) (ω : MapOrder) :
    (∀ (records : List MetadataRecord) (r : MetadataRecord),
      (records.foldl apply img).validate r = .ok () ↔
        (records.foldl apply (fromRecords img.clusterId (img.toRecords ω))).validate r = .ok ()) ↔
      FactorsCurrent img := by
  constructor
  · intro hall name t ht hgrow p hp
    -- the expansion that the log's replica admits
    have hadmits : img.validateTopic ⟨name, t.topicId, Int32.maxValue, t.replicationFactor⟩ = .ok () :=
      (validateTopic_expansion ht hgrow _).mpr rfl
    have hrestored := (hall [] (.v1Topic _)).mp hadmits
    have htopic := restored_topics ω h img.clusterId name
    rw [ht] at htopic
    have hcount : (restored ω img img.clusterId).topicPartitionCount name =
        img.topicPartitionCount name := by
      unfold topicPartitionCount
      rw [restored_partitions ω (wellFormed_of_admitted h)]
    have hfactor := (validateTopic_expansion htopic (by rw [hcount]; exact hgrow) _).mp hrestored
    simpa only [hp, Option.map_some, Option.getD_some] using hfactor
  · intro hf records r
    have hbisim := admissionEq_restored ω h hf img.clusterId
    have hobs := Transition.observe_of_bisim (R := AdmissionEq) (fun s t a hst => hst.step a)
      (fun s t hst => (hst.validate r).symm) records hbisim
    rw [hobs]
    rfl

/-- A topic of two partitions with one replica each, and then the first one reassigned to two. -/
def reassignedRun : List MetadataRecord :=
  [ .v1Topic ⟨"orders", 1, 0, 1⟩,
    .v1Partition ⟨"orders", 0, 1, [1], [1], 0, [], [], [], 0⟩,
    .v1Partition ⟨"orders", 1, 1, [1], [1], 0, [], [], [], 0⟩,
    .v1Partition ⟨"orders", 0, 1, [1, 2], [1], 0, [], [], [], 1⟩ ]

/-- The log leaves the factor of the reassigned partition, the snapshot that of the higher one: the
    expansion to three partitions is admitted by the first replica and refused by the second. -/
theorem snapshot_visible_reassigned :
    let img := reassignedRun.foldl apply (new 0)
    let img' := fromRecords img.clusterId (img.toRecords (HashOrder.sorted MapSite))
    Admitted img ∧ img.validate (.v1Topic ⟨"orders", 1, 3, 2⟩) = .ok () ∧
      img'.validate (.v1Topic ⟨"orders", 1, 3, 2⟩) = .error (.topicExists "orders") := by
  refine ⟨admitted_foldl (admitted_new 0) (by decide), by decide, by decide +kernel⟩

/-- Without the reassignment the snapshot is invisible. -/
theorem snapshot_invisible_before_reassignment :
    let img := (reassignedRun.take 3).foldl apply (new 0)
    let img' := fromRecords img.clusterId (img.toRecords (HashOrder.sorted MapSite))
    Admitted img ∧ img'.validate (.v1Topic ⟨"orders", 1, 3, 1⟩) = .ok () := by
  intro img img'
  have hadm : Admitted img := admitted_foldl (admitted_new 0) (by decide)
  have hcurrent : FactorsCurrent img := by
    intro name t ht _ p hp
    by_cases hname : name = "orders"
    · subst hname
      have hp : (img.fittingPartitions "orders").getLast? = some p := hp
      have hlast : (img.fittingPartitions "orders").getLast? =
          some ⟨"orders", 1, 1, [1], [1], 0, [], [], [], 0⟩ := by decide
      have htopic : img.topics["orders"]? = some ⟨"orders", 1, 2, 1⟩ := by decide
      rw [hlast] at hp
      rw [htopic] at ht
      rw [← Option.some.inj hp, ← Option.some.inj ht]
      decide
    · have hkeys : ∀ name ∈ img.topics.keys, name = "orders" := by decide
      exact absurd (hkeys name (Std.ExtTreeMap.mem_keys.mpr (mem_iff_get.mpr ⟨t, ht⟩))) hname
  have hok : img.validate (.v1Topic ⟨"orders", 1, 3, 1⟩) = .ok () := by decide
  have hiff := (snapshot_invisible_iff hadm (HashOrder.sorted MapSite)).mpr hcurrent []
    (.v1Topic ⟨"orders", 1, 3, 1⟩)
  simp only [List.foldl_nil] at hiff
  exact ⟨hadm, hiff.mp hok⟩

end MetadataImage

end Krabka.Metadata
