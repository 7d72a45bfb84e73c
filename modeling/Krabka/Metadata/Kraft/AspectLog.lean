import Krabka.Metadata.DirAssignment
import Krabka.Metadata.Kraft.PartitionLog

/-!
# `Metadata.Kraft.AspectLog` — single-aspect partition records through the log

A directory assignment, an eligible-leader record and a recovery record each set one aspect of a partition.
On the log all three are a partition change, and they come back as a record that rewrites the partition.
`singleAspect_log_path` says what the detour adds to the record itself: the partition epoch advances, and
the topic's cached replication factor is computed anew (`rewritten`).
-/

namespace Krabka.Metadata.Kraft

open Collections FixedWidth Results MetadataImage

variable {codec : Codec} {img : MetadataImage} {topic : String} {idx : Int32} {p : PartitionRecord}

/-! ## What the detour adds

`rewritten` sets a partition to what it already is, one epoch later. -/

/-- The image with one partition rewritten as it is, at the next partition epoch. -/
def rewritten (img : MetadataImage) (topic : String) (idx : Int32) : MetadataImage :=
  match img.partition topic idx, img.topics[topic]? with
  | some p, some t =>
    { img with
      partitions := insert2 img.partitions topic idx { p with partitionEpoch := p.partitionEpoch + 1 }
      topics := img.topics.insert topic
        { t with replicationFactor := (i16OfLen p.replicas.length).getD t.replicationFactor } }
  | _, _ => img

/-- The partition is as before, at the next epoch. -/
theorem rewritten_of_some {t : TopicRecord} (hp : img.partition topic idx = some p)
    (ht : img.topics[topic]? = some t) :
    rewritten img topic idx =
      { img with
        partitions := insert2 img.partitions topic idx { p with partitionEpoch := p.partitionEpoch + 1 }
        topics := img.topics.insert topic
          { t with replicationFactor := (i16OfLen p.replicas.length).getD t.replicationFactor } } := by
  unfold rewritten
  rw [hp, ht]

/-- To write a partition that is there already is to replace it. -/
theorem applyPartition_of_some {q : PartitionRecord} {t : TopicRecord}
    (hp : img.partition topic idx = some p) (ht : img.topics[topic]? = some t)
    (hq : q.topic = topic ∧ q.partition = idx) :
    img.applyPartition q =
      { img with
        partitions := insert2 img.partitions topic idx q
        topics := img.topics.insert topic
          { t with replicationFactor := (i16OfLen q.replicas.length).getD t.replicationFactor } } := by
  obtain ⟨rfl, rfl⟩ := hq
  unfold applyPartition
  rw [hp, ht]
  rfl

/-! ## The three records

Each is written as a change with one field. Read back, it is completed from the image, and the other fields
are the old ones. -/

/-- The records that set one aspect of the partition `p` of the image. -/
inductive SingleAspect (img : MetadataImage) (p : PartitionRecord) : MetadataRecord → String → Int32 → Prop
  | dirAssignment {r : PartitionDirAssignmentRecord} : img.partition r.topic r.partition = some p →
      r.replica ∈ p.replicas → p.directories.length ≤ p.replicas.length →
      SingleAspect img p (.v1PartitionDirAssignment r) r.topic r.partition
  | elr {r : PartitionElrRecord} : img.partition r.topic r.partition = some p →
      SingleAspect img p (.v1PartitionElr r) r.topic r.partition
  | recovery {r : PartitionRecoveryRecord} : img.partition r.topic r.partition = some p →
      SingleAspect img p (.v1PartitionRecovery r) r.topic r.partition

/-- The nodes that a record puts on the wire. -/
def loggedNodes : MetadataRecord → List NodeId
  | .v1PartitionElr r => r.eligibleLeaderReplicas ++ r.lastKnownElr
  | _ => []

/-- The partition whose aspect it is. -/
theorem SingleAspect.partition {r : MetadataRecord} (h : SingleAspect img p r topic idx) :
    img.partition topic idx = some p := by
  cases h with
  | dirAssignment hp | elr hp | recovery hp => exact hp

/-- A change that carries no part of the partition record advances its epoch and keeps the rest. -/
theorem changedTo_next {c : KPartitionChangeRecord} (hreplicas : c.replicas = none) (hisr : c.isr = none)
    (hremoving : c.removingReplicas = none) (hadding : c.addingReplicas = none) (hleader : c.leader = -2)
    {directories : List Uuid} (hdirectories : changedDirectories p c p.replicas = .ok directories)
    (hepoch : p.partitionEpoch < 2147483647) :
    ChangedTo c p { p with directories := directories, partitionEpoch := p.partitionEpoch + 1 } := by
  refine ⟨rfl, rfl, ?_, ?_, ?_, ?_, ?_, hdirectories, nextEpoch_eq_ok.mpr ?_⟩
  · rw [hreplicas]; rfl
  · rw [hisr]; rfl
  · rw [hremoving]; rfl
  · rw [hadding]; rfl
  · rw [hleader]; rfl
  · have hlt : p.partitionEpoch.toInt < 2147483647 := Int32.lt_iff_toInt_lt.mp hepoch
    have hle := p.partitionEpoch.le_toInt
    rw [Int32.toInt_add, Int32.toInt_one]
    exact Int.bmod_eq_of_le (by omega) (by omega)

/-- A directory vector no longer than the replicas goes to the log as the image pads it. -/
theorem paddedDirectories_eq_resize (h : p.directories.length ≤ p.replicas.length) :
    p.paddedDirectories = resize p.directories p.replicas.length migrating := by
  unfold PartitionRecord.paddedDirectories
  split
  · rfl
  · rename_i hlt
    have hlen : p.replicas.length = p.directories.length := by omega
    unfold resize
    rw [hlen, List.take_length, Nat.sub_self, List.replicate_zero, List.append_nil]

/-- The update that `u` stands for leaves what the record `r` leaves, rewritten. -/
structure ComesBackAs (img : MetadataImage) (p : PartitionRecord) (r : MetadataRecord) (topic : String)
    (idx : Int32) (c : KPartitionChangeRecord) (u : PartitionUpdateRecord) : Prop where
  read : ChangeRead c p u
  index : c.partitionId = idx
  topicId : ∃ t, img.topics[topic]? = some t ∧ t.topicId = c.topicId
  applied : img.applyPartitionUpdate u = rewritten (img.apply r) topic idx

/-- An assignment comes back as an update that sets the directory. -/
theorem comesBackAs_dirAssignment {r : PartitionDirAssignmentRecord} (hw : img.WellFormed)
    (hp : img.partition r.topic r.partition = some p) (hlen : p.directories.length ≤ p.replicas.length)
    (hepoch : p.partitionEpoch < 2147483647) {c : KPartitionChangeRecord}
    (h : partitionDirAssignmentToKraft r img = .ok c) :
    ∃ u, ComesBackAs img p (.v1PartitionDirAssignment r) r.topic r.partition c u := by
  obtain ⟨t, p', slot, ht, hp', hslot, rfl⟩ := partitionDirAssignmentToKraft_eq_ok h
  obtain rfl := Option.some.inj (hp.symm.trans hp')
  have hchanged : ChangedTo (directoriesChange r.partition t.topicId (assignedDirectories p slot r.directory))
      p _ := changedTo_next rfl rfl rfl rfl rfl
    (changedDirectories_eq_ok.mpr ⟨rfl, length_assignedDirectories p slot r.directory⟩) hepoch
  refine ⟨⟨_, none, none, none⟩, ⟨hchanged, rfl, rfl, rfl⟩, rfl, ⟨t, ht, rfl⟩, ?_⟩
  have hassigned : (img.applyPartitionDirAssignment r).partition r.topic r.partition =
      some (assignDirectory p slot r.directory) :=
    (partition_applyPartitionDirAssignment hp hslot _ _).trans (if_pos ⟨rfl, rfl⟩)
  have htopics : (img.applyPartitionDirAssignment r).topics[r.topic]? = some t := by
    rw [applyPartitionDirAssignment_of_some hp hslot]
    exact ht
  show img.applyPartition _ = rewritten (img.applyPartitionDirAssignment r) r.topic r.partition
  rw [rewritten_of_some hassigned htopics, applyPartitionDirAssignment_of_some hp hslot,
    insert2_insert2, assignDirectory_eq, paddedDirectories_eq_resize hlen]
  have hkeyed := hw.partitions_keyed _ _ _ hp
  exact applyPartition_of_some hp ht hkeyed

/-- What the state of a partition is written as. -/
theorem partitionStateToKraft_eq_ok {state : Int8} {eligible lastKnown : Option (List NodeId)}
    {c : KPartitionChangeRecord}
    (h : partitionStateToKraft img topic idx state eligible lastKnown = .ok c) :
    ∃ t eligible' lastKnown', img.topics[topic]? = some t ∧
      eligible.mapM (nodesToWire · "eligible leader replica") = .ok eligible' ∧
      lastKnown.mapM (nodesToWire · "last known eligible leader replica") = .ok lastKnown' ∧
      c = { partitionId := idx, topicId := t.topicId, leaderRecoveryState := state,
            eligibleLeaderReplicas := eligible', lastKnownElr := lastKnown' } := by
  obtain ⟨id, hid, h⟩ := bind_eq_ok.mp h
  obtain ⟨eligible', heligible, h⟩ := bind_eq_ok.mp h
  obtain ⟨lastKnown', hlastKnown, h⟩ := bind_eq_ok.mp h
  obtain ⟨t, ht, rfl⟩ := get_of_topicIdOf hid
  exact ⟨t, eligible', lastKnown', ht, heligible, hlastKnown, (pure_eq_ok.mp h).symm⟩

/-- A write beside the partitions and topics may come before or after the rewrite. -/
theorem write_applyPartition {write : MetadataImage → MetadataImage}
    (hwrite : ∀ topics partitions, write { img with topics := topics, partitions := partitions } =
      { write img with topics := topics, partitions := partitions })
    (hp : img.partition topic idx = some p) {t : TopicRecord} (ht : img.topics[topic]? = some t)
    (hkeyed : p.topic = topic ∧ p.partition = idx) :
    write (img.applyPartition { p with partitionEpoch := p.partitionEpoch + 1 }) =
      rewritten (write img) topic idx := by
  have hsame : write img = { write img with topics := img.topics, partitions := img.partitions } :=
    hwrite img.topics img.partitions
  have htopics : (write img).topics = img.topics := by rw [hsame]
  have hpartitions : (write img).partitions = img.partitions := by rw [hsame]
  have hlive : (write img).topics[topic]? = some t := by rwa [htopics]
  have hstored : (write img).partition topic idx = some p := by
    unfold MetadataImage.partition
    rwa [hpartitions]
  rw [applyPartition_of_some (q := { p with partitionEpoch := p.partitionEpoch + 1 }) hp ht hkeyed, hwrite,
    rewritten_of_some hstored hlive, htopics, hpartitions]

/-- A record of the eligible-leader or the recovery state comes back with the partition as it was. -/
theorem comesBackAs_state {r : MetadataRecord} (hw : img.WellFormed)
    (hp : img.partition topic idx = some p) (hepoch : p.partitionEpoch < 2147483647)
    (state : Option LeaderRecoveryState) {eligible lastKnown : Option (List NodeId)}
    {c : KPartitionChangeRecord}
    (h : partitionStateToKraft img topic idx ((state.map LeaderRecoveryState.asI8).getD (-1)) eligible
      lastKnown = .ok c)
    (write : MetadataImage → MetadataImage)
    (hwrite : ∀ topics partitions, write { img with topics := topics, partitions := partitions } =
      { write img with topics := topics, partitions := partitions })
    (happly : img.apply r = write img)
    (hupdate : ∀ q, q.topic = topic ∧ q.partition = idx →
      img.applyPartitionUpdate ⟨q, eligible, lastKnown, state⟩ = write (img.applyPartition q)) :
    ∃ u, ComesBackAs img p r topic idx c u := by
  obtain ⟨t, eligible', lastKnown', ht, heligible, hlastKnown, rfl⟩ := partitionStateToKraft_eq_ok h
  have hkeyed := hw.partitions_keyed _ _ _ hp
  refine ⟨⟨_, eligible, lastKnown, state⟩, ⟨changedTo_next rfl rfl rfl rfl rfl rfl hepoch,
    nodesFromWire_of_mapM heligible _, nodesFromWire_of_mapM hlastKnown _, changedRecoveryState_asI8 _⟩,
    rfl, ⟨t, ht, rfl⟩, ?_⟩
  rw [happly]
  exact (hupdate { p with partitionEpoch := p.partitionEpoch + 1 } hkeyed).trans
    (write_applyPartition hwrite hp ht hkeyed)

/-- The eligible leaders come back as an update. -/
theorem comesBackAs_elr {r : PartitionElrRecord} (hw : img.WellFormed)
    (hp : img.partition r.topic r.partition = some p) (hepoch : p.partitionEpoch < 2147483647)
    {c : KPartitionChangeRecord}
    (h : partitionStateToKraft img r.topic r.partition (-1) (some r.eligibleLeaderReplicas)
      (some r.lastKnownElr) = .ok c) :
    ∃ u, ComesBackAs img p (.v1PartitionElr r) r.topic r.partition c u := by
  refine comesBackAs_state hw hp hepoch none h
    (fun img => img.applyPartitionElr r.topic r.partition r.eligibleLeaderReplicas r.lastKnownElr)
    (fun _ _ => rfl) rfl ?_
  rintro q ⟨htopic, hidx⟩
  rw [← htopic, ← hidx]
  rfl

/-- So does the recovery state. -/
theorem comesBackAs_recovery {r : PartitionRecoveryRecord} (hw : img.WellFormed)
    (hp : img.partition r.topic r.partition = some p) (hepoch : p.partitionEpoch < 2147483647)
    {c : KPartitionChangeRecord}
    (h : partitionStateToKraft img r.topic r.partition r.state.asI8 none none = .ok c) :
    ∃ u, ComesBackAs img p (.v1PartitionRecovery r) r.topic r.partition c u := by
  refine comesBackAs_state hw hp hepoch (some r.state) h
    (fun img => img.applyPartitionRecovery r.topic r.partition r.state) (fun _ _ => rfl) rfl ?_
  rintro q ⟨htopic, hidx⟩
  rw [← htopic, ← hidx]
  rfl

/-- One partition change on the wire, whichever the record. -/
theorem exists_comesBackAs {ω : MapOrder} (hw : img.WellFormed) {r : MetadataRecord}
    (hr : SingleAspect img p r topic idx) (hepoch : p.partitionEpoch < 2147483647)
    {krs : List KraftMetadataRecord} (h : toKraftRecords codec ω r img = .ok krs) :
    ∃ c u, krs = [.partitionChange c] ∧ ComesBackAs img p r topic idx c u := by
  cases hr with
  | dirAssignment hp _ hlen =>
      obtain ⟨c, hc, h⟩ := bind_eq_ok.mp h
      obtain ⟨u, hu⟩ := comesBackAs_dirAssignment hw hp hlen hepoch hc
      exact ⟨c, u, (pure_eq_ok.mp h).symm, hu⟩
  | elr hp =>
      obtain ⟨c, hc, h⟩ := bind_eq_ok.mp h
      obtain ⟨u, hu⟩ := comesBackAs_elr hw hp hepoch hc
      exact ⟨c, u, (pure_eq_ok.mp h).symm, hu⟩
  | recovery hp =>
      obtain ⟨c, hc, h⟩ := bind_eq_ok.mp h
      obtain ⟨u, hu⟩ := comesBackAs_recovery hw hp hepoch hc
      exact ⟨c, u, (pure_eq_ok.mp h).symm, hu⟩

/-! ## When the record goes to the wire

The encoder converts the nodes of the record, and needs the topic to have an id. -/

/-- Node ids of 31 bits are written. -/
theorem nodesToWire_of_fits {nodes : List NodeId} (h : ∀ n ∈ nodes, n.toNat < 2 ^ 31) (field : String) :
    ∃ values, nodesToWire nodes field = .ok values := by
  refine mapM_of_forall fun n hn => ⟨Int32.ofNat n.toNat, ?_⟩
  unfold nodeIdAs i32OfU64
  rw [if_pos (h n hn)]
  rfl

/-- A node that the wire has no room for is refused by name of its list. -/
theorem nodesToWire_of_not_fits {nodes : List NodeId} (h : ∃ n ∈ nodes, 2 ^ 31 ≤ n.toNat)
    (field : String) : ∃ detail, nodesToWire nodes field = .error (.invalidValue field detail) := by
  cases hwire : nodesToWire nodes field with
  | ok values =>
      obtain ⟨n, hn, hlarge⟩ := h
      obtain ⟨value, -, hvalue⟩ := mapM_ok_of_mem hwire hn
      have hsame := nodeIdAs_eq_ok.mp hvalue
      have hlt := value.toInt_lt
      omega
  | error e =>
      obtain ⟨n, -, he⟩ := exists_of_mapM_eq_error hwire
      exact ⟨_, by rw [← (okOr_eq_error.mp he).2]⟩

theorem get_topicIdOf {t : TopicRecord} (ht : img.topics[topic]? = some t) :
    topicIdOf img topic = .ok t.topicId := by
  unfold topicIdOf
  rw [ht]
  rfl

/-- Only the nodes of an eligible-leader record can keep it off the wire. -/
theorem toKraftRecords_singleAspect {ω : MapOrder} {t : TopicRecord} {r : MetadataRecord}
    (hr : SingleAspect img p r topic idx) (ht : img.topics[topic]? = some t) :
    ((∃ n ∈ loggedNodes r, 2 ^ 31 ≤ n.toNat) →
      ∃ field detail, toKraftRecords codec ω r img = .error (.invalidValue field detail)) ∧
    ((∀ n ∈ loggedNodes r, n.toNat < 2 ^ 31) →
      ∃ c, toKraftRecords codec ω r img = .ok [.partitionChange c]) := by
  have hid := get_topicIdOf ht
  cases hr with
  | dirAssignment hp hreplica _ =>
      rename_i r
      refine ⟨fun ⟨n, hn, _⟩ => absurd hn List.not_mem_nil, fun _ => ?_⟩
      obtain ⟨slot, hslot⟩ := Option.isSome_iff_exists.mp (List.isSome_idxOf?.mpr hreplica)
      simp only [toKraftRecords, partitionDirAssignmentToKraft, hid, hp, hslot, okOr_some, ok_bind]
      exact ⟨_, rfl⟩
  | recovery hp =>
      refine ⟨fun ⟨n, hn, _⟩ => absurd hn List.not_mem_nil, fun _ => ?_⟩
      simp only [toKraftRecords, partitionStateToKraft, hid, ok_bind]
      exact ⟨_, rfl⟩
  | elr hp =>
      rename_i r
      have hrecords : toKraftRecords codec ω (.v1PartitionElr r) img =
          (nodesToWire r.eligibleLeaderReplicas "eligible leader replica" >>= fun eligible =>
            nodesToWire r.lastKnownElr "last known eligible leader replica" >>= fun lastKnown =>
              .ok [.partitionChange {
                partitionId := r.partition
                topicId := t.topicId
                eligibleLeaderReplicas := some eligible
                lastKnownElr := some lastKnown }]) := by
        simp only [toKraftRecords, partitionStateToKraft, hid, ok_bind, mapM_some, bind_assoc]
        rfl
      rw [hrecords]
      constructor
      · rintro ⟨n, hn, hlarge⟩
        by_cases heligible : ∃ n ∈ r.eligibleLeaderReplicas, 2 ^ 31 ≤ n.toNat
        · obtain ⟨detail, he⟩ := nodesToWire_of_not_fits heligible "eligible leader replica"
          exact ⟨_, detail, bind_eq_error.mpr (Or.inl he)⟩
        · -- the first list fits, so it is the second one
          obtain ⟨values, hvalues⟩ := nodesToWire_of_fits
            (fun n hn => Nat.lt_of_not_le fun hle => heligible ⟨n, hn, hle⟩) "eligible leader replica"
          have hlast : n ∈ r.lastKnownElr :=
            (List.mem_append.mp hn).resolve_left fun hn => heligible ⟨n, hn, hlarge⟩
          obtain ⟨detail, he⟩ := nodesToWire_of_not_fits ⟨n, hlast, hlarge⟩
            "last known eligible leader replica"
          exact ⟨_, detail, bind_eq_error.mpr (Or.inr ⟨values, hvalues, bind_eq_error.mpr (Or.inl he)⟩)⟩
      · intro hfits
        obtain ⟨eligible, heligible⟩ := nodesToWire_of_fits
          (fun n hn => hfits n (List.mem_append_left _ hn)) "eligible leader replica"
        obtain ⟨lastKnown, hlastKnown⟩ := nodesToWire_of_fits
          (fun n hn => hfits n (List.mem_append_right _ hn)) "last known eligible leader replica"
        rw [heligible, ok_bind, hlastKnown, ok_bind]
        exact ⟨_, rfl⟩

/-! ## The log path

The replay of the record and the record itself, applied one after the other and compared. -/

/-- **Single-aspect records through the log.** A record whose nodes the wire has room for goes out as one
    partition change, any other is refused; and what comes back acts as the record did, with the partition
    rewritten at its next epoch. Two empty lists clear the eligible-leader state here as well. -/
theorem singleAspect_log_path (hc : codec.Lawful) (hadm : Admitted img) (hd : img.DistinctTopicIds)
    (hmv : FramesAtMax img) {r : MetadataRecord} (hr : SingleAspect img p r topic idx)
    (hepoch : p.partitionEpoch < 2147483647) (ω : MapOrder) :
    ((∃ n ∈ loggedNodes r, 2 ^ 31 ≤ n.toNat) →
      ∃ field detail, toKraftValues codec ω r img = .error (.invalidValue field detail)) ∧
    ((∀ n ∈ loggedNodes r, n.toNat < 2 ^ 31) →
      ∃ c, toKraftRecords codec ω r img = .ok [.partitionChange c]) ∧
    ∀ blobs, toKraftValues codec ω r img = .ok blobs → ∃ blob, blobs = [blob] ∧
      ∀ ω', ∃ r', fromKraftValue codec ω' blob img = .ok r' ∧
        img.apply r' = rewritten (img.apply r) topic idx ∧
        (r = .v1PartitionElr ⟨topic, idx, [], []⟩ → (img.apply r').elrOf topic idx = ([], [])) := by
  have hw := wellFormed_of_admitted hadm
  obtain ⟨t, ht⟩ : ∃ t, img.topics[topic]? = some t := by
    have hlive := (integrity_of_admitted hadm).partitions_live topic (mem_of_lookup2 hr.partition)
    exact Option.isSome_iff_exists.mp (Std.ExtTreeMap.isSome_getElem?_iff_mem.mpr hlive)
  obtain ⟨hrefused, hwritten⟩ := @toKraftRecords_singleAspect codec img topic idx p ω t r hr ht
  refine ⟨fun hlarge => ?_, hwritten, fun blobs h => ?_⟩
  · obtain ⟨field, detail, he⟩ := hrefused hlarge
    exact ⟨field, detail, bind_eq_error.mpr (Or.inl he)⟩
  · obtain ⟨krs, hkrs, hblobs⟩ := replay_toKraftValues hc hmv h
    obtain ⟨c, u, rfl, hback⟩ := exists_comesBackAs hw hr hepoch hkrs
    obtain ⟨blob, rest, hblob, hrest, rfl⟩ := List.forall₂_cons_right_iff.mp hblobs
    rw [List.forall₂_nil_right_iff] at hrest
    subst hrest
    obtain ⟨t', ht', hid⟩ := hback.topicId
    have htopic : ∀ ω, img.topicNameForId ω c.topicId = some topic :=
      fun ω => hid ▸ topicNameForId_of_get hw.topics_keyed hd ω ht'
    have happlied : img.apply (changeRecord c u) = rewritten (img.apply r) topic idx :=
      (apply_changeRecord hback.read img).trans hback.applied
    refine ⟨blob, rfl, fun ω' => ⟨changeRecord c u, ?_, happlied, ?_⟩⟩
    · exact (hblob ω' img).trans
        (decodes_partitionChange htopic (hback.index ▸ hr.partition) hback.read ω')
    · rintro rfl
      have helr : (rewritten (img.applyPartitionElr topic idx [] []) topic idx).elrOf topic idx =
          (img.applyPartitionElr topic idx [] []).elrOf topic idx := by
        have hpart : (img.applyPartitionElr topic idx [] []).partition topic idx = some p := hr.partition
        have htopic' : (img.applyPartitionElr topic idx [] []).topics[topic]? = some t := ht
        rw [rewritten_of_some hpart htopic']
        rfl
      rw [happlied]
      exact helr.trans ((elrOf_applyPartitionElr _ _ _ _ _ _ _).trans (if_pos ⟨rfl, rfl⟩))

/-- The bytes of the change that clears both lists of the partition of `shrunk`. -/
def clearBlob : List UInt8 :=
  [1, 5, 2, 0, 0, 0, 0] ++ List.replicate 15 0 ++ [1] ++ [2, 6, 1, 1, 7, 1, 1]

def clearCodec : Codec := Codec.ofTable
  [((.partitionChange
      { partitionId := 0, topicId := 1, eligibleLeaderReplicas := some [], lastKnownElr := some [] }, 2),
    clearBlob)]

theorem clearCodec_lawful : clearCodec.Lawful := Codec.ofTable_lawful (by decide)

/-- The second replica of the partition of `shrunk` is an eligible leader. -/
def withEligible : MetadataImage := shrunk.apply (.v1PartitionElr ⟨"orders", 0, [2], []⟩)

theorem singleAspect_log_path_clear :
    withEligible.elrOf "orders" 0 = ([2], []) ∧
      ∃ blob, [clearBlob] = [blob] ∧ ∀ ω', ∃ r', fromKraftValue clearCodec ω' blob withEligible = .ok r' ∧
        withEligible.apply r' =
          rewritten (withEligible.apply (.v1PartitionElr ⟨"orders", 0, [], []⟩)) "orders" 0 ∧
        ((.v1PartitionElr ⟨"orders", 0, [], []⟩ : MetadataRecord) = .v1PartitionElr ⟨"orders", 0, [], []⟩ →
          (withEligible.apply r').elrOf "orders" 0 = ([], [])) := by
  have hadm : Admitted withEligible := .step shrunk_admitted (by decide)
  have hp : withEligible.partition "orders" 0 = some shrunkPartition := by decide
  have hblobs : toKraftValues clearCodec (HashOrder.sorted MapSite)
      (.v1PartitionElr ⟨"orders", 0, [], []⟩) withEligible = .ok [clearBlob] := rfl
  exact ⟨by decide, (singleAspect_log_path clearCodec_lawful hadm (distinctTopicIds_of_nodup (by decide))
    (Or.inl (by decide)) (.elr hp) (by decide) (HashOrder.sorted MapSite)).2.2 _ hblobs⟩

/-- A partition with more replicas than a replication factor counts. -/
def widePartition : PartitionRecord := ⟨"orders", 0, 1, List.replicate 32768 1, [1], 4, [], [], [], 7⟩

def wide : MetadataImage := [.v1Topic ⟨"orders", 1, 0, 1⟩, .v1Partition widePartition].foldl apply (new 0)

/-- The bytes of the change that marks the leader of that partition as recovering. -/
def recoveringBlob : List UInt8 := [1, 5, 2, 0, 0, 0, 0] ++ List.replicate 15 0 ++ [1] ++ [1, 5, 1, 1]

def recoveringCodec : Codec := Codec.ofTable
  [((.partitionChange { partitionId := 0, topicId := 1, leaderRecoveryState := 1 }, 2), recoveringBlob)]

theorem wide_partition : wide.partition "orders" 0 = some widePartition :=
  (partition_applyPartition _ widePartition _ _).trans (if_pos ⟨rfl, rfl⟩)

/-- An eligible leader that the wire has no room for is refused; and where the replicas outnumber the
    field, the replication factor is not their count. -/
theorem singleAspect_not_carried :
    (Admitted shrunk ∧ DistinctTopicIds shrunk ∧ FramesAtMax shrunk ∧ clearCodec.Lawful ∧
      SingleAspect shrunk shrunkPartition (.v1PartitionElr ⟨"orders", 0, [2147483648], []⟩) "orders" 0 ∧
      shrunkPartition.partitionEpoch < 2147483647 ∧
      toKraftValues clearCodec (HashOrder.sorted MapSite)
          (.v1PartitionElr ⟨"orders", 0, [2147483648], []⟩) shrunk =
        .error (.invalidValue "eligible leader replica" "node id 2147483648 exceeds i32")) ∧
    (Admitted wide ∧ DistinctTopicIds wide ∧ FramesAtMax wide ∧ recoveringCodec.Lawful ∧
      SingleAspect wide widePartition (.v1PartitionRecovery ⟨"orders", 0, .recovering⟩) "orders" 0 ∧
      widePartition.partitionEpoch < 2147483647 ∧
      toKraftValues recoveringCodec (HashOrder.sorted MapSite)
          (.v1PartitionRecovery ⟨"orders", 0, .recovering⟩) wide = .ok [recoveringBlob] ∧
      ∃ r, fromKraftValue recoveringCodec (HashOrder.sorted MapSite) recoveringBlob wide = .ok r ∧
        (wide.apply r).topics["orders"]?.map (fun t => t.replicationFactor.toInt) ≠
          some (widePartition.replicas.length : ℤ)) := by
  constructor
  · exact ⟨shrunk_admitted, shrunk_distinct, Or.inl (by decide), clearCodec_lawful,
      .elr shrunk_partition, by decide, by decide⟩
  · refine ⟨admitted_foldl (admitted_new 0) rfl, distinctTopicIds_of_nodup ?_, Or.inl rfl,
      Codec.ofTable_lawful (by decide), .recovery wide_partition, by decide, rfl, _, rfl, fun h => ?_⟩
    · decide
    · obtain ⟨t, -, hcount⟩ := Option.map_eq_some_iff.mp h
      have hlt := t.replicationFactor.toInt_lt
      have hlength : widePartition.replicas.length = 32768 := List.length_replicate
      omega

end Krabka.Metadata.Kraft
