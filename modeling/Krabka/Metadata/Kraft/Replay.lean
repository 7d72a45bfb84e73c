import Krabka.Metadata.Kraft.RoundTrip
import Krabka.Metadata.Integrity

/-!
# `Metadata.Kraft.Replay` — replaying a log of records

`replay` reads blobs; the arguments are about records. At the newest `metadata.version` the framing drops
nothing, so a lawful codec makes the two replays one (`replay_toKraftValues`). `Replays` then composes:
a log replays to an image when each of its parts replays from where the part before it ended.
-/

namespace Krabka.Metadata.Kraft

open Results

variable {codec : Codec}

/-! ## Composing replays

The order of the hash map at each step is a parameter, and a replay of two parts shares it out between them.
-/

/-- A log is replayed in two parts. -/
theorem replayWith_append {β : Type}
    {decode : MapOrder → β → MetadataImage → Except TranslateError MetadataRecord} :
    ∀ (xs ys : List β) (ω : ℕ → MapOrder) (img : MetadataImage),
      replayWith decode ω img (xs ++ ys) =
        (replayWith decode ω img xs >>= fun img' =>
          replayWith decode (fun n => ω (n + xs.length)) img' ys) := by
  intro xs
  induction xs with
  | nil => intro ys ω img; rfl
  | cons x rest ih =>
      intro ys ω img
      simp only [List.cons_append, replayWith, bind_assoc, ih, List.length_cons]
      congr 1

/-- Two logs whose entries decode alike replay alike. -/
theorem replayWith_congr {β γ : Type}
    {decode : MapOrder → β → MetadataImage → Except TranslateError MetadataRecord}
    {decode' : MapOrder → γ → MetadataImage → Except TranslateError MetadataRecord} {xs : List β}
    {ys : List γ} (h : List.Forall₂ (fun x y => ∀ ω img, decode ω x img = decode' ω y img) xs ys) :
    ∀ (ω : ℕ → MapOrder) (img : MetadataImage),
      replayWith decode ω img xs = replayWith decode' ω img ys := by
  induction h with
  | nil => intro ω img; rfl
  | cons hxy _ ih =>
      intro ω img
      simp only [replayWith, hxy, ih]

/-- The records replay from `img` to `img'`, in whatever orders the maps iterate on the way. -/
def Replays (codec : Codec) (img : MetadataImage) (krs : List KraftMetadataRecord)
    (img' : MetadataImage) : Prop :=
  ∀ ω, replayWith (fromKraft codec) ω img krs = .ok img'

theorem Replays.nil (img : MetadataImage) : Replays codec img [] img := fun _ => rfl

/-- A value that is decoded goes in front of a replay. -/
theorem Replays.cons {img img' : MetadataImage} {kr : KraftMetadataRecord} {r : MetadataRecord}
    {krs : List KraftMetadataRecord} (hd : Decodes codec kr img r)
    (h : Replays codec (img.apply r) krs img') : Replays codec img (kr :: krs) img' := by
  intro ω
  simp only [replayWith, hd (ω 0), ok_bind]
  exact h _

theorem Replays.single {img : MetadataImage} {kr : KraftMetadataRecord} {r : MetadataRecord}
    (hd : Decodes codec kr img r) : Replays codec img [kr] (img.apply r) :=
  .cons hd (.nil _)

/-- Replays compose. -/
theorem Replays.append {img img' img'' : MetadataImage} {krs krs' : List KraftMetadataRecord}
    (h : Replays codec img krs img') (h' : Replays codec img' krs' img'') :
    Replays codec img (krs ++ krs') img'' := by
  intro ω
  rw [replayWith_append, h ω, ok_bind]
  exact h' _

/-! ## Blobs and records

At the newest metadata.version every record is framed with all of its fields. -/

/-- At the highest level nothing is stripped from a change. -/
theorem stripChange_max (kr : KraftMetadataRecord) : stripChange metadataVersionMax kr = kr := by
  have hdirs : ¬metadataVersionMax < directoryAssignmentMinLevel := by decide
  have hcordoned : ¬metadataVersionMax < cordonedLogDirsMinLevel := by decide
  cases kr <;> simp [stripChange, hdirs, hcordoned]

/-- Nor from a registration. -/
theorem stripRegister_max (kr : KraftMetadataRecord) :
    stripRegister (recordVersion metadataVersionMax kr) kr = kr := by
  have hversion : (if cordonedLogDirsMinLevel ≤ metadataVersionMax then (4 : Int16)
    else if directoryAssignmentMinLevel ≤ metadataVersionMax then 3
    else if 8 ≤ metadataVersionMax then 2 else 1) = 4 := by decide
  have hdirs : ¬(4 : Int16) < 3 := by decide
  have hcordoned : ¬(4 : Int16) < 4 := by decide
  cases kr <;> simp [stripRegister, recordVersion, hversion, hdirs, hcordoned]

/-- The records that the encoders write: none of an unknown key, and a `NoOp` only as a carrier. -/
def Written : KraftMetadataRecord → Prop
  | .unknown .. => False
  | .noOp n => ∃ field, n.unknownTaggedFields = [field]
  | _ => True

/-- The newest `metadata.version` frames every record at a version that carries all of it. -/
theorem carriedAt_max {kr : KraftMetadataRecord} (h : Written kr) :
    kr.CarriedAt (recordVersion metadataVersionMax kr) := by
  have hpartition : (if elrMinLevel ≤ metadataVersionMax then (2 : Int16)
    else if directoryAssignmentMinLevel ≤ metadataVersionMax then 1 else 0) = 2 := by decide
  have hregister : (if cordonedLogDirsMinLevel ≤ metadataVersionMax then (4 : Int16)
    else if directoryAssignmentMinLevel ≤ metadataVersionMax then 3
    else if 8 ≤ metadataVersionMax then 2 else 1) = 4 := by decide
  have hle : (1 : Int16) ≤ 2 ∧ (2 : Int16) ≤ 2 ∧ (1 : Int16) ≤ 4 ∧ (2 : Int16) ≤ 4 ∧
    (3 : Int16) ≤ 4 ∧ (4 : Int16) ≤ 4 := by decide
  cases kr with
  | partition p => simp [KraftMetadataRecord.CarriedAt, recordVersion, hpartition, hle]
  | partitionChange c => simp [KraftMetadataRecord.CarriedAt, recordVersion, hpartition, hle]
  | registerBroker b => simp [KraftMetadataRecord.CarriedAt, recordVersion, hregister, hle]
  | brokerRegistrationChange c =>
      have h123 : (1 : Int16) ≤ 1 ∧ (1 : Int16) ≤ 2 ∧ (1 : Int16) ≤ 3 ∧ (2 : Int16) ≤ 2 ∧
        (2 : Int16) ≤ 3 ∧ (3 : Int16) ≤ 3 := by decide
      simp only [KraftMetadataRecord.CarriedAt, recordVersion, brokerRegistrationChangeVersion]
      -- the version of a change follows its fields, the highest one first
      cases hcordoned : c.cordonedLogDirs with
      | some dirs => simp [h123]
      | none =>
          cases hdirs : c.logDirs with
          | cons d ds => simp [h123]
          | nil => by_cases hs : c.inControlledShutdown = 0 <;> simp [hs]
  -- a carrier has one tagged field, so there is no order to lose
  | noOp n =>
      obtain ⟨field, hfield⟩ := h
      show n.unknownTaggedFields.Pairwise _
      rw [hfield]
      exact List.pairwise_singleton _ _
  | unknown k v b => exact h.elim
  | _ => trivial

theorem written_single {kr : KraftMetadataRecord} {krs : List KraftMetadataRecord} (h : [kr] = krs)
    (hkr : Written kr) : ∀ kr' ∈ krs, Written kr' := by
  subst h
  simpa using hkr

/-- Whatever a record is written as has been written. -/
theorem written_toKraftRecords {ω : MapOrder} {r : MetadataRecord} {img : MetadataImage}
    {krs : List KraftMetadataRecord} (h : toKraftRecords codec ω r img = .ok krs) :
    ∀ kr ∈ krs, Written kr := by
  cases r with
  | v1FeaturesEpoch _ | v1PartitionOffsetAdvance _ | v1TopicFreeze _ | v1BreakGlassProposal _
  | v1DeleteBreakGlassProposal _ =>
      obtain ⟨kr, hkr, h⟩ := bind_eq_ok.mp h
      obtain ⟨tag, _, hkr⟩ := bind_eq_ok.mp hkr
      obtain ⟨bytes, _, hkr⟩ := bind_eq_ok.mp hkr
      rw [pure_eq_ok] at hkr
      refine written_single (pure_eq_ok.mp h) ?_
      rw [← hkr]
      exact ⟨_, rfl⟩
  -- the kinds that fan out, by a map over what they fan out to
  | v1TopicConfig _ | v1GroupConfig _ | v1ClientMetricsConfig _ | v1DeleteAccessControlEntry _ =>
      injection h with h
      subst h
      intro kr hkr
      obtain ⟨_, _, rfl⟩ := List.mem_map.mp hkr
      trivial
  | v1FeatureLevel _ | v1AccessControlEntry _ | v1ClientQuota _ | v1DelegationToken _
  | v1DeleteDelegationToken _ | v1BrokerConfig _ | v1Topic _ =>
      exact written_single (Except.ok.inj h) trivial
  | v1Voters _ | v1KRaftVersion _ => cases h
  | v1Partition _ =>
      obtain ⟨_, _, h⟩ := bind_eq_ok.mp h
      obtain ⟨_, _, h⟩ := bind_eq_ok.mp h
      exact written_single (pure_eq_ok.mp h) trivial
  | _ =>
      obtain ⟨_, _, h⟩ := bind_eq_ok.mp h
      exact written_single (pure_eq_ok.mp h) trivial

/-- The images whose encoder frames at the newest version: a missing `metadata.version` is that too. -/
def FramesAtMax (img : MetadataImage) : Prop :=
  img.finalizedMetadataVersion = none ∨ img.finalizedMetadataVersion = some metadataVersionMax

theorem FramesAtMax.getD {img : MetadataImage} (h : FramesAtMax img) :
    img.finalizedMetadataVersion.getD metadataVersionMax = metadataVersionMax := by
  rcases h with h | h <;> rw [h] <;> rfl

/-- **A framed value is read as its record**, at the highest level. -/
theorem fromKraftValue_frameValue (hc : codec.Lawful) {kr : KraftMetadataRecord}
    (hw : Written kr) {blob : List UInt8} (h : frameValue codec metadataVersionMax kr = .ok blob)
    (ω : MapOrder) (img : MetadataImage) :
    fromKraftValue codec ω blob img = fromKraft codec ω kr img := by
  unfold frameValue at h
  simp only [stripChange_max, stripRegister_max] at h
  have hdecode := hc.decodeValue_encodeValue (carriedAt_max hw) (mapError_eq_ok.mp h)
  unfold fromKraftValue
  rw [hdecode]
  rfl

/-- **Blobs replay as the records they frame.** -/
theorem replay_toKraftValues (hc : codec.Lawful) {ω : MapOrder} {r : MetadataRecord}
    {img : MetadataImage} {blobs : List (List UInt8)} (hmv : FramesAtMax img)
    (h : toKraftValues codec ω r img = .ok blobs) :
    ∃ krs, toKraftRecords codec ω r img = .ok krs ∧
      List.Forall₂ (fun blob kr => ∀ ω img', fromKraftValue codec ω blob img' =
        fromKraft codec ω kr img') blobs krs := by
  obtain ⟨krs, hkrs, h⟩ := bind_eq_ok.mp h
  rw [hmv.getD] at h
  refine ⟨krs, hkrs, List.Forall₂.flip ?_⟩
  have hframed := List.forall₂_iff_zip.mp (mapM_eq_ok.mp h)
  refine List.forall₂_iff_zip.mpr ⟨hframed.1, fun {kr blob} hmem ω' img' => ?_⟩
  have hw := written_toKraftRecords hkrs kr (List.of_mem_zip hmem).1
  exact fromKraftValue_frameValue hc hw (hframed.2 hmem) ω' img'

/-! ## Along a replay

What every step of a replay keeps: the image is well formed, and the ids of its topics stay. -/

/-- Every image on the way is well formed. -/
theorem wellFormed_replayWith {β : Type}
    {decode : MapOrder → β → MetadataImage → Except TranslateError MetadataRecord} :
    ∀ {xs : List β} {ω : ℕ → MapOrder} {img img' : MetadataImage}, img.WellFormed →
      replayWith decode ω img xs = .ok img' → img'.WellFormed := by
  intro xs
  induction xs with
  | nil =>
      intro ω img img' hw h
      injection h with h
      exact h ▸ hw
  | cons x rest ih =>
      intro ω img img' hw h
      obtain ⟨r, _, h⟩ := bind_eq_ok.mp h
      exact ih (hw.step r) h

/-- The same topics are live, under the same ids. -/
def SameTopicIds (img img' : MetadataImage) : Prop :=
  ∀ name : String, img'.topics[name]?.map (·.topicId) = img.topics[name]?.map (·.topicId)

theorem SameTopicIds.refl (img : MetadataImage) : SameTopicIds img img := fun _ => rfl

theorem SameTopicIds.trans {a b c : MetadataImage} (h : SameTopicIds a b) (h' : SameTopicIds b c) :
    SameTopicIds a c := fun name => (h' name).trans (h name)

/-- A partition changes no topic id. -/
theorem SameTopicIds.applyPartition (img : MetadataImage) (p : PartitionRecord) :
    SameTopicIds img (img.applyPartition p) := by
  intro name
  rw [MetadataImage.topics_applyPartition]
  split
  · rw [Option.map_map]
    rfl
  · rfl

/-- Nor does an update. -/
theorem SameTopicIds.applyPartitionUpdate (img : MetadataImage) (u : PartitionUpdateRecord) :
    SameTopicIds img (img.applyPartitionUpdate u) := by
  intro name
  rw [(MetadataImage.applyPartitionUpdate_tables img u).1]
  exact SameTopicIds.applyPartition img u.partition name

/-- An id of a live topic still leads to that topic, in whatever order the topics iterate. -/
theorem SameTopicIds.topicNameForId {img img' : MetadataImage} (h : SameTopicIds img img')
    (hw : img'.WellFormed) (hd : img.DistinctTopicIds) {name : String} {t : TopicRecord}
    (ht : img.topics[name]? = some t) (ω : MapOrder) : img'.topicNameForId ω t.topicId = some name := by
  -- the live ids are the same on both sides, so they are distinct on the other too
  have hget : ∀ {name : String} {t' : TopicRecord}, img'.topics[name]? = some t' →
      ∃ t, img.topics[name]? = some t ∧ t.topicId = t'.topicId := by
    intro name t' ht'
    refine Option.map_eq_some_iff.mp ?_
    rw [← h name, ht']
    rfl
  have hd' : img'.DistinctTopicIds := by
    intro a b ta tb hta htb hid
    obtain ⟨ta', hta', hida⟩ := hget hta
    obtain ⟨tb', htb', hidb⟩ := hget htb
    exact hd a b ta' tb' hta' htb' (by rw [hida, hidb, hid])
  obtain ⟨t', ht', hid⟩ : ∃ t', img'.topics[name]? = some t' ∧ t'.topicId = t.topicId := by
    refine Option.map_eq_some_iff.mp ?_
    rw [h name, ht]
    rfl
  rw [← hid]
  exact MetadataImage.topicNameForId_of_get hw.topics_keyed hd' ω ht'

/-- A topic with an id is there. -/
theorem get_of_topicIdOf {img : MetadataImage} {topic : String} {id : Uuid}
    (h : topicIdOf img topic = .ok id) : ∃ t, img.topics[topic]? = some t ∧ t.topicId = id :=
  Option.map_eq_some_iff.mp (okOr_eq_ok.mp h)

end Krabka.Metadata.Kraft
