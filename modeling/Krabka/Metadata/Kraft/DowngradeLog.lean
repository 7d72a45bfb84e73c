import Krabka.Metadata.Kraft.DowngradeRecords

/-!
# `Metadata.Kraft.DowngradeLog` — an image written at a lower `metadata.version`

What a replica rebuilds from the log of a downgraded image. A partition below version 2 loses its eligible
leaders and below version 1 its directories, so it is the image without them (`lowered`).
`downgrade_lossless_iff` compares that with what `metadata_version_downgrade_records` promises when it returns
an empty list: the log can be written (`Encodable`) and carries the whole image (`CarriedByLog`).
-/

namespace Krabka.Metadata.Kraft

open Collections FixedWidth Results MetadataImage Protocol.MetadataValue

variable {codec : Codec} {others : MetadataRecordType → BodyCodec}

/-! ## Principals and tokens

A principal whose type has a colon is cut in the wrong place when it is read. A token that names only
principals without one is read as it was written. -/

/-- What the log keeps of a principal: its string form is split at the first colon. -/
def principalFromLog (p : KafkaPrincipal) : KafkaPrincipal :=
  match KafkaPrincipal.parse p.toString with
  | .ok q => q
  | .error _ => p

/-- A principal is split at its first colon when it is read. -/
theorem parse_toString_fromLog (p : KafkaPrincipal) :
    KafkaPrincipal.parse p.toString = .ok (principalFromLog p) := by
  obtain ⟨q, hq⟩ := KafkaPrincipal.parse_toString_isOk p
  unfold principalFromLog
  rw [hq]

/-- A principal comes back as it was exactly when its type has no colon. -/
theorem principalFromLog_eq_self {p : KafkaPrincipal} :
    principalFromLog p = p ↔ ':' ∉ p.principalType.toList := by
  constructor
  · intro h hcolon
    have hparse := parse_toString_fromLog p
    rw [h] at hparse
    unfold KafkaPrincipal.parse at hparse
    split at hparse
    · cases hparse
    · rename_i pt n hsplit
      have hpt : pt = p.principalType := congrArg KafkaPrincipal.principalType (Except.ok.inj hparse)
      exact Text.notMem_of_splitOnce hsplit (hpt ▸ hcolon)
  · intro h
    have hparse := parse_toString_fromLog p
    rw [KafkaPrincipal.parse_toString h] at hparse
    exact (Except.ok.inj hparse).symm

def tokenFromLog (t : DelegationTokenRecord) : DelegationTokenRecord :=
  { t with
    owner := principalFromLog t.owner
    requester := principalFromLog t.requester
    renewers := t.renewers.map principalFromLog }

/-- A token comes back with its principals split anew. -/
theorem delegationTokenFromKraft_fromLog (t : DelegationTokenRecord) :
    delegationTokenFromKraft (delegationTokenToKraft t) = .ok (tokenFromLog t) := by
  have hprincipal : ∀ field (p : KafkaPrincipal),
      principalFromKraft field p.toString = .ok (principalFromLog p) :=
    fun field p => mapError_eq_ok.mpr (parse_toString_fromLog p)
  have hrenewers : (t.renewers.map KafkaPrincipal.toString).mapM
      (principalFromKraft "delegation token renewer") = .ok (t.renewers.map principalFromLog) := by
    refine mapM_eq_ok.mpr ?_
    rw [List.forall₂_map_left_iff, List.forall₂_map_right_iff]
    exact List.forall₂_same.mpr (fun p _ => hprincipal _ p)
  unfold delegationTokenFromKraft delegationTokenToKraft
  simp only [hprincipal, hrenewers, ok_bind]
  rfl

/-- No principal of the token has a colon in its type. -/
def PlainPrincipals (t : DelegationTokenRecord) : Prop :=
  ∀ p ∈ t.owner :: t.requester :: t.renewers, ':' ∉ p.principalType.toList

/-- It comes back whole where no principal type has a colon. -/
theorem tokenFromLog_eq_self {t : DelegationTokenRecord} : tokenFromLog t = t ↔ PlainPrincipals t := by
  unfold PlainPrincipals
  simp only [← principalFromLog_eq_self, List.forall_mem_cons]
  constructor
  · intro h
    have hrenewers : t.renewers.map principalFromLog = t.renewers.map id :=
      (congrArg DelegationTokenRecord.renewers h).trans (List.map_id _).symm
    exact ⟨congrArg DelegationTokenRecord.owner h, congrArg DelegationTokenRecord.requester h,
      List.map_inj_left.mp hrenewers⟩
  · rintro ⟨howner, hrequester, hrenewers⟩
    have hmap : t.renewers.map principalFromLog = t.renewers :=
      (List.map_inj_left.mpr hrenewers).trans (List.map_id _)
    unfold tokenFromLog
    rw [howner, hrequester, hmap]

/-! ## The lowered image

The image without what the level cannot hold. A partition keeps everything else. -/

/-- A partition as the version carries it. -/
def lowerPartition (version : Int16) (p : PartitionRecord) : PartitionRecord :=
  { p with directories := if 1 ≤ version then p.directories else [] }

/-- The image whose partitions are all that a version carries. -/
def lowered (version : Int16) (img : MetadataImage) : MetadataImage :=
  { img with
    partitions := img.partitions.map (fun _ parts => parts.map (fun _ p => lowerPartition version p))
    partitionElr := if 2 ≤ version then img.partitionElr else ∅ }

/-- Lowering an image lowers each partition. -/
theorem partition_lowered (version : Int16) (img : MetadataImage) (topic : String) (idx : Int32) :
    (lowered version img).partition topic idx = (img.partition topic idx).map (lowerPartition version) := by
  show lookup2 (img.partitions.map _) topic idx = (lookup2 img.partitions topic idx).map _
  unfold lookup2
  rw [Std.ExtTreeMap.getElem?_map]
  cases img.partitions[topic]? with
  | none => rfl
  | some parts => exact Std.ExtTreeMap.getElem?_map

/-- The eligible leaders are gone below their version. -/
theorem elrOf_lowered (version : Int16) (img : MetadataImage) (topic : String) (idx : Int32) :
    (lowered version img).elrOf topic idx =
      if 2 ≤ version then img.elrOf topic idx else ([], []) := by
  show (lookup2 (if 2 ≤ version then img.partitionElr else ∅) topic idx).getD ([], []) = _
  split
  · rfl
  · rw [lookup2_empty]
    rfl

/-- What a version carries of a partition of the image is the partition of the lowered image. -/
theorem partitionToKraft_lowered {p : PartitionRecord} {id : Uuid} {img : MetadataImage}
    {kp : KPartitionRecord} (h : partitionToKraft p id img = .ok kp) (version : Int16) :
    partitionToKraft (lowerPartition version p) id (lowered version img) =
      .ok (kp.carried version) := by
  have hw := partitionToKraft_eq_ok.mp h
  have helr : (lowered version img).elrOf (lowerPartition version p).topic
      (lowerPartition version p).partition =
        if 2 ≤ version then img.elrOf p.topic p.partition else ([], []) := elrOf_lowered _ _ _ _
  rw [partitionToKraft_eq_ok]
  refine ⟨hw.index, hw.topicId, hw.leader, hw.replicas, hw.isr, hw.removing, hw.adding, hw.leaderEpoch,
    hw.partitionEpoch, ?_, hw.recovery, ?_, ?_⟩
  · show (if 1 ≤ version then p.directories else []) = if 1 ≤ version then kp.directories else []
    rw [hw.directories]
  · -- below version 2 the lowered image has no eligible leaders to write
    rw [helr]
    show _ = Except.ok (if 2 ≤ version then kp.eligibleLeaderReplicas else none)
    split
    · exact hw.eligible
    · rfl
  · rw [helr]
    show _ = Except.ok (if 2 ≤ version then kp.lastKnownElr else none)
    split
    · exact hw.lastKnown
    · rfl

/-! ## The replay of a downgraded image

Segment by segment the replay rebuilds the lowered image. The tables that a segment fills do not depend on the
segments behind it. -/

/-- What the log keeps of a record that is not about topics or partitions. -/
def recordFromLog : MetadataRecord → MetadataRecord
  | .v1BrokerRegistration b => .v1BrokerRegistration (registrationFromLog b)
  | .v1DelegationToken t => .v1DelegationToken (tokenFromLog t)
  | r => r

def plainKinds : List RecordKind :=
  [.brokerRegistration, .scramCredential, .accessControlEntry, .delegationToken]

/-- A plain record is one record on the log, which fits the level if its registration does. -/
theorem decodes_plain {ω : MapOrder} {r : MetadataRecord} {img : MetadataImage}
    {krs : List KraftMetadataRecord} (hr : r.kind ∈ plainKinds)
    (h : toKraftRecords codec ω r img = .ok krs) (target : Int16) :
    ∃ kr, krs = [kr] ∧ carriedAtLevel target kr = kr ∧
      ((∀ b, r = .v1BrokerRegistration b → projectBroker target b = b) → FitsLevel target kr) ∧
      ∀ img', Decodes codec kr img' (recordFromLog r) := by
  cases r with
  | v1BrokerRegistration b =>
      obtain ⟨kb, hkb, h⟩ := bind_eq_ok.mp h
      refine ⟨_, (pure_eq_ok.mp h).symm, rfl, fun hproject => ?_, fun img' ω => ?_⟩
      · exact fitsLevel_registerBroker hkb (hproject b rfl)
      · simp only [fromKraft, registerBrokerFromKraft_of_toKraft hkb]
        rfl
  | v1ScramCredential s =>
      obtain ⟨ks, hks, h⟩ := bind_eq_ok.mp h
      refine ⟨_, (pure_eq_ok.mp h).symm, rfl, fun _ => trivial, fun img' ω => ?_⟩
      simp only [fromKraft, scramCredentialFromKraft_of_toKraft hks]
      rfl
  | v1AccessControlEntry e =>
      obtain ⟨ke, hke, hback⟩ := aclFromKraft_toKraft e
      refine ⟨_, (Except.ok.inj h).symm, rfl, fun _ => trivial, fun img' ω => ?_⟩
      rw [hke]
      simp only [fromKraft, hback]
      rfl
  | v1DelegationToken t =>
      refine ⟨_, (Except.ok.inj h).symm, rfl, fun _ => trivial, fun img' ω => ?_⟩
      simp only [fromKraft, delegationTokenFromKraft_fromLog]
      rfl
  | _ => simp [MetadataRecord.kind, plainKinds] at hr

theorem replays_plain {ω : MapOrder} {img : MetadataImage} (target : Int16) {rs : List MetadataRecord}
    {krss : List (List KraftMetadataRecord)}
    (h : List.Forall₂ (fun r krs => toKraftRecords codec ω r img = .ok krs) rs krss)
    (hrs : ∀ r ∈ rs, r.kind ∈ plainKinds) (start : MetadataImage) :
    Replays codec start (krss.flatten.map (carriedAtLevel target))
      ((rs.map recordFromLog).foldl apply start) := by
  induction h generalizing start with
  | nil => exact .nil _
  | cons hr _ ih =>
      obtain ⟨kr, rfl, hcarried, -, hdec⟩ := decodes_plain (hrs _ List.mem_cons_self) hr target
      rw [List.flatten_cons, List.map_append, List.map_cons, hcarried]
      exact .cons (hdec start) (ih (fun r hr => hrs r (List.mem_cons_of_mem _ hr)) _)

/-- The partitions of the image are on the log as the partitions of the lowered image. -/
theorem partitions_atLevel {ω : MapOrder} {img : MetadataImage} {target : Int16}
    {ps : List PartitionRecord} {krss : List (List KraftMetadataRecord)}
    (h : List.Forall₂ (fun p krs => toKraftRecords codec ω (.v1Partition p) (atLevel img target) = .ok krs)
      ps krss) :
    ∃ krss', List.Forall₂ (fun p krs => toKraftRecords codec ω (.v1Partition p)
        (lowered (partitionVersion target) img) = .ok krs)
      (ps.map (lowerPartition (partitionVersion target))) krss' ∧
      krss.flatten.map (carriedAtLevel target) = krss'.flatten := by
  induction h with
  | nil => exact ⟨[], .nil, rfl⟩
  | cons hp _ ih =>
      obtain ⟨id, hid, hp⟩ := bind_eq_ok.mp hp
      obtain ⟨kp, hkp, hp⟩ := bind_eq_ok.mp hp
      rw [pure_eq_ok] at hp
      subst hp
      obtain ⟨krss', hrest, heq⟩ := ih
      have hlow : partitionToKraft _ id (lowered (partitionVersion target) img) = _ :=
        partitionToKraft_lowered hkp (partitionVersion target)
      refine ⟨[.partition (kp.carried (partitionVersion target))] :: krss', .cons ?_ hrest, ?_⟩
      · refine bind_eq_ok.mpr ⟨id, hid, bind_eq_ok.mpr ⟨_, hlow, rfl⟩⟩
      · rw [List.flatten_cons, List.map_append, heq]
        rfl

/-- A replay leaves a table alone when none of its records decodes to one that writes it. -/
theorem frame_of_replay {t : Table} : ∀ {krs : List KraftMetadataRecord},
    (∀ kr ∈ krs, ∀ ω img r, fromKraft codec ω kr img = .ok r → t ∉ r.kind.writes) →
    ∀ {ω : ℕ → MapOrder} {img img' : MetadataImage}, replayWith (fromKraft codec) ω img krs = .ok img' →
      t.get img' = t.get img := by
  intro krs
  induction krs with
  | nil =>
      intro _ ω img img' h
      rw [Except.ok.inj h]
  | cons kr rest ih =>
      intro hkr ω img img' h
      obtain ⟨r, hr, h⟩ := bind_eq_ok.mp h
      rw [ih (fun kr' hkr' => hkr kr' (List.mem_cons_of_mem _ hkr')) h,
        apply_frame img r (hkr kr List.mem_cons_self _ _ _ hr)]

/-- A partition on the log decodes to a partition or to an update of one. -/
theorem kind_of_fromKraft_partition {ω : MapOrder} {kp : KPartitionRecord} {img : MetadataImage}
    {r : MetadataRecord} (h : fromKraft codec ω (.partition kp) img = .ok r) :
    r.kind = .partition ∨ r.kind = .partitionUpdate := by
  obtain ⟨_, _, h⟩ := bind_eq_ok.mp h
  obtain ⟨_, _, h⟩ := bind_eq_ok.mp h
  obtain ⟨_, _, h⟩ := bind_eq_ok.mp h
  obtain ⟨_, _, h⟩ := bind_eq_ok.mp h
  obtain ⟨_, _, h⟩ := bind_eq_ok.mp h
  obtain ⟨_, _, h⟩ := bind_eq_ok.mp h
  obtain ⟨_, _, h⟩ := bind_eq_ok.mp h
  split at h
  · obtain ⟨_, _, h⟩ := bind_eq_ok.mp h
    obtain ⟨_, _, h⟩ := bind_eq_ok.mp h
    rw [← pure_eq_ok.mp h]
    exact Or.inr rfl
  · rw [← pure_eq_ok.mp h]
    exact Or.inl rfl

/-- What a replica rebuilds from the log of an image at a level. -/
structure Rebuilt (target : Int16) (img img' : MetadataImage) : Prop where
  partitions : SamePartitionState (lowered (partitionVersion target) img) img'
  brokers : ∀ nodeId : NodeId, img'.brokers[nodeId]? = img.brokers[nodeId]?.map registrationFromLog
  scramCredentials : img'.scramCredentials = img.scramCredentials
  acls : ∀ e, img'.acls.Holds e ↔ img.acls.Holds e
  delegationTokens : ∀ id : String, img'.delegationTokens[id]? =
    img.delegationTokens[id]?.map (fun tok => .fromRecord (tokenFromLog tok.toRecord))

theorem nodeId_registrationFromLog (b : BrokerRegistrationRecord) :
    (registrationFromLog b).nodeId = b.nodeId := by
  unfold registrationFromLog
  split <;> rfl

/-- Storing a listing of the map, each value as `g` gives it, stores the map of those values. -/
theorem get_foldl_insert_iter {K V : Type} [Ord K] [Std.TransOrd K] [Std.LawfulEqOrd K] [DecidableEq K]
    (ω : MapOrder) (s : MapSite) {m : HashMap K V} (key : V → K) (g : V → V)
    (h : Forall m (fun k v => key (g v) = k)) (k : K) :
    ((ω.iter s m).foldl (fun acc e => acc.insert (key (g e.2)) (g e.2)) (∅ : HashMap K V))[k]? =
      m[k]?.map g := by
  refine get_foldl_put (fun (m : HashMap K V) k => m[k]?) (fun e : K × V => key (g e.2)) (fun e => g e.2)
    (fun k => m[k]?.map g) ?_ ?_ ?_ ?_ k
  · intro acc e a
    exact get_insert acc (key (g e.2)) a (g e.2)
  · intro a
    exact get_empty a
  · rintro ⟨a, v⟩ he
    have hget := (mem_iter ω s).mp he
    rw [h a v hget, hget]
    rfl
  · intro a v hv
    obtain ⟨v', hget, _⟩ := Option.map_eq_some_iff.mp hv
    exact ⟨(a, v'), (mem_iter ω s).mpr hget, h a v' hget⟩

/-- **The brokers are rebuilt as the log keeps them.** -/
theorem rebuilt_brokers {img start : MetadataImage} (hw : img.WellFormed) (ω : MapOrder)
    (hempty : start.brokers = ∅) (nodeId : NodeId) :
    ((((brokerRecords ω img).map .v1BrokerRegistration).map recordFromLog).foldl apply start).brokers[nodeId]?
      = img.brokers[nodeId]?.map registrationFromLog := by
  have hfold : ∀ (l : List (NodeId × BrokerRegistrationRecord)) (img' : MetadataImage),
      ((((l.map (·.2)).map .v1BrokerRegistration).map recordFromLog).foldl apply img').brokers =
        l.foldl (fun acc e => acc.insert (registrationFromLog e.2).nodeId (registrationFromLog e.2))
          img'.brokers := by
    intro l
    induction l with
    | nil => intro img'; rfl
    | cons e rest ih => intro img'; exact ih _
  unfold brokerRecords
  rw [hfold, hempty]
  refine get_foldl_insert_iter ω .brokers BrokerRegistrationRecord.nodeId registrationFromLog
    (fun k b hb => ?_) nodeId
  exact (nodeId_registrationFromLog b).trans (hw.brokers_keyed k b hb)

/-- The segments behind the partitions as the log gives them back. -/
theorem map_recordFromLog_credentials (ω : MapOrder) (img : MetadataImage) :
    ((credentialSegments ω img id).flatMap (·.2)).map recordFromLog =
      (credentialSegments ω img tokenFromLog).flatMap (·.2) := by
  unfold credentialSegments
  simp only [List.flatMap_cons, List.flatMap_nil, List.append_nil, List.map_append, List.map_map]
  rfl

/-- The records of a segment have its kind. -/
theorem kind_of_mem_credentials (ω : MapOrder) (img : MetadataImage)
    (token : DelegationTokenRecord → DelegationTokenRecord) :
    ∀ seg ∈ credentialSegments ω img token, ∀ r ∈ seg.2, r.kind = seg.1 := by
  unfold credentialSegments
  simp only [List.forall_mem_cons]
  refine ⟨?_, ?_, ?_, fun _ h => by cases h⟩
  all_goals exact kind_of_mem_map (fun _ => rfl)

/-- **The credentials behind the partitions**, on an image that has none yet. -/
theorem rebuilt_credentials {img start : MetadataImage} (hw : img.WellFormed) (ω : MapOrder)
    (hscram : start.scramCredentials = ∅) (hacls : start.acls = {}) (htokens : start.delegationTokens = ∅)
    {img' : MetadataImage}
    (h : img' = ((credentialSegments ω img tokenFromLog).flatMap (·.2)).foldl apply start) :
    img'.scramCredentials = img.scramCredentials ∧ (∀ e, img'.acls.Holds e ↔ img.acls.Holds e) ∧
      ∀ id : String, img'.delegationTokens[id]? =
        img.delegationTokens[id]?.map (fun tok => .fromRecord (tokenFromLog tok.toRecord)) := by
  have hkinds := kind_of_mem_credentials ω img tokenFromLog
  have hframe : ∀ {t : Table} {k : RecordKind},
      (∀ k' ∈ [RecordKind.scramCredential, .accessControlEntry, .delegationToken], k' ≠ k → t ∉ k'.writes) →
        ∀ seg ∈ credentialSegments ω img tokenFromLog, seg.1 ≠ k → t ∉ seg.1.writes := by
    intro t k hk seg hseg
    exact hk seg.1 (List.mem_map.mpr ⟨seg, hseg, rfl⟩ :
      seg.1 ∈ (credentialSegments ω img tokenFromLog).map (·.1))
  have hscrams : img'.scramCredentials = (ω.iter .scramCredentials img.scramCredentials).foldl
      (fun m e => m.insert (e.1.1, e.1.2) (scramCredentialOf (scramRecordOf e.1.1 e.1.2 e.2)))
        start.scramCredentials := by
    rw [h]
    exact foldl_apply_segments (t := .scramCredentials) (k := .scramCredential)
      (fun _ _ _ => rfl) _ hkinds (hframe (by decide)) rfl start
  have hentries : img'.acls = (img.allAcls ω).foldl AclIndex.insert start.acls := by
    rw [h]
    exact foldl_apply_segments (t := .acls) (k := .accessControlEntry)
      (fun _ _ _ => rfl) _ hkinds (hframe (by decide)) rfl start
  have htoks : img'.delegationTokens = (ω.iter .delegationTokens img.delegationTokens).foldl
      (fun m e => m.insert (tokenFromLog e.2.toRecord).tokenId (.fromRecord (tokenFromLog e.2.toRecord)))
        start.delegationTokens := by
    rw [h]
    exact foldl_apply_segments (t := .delegationTokens) (k := .delegationToken)
      (fun _ _ _ => rfl) _ hkinds (hframe (by decide)) rfl start
  refine ⟨?_, fun e => ?_, fun id => ?_⟩
  · rw [hscrams, hscram]
    refine foldl_insert_iter ω _ (fun key cred hc => ⟨rfl, ?_⟩)
    have hm := hw.scramCredentials_keyed key cred hc
    simp only [scramCredentialOf, scramRecordOf, ← hm]
  · rw [hentries, hacls, AclIndex.holds_foldl_insert]
    unfold allAcls
    rw [AclIndex.mem_iter_iff hw.acls]
    exact or_iff_right (AclIndex.not_holds_empty e)
  · rw [htoks, htokens]
    exact get_foldl_insert_iter ω .delegationTokens DelegationToken.tokenId
      (fun tok => .fromRecord (tokenFromLog tok.toRecord))
      (fun id tok ht => hw.delegationTokens_keyed id tok ht) id

/-- The blobs of a list of records frame what the records have left at the level. -/
theorem framed_atLevel (hgen : codec.Generated others) {ω : MapOrder}
    {img : MetadataImage} {target : Int16} (hmin : metadataVersionMin ≤ target)
    {records : List MetadataRecord} {blobss : List (List (List UInt8))}
    (h : List.Forall₂ (fun r blobs => toKraftValues codec ω r (atLevel img target) = .ok blobs)
      records blobss)
    (hfits : ∀ r ∈ records, ∀ krs, toKraftRecords codec ω r (atLevel img target) = .ok krs →
      ∀ kr ∈ krs, FitsLevel target kr) :
    ∃ krss, List.Forall₂ (fun r krs => toKraftRecords codec ω r (atLevel img target) = .ok krs)
        records krss ∧
      List.Forall₂ (fun blob kr => ∀ ω img', fromKraftValue codec ω blob img' =
        fromKraft codec ω kr img') blobss.flatten (krss.flatten.map (carriedAtLevel target)) := by
  induction h with
  | nil => exact ⟨[], .nil, .nil⟩
  | @cons r blobs rs blobss hblobs _ ih =>
      obtain ⟨krs, hkrs, hblobs⟩ := bind_eq_ok.mp hblobs
      rw [finalized_atLevel hmin] at hblobs
      obtain ⟨krss, hkrss, hrest⟩ := ih (fun r hr => hfits r (List.mem_cons_of_mem _ hr))
      refine ⟨krs :: krss, .cons hkrs hkrss, ?_⟩
      rw [List.flatten_cons, List.flatten_cons, List.map_append]
      refine List.rel_append ?_ hrest
      have hframed := List.forall₂_iff_zip.mp (mapM_eq_ok.mp hblobs)
      rw [List.forall₂_map_right_iff]
      refine List.Forall₂.flip (List.forall₂_iff_zip.mpr ⟨hframed.1, fun {kr blob} hmem ω' img' => ?_⟩)
      exact fromKraftValue_atLevel hgen
        (hfits r List.mem_cons_self krs hkrs kr (List.of_mem_zip hmem).1) (hframed.2 hmem) ω' img'

theorem kind_of_mem_credentialRecords {ω : MapOrder} {img : MetadataImage}
    {token : DelegationTokenRecord → DelegationTokenRecord} {r : MetadataRecord}
    (hr : r ∈ (credentialSegments ω img token).flatMap (·.2)) :
    r.kind ∈ plainKinds ∧ r.kind ≠ .brokerRegistration := by
  obtain ⟨seg, hseg, hr⟩ := List.mem_flatMap.mp hr
  have hkinds : ∀ k ∈ (credentialSegments ω img token).map (·.1),
      k ∈ plainKinds ∧ k ≠ .brokerRegistration := by
    show ∀ k ∈ [RecordKind.scramCredential, .accessControlEntry, .delegationToken], _
    decide
  rw [kind_of_mem_credentials ω img token seg hseg r hr]
  exact hkinds seg.1 (List.mem_map.mpr ⟨seg, hseg, rfl⟩)

/-- A lowered record is the partition of the lowered image that it names. -/
theorem lowered_keyed {img : MetadataImage} (hw : img.WellFormed) (ω : MapOrder) (version : Int16) :
    ∀ p ∈ (img.partitionRecords ω).map (lowerPartition version),
      (lowered version img).partition p.topic p.partition = some p := by
  intro p hp
  obtain ⟨q, hq, rfl⟩ := List.mem_map.mp hp
  obtain ⟨⟨topic, idx, q⟩, he, rfl⟩ := List.mem_map.mp hq
  obtain ⟨htopic, hidx⟩ := partitionRecords_keyed ω hw _ he
  have hget : img.partition q.topic q.partition = some q := by
    rw [htopic, hidx]
    exact (mem_iter2 ω _).mp he
  show (lowered version img).partition q.topic q.partition = _
  rw [partition_lowered, hget]
  rfl

/-- An empty start is ready for the records of a lowered image. -/
theorem rebuilding_lowered {img start : MetadataImage} (hw : img.WellFormed) (hi : img.Integrity)
    (hempty : ∀ topic idx, partitionState start topic idx = (none, ([], []), .recovered))
    (ω : MapOrder) (version : Int16) :
    Rebuilding (lowered version img) ((img.partitionRecords ω).map (lowerPartition version)) start := by
  refine rebuilding_of_empty hempty (fun topic idx p hp => ?_) (fun topic idx hp => ?_)
  · rw [partition_lowered] at hp
    obtain ⟨q, hq, rfl⟩ := Option.map_eq_some_iff.mp hp
    exact ⟨List.mem_map.mpr ⟨q, List.mem_map.mpr ⟨(topic, idx, q), (mem_iter2 ω _).mpr hq, rfl⟩, rfl⟩,
      hw.partitions_keyed topic idx q hq⟩
  · rw [partition_lowered, Option.map_eq_none_iff] at hp
    obtain ⟨helr, hrecovery⟩ := noLeaderState_of_none hi hp
    refine ⟨?_, hrecovery⟩
    rw [elrOf_lowered, helr, ite_self]

theorem partition_of_mem_flatten {ω : MapOrder} {img : MetadataImage} {ps : List PartitionRecord}
    {krss : List (List KraftMetadataRecord)}
    (h : List.Forall₂ (fun p krs => toKraftRecords codec ω (.v1Partition p) img = .ok krs) ps krss) :
    ∀ kr ∈ krss.flatten, ∃ kp, kr = .partition kp := by
  intro kr hkr
  induction h with
  | nil => cases hkr
  | cons hp _ ih =>
      rcases List.mem_append.mp hkr with hkr | hkr
      · obtain ⟨id, _, hp⟩ := bind_eq_ok.mp hp
        obtain ⟨kp, _, hp⟩ := bind_eq_ok.mp hp
        rw [← pure_eq_ok.mp hp] at hkr
        exact ⟨kp, List.mem_singleton.mp hkr⟩
      · exact ih hkr

theorem writes_partition_subset {t : Table} (h : t ∈ RecordKind.writes .partition) :
    t ∈ RecordKind.writes .partitionUpdate := by
  revert t
  decide

/-- What a materialized image writes fits the target level. -/
theorem fits_of_downgradeRecords {img : MetadataImage} {target : Int16}
    (hm : Materialized img target) {ω : MapOrder} :
    ∀ r ∈ downgradeRecords ω img, ∀ krs, toKraftRecords codec ω r (atLevel img target) = .ok krs →
      ∀ kr ∈ krs, FitsLevel target kr := by
  intro r hr krs hkrs kr hkr
  have hplain : r.kind ∈ plainKinds → (∀ b, r = .v1BrokerRegistration b → projectBroker target b = b) →
      FitsLevel target kr := by
    intro hkind hproject
    obtain ⟨kr', rfl, -, hfits, -⟩ := decodes_plain hkind hkrs target
    rw [List.mem_singleton.mp hkr]
    exact hfits hproject
  rw [downgradeRecords_split] at hr
  rcases List.mem_append.mp hr with hr | hr
  · obtain ⟨t, _, rfl⟩ := List.mem_map.mp hr
    rw [← Except.ok.inj hkrs] at hkr
    rw [List.mem_singleton.mp hkr]
    trivial
  rcases List.mem_append.mp hr with hr | hr
  · obtain ⟨b, hb, rfl⟩ := List.mem_map.mp hr
    obtain ⟨⟨nodeId, b⟩, he, rfl⟩ := List.mem_map.mp hb
    refine hplain List.mem_cons_self (fun b' hb' => ?_)
    cases hb'
    exact hm.brokers nodeId b ((mem_iter ω _).mp he)
  rcases List.mem_append.mp hr with hr | hr
  · obtain ⟨p, _, rfl⟩ := List.mem_map.mp hr
    obtain ⟨id, _, hkrs⟩ := bind_eq_ok.mp hkrs
    obtain ⟨kp, _, hkrs⟩ := bind_eq_ok.mp hkrs
    rw [← pure_eq_ok.mp hkrs] at hkr
    rw [List.mem_singleton.mp hkr]
    trivial
  · obtain ⟨hkind, hne⟩ := kind_of_mem_credentialRecords hr
    refine hplain hkind (fun b hb => ?_)
    rw [hb] at hne
    exact absurd rfl hne

/-- Up to the partitions: the topics and the brokers are there, and nothing else is. -/
theorem replays_before_partitions {img : MetadataImage} (hw : img.WellFormed) {ω : MapOrder}
    {target : Int16} {topics brokers : List (List KraftMetadataRecord)}
    (htopics : ((img.topicRecords ω).map .v1Topic).mapM (toKraftRecords codec ω · (atLevel img target)) =
      .ok topics)
    (hbrokers : ((brokerRecords ω img).map .v1BrokerRegistration).mapM
      (toKraftRecords codec ω · (atLevel img target)) = .ok brokers) :
    ∃ registered, Replays codec (new img.clusterId)
        (topics.flatten.map (carriedAtLevel target) ++ brokers.flatten.map (carriedAtLevel target))
        registered ∧
      registered.WellFormed ∧ SameTopicIds img registered ∧
      (∀ nodeId : NodeId, registered.brokers[nodeId]? = img.brokers[nodeId]?.map registrationFromLog) ∧
      ∀ t, t ∉ [Table.topics, .topicIds, .brokers] → t.get registered = t.get (new img.clusterId) := by
  have hcreate := replays_createTopic htopics (new img.clusterId)
  have htopicKrs : topics.flatten.map (carriedAtLevel target) = topics.flatten := by
    refine (List.map_congr_left (fun kr hkr => ?_)).trans (List.map_id _)
    obtain ⟨krs, hkrs, hkr⟩ := List.mem_flatten.mp hkr
    obtain ⟨r, hr, hkrs⟩ := exists_of_mem_mapM htopics hkrs
    obtain ⟨t, _, rfl⟩ := List.mem_map.mp hr
    rw [← Except.ok.inj hkrs] at hkr
    rw [List.mem_singleton.mp hkr]
    rfl
  have hids : SameTopicIds img ((img.topicRecords ω).foldl createTopic (new img.clusterId)) :=
    sameTopicIds_createTopic hw ω rfl
  have hcreated : ∀ t, t ∉ RecordKind.writes .topic →
      t.get ((img.topicRecords ω).foldl createTopic (new img.clusterId)) = t.get (new img.clusterId) :=
    fun t ht => foldl_createTopic_frame ht _ _
  generalize (img.topicRecords ω).foldl createTopic (new img.clusterId) = created at hcreate hids hcreated
  have hwcreated := wellFormed_replayWith (wellFormed_new img.clusterId) (hcreate (fun _ => ω))
  have hregister := replays_plain target (mapM_eq_ok.mp hbrokers)
    (fun r hr => by
      obtain ⟨b, _, rfl⟩ := List.mem_map.mp hr
      exact List.mem_cons_self) created
  have hframe : ∀ t, t ∉ RecordKind.writes .brokerRegistration →
      t.get ((((brokerRecords ω img).map .v1BrokerRegistration).map recordFromLog).foldl apply created) =
        t.get created := by
    intro t ht
    refine foldl_apply_frame (fun r hr => ?_) created
    obtain ⟨r', hr', rfl⟩ := List.mem_map.mp hr
    obtain ⟨b, _, rfl⟩ := List.mem_map.mp hr'
    exact ht
  refine ⟨_, ?_, wellFormed_replayWith hwcreated (hregister (fun _ => ω)), fun name => ?_,
    rebuilt_brokers hw ω (hcreated .brokers (by decide)), fun t ht => ?_⟩
  · rw [htopicKrs]
    exact hcreate.append hregister
  · rw [← hids name]
    exact congrArg (fun m : HashMap String TopicRecord => m[name]?.map (·.topicId))
      (hframe .topics (by decide))
  · have hwrites : ∀ t, t ∉ [Table.topics, .topicIds, .brokers] →
        t ∉ RecordKind.writes .brokerRegistration ∧ t ∉ RecordKind.writes .topic := by
      intro t ht
      simp only [List.mem_cons, List.not_mem_nil, or_false, not_or] at ht
      simp [RecordKind.writes, ht]
    rw [hframe t (hwrites t ht).1, hcreated t (hwrites t ht).2]

/-- The partitions: what is rebuilt is the state of the lowered image. -/
theorem replays_lowered {img start : MetadataImage} (hw : img.WellFormed) (hi : img.Integrity)
    (hd : img.DistinctTopicIds) {ω : MapOrder} {target : Int16} {parts : List (List KraftMetadataRecord)}
    (hparts : ((img.partitionRecords ω).map .v1Partition).mapM
      (toKraftRecords codec ω · (atLevel img target)) = .ok parts)
    (hwstart : start.WellFormed) (hids : SameTopicIds img start)
    (hempty : ∀ t ∈ stateTables, t.get start = t.get (new img.clusterId)) :
    ∃ restored, Replays codec start (parts.flatten.map (carriedAtLevel target)) restored ∧
      SamePartitionState (lowered (partitionVersion target) img) restored ∧
      ∀ t, t ∉ RecordKind.writes .partitionUpdate → t.get restored = t.get start := by
  obtain ⟨lower, hall, hlower⟩ :=
    partitions_atLevel (List.forall₂_map_left_iff.mp (mapM_eq_ok.mp hparts))
  have hnone : ∀ topic idx, partitionState start topic idx = (none, ([], []), .recovered) := by
    intro topic idx
    rw [partitionState_of_tables hempty]
    unfold partitionState MetadataImage.partition elrOf leaderRecoveryState
    simp [new, lookup2_empty]
  have hdLowered : (lowered (partitionVersion target) img).DistinctTopicIds := hd
  obtain ⟨restored, hrestore, -, -, hstate⟩ := replays_partitions hdLowered hall
    (lowered_keyed hw ω (partitionVersion target)) hwstart hids
    (rebuilding_lowered hw hi hnone ω (partitionVersion target))
  refine ⟨restored, ?_, hstate, fun t ht => ?_⟩
  · rw [hlower]
    exact hrestore
  · refine frame_of_replay (fun kr hkr ω' img' r hr => ?_) (hrestore (fun _ => ω))
    obtain ⟨kp, rfl⟩ := partition_of_mem_flatten hall kr hkr
    rcases kind_of_fromKraft_partition hr with hkind | hkind
    · rw [hkind]
      exact fun hmem => ht (writes_partition_subset hmem)
    · rw [hkind]
      exact ht

/-- **The log of a downgraded image replays**, to the image that the level carries. -/
theorem replays_downgrade {img : MetadataImage} (hadm : Admitted img) (hd : img.DistinctTopicIds)
    {ω : MapOrder} {target : Int16} {krss : List (List KraftMetadataRecord)}
    (h : (downgradeRecords ω img).mapM (toKraftRecords codec ω · (atLevel img target)) = .ok krss) :
    ∃ img', Replays codec (new img.clusterId) (krss.flatten.map (carriedAtLevel target)) img' ∧
      Rebuilt target img img' := by
  have hw := wellFormed_of_admitted hadm
  rw [downgradeRecords_split] at h
  obtain ⟨topics, krss', htopics, h', rfl⟩ := mapM_append_eq_ok.mp h
  obtain ⟨brokers, krss'', hbrokers, h'', rfl⟩ := mapM_append_eq_ok.mp h'
  obtain ⟨parts, tail, hparts, htail, rfl⟩ := mapM_append_eq_ok.mp h''
  obtain ⟨registered, hregister, hwregistered, hids, hregisteredBrokers, hregisteredFrame⟩ :=
    replays_before_partitions hw htopics hbrokers
  obtain ⟨restored, hrestore, hstate, hrestoredFrame⟩ := replays_lowered hw (integrity_of_admitted hadm) hd
    hparts hwregistered hids (fun t ht => hregisteredFrame t (by
      have hstates : ∀ t ∈ stateTables, t ∉ [Table.topics, .topicIds, .brokers] := by decide
      exact hstates t ht))
  have hcredentials := replays_plain target (mapM_eq_ok.mp htail)
    (fun r hr => (kind_of_mem_credentialRecords hr).1) restored
  rw [map_recordFromLog_credentials] at hcredentials
  have hframe : ∀ t, (∀ k ∈ plainKinds, k ≠ .brokerRegistration → t ∉ k.writes) →
      t.get (((credentialSegments ω img tokenFromLog).flatMap (·.2)).foldl apply restored) =
        t.get restored := by
    intro t ht
    refine foldl_apply_frame (fun r hr => ?_) restored
    exact ht r.kind (kind_of_mem_credentialRecords hr).1 (kind_of_mem_credentialRecords hr).2
  -- no credentials before their own segments
  have hnone : ∀ t, t ∉ RecordKind.writes .partitionUpdate → t ∉ [Table.topics, .topicIds, .brokers] →
      t.get restored = t.get (new img.clusterId) :=
    fun t ht ht' => (hrestoredFrame t ht).trans (hregisteredFrame t ht')
  obtain ⟨hscram, hacls, htokens⟩ := rebuilt_credentials hw ω
    (hnone .scramCredentials (by decide) (by decide)) (hnone .acls (by decide) (by decide))
    (hnone .delegationTokens (by decide) (by decide)) rfl
  refine ⟨_, ?_, fun topic idx => ?_, fun nodeId => ?_, hscram, hacls, htokens⟩
  · simp only [List.flatten_append, List.map_append]
    rw [← List.append_assoc]
    exact hregister.append (hrestore.append hcredentials)
  · refine Eq.trans (partitionState_of_tables (fun t ht => hframe t ?_) topic idx) (hstate topic idx)
    have hwrites : ∀ t ∈ stateTables, ∀ k ∈ plainKinds, k ≠ .brokerRegistration → t ∉ k.writes := by decide
    exact hwrites t ht
  · rw [← hregisteredBrokers nodeId]
    exact congrArg (fun m : HashMap NodeId BrokerRegistrationRecord => m[nodeId]?)
      ((hframe .brokers (by decide)).trans (hrestoredFrame .brokers (by decide)))

/-! ## Lossless or not

The replay is compared with the image field by field. `CarriedByLog` collects what the comparison leaves to
ask of the image. -/

/-- The endpoints of a registration start with its top-level host and port. -/
def StartsTopLevel (b : BrokerRegistrationRecord) : Prop :=
  ∃ e ∈ b.endpoints.head?, e.host = b.host ∧ e.port = b.port

/-- The same brokers, partitions, leader state, credentials, ACLs and tokens; `view` is how a partition
    is looked at. -/
structure Restored (view : PartitionRecord → PartitionRecord) (img img' : MetadataImage) : Prop where
  brokers : ∀ (nodeId : NodeId) b, img.brokers[nodeId]? = some b → StartsTopLevel b →
    img'.brokers[nodeId]? = some b
  brokerIds : ∀ nodeId : NodeId, img'.brokers[nodeId]?.isSome = img.brokers[nodeId]?.isSome
  partitions : ∀ topic idx, (img'.partition topic idx).map view = (img.partition topic idx).map view
  elr : ∀ topic idx, img'.elrOf topic idx = img.elrOf topic idx
  recovery : ∀ topic idx, img'.leaderRecoveryState topic idx = img.leaderRecoveryState topic idx
  scramCredentials : img'.scramCredentials = img.scramCredentials
  acls : ∀ e, img'.acls.Holds e ↔ img.acls.Holds e
  delegationTokens : img'.delegationTokens = img.delegationTokens

/-- A partition as its readers see it: a replica without a directory is `MIGRATING`. -/
def padDirectories (p : PartitionRecord) : PartitionRecord :=
  { p with directories := resize p.directories p.replicas.length migrating }

/-- What the log at a level carries of the image: the eligible leaders only from `elrMinLevel`, the first
    listener of a broker only with a name, and a principal only without a colon in its type. -/
structure CarriedByLog (img : MetadataImage) (target : Int16) : Prop where
  elr : elrMinLevel ≤ target ∨ ∀ topic idx, img.elrOf topic idx = ([], [])
  listeners : ∀ (nodeId : NodeId) b, img.brokers[nodeId]? = some b → StartsTopLevel b →
    ∀ e ∈ b.endpoints.head?, e.name ≠ ""
  principals : ∀ (id : String) tok, img.delegationTokens[id]? = some tok → PlainPrincipals tok.toRecord

/-- A registration that starts with its top-level address keeps it where its first endpoint has a name. -/
theorem registrationFromLog_of_startsTopLevel {b : BrokerRegistrationRecord} (h : StartsTopLevel b) :
    registrationFromLog b = b ↔ ∀ e ∈ b.endpoints.head?, e.name ≠ "" := by
  obtain ⟨e, he, hhost, hport⟩ := h
  constructor
  · intro hback e' he' hname
    cases Option.some.inj (he.symm.trans he')
    obtain ⟨rest, hrest⟩ : ∃ rest, b.endpoints = e :: rest := List.head?_eq_some_iff.mp he
    have hendpoints := congrArg BrokerRegistrationRecord.endpoints hback
    unfold registrationFromLog at hendpoints
    rw [hrest] at hendpoints
    simp only [hname] at hendpoints
    exact absurd (congrArg List.length hendpoints) (by simp)
  · intro hname
    refine registrationFromLog_of_survives (fun e' he' => ?_)
    cases Option.some.inj (he.symm.trans he')
    exact ⟨hname e he, hhost, hport⟩

/-- Where every entry is the filling, so is the list after resizing. -/
theorem resize_of_zip {α β : Type} {a : β} : ∀ {xs : List α} {ys : List β},
    (∀ e ∈ xs.zip ys, e.2 = a) → resize ys xs.length a = List.replicate xs.length a := by
  intro xs ys h
  have htake : ∀ {xs : List α} {ys : List β}, (∀ e ∈ xs.zip ys, e.2 = a) →
      ∀ y ∈ ys.take xs.length, y = a := by
    intro xs
    induction xs with
    | nil => intro ys _ y hy; cases hy
    | cons x xs ih =>
        intro ys h y hy
        cases ys with
        | nil => cases hy
        | cons z zs =>
            rw [List.zip_cons_cons, List.forall_mem_cons] at h
            rcases List.mem_cons.mp hy with rfl | hy
            · exact h.1
            · exact ih h.2 y hy
  refine List.eq_replicate_iff.mpr ⟨length_resize ys xs.length a, fun y hy => ?_⟩
  rcases List.mem_append.mp hy with hy | hy
  · exact htake h y hy
  · exact List.eq_of_mem_replicate hy

/-- At a level that the image was materialized at, a partition keeps its directories as readers see them. -/
theorem padDirectories_lowerPartition {img : MetadataImage} {target : Int16} (hm : Materialized img target)
    {topic : String} {idx : Int32} {p : PartitionRecord} (hp : img.partition topic idx = some p) :
    padDirectories (lowerPartition (partitionVersion target) p) = padDirectories p := by
  unfold padDirectories lowerPartition
  by_cases hv : 1 ≤ partitionVersion target
  · simp only [hv, if_true]
  · have hlt := Int16.not_le.mp (mt one_le_partitionVersion.mpr hv)
    have hpadded : resize p.directories p.replicas.length migrating =
        List.replicate p.replicas.length migrating := resize_of_zip (hm.directories hlt topic idx p hp)
    have hempty : resize ([] : List Uuid) p.replicas.length migrating =
        List.replicate p.replicas.length migrating := by simp [resize]
    simp only [hv, if_false, hpadded, hempty]

/-- The rebuilt image against the image itself, for any way to look at a partition. -/
theorem Rebuilt.restored_iff {img img' : MetadataImage} {target : Int16} (h : Rebuilt target img img')
    (view : PartitionRecord → PartitionRecord) :
    Restored view img img' ↔ CarriedByLog img target ∧ ∀ topic idx p, img.partition topic idx = some p →
      view (lowerPartition (partitionVersion target) p) = view p := by
  have hpartition : ∀ topic idx, img'.partition topic idx =
      (img.partition topic idx).map (lowerPartition (partitionVersion target)) := by
    intro topic idx
    rw [← partition_lowered]
    exact congrArg (·.1) (h.partitions topic idx)
  have helr : ∀ topic idx, img'.elrOf topic idx =
      if 2 ≤ partitionVersion target then img.elrOf topic idx else ([], []) := by
    intro topic idx
    rw [← elrOf_lowered]
    exact congrArg (·.2.1) (h.partitions topic idx)
  have hrecovery : ∀ topic idx, img'.leaderRecoveryState topic idx = img.leaderRecoveryState topic idx :=
    fun topic idx => congrArg (·.2.2) (h.partitions topic idx)
  constructor
  · intro hr
    refine ⟨⟨?_, fun nodeId b hb htop => ?_, fun id tok htok => ?_⟩, fun topic idx p hp => ?_⟩
    · by_cases hv : elrMinLevel ≤ target
      · exact Or.inl hv
      · right
        intro topic idx
        rw [← hr.elr, helr, if_neg (mt two_le_partitionVersion.mp hv)]
    · have hback := hr.brokers nodeId b hb htop
      rw [h.brokers, hb] at hback
      exact (registrationFromLog_of_startsTopLevel htop).mp (Option.some.inj hback)
    · have hback := congrArg (fun m : HashMap String DelegationToken => m[id]?) hr.delegationTokens
      simp only [h.delegationTokens, htok, Option.map_some] at hback
      exact tokenFromLog_eq_self.mp (congrArg DelegationToken.toRecord (Option.some.inj hback))
    · have hback := hr.partitions topic idx
      rw [hpartition, hp] at hback
      exact Option.some.inj hback
  · rintro ⟨hcarried, hview⟩
    refine ⟨fun nodeId b hb htop => ?_, fun nodeId => ?_, fun topic idx => ?_, fun topic idx => ?_,
      hrecovery, h.scramCredentials, h.acls, map_ext (fun id => ?_)⟩
    · rw [h.brokers, hb, Option.map_some,
        (registrationFromLog_of_startsTopLevel htop).mpr (hcarried.listeners nodeId b hb htop)]
    · rw [h.brokers, Option.isSome_map]
    · rw [hpartition]
      cases hp : img.partition topic idx with
      | none => rfl
      | some p => exact congrArg some (hview topic idx p hp)
    · rw [helr]
      split
      · rfl
      · rename_i hv
        rcases hcarried.elr with hlevel | hnone
        · exact absurd (two_le_partitionVersion.mpr hlevel) hv
        · exact (hnone topic idx).symm
    · rw [h.delegationTokens]
      cases htok : img.delegationTokens[id]? with
      | none => rfl
      | some tok =>
          rw [Option.map_some, tokenFromLog_eq_self.mpr (hcarried.principals id tok htok)]
          rfl

/-- What the claim of a lossless downgrade comes to: the records of the image can be written at the target
    level, and a replica that reads them has the image again. -/
def Lossless (codec : Codec) (ω : MapOrder) (ωs : ℕ → MapOrder) (img : MetadataImage) (target : Int16)
    (view : PartitionRecord → PartitionRecord) : Prop :=
  ∃ blobs img', downgradeValues codec ω img target = .ok blobs ∧
    replay codec ωs (new img.clusterId) blobs = .ok img' ∧ Restored view img img'

/-- A log that was written replays, and the image comes back from it when the level carries it. -/
theorem lossless_of_written (hgen : codec.Generated others) {img : MetadataImage} (hadm : Admitted img)
    (hd : img.DistinctTopicIds) {target : Int16} (hmin : metadataVersionMin ≤ target)
    (hm : Materialized img target) {ω : MapOrder} {blobs : List (List UInt8)}
    (h : downgradeValues codec ω img target = .ok blobs) (ωs : ℕ → MapOrder)
    (view : PartitionRecord → PartitionRecord) :
    Lossless codec ω ωs img target view ↔ CarriedByLog img target ∧
      ∀ topic idx p, img.partition topic idx = some p →
        view (lowerPartition (partitionVersion target) p) = view p := by
  obtain ⟨blobss, hblobss, hflat⟩ := bind_eq_ok.mp h
  obtain ⟨krss, hkrss, hframed⟩ := framed_atLevel hgen hmin (mapM_eq_ok.mp hblobss)
    (fits_of_downgradeRecords hm)
  obtain ⟨img', hreplays, hrebuilt⟩ := replays_downgrade hadm hd (mapM_eq_ok.mpr hkrss)
  have hreplay : replay codec ωs (new img.clusterId) blobs = .ok img' := by
    cases hflat
    exact (replayWith_congr hframed ωs _).trans (hreplays ωs)
  rw [← hrebuilt.restored_iff]
  constructor
  · rintro ⟨blobs', img'', hblobs', hreplay', hrestored⟩
    cases h.symm.trans hblobs'
    cases hreplay.symm.trans hreplay'
    exact hrestored
  · intro hrestored
    exact ⟨blobs, img', h, hreplay, hrestored⟩

/-- Without directories at the level, a partition is left as it is when it has none. -/
theorem lowerPartition_eq_self {target : Int16} {p : PartitionRecord} :
    lowerPartition (partitionVersion target) p = p ↔
      directoryAssignmentMinLevel ≤ target ∨ p.directories = [] := by
  unfold lowerPartition
  by_cases hv : 1 ≤ partitionVersion target
  · exact iff_of_true (by rw [if_pos hv]) (Or.inl (one_le_partitionVersion.mp hv))
  · rw [if_neg hv]
    constructor
    · intro h
      exact Or.inr (congrArg PartitionRecord.directories h).symm
    · rintro (hlevel | hempty)
      · exact absurd (one_le_partitionVersion.mpr hlevel) hv
      · rw [← hempty]

/-- **A downgrade that removes nothing.** The image comes back from its log at the target level exactly when
    that log can be written and carries all of it. Down to the list of directories, which the log has only from
    `directoryAssignmentMinLevel`, it comes back exactly when in addition no partition has such a list below
    that level. -/
theorem downgrade_lossless_iff (hgen : codec.Generated others) {img : MetadataImage} (hadm : Admitted img)
    (hd : img.DistinctTopicIds) {target : Int16} (hmin : metadataVersionMin ≤ target) {ω : MapOrder}
    (hnone : metadataVersionDowngradeRecords ω img target = []) (ω' : MapOrder) (ωs : ℕ → MapOrder) :
    (Lossless codec ω' ωs img target padDirectories ↔ Encodable img target ∧ CarriedByLog img target) ∧
    (Lossless codec ω' ωs img target id ↔ Encodable img target ∧ CarriedByLog img target ∧
      (directoryAssignmentMinLevel ≤ target ∨
        ∀ topic idx p, img.partition topic idx = some p → p.directories = [])) := by
  have hm := (downgradeRecords_eq_nil (wellFormed_of_admitted hadm)).mp hnone
  have hwritten := downgradeValues_isOk hgen hmin hadm hm (ω := ω')
  by_cases hencodable : Encodable img target
  · obtain ⟨blobs, hblobs⟩ := hwritten.mpr hencodable
    have hback := lossless_of_written hgen hadm hd hmin hm hblobs ωs
    rw [hback, hback]
    simp only [hencodable, true_and]
    refine ⟨and_iff_left fun topic idx p hp => padDirectories_lowerPartition hm hp, and_congr_right fun _ => ?_⟩
    simp only [id_eq, lowerPartition_eq_self]
    exact ⟨fun h => or_iff_not_imp_left.mpr fun hlow topic idx p hp => (h topic idx p hp).resolve_left hlow,
      fun h topic idx p hp => h.imp_right fun hempty => hempty topic idx p hp⟩
  · have hnever : ∀ view, ¬Lossless codec ω' ωs img target view :=
      fun view ⟨blobs, _, hblobs, _⟩ => hencodable (hwritten.mp ⟨blobs, hblobs⟩)
    exact ⟨iff_of_false (hnever _) fun h => hencodable h.1, iff_of_false (hnever _) fun h => hencodable h.1⟩

/-! ## The image with an eligible leader

The removals are empty, the log can be written, and the eligible leader is gone. -/

/-- `eligible` in a cluster at the newest level. -/
def finalized : MetadataImage :=
  eligible.apply (.v1FeatureLevel { name := metadataVersionFeature, level := metadataVersionMax })

theorem finalized_admitted : Admitted finalized := .step eligible_admitted (by decide)

theorem finalized_distinct : finalized.DistinctTopicIds := distinctTopicIds_of_nodup (by decide)

theorem finalized_encodable : Encodable finalized elrMinLevel := by
  have hnone : metadataVersionDowngradeRecords (HashOrder.sorted MapSite) finalized elrMinLevel = [] := by
    decide
  have hm := (downgradeRecords_eq_nil (wellFormed_of_admitted finalized_admitted)).mp hnone
  exact (downgradeValues_isOk tabledCodec_generated (ω := HashOrder.sorted MapSite) (by decide)
    finalized_admitted hm).mp ⟨[topicBlob, eligiblePartitionBlob], rfl⟩

/-- Down to the level that has the eligible leaders, the image comes back. -/
theorem downgrade_lossless_eligible :
    Lossless tabledCodec (HashOrder.sorted MapSite) (fun _ => HashOrder.sorted MapSite) finalized
      elrMinLevel padDirectories := by
  have hnone : metadataVersionDowngradeRecords (HashOrder.sorted MapSite) finalized elrMinLevel = [] := by
    decide
  have hbrokers : finalized.brokers = ∅ := by decide
  have htokens : finalized.delegationTokens = ∅ := by decide
  have hcarried : CarriedByLog finalized elrMinLevel := by
    refine ⟨Or.inl (by decide), fun nodeId b hb => ?_, fun id tok htok => ?_⟩
    · rw [hbrokers, get_empty] at hb
      cases hb
    · rw [htokens, get_empty] at htok
      cases htok
  exact (downgrade_lossless_iff tabledCodec_generated finalized_admitted finalized_distinct (by decide)
    hnone _ _).1.mpr ⟨finalized_encodable, hcarried⟩

/-- The partition of `shrunk` at version 1. -/
def loweredPartitionBlob : List UInt8 :=
  [1, 3, 1] ++ i32Bytes 0 ++ idBytes ++ [3] ++ i32Bytes 1 ++ i32Bytes 2 ++ [2] ++ i32Bytes 1 ++ [1, 1] ++
    i32Bytes 1 ++ i32Bytes 4 ++ i32Bytes 7 ++ [1, 0]

/-- One level lower nothing is reported as lost either, and the eligible leader is gone. -/
theorem downgrade_loses_eligible :
    (tabledCodec.Generated fun _ => emptyBody) ∧ Admitted finalized ∧ finalized.DistinctTopicIds ∧
      finalized.finalizedMetadataVersion = some metadataVersionMax ∧
      metadataVersionMin ≤ 22 ∧ 22 ≤ metadataVersionMax ∧
      metadataVersionDowngradeRecords (HashOrder.sorted MapSite) finalized 22 = [] ∧
      downgradeValues tabledCodec (HashOrder.sorted MapSite) finalized 22 =
        .ok [topicBlob, loweredPartitionBlob] ∧
      finalized.elrOf "orders" 0 = ([2], []) ∧
      (∃ img', replay tabledCodec (fun _ => HashOrder.sorted MapSite) (new finalized.clusterId)
        [topicBlob, loweredPartitionBlob] = .ok img' ∧ img'.elrOf "orders" 0 = ([], [])) ∧
      ∀ view, ¬Lossless tabledCodec (HashOrder.sorted MapSite) (fun _ => HashOrder.sorted MapSite)
        finalized 22 view := by
  have hbefore : finalized.elrOf "orders" 0 = ([2], []) := by decide
  have hblobs : downgradeValues tabledCodec (HashOrder.sorted MapSite) finalized 22 =
      .ok [topicBlob, loweredPartitionBlob] := rfl
  refine ⟨tabledCodec_generated, finalized_admitted, finalized_distinct, by decide, by decide, by decide,
    by decide, hblobs, hbefore, ⟨_, rfl, by decide⟩, ?_⟩
  rintro view ⟨blobs, img', hwritten, himg', hrestored⟩
  cases hblobs.symm.trans hwritten
  have hafter : img'.elrOf "orders" 0 = ([], []) := by
    rw [← Except.ok.inj himg']
    rfl
  rw [hrestored.elr, hbefore] at hafter
  exact absurd hafter (by decide)

end Krabka.Metadata.Kraft
