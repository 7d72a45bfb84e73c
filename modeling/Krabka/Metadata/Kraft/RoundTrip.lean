import Krabka.Metadata.Kraft.PrivateCarrier
import Krabka.Metadata.Frame

/-!
# `Metadata.Kraft.RoundTrip` — values and records that survive the log

A decoder reads back what its encoder writes: node ids, enumerations, lists of them, and then every
record whose translation does not look at the image (`comesBack_direct`). Two of those records lose
something on the way. A broker registration keeps its top-level host and port only in its first endpoint,
and a principal is split at its first colon; `SurvivesLog` says when they come back whole. They always
come back as a record of the same kind.
-/

namespace Krabka.Metadata.Kraft

open Collections FixedWidth Results

/-! ## Node ids

An id is a `u64` here and an `i32` on the wire. The writer refuses what does not fit, so the reader never sees
it wrapped; no leader is written as -1. -/

/-- A node id is written as the signed number it is, where it is one. -/
theorem nodeIdAs_eq_ok {what field : String} {n : NodeId} {i : Int32} :
    nodeIdAs what field n = .ok i ↔ i.toInt = n.toNat :=
  okOr_eq_ok.trans i32OfU64_eq_some

/-- A number on the wire is a node id where it is not negative. -/
theorem nodeIdFromWire_eq_ok {i : Int32} {field : String} {n : NodeId} :
    nodeIdFromWire i field = .ok n ↔ i.toInt = n.toNat :=
  okOr_eq_ok.trans u64OfI32_eq_some

/-- A node id that was written is read back. -/
theorem nodeIdFromWire_of_nodeIdAs {what field : String} {n : NodeId} {i : Int32}
    (h : nodeIdAs what field n = .ok i) (field' : String) : nodeIdFromWire i field' = .ok n :=
  nodeIdFromWire_eq_ok.mpr (nodeIdAs_eq_ok.mp h)

/-- So is a list of them. -/
theorem nodesFromWire_of_nodesToWire {nodes : List NodeId} {field : String} {values : List Int32}
    (h : nodesToWire nodes field = .ok values) (field' : String) :
    nodesFromWire values field' = .ok nodes :=
  mapM_roundTrip (fun _ _ hn => nodeIdFromWire_of_nodeIdAs hn field') h

/-- So is a list that may be absent. -/
theorem nodesFromWire_of_mapM {o : Option (List NodeId)} {field : String}
    {o' : Option (List Int32)} (h : o.mapM (nodesToWire · field) = .ok o') (field' : String) :
    o'.mapM (nodesFromWire · field') = .ok o :=
  optionMapM_roundTrip (fun _ _ hn => nodesFromWire_of_nodesToWire hn field') h

/-- A leader comes back, and no leader as -1. -/
theorem partitionLeaderFromWire_of_toWire {leader : NodeId} {field : String} {i : Int32}
    (h : partitionLeaderToWire leader field = .ok i) (field' : String) :
    partitionLeaderFromWire i field' = .ok leader := by
  unfold partitionLeaderToWire at h
  split at h
  · rename_i hzero
    injection h with h
    rw [← h, hzero]
    rfl
  · have hi := nodeIdAs_eq_ok.mp h
    have hne : i ≠ -1 := by
      rintro rfl
      rw [show (-1 : Int32).toInt = -1 by decide] at hi
      omega
    unfold partitionLeaderFromWire
    rw [if_neg hne]
    exact nodeIdFromWire_of_nodeIdAs h field'

/-- The wire form of a leader is never the marker of an unchanged leader. -/
theorem partitionLeaderToWire_ne {leader : NodeId} {field : String} {i : Int32}
    (h : partitionLeaderToWire leader field = .ok i) : i ≠ -2 := by
  rintro rfl
  unfold partitionLeaderToWire at h
  split at h
  · exact absurd (Except.ok.inj h) (by decide)
  · have hi := nodeIdAs_eq_ok.mp h
    rw [show (-2 : Int32).toInt = -2 by decide] at hi
    omega

/-! ## Enumerations

The numbers that Kafka gives to each constructor. Every one is read back as itself. -/

/-- The SCRAM mechanisms that are written are read back. -/
theorem scramMechanismFromWire_of_toWire {m : SaslMechanism} {b : Int8}
    (h : scramMechanismToWire m = .ok b) : scramMechanismFromWire b = .ok m := by
  cases m with
  | scramSha256 => injection h with h; rw [← h]; rfl
  | scramSha512 => injection h with h; rw [← h]; rfl
  | plain => cases h
  | oAuthBearer => cases h
  | gssapi => cases h

@[simp] theorem resourceTypeFromWire_toWire (rt : ResourceType) :
    resourceTypeFromWire (resourceTypeToWire rt) = .ok rt := by cases rt <;> rfl

@[simp] theorem patternTypeFromWire_toWire (pt : PatternType) :
    patternTypeFromWire (patternTypeToWire pt) = .ok pt := by cases pt <;> rfl

@[simp] theorem operationFromWire_toWire (op : AclOperation) :
    operationFromWire (operationToWire op) = .ok op := by cases op <;> rfl

@[simp] theorem permissionFromWire_toWire (pt : PermissionType) :
    permissionFromWire (permissionToWire pt) = .ok pt := by cases pt <;> rfl

@[simp] theorem protocolFromWire_toWire (p : ListenerProtocol) :
    protocolFromWire (protocolToWire p) = .ok p := by cases p <;> rfl

/-- A recovery state comes back. -/
@[simp] theorem recoveryStateFromWire_asI8 (field : String) (state : LeaderRecoveryState) :
    recoveryStateFromWire field state.asI8 = .ok state := by cases state <;> rfl

/-- A recovery state that is left alone is -1. -/
@[simp] theorem changedRecoveryState_asI8 (state : Option LeaderRecoveryState) :
    changedRecoveryState ((state.map LeaderRecoveryState.asI8).getD (-1)) = .ok state := by
  rcases state with - | - | - <;> rfl

/-- A change of the fencing comes back. -/
@[simp] theorem fencingChange_fromWire_wireValue (change : FencingChange) :
    FencingChange.fromWire change.wireValue = some change := by cases change <;> rfl

/-! ## Records that do not look at the image

One lemma for each record: what `to_kraft` wrote for it, `from_kraft` reads as that record, or as the record
that `registrationFromLog` and the principal's string form leave of it. -/

theorem mapM_endpointFromKraft (endpoints : List BrokerEndpoint) :
    (endpoints.map endpointToKraft).mapM endpointFromKraft = .ok endpoints := by
  refine mapM_eq_ok.mpr ?_
  rw [List.forall₂_map_left_iff]
  exact List.forall₂_same.mpr (fun e _ => by simp [endpointFromKraft, endpointToKraft])

/-- The ranges of the features come back, in whatever order they are listed. -/
theorem featuresFromKraft_toKraft (features : BTreeMap String (Int16 × Int16)) :
    featuresFromKraft (featuresToKraft features) = features := by
  unfold featuresFromKraft featuresToKraft
  rw [List.foldl_map]
  refine map_ext (fun name => ?_)
  refine get_foldl_put (fun (m : BTreeMap String (Int16 × Int16)) k => m[k]?)
    (fun e : String × Int16 × Int16 => e.1) (fun e => e.2) (fun k => features[k]?) ?_ ?_ ?_ ?_ name
  · intro m e k
    exact get_insert m e.1 k _
  · intro k
    exact get_empty k
  · rintro ⟨k, v⟩ he
    exact Std.ExtTreeMap.mem_toList_iff_getElem?_eq_some.mp he
  · intro k v hv
    exact ⟨(k, v), Std.ExtTreeMap.mem_toList_iff_getElem?_eq_some.mpr hv, rfl⟩

/-- What the log keeps of a registration: the first endpoint supplies the top-level pair. -/
def registrationFromLog (b : BrokerRegistrationRecord) : BrokerRegistrationRecord :=
  match b.endpoints with
  | [] => b
  | e :: rest =>
    { b with
      host := e.host
      port := e.port
      endpoints := if e.name.isEmpty then rest else e :: rest }

theorem splitEndPoints_toKraft (b : BrokerRegistrationRecord) :
    splitEndPoints (if b.endpoints.isEmpty then [{ host := b.host, port := b.port }]
      else b.endpoints.map endpointToKraft) =
    ((registrationFromLog b).host, (registrationFromLog b).port,
      (registrationFromLog b).endpoints.map endpointToKraft) := by
  unfold registrationFromLog
  cases he : b.endpoints with
  -- no listener: the pair goes out under an empty name and comes back from it
  | nil => simp [splitEndPoints, he]
  -- the first listener supplies the pair, and is lost if its name is empty
  | cons e rest =>
      by_cases hname : e.name.isEmpty
      · simp [splitEndPoints, endpointToKraft, hname]
      · simp [splitEndPoints, endpointToKraft, hname]

/-- **A broker registration comes back with its host and port in its first endpoint.** -/
theorem registerBrokerFromKraft_of_toKraft {b : BrokerRegistrationRecord} {kb : RegisterBrokerRecord}
    (h : registerBrokerToKraft b = .ok kb) :
    registerBrokerFromKraft kb = .ok (registrationFromLog b) := by
  obtain ⟨id, hid, h⟩ := bind_eq_ok.mp h
  rw [pure_eq_ok] at h
  subst h
  unfold registerBrokerFromKraft
  simp only [splitEndPoints_toKraft, mapM_endpointFromKraft, featuresFromKraft_toKraft, ok_bind,
    nodeIdFromWire_of_nodeIdAs hid "register broker id"]
  unfold registrationFromLog
  cases b.endpoints <;> rfl

/-- A controller registration comes back whole. -/
theorem registerControllerFromKraft_of_toKraft {c : ControllerRegistrationRecord}
    {kc : RegisterControllerRecord} (h : registerControllerToKraft c = .ok kc) :
    registerControllerFromKraft kc = .ok c := by
  obtain ⟨id, hid, h⟩ := bind_eq_ok.mp h
  rw [pure_eq_ok] at h
  subst h
  unfold registerControllerFromKraft
  simp only [mapM_endpointFromKraft, featuresFromKraft_toKraft, ok_bind,
    nodeIdFromWire_of_nodeIdAs hid "controller id"]
  rfl

/-- A registration change comes back whole. -/
theorem brokerRegistrationChangeFromKraft_of_toKraft {c : BrokerRegistrationChangeRecord}
    {kc : KBrokerRegistrationChangeRecord} (h : brokerRegistrationChangeToKraft c = .ok kc) :
    brokerRegistrationChangeFromKraft kc = .ok c := by
  obtain ⟨id, hid, h⟩ := bind_eq_ok.mp h
  rw [pure_eq_ok] at h
  subst h
  unfold brokerRegistrationChangeFromKraft
  have hshutdown : controlledShutdownFromWire (if c.inControlledShutdown then 1 else 0) =
      .ok c.inControlledShutdown := by cases c.inControlledShutdown <;> rfl
  simp only [fencingChange_fromWire_wireValue, okOr_some, hshutdown, ok_bind,
    nodeIdFromWire_of_nodeIdAs hid "broker registration change id"]
  rfl

/-- A SCRAM credential comes back whole. -/
theorem scramCredentialFromKraft_of_toKraft {s : ScramCredentialRecord}
    {ks : UserScramCredentialRecord} (h : scramCredentialToKraft s = .ok ks) :
    scramCredentialFromKraft ks = .ok s := by
  obtain ⟨iterations, hi, h⟩ := bind_eq_ok.mp h
  obtain ⟨mechanism, hm, h⟩ := bind_eq_ok.mp h
  rw [pure_eq_ok] at h
  subst h
  unfold scramCredentialFromKraft
  simp only [scramMechanismFromWire_of_toWire hm, ok_bind,
    u32OfI32_of_i32OfU32 (okOr_eq_ok.mp hi), okOr_some]
  rfl

/-- An access control entry comes back whole. -/
theorem aclFromKraft_toKraft (e : AclEntry) :
    ∃ ke, aclToKraft e = .accessControlEntry ke ∧ aclFromKraft ke = .ok e := by
  refine ⟨_, rfl, ?_⟩
  unfold aclFromKraft
  simp only [resourceTypeFromWire_toWire, patternTypeFromWire_toWire, operationFromWire_toWire,
    permissionFromWire_toWire, ok_bind]
  rfl

/-- A client quota comes back whole. -/
theorem clientQuotaFromKraft_toKraft (q : ClientQuotaRecord) :
    clientQuotaFromKraft (clientQuotaToKraft q) = q := by
  unfold clientQuotaFromKraft clientQuotaToKraft
  have hentity : (q.entity.map (fun e => (⟨e.entityType, e.entityName⟩ : EntityData))).map
      (fun e => (⟨e.entityType, e.entityName⟩ : QuotaEntity)) = q.entity := by
    rw [List.map_map]
    exact List.map_id _
  -- a removal and a value differ in the flag, never in the number
  rcases q with ⟨entity, key, - | value⟩
  · simpa using hentity
  · simpa using hentity

/-- A principal without a colon in its type comes back. -/
theorem principalFromKraft_toString {field : String} {p : KafkaPrincipal}
    (h : ':' ∉ p.principalType.toList) : principalFromKraft field p.toString = .ok p :=
  mapError_eq_ok.mpr (KafkaPrincipal.parse_toString h)

/-- The colon that the string form writes is always there to split at. -/
theorem principalFromKraft_isOk (field : String) (p : KafkaPrincipal) :
    ∃ q, principalFromKraft field p.toString = .ok q := by
  obtain ⟨q, hq⟩ := KafkaPrincipal.parse_toString_isOk p
  exact ⟨q, mapError_eq_ok.mpr hq⟩

/-- Every printed principal is read as some principal. -/
theorem mapM_principalFromKraft_isOk (field : String) (ps : List KafkaPrincipal) :
    ∃ qs, (ps.map KafkaPrincipal.toString).mapM (principalFromKraft field) = .ok qs := by
  induction ps with
  | nil => exact ⟨[], rfl⟩
  | cons p rest ih =>
      obtain ⟨q, hq⟩ := principalFromKraft_isOk field p
      obtain ⟨qs, hqs⟩ := ih
      refine ⟨q :: qs, ?_⟩
      rw [List.map_cons, List.mapM_cons, hq, ok_bind, hqs, ok_bind]
      rfl

/-- A delegation token comes back as some token. -/
theorem delegationTokenFromKraft_isOk (t : DelegationTokenRecord) :
    ∃ t', delegationTokenFromKraft (delegationTokenToKraft t) = .ok t' := by
  obtain ⟨owner, ho⟩ := principalFromKraft_isOk "delegation token owner" t.owner
  obtain ⟨requester, hr⟩ := principalFromKraft_isOk "delegation token requester" t.requester
  obtain ⟨renewers, hs⟩ := mapM_principalFromKraft_isOk "delegation token renewer" t.renewers
  unfold delegationTokenFromKraft delegationTokenToKraft
  simp only [ho, hr, hs, ok_bind]
  exact ⟨_, rfl⟩

/-- Where no principal type has a colon, as itself. -/
theorem delegationTokenFromKraft_toKraft {t : DelegationTokenRecord}
    (h : ∀ p ∈ t.owner :: t.requester :: t.renewers, ':' ∉ p.principalType.toList) :
    delegationTokenFromKraft (delegationTokenToKraft t) = .ok t := by
  have hrenewers : (t.renewers.map KafkaPrincipal.toString).mapM
      (principalFromKraft "delegation token renewer") = .ok t.renewers := by
    refine mapM_eq_ok.mpr ?_
    rw [List.forall₂_map_left_iff]
    refine List.forall₂_same.mpr (fun p hp => principalFromKraft_toString (h p ?_))
    exact List.mem_cons_of_mem _ (List.mem_cons_of_mem _ hp)
  unfold delegationTokenFromKraft delegationTokenToKraft
  simp only [principalFromKraft_toString (h t.owner List.mem_cons_self),
    principalFromKraft_toString (h t.requester (List.mem_cons_of_mem _ List.mem_cons_self)),
    hrenewers, ok_bind]
  rfl

/-- The node of a broker config comes back, the default one as the empty name. -/
theorem brokerConfigNode_toKraft (n : NodeId) :
    brokerConfigNode (if n = defaultBrokerConfigNodeId then "" else Text.showU64 n) = .ok n := by
  unfold brokerConfigNode
  split
  · rename_i hn
    rw [hn]
    rfl
  · -- a decimal form is never empty, so it is not taken for the cluster default
    have hne : (Text.showU64 n).isEmpty = false := by
      simpa using Text.showU64_ne_empty n
    rw [hne, Text.parseU64_showU64]
    rfl

/-- A private record comes back from its carrier: the tag is the one its kind owns, the version is ours,
    and wincode leaves nothing behind it. -/
theorem fromPrivateCarrier_of_privateCarrier {codec : Codec} (hc : codec.Lawful) {r : MetadataRecord}
    {kr : KraftMetadataRecord} (h : privateCarrier codec r = .ok kr) :
    ∃ field, kr = .noOp ⟨[field]⟩ ∧ fromPrivateCarrier codec ⟨[field]⟩ = .ok r := by
  obtain ⟨tag, bytes, htag, hbytes, rfl⟩ := privateCarrier_eq_ok.mp h
  have hget := hc.get_serialize [] hbytes
  rw [List.append_nil] at hget
  exact ⟨_, rfl, fromPrivateCarrier_eq_ok.mpr ⟨tag, bytes, htag, hget, rfl⟩⟩

/-! ## The records themselves

`ComesBack` collects the lemmas in one statement over the kinds of record that are translated without an
image. -/

/-- The image gives `r` back for `kr`, in whatever order its maps iterate. -/
def Decodes (codec : Codec) (kr : KraftMetadataRecord) (img : MetadataImage) (r : MetadataRecord) :
    Prop :=
  ∀ ω, fromKraft codec ω kr img = .ok r

/-- The record comes back from the log whole. A broker registration has no listeners, or a first one
    with a name and the top-level host and port; the principal types of a delegation token have no
    colon. -/
def SurvivesLog : MetadataRecord → Prop
  | .v1BrokerRegistration b =>
    ∀ e ∈ b.endpoints.head?, e.name ≠ "" ∧ e.host = b.host ∧ e.port = b.port
  | .v1DelegationToken t =>
    ∀ p ∈ t.owner :: t.requester :: t.renewers, ':' ∉ p.principalType.toList
  | _ => True

/-- A registration whose endpoint is spelled out comes back whole. -/
theorem registrationFromLog_of_survives {b : BrokerRegistrationRecord}
    (h : SurvivesLog (.v1BrokerRegistration b)) : registrationFromLog b = b := by
  unfold registrationFromLog
  cases he : b.endpoints with
  | nil => rfl
  | cons e rest =>
      have hhead : e ∈ b.endpoints.head? := by rw [he]; rfl
      obtain ⟨hname, hhost, hport⟩ := h e hhead
      have hname : e.name.isEmpty = false := by simpa using hname
      simp only [hname, hhost, hport, ← he, Bool.false_eq_true, if_false]

/-- The kinds of records that are translated without looking at the image. -/
def directKinds : List RecordKind :=
  [.brokerRegistration, .controllerRegistration, .unregisterBroker, .brokerRegistrationChange,
    .unregisterController, .scramCredential, .deleteScramCredential, .accessControlEntry, .clientQuota,
    .delegationToken, .deleteDelegationToken, .brokerConfig, .producerIds, .featureLevel,
    .featuresEpoch, .partitionOffsetAdvance, .topicFreeze, .breakGlassProposal,
    .deleteBreakGlassProposal]

/-- What the log gives back for a record of a direct kind, against every image. -/
def ComesBack (codec : Codec) (r : MetadataRecord) (krs : List KraftMetadataRecord) : Prop :=
  ∃ kr r', krs = [kr] ∧ r'.kind = r.kind ∧ (SurvivesLog r → r' = r) ∧
    ∀ img, Decodes codec kr img r'

/-- A record of one value comes back as itself. -/
theorem ComesBack.same {codec : Codec} {r : MetadataRecord} {krs : List KraftMetadataRecord}
    {kr : KraftMetadataRecord} (hkrs : [kr] = krs) (h : ∀ img, Decodes codec kr img r) :
    ComesBack codec r krs :=
  ⟨kr, r, hkrs.symm, rfl, fun _ => rfl, h⟩

/-- A record that is carried privately comes back, as its codec is lawful. -/
theorem comesBack_private {codec : Codec} (hc : codec.Lawful) {r : MetadataRecord}
    {krs : List KraftMetadataRecord} (h : (do return [← privateCarrier codec r]) = .ok krs) :
    ComesBack codec r krs := by
  obtain ⟨kr, hkr, h⟩ := bind_eq_ok.mp h
  obtain ⟨field, rfl, hback⟩ := fromPrivateCarrier_of_privateCarrier hc hkr
  exact .same (pure_eq_ok.mp h) (fun _ _ => hback)

/-- **Direct records come back**, as a record of their kind and whole if they survive the log. -/
theorem comesBack_direct {codec : Codec} (hc : codec.Lawful) {ω : MapOrder} {r : MetadataRecord}
    {img : MetadataImage} {krs : List KraftMetadataRecord} (hr : r.kind ∈ directKinds)
    (h : toKraftRecords codec ω r img = .ok krs) : ComesBack codec r krs := by
  cases r with
  | v1FeatureLevel f => exact .same (Except.ok.inj h) (fun _ _ => rfl)
  -- the only two kinds that may come back different: registrations and tokens
  | v1BrokerRegistration b =>
      obtain ⟨kb, hkb, h⟩ := bind_eq_ok.mp h
      refine ⟨_, .v1BrokerRegistration (registrationFromLog b), (pure_eq_ok.mp h).symm, rfl,
        fun hs => ?_, fun img ω => ?_⟩
      · rw [registrationFromLog_of_survives hs]
      · simp only [fromKraft, registerBrokerFromKraft_of_toKraft hkb]
        rfl
  | v1ControllerRegistration c =>
      obtain ⟨kc, hkc, h⟩ := bind_eq_ok.mp h
      refine .same (pure_eq_ok.mp h) (fun img ω => ?_)
      simp only [fromKraft, registerControllerFromKraft_of_toKraft hkc]
      rfl
  | v1UnregisterBroker u =>
      obtain ⟨id, hid, h⟩ := bind_eq_ok.mp h
      refine .same (pure_eq_ok.mp h) (fun img ω => ?_)
      simp only [fromKraft, nodeIdFromWire_of_nodeIdAs hid]
      rfl
  | v1BrokerRegistrationChange c =>
      obtain ⟨kc, hkc, h⟩ := bind_eq_ok.mp h
      refine .same (pure_eq_ok.mp h) (fun img ω => ?_)
      simp only [fromKraft, brokerRegistrationChangeFromKraft_of_toKraft hkc]
      rfl
  | v1UnregisterController u =>
      obtain ⟨id, hid, h⟩ := bind_eq_ok.mp h
      refine .same (pure_eq_ok.mp h) (fun img ω => ?_)
      simp only [fromKraft, nodeIdFromWire_of_nodeIdAs hid]
      rfl
  | v1ScramCredential s =>
      obtain ⟨ks, hks, h⟩ := bind_eq_ok.mp h
      refine .same (pure_eq_ok.mp h) (fun img ω => ?_)
      simp only [fromKraft, scramCredentialFromKraft_of_toKraft hks]
      rfl
  | v1DeleteScramCredential s =>
      obtain ⟨ks, hks, h⟩ := bind_eq_ok.mp h
      obtain ⟨mechanism, hm, hks⟩ := bind_eq_ok.mp hks
      rw [pure_eq_ok] at hks
      subst hks
      refine .same (pure_eq_ok.mp h) (fun img ω => ?_)
      simp only [fromKraft, scramMechanismFromWire_of_toWire hm]
      rfl
  | v1AccessControlEntry e =>
      obtain ⟨ke, hke, hback⟩ := aclFromKraft_toKraft e
      refine .same (Except.ok.inj h) (fun img ω => ?_)
      rw [hke]
      simp only [fromKraft, hback]
      rfl
  | v1ClientQuota q =>
      refine .same (Except.ok.inj h) (fun img ω => ?_)
      simp only [fromKraft, clientQuotaFromKraft_toKraft]
  | v1DelegationToken t =>
      obtain ⟨t', ht'⟩ := delegationTokenFromKraft_isOk t
      refine ⟨_, .v1DelegationToken t', (Except.ok.inj h).symm, rfl, fun hs => ?_, fun img ω => ?_⟩
      · rw [delegationTokenFromKraft_toKraft hs] at ht'
        rw [Except.ok.inj ht']
      · simp only [fromKraft, ht']
        rfl
  | v1DeleteDelegationToken t => exact .same (Except.ok.inj h) (fun _ _ => rfl)
  | v1BrokerConfig c =>
      refine .same (Except.ok.inj h) (fun img ω => ?_)
      simp only [fromKraft, configFromKraft, brokerConfigNode_toKraft]
      rfl
  | v1ProducerIds p =>
      obtain ⟨id, hid, h⟩ := bind_eq_ok.mp h
      refine .same (pure_eq_ok.mp h) (fun img ω => ?_)
      simp only [fromKraft, nodeIdFromWire_of_nodeIdAs hid]
      rfl
  -- krabka's own kinds ride on a `NoOp`
  | v1FeaturesEpoch _ => exact comesBack_private hc h
  | v1PartitionOffsetAdvance _ => exact comesBack_private hc h
  | v1TopicFreeze _ => exact comesBack_private hc h
  | v1BreakGlassProposal _ => exact comesBack_private hc h
  | v1DeleteBreakGlassProposal _ => exact comesBack_private hc h
  | _ => simp [MetadataRecord.kind, directKinds] at hr

end Krabka.Metadata.Kraft
