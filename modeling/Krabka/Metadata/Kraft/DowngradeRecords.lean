import Krabka.Metadata.Downgrade
import Krabka.Metadata.Kraft.AspectLog
import Krabka.Metadata.Kraft.GeneratedCodec
import Krabka.Metadata.Kraft.SnapshotLog

/-!
# `Metadata.Kraft.DowngradeRecords` — the records of an image at a lower `metadata.version`

After a downgrade the log holds the image at the target level: every record framed at the version that the level
has. This file says when that log can be written. The encoders refuse a node id above `i32::MAX` and a SCRAM
credential that is none, and the generated code a string, a list or a tagged field that is too long for its
prefix; `Encodable` lists these conditions table by table, and `downgradeValues_isOk` says that there is no
other.
-/

namespace Krabka.Metadata.Kraft

open Collections FixedWidth Results MetadataImage Protocol Protocol.MetadataValue

variable {codec : Codec} {others : MetadataRecordType → BodyCodec}

/-! ## The blobs of a downgraded image

What a controller would write once the removals are applied, at the target level. -/

/-- The image with `metadata.version` set to `target`. -/
def atLevel (img : MetadataImage) (target : Int16) : MetadataImage :=
  img.apply (.v1FeatureLevel { name := metadataVersionFeature, level := target })

def downgradeKinds : List RecordKind :=
  [.brokerRegistration, .partition, .scramCredential, .accessControlEntry, .delegationToken]

/-- The topics of a snapshot, then the records of the kinds above. -/
def downgradeRecords (ω : MapOrder) (img : MetadataImage) : List MetadataRecord :=
  (img.toRecords ω).filter (fun r => r.kind ∈ [RecordKind.topic]) ++
    (img.toRecords ω).filter (fun r => r.kind ∈ downgradeKinds)

/-- Their blobs, each record encoded against the image at the target level. -/
def downgradeValues (codec : Codec) (ω : MapOrder) (img : MetadataImage) (target : Int16) :
    Except TranslateError (List (List UInt8)) := do
  let blobs ← (downgradeRecords ω img).mapM (toKraftValues codec ω · (atLevel img target))
  return blobs.flatten

/-- The brokers of a snapshot. -/
def brokerRecords (ω : MapOrder) (img : MetadataImage) : List BrokerRegistrationRecord :=
  (ω.iter .brokers img.brokers).map (·.2)

/-- The segments after the partitions, with each token as `token` gives it. -/
def credentialSegments (ω : MapOrder) (img : MetadataImage)
    (token : DelegationTokenRecord → DelegationTokenRecord) : List (RecordKind × List MetadataRecord) :=
  [ (.scramCredential, (ω.iter .scramCredentials img.scramCredentials).map (fun e =>
      .v1ScramCredential (scramRecordOf e.1.1 e.1.2 e.2))),
    (.accessControlEntry, (img.allAcls ω).map (fun entry => .v1AccessControlEntry entry)),
    (.delegationToken, (ω.iter .delegationTokens img.delegationTokens).map (fun e =>
      .v1DelegationToken (token e.2.toRecord))) ]

/-- Picking the records of some kinds picks the segments of those kinds. -/
theorem filter_toRecords (ω : MapOrder) (img : MetadataImage) (kinds : List RecordKind) :
    (img.toRecords ω).filter (fun r => r.kind ∈ kinds) =
      ((img.segments ω).filter (fun seg => seg.1 ∈ kinds)).flatMap (·.2) := by
  have h : ∀ segs : List (RecordKind × List MetadataRecord), (∀ seg ∈ segs, ∀ r ∈ seg.2, r.kind = seg.1) →
      (segs.flatMap (·.2)).filter (fun r => r.kind ∈ kinds) =
        (segs.filter (fun seg => seg.1 ∈ kinds)).flatMap (·.2) := by
    intro segs
    induction segs with
    | nil => intro _; rfl
    | cons seg rest ih =>
        intro hkind
        have hseg := hkind seg List.mem_cons_self
        rw [List.flatMap_cons, List.filter_append,
          ih (fun s hs => hkind s (List.mem_cons_of_mem _ hs))]
        -- a segment is picked whole or not at all
        by_cases hk : seg.1 ∈ kinds
        · rw [List.filter_cons_of_pos (by simpa using hk), List.flatMap_cons,
            List.filter_eq_self.mpr (fun r hr => decide_eq_true (hseg r hr ▸ hk))]
        · rw [List.filter_cons_of_neg (by simpa using hk), List.filter_eq_nil_iff.mpr (fun r hr => ?_)]
          · rfl
          · simpa [hseg r hr] using hk
  exact h _ (img.kind_of_mem_segment ω)

/-- The downgrade writes the topics, the brokers, the partitions and then the credentials. -/
theorem downgradeRecords_split (ω : MapOrder) (img : MetadataImage) : downgradeRecords ω img =
    (img.topicRecords ω).map .v1Topic ++ ((brokerRecords ω img).map .v1BrokerRegistration ++
      ((img.partitionRecords ω).map .v1Partition ++ (credentialSegments ω img id).flatMap (·.2))) := by
  unfold downgradeRecords
  rw [filter_toRecords, filter_toRecords]
  have htopics : (img.segments ω).filter (fun seg => seg.1 ∈ [RecordKind.topic]) =
      [(.topic, (ω.iter .topics img.topics).map (fun e => .v1Topic e.2))] := rfl
  have hrest : (img.segments ω).filter (fun seg => seg.1 ∈ downgradeKinds) =
      (.brokerRegistration, (ω.iter .brokers img.brokers).map (fun e => .v1BrokerRegistration e.2)) ::
        (.partition, (iter2 ω .partitions img.partitions).map (fun e => .v1Partition e.2.2)) ::
          credentialSegments ω img id := rfl
  rw [htopics, hrest]
  unfold MetadataImage.topicRecords brokerRecords MetadataImage.partitionRecords
  simp only [List.flatMap_cons, List.flatMap_nil, List.append_nil, List.map_map]
  rfl

/-! ## One record at a level

The version that a level gives a record, and which of its fields that version has. The framing strips the rest
before the codec sees it. -/

/-- The version of a partition record at a level. -/
def partitionVersion (target : Int16) : Int16 :=
  if elrMinLevel ≤ target then 2 else if directoryAssignmentMinLevel ≤ target then 1 else 0

/-- Directories are written from their level on. -/
theorem one_le_partitionVersion {target : Int16} :
    1 ≤ partitionVersion target ↔ directoryAssignmentMinLevel ≤ target := by
  unfold partitionVersion
  split
  · rename_i h
    refine iff_of_true (by decide) (Int16.le_trans (by decide) h)
  · split
    · rename_i h
      exact iff_of_true (by decide) h
    · rename_i h
      exact iff_of_false (by decide) h

/-- The eligible leaders are written from their level on. -/
theorem two_le_partitionVersion {target : Int16} : 2 ≤ partitionVersion target ↔ elrMinLevel ≤ target := by
  unfold partitionVersion
  split
  · rename_i h
    exact iff_of_true (by decide) h
  · rename_i h
    refine iff_of_false ?_ h
    split <;> decide

/-- What a record has left at a level. -/
def carriedAtLevel (target : Int16) : KraftMetadataRecord → KraftMetadataRecord
  | .partition p => .partition (p.carried (partitionVersion target))
  | kr => kr

/-- A record of a downgraded image: of a registration, nothing is above the level. -/
def FitsLevel (target : Int16) : KraftMetadataRecord → Prop
  | .registerBroker b => b.isMigratingZkBroker = false ∧
      (target < directoryAssignmentMinLevel → b.logDirs = []) ∧
      (target < cordonedLogDirsMinLevel → b.cordonedLogDirs = none)
  | .partition _ | .topic _ | .userScramCredential _ | .accessControlEntry _ | .delegationToken _ => True
  | _ => False

/-- The version of a registration at a level. -/
def registerVersion (target : Int16) : Int16 :=
  if cordonedLogDirsMinLevel ≤ target then 4
  else if directoryAssignmentMinLevel ≤ target then 3
  else if 8 ≤ target then 2
  else 1

theorem one_le_registerVersion (target : Int16) : 1 ≤ registerVersion target := by
  unfold registerVersion
  split
  · decide
  · split
    · decide
    · split <;> decide

/-- Below the level of directories, a registration has none. -/
theorem registerVersion_lt_three {target : Int16} :
    registerVersion target < 3 ↔ target < directoryAssignmentMinLevel := by
  unfold registerVersion
  split
  · rename_i h
    exact iff_of_false (by decide) (Int16.not_lt.mpr (Int16.le_trans (by decide) h))
  · split
    · rename_i h
      exact iff_of_false (by decide) (Int16.not_lt.mpr h)
    · rename_i h
      refine iff_of_true ?_ (Int16.not_le.mp h)
      split <;> decide

/-- Below the level of cordoned directories, it has none of these. -/
theorem registerVersion_lt_four {target : Int16} :
    registerVersion target < 4 ↔ target < cordonedLogDirsMinLevel := by
  unfold registerVersion
  split
  · rename_i h
    exact iff_of_false (by decide) (Int16.not_lt.mpr h)
  · rename_i h
    refine iff_of_true ?_ (Int16.not_le.mp h)
    split
    · decide
    · split <;> decide

/-- The strip of a fitting registration takes nothing. -/
theorem stripRegister_of_fits {target : Int16} {b : RegisterBrokerRecord}
    (h : FitsLevel target (.registerBroker b)) :
    stripRegister (registerVersion target) (.registerBroker b) = .registerBroker b := by
  obtain ⟨-, hdirs, hcordoned⟩ := h
  have hlogDirs : (if registerVersion target < 3 then [] else b.logDirs) = b.logDirs := by
    split
    · rename_i hv
      exact (hdirs (registerVersion_lt_three.mp hv)).symm
    · rfl
  have hcordonedDirs : (if registerVersion target < 4 then none else b.cordonedLogDirs) =
      b.cordonedLogDirs := by
    split
    · rename_i hv
      exact (hcordoned (registerVersion_lt_four.mp hv)).symm
    · rfl
  unfold stripRegister
  simp only [hlogDirs, hcordonedDirs]

/-- The version that a level writes is one that the record has. -/
theorem recordVersion_nonneg {target : Int16} {kr : KraftMetadataRecord} (h : FitsLevel target kr) :
    0 ≤ recordVersion target kr ∧ recordVersion target kr ≤ kr.maxVersion := by
  cases kr with
  | partition p =>
      show 0 ≤ partitionVersion target ∧ partitionVersion target ≤ 2
      unfold partitionVersion
      split
      · decide
      · split <;> decide
  | registerBroker b =>
      show 0 ≤ registerVersion target ∧ registerVersion target ≤ 4
      unfold registerVersion
      split
      · decide
      · split
        · decide
        · split <;> decide
  | topic _ => exact ⟨Int16.le_refl 0, Int16.le_refl 0⟩
  | userScramCredential _ => exact ⟨Int16.le_refl 0, Int16.le_refl 0⟩
  | accessControlEntry _ => exact ⟨Int16.le_refl 0, Int16.le_refl 0⟩
  | delegationToken _ => exact ⟨Int16.le_refl 0, Int16.le_refl 0⟩
  | _ => exact h.elim

/-- What fits a level has a generated codec. -/
theorem generated_of_fits {target : Int16} {kr : KraftMetadataRecord} (h : FitsLevel target kr) :
    (kr.generated others).isSome := by
  cases kr with
  | partition _ => rfl
  | registerBroker _ => rfl
  | topic _ => rfl
  | userScramCredential _ => rfl
  | accessControlEntry _ => rfl
  | delegationToken _ => rfl
  | _ => exact h.elim

/-- What the version of a fitting record carries is what the level carries. -/
theorem carried_of_fits {target : Int16} {kr : KraftMetadataRecord} (h : FitsLevel target kr) :
    kr.carried (recordVersion target kr) = carriedAtLevel target kr := by
  cases kr with
  | registerBroker b =>
      obtain ⟨hzk, hdirs, hcordoned⟩ := h
      show KraftMetadataRecord.registerBroker (b.carried (registerVersion target)) = .registerBroker b
      have hmigrating : (if 2 ≤ registerVersion target then b.isMigratingZkBroker else false) =
          b.isMigratingZkBroker := by rw [hzk, ite_self]
      have hlogDirs : (if 3 ≤ registerVersion target then b.logDirs else []) = b.logDirs := by
        split
        · rfl
        · rename_i hv
          exact (hdirs (registerVersion_lt_three.mp (Int16.not_le.mp hv))).symm
      have hcordonedDirs : (if 4 ≤ registerVersion target then b.cordonedLogDirs else none) =
          b.cordonedLogDirs := by
        split
        · rfl
        · rename_i hv
          exact (hcordoned (registerVersion_lt_four.mp (Int16.not_le.mp hv))).symm
      unfold RegisterBrokerRecord.carried
      rw [hmigrating, if_pos (one_le_registerVersion target), hlogDirs, hcordonedDirs]
  | partition p => rfl
  | topic _ => rfl
  | userScramCredential _ => rfl
  | accessControlEntry _ => rfl
  | delegationToken _ => rfl
  | _ => exact h.elim

/-- Nothing is stripped of a fitting record before it is written. -/
theorem frameValue_of_fits {target : Int16} {kr : KraftMetadataRecord} (h : FitsLevel target kr) :
    frameValue codec target kr =
      (codec.encodeValue kr (recordVersion target kr)).mapError .encode := by
  unfold frameValue
  cases kr with
  | registerBroker b =>
      have hstrip : stripRegister (recordVersion target (.registerBroker b)) (.registerBroker b) =
          .registerBroker b := stripRegister_of_fits h
      simp only [stripChange, hstrip]
  | partition p => rfl
  | topic _ => rfl
  | userScramCredential _ => rfl
  | accessControlEntry _ => rfl
  | delegationToken _ => rfl
  | _ => exact h.elim

/-- **What a framed record is read back as**: what it has left at the level. -/
theorem fromKraftValue_atLevel (hgen : codec.Generated others) {target : Int16} {kr : KraftMetadataRecord}
    (hfits : FitsLevel target kr) {blob : List UInt8} (h : frameValue codec target kr = .ok blob)
    (ω : MapOrder) (img : MetadataImage) :
    fromKraftValue codec ω blob img = fromKraft codec ω (carriedAtLevel target kr) img := by
  rw [frameValue_of_fits hfits] at h
  have hdecode := hgen.decodeValue_encodeValue (generated_of_fits hfits) (mapError_eq_ok.mp h)
  unfold fromKraftValue
  rw [hdecode, carried_of_fits hfits]
  rfl

/-- **A value is framed exactly where its body fits the version of the level.** -/
theorem frameValue_isOk (hgen : codec.Generated others) {target : Int16} {kr : KraftMetadataRecord}
    (hfits : FitsLevel target kr) :
    (∃ blob, frameValue codec target kr = .ok blob) ↔ kr.Fits (recordVersion target kr) := by
  have hversion := recordVersion_nonneg hfits
  rw [← hgen.encodeValue_isOk (generated_of_fits hfits) hversion.1 hversion.2, frameValue_of_fits hfits]
  exact exists_congr fun _ => mapError_eq_ok

/-! ## What the encoders refuse

Each converts to an `i32` or looks something up, and may fail there; a condition on the input says when it
does not. -/

/-- A node id is written where it is a positive number of 31 bits. -/
theorem nodeIdAs_isOk {what field : String} {n : NodeId} :
    (∃ i, nodeIdAs what field n = .ok i) ↔ n.toNat < 2 ^ 31 := by
  constructor
  · rintro ⟨i, hi⟩
    have hsame := nodeIdAs_eq_ok.mp hi
    have hlt := i.toInt_lt
    omega
  · intro h
    refine ⟨Int32.ofNat n.toNat, okOr_eq_ok.mpr ?_⟩
    unfold i32OfU64
    rw [if_pos h]

/-- A list of node ids is written where each of them is. -/
theorem nodesToWire_isOk {nodes : List NodeId} {field : String} :
    (∃ values, nodesToWire nodes field = .ok values) ↔ ∀ n ∈ nodes, n.toNat < 2 ^ 31 := by
  constructor
  · rintro ⟨values, h⟩ n hn
    obtain ⟨i, -, hi⟩ := mapM_ok_of_mem h hn
    exact nodeIdAs_isOk.mp ⟨i, hi⟩
  · intro h
    exact nodesToWire_of_fits h field

theorem length_nodesToWire {nodes : List NodeId} {field : String} {values : List Int32}
    (h : nodesToWire nodes field = .ok values) : values.length = nodes.length :=
  (mapM_eq_ok.mp h).length_eq.symm

theorem partitionLeaderToWire_isOk {leader : NodeId} {field : String} :
    (∃ i, partitionLeaderToWire leader field = .ok i) ↔ leader.toNat < 2 ^ 31 := by
  unfold partitionLeaderToWire
  split
  · rename_i hzero
    rw [hzero]
    exact iff_of_true ⟨-1, rfl⟩ (by decide)
  · exact nodeIdAs_isOk

/-- A registration that the log can hold at the level. -/
structure RegistrationEncodable (target : Int16) (b : BrokerRegistrationRecord) : Prop where
  nodeId : b.nodeId.toNat < 2 ^ 31
  -- without listeners the top-level pair is written as the only one
  host : b.endpoints = [] → CompactFits b.host.utf8ByteSize
  endpoints : CompactFits b.endpoints.length ∧
    ∀ e ∈ b.endpoints, CompactFits e.name.utf8ByteSize ∧ CompactFits e.host.utf8ByteSize
  features : CompactFits b.features.toList.length ∧
    ∀ f ∈ b.features.toList, CompactFits f.1.utf8ByteSize
  rack : ∀ rack ∈ b.rack, CompactFits rack.utf8ByteSize
  logDirs : directoryAssignmentMinLevel ≤ target → listBytes b.logDirs.length 16 < 2 ^ 32
  cordonedLogDirs : cordonedLogDirsMinLevel ≤ target →
    ∀ dirs ∈ b.cordonedLogDirs, listBytes dirs.length 16 < 2 ^ 32

/-- A partition with leader state `elr` that the log can hold at the level. The eligible leaders are translated
    at every level, and written from `elrMinLevel`. -/
structure PartitionEncodable (target : Int16) (elr : PartitionElrState) (p : PartitionRecord) : Prop where
  leader : p.leader.toNat < 2 ^ 31
  nodeIds : ∀ nodes ∈ [p.replicas, p.isr, p.removingReplicas, p.addingReplicas, elr.1, elr.2],
    ∀ n ∈ nodes, n.toNat < 2 ^ 31
  lengths : ∀ nodes ∈ [p.replicas, p.isr, p.removingReplicas, p.addingReplicas], CompactFits nodes.length
  directories : directoryAssignmentMinLevel ≤ target → CompactFits p.directories.length
  elr : elrMinLevel ≤ target → listBytes elr.1.length 4 < 2 ^ 32 ∧ listBytes elr.2.length 4 < 2 ^ 32

structure ScramEncodable (s : ScramCredentialRecord) : Prop where
  mechanism : s.mechanism = .scramSha256 ∨ s.mechanism = .scramSha512
  iterations : s.iterations.toNat < 2 ^ 31
  user : CompactFits s.user.utf8ByteSize
  keys : CompactFits s.salt.length ∧ CompactFits s.storedKey.length ∧ CompactFits s.serverKey.length

def AclEncodable (e : AclEntry) : Prop :=
  CompactFits e.resourceName.utf8ByteSize ∧ CompactFits e.principal.utf8ByteSize ∧
    CompactFits e.host.utf8ByteSize

structure TokenEncodable (t : DelegationTokenRecord) : Prop where
  tokenId : CompactFits t.tokenId.utf8ByteSize
  renewers : CompactFits t.renewers.length
  principals : ∀ p ∈ t.owner :: t.requester :: t.renewers, CompactFits p.toString.utf8ByteSize

/-- **What the encoders refuse, table by table**: the image whose log at the level can be written. -/
structure Encodable (img : MetadataImage) (target : Int16) : Prop where
  topics : ∀ (name : String) t, img.topics[name]? = some t → CompactFits t.name.utf8ByteSize
  brokers : ∀ (nodeId : NodeId) b, img.brokers[nodeId]? = some b → RegistrationEncodable target b
  partitions : ∀ topic idx p, img.partition topic idx = some p →
    PartitionEncodable target (img.elrOf topic idx) p
  scramCredentials : ∀ user mechanism cred, img.scramCredentials[(user, mechanism)]? = some cred →
    ScramEncodable (scramRecordOf user mechanism cred)
  acls : ∀ e, img.acls.Holds e → AclEncodable e
  delegationTokens : ∀ (id : String) tok, img.delegationTokens[id]? = some tok → TokenEncodable tok.toRecord

/-! ## One record

An encoder succeeds, and what it writes fits its prefixes, exactly under the condition for that record. -/

theorem finalized_atLevel {img : MetadataImage} {target : Int16} (h : metadataVersionMin ≤ target) :
    (atLevel img target).finalizedMetadataVersion.getD metadataVersionMax = target := by
  have hne : target ≠ 0 := by
    rintro rfl
    exact absurd h (by decide)
  show (if target = 0 then _ else img.featureLevels.insert metadataVersionFeature target)[
    metadataVersionFeature]?.getD metadataVersionMax = target
  rw [if_neg hne, get_insert, if_pos rfl]
  rfl

section
variable {ω : MapOrder} {img : MetadataImage} {target : Int16}

/-- A record that is one record on the log. -/
theorem toKraftValues_isOk (hmin : metadataVersionMin ≤ target) {r : MetadataRecord} {α : Type}
    {x : Except TranslateError α} {wrap : α → KraftMetadataRecord}
    (hr : toKraftRecords codec ω r (atLevel img target) = x >>= fun a => pure [wrap a]) :
    (∃ blobs, toKraftValues codec ω r (atLevel img target) = .ok blobs) ↔
      ∃ a, x = .ok a ∧ ∃ blob, frameValue codec target (wrap a) = .ok blob := by
  unfold toKraftValues
  rw [finalized_atLevel hmin, hr]
  constructor
  · rintro ⟨blobs, h⟩
    obtain ⟨krs, hkrs, hblobs⟩ := bind_eq_ok.mp h
    obtain ⟨a, ha, hone⟩ := bind_eq_ok.mp hkrs
    cases hone
    obtain ⟨blob, -, hblob⟩ := mapM_ok_of_mem hblobs List.mem_cons_self
    exact ⟨a, ha, blob, hblob⟩
  · rintro ⟨a, ha, blob, hblob⟩
    refine ⟨[blob], bind_eq_ok.mpr ⟨[wrap a], bind_eq_ok.mpr ⟨a, ha, rfl⟩, ?_⟩⟩
    exact mapM_eq_ok.mpr (.cons hblob .nil)

/-- A registration that the downgrade leaves alone fits the level. -/
theorem fitsLevel_registerBroker {b : BrokerRegistrationRecord} {kb : RegisterBrokerRecord}
    (hkb : registerBrokerToKraft b = .ok kb) (hproject : projectBroker target b = b) :
    FitsLevel target (.registerBroker kb) := by
  obtain ⟨id, _, hkb⟩ := bind_eq_ok.mp hkb
  cases hkb
  refine ⟨rfl, fun hlt => ?_, fun hlt => ?_⟩
  · rw [← congrArg BrokerRegistrationRecord.logDirs hproject]
    exact if_pos hlt
  · rw [← congrArg BrokerRegistrationRecord.cordonedLogDirs hproject]
    exact if_pos hlt

/-- The endpoints of a registration fit when the listeners do, or the top-level host where there is none. -/
theorem endPoints_fit {b : BrokerRegistrationRecord} {endPoints : List KBrokerEndpoint}
    (h : endPoints = if b.endpoints.isEmpty then [{ host := b.host, port := b.port }]
      else b.endpoints.map endpointToKraft) :
    (CompactFits endPoints.length ∧
        ∀ e ∈ endPoints, CompactFits e.name.utf8ByteSize ∧ CompactFits e.host.utf8ByteSize) ↔
      (b.endpoints = [] → CompactFits b.host.utf8ByteSize) ∧ CompactFits b.endpoints.length ∧
        ∀ e ∈ b.endpoints, CompactFits e.name.utf8ByteSize ∧ CompactFits e.host.utf8ByteSize := by
  subst h
  cases hendpoints : b.endpoints with
  | nil => simp
  | cons e rest => simp [endpointToKraft]

/-- The features fit where their number and their names do. -/
theorem features_fit {features : BTreeMap String (Int16 × Int16)} :
    (CompactFits (featuresToKraft features).length ∧
        ∀ f ∈ featuresToKraft features, CompactFits f.name.utf8ByteSize) ↔
      CompactFits features.toList.length ∧ ∀ f ∈ features.toList, CompactFits f.1.utf8ByteSize := by
  unfold featuresToKraft
  rw [List.length_map, List.forall_mem_map]

/-- A registration is written exactly where it is encodable. -/
theorem registration_isOk (hgen : codec.Generated others) (hmin : metadataVersionMin ≤ target)
    {b : BrokerRegistrationRecord} (hproject : projectBroker target b = b) :
    (∃ blobs, toKraftValues codec ω (.v1BrokerRegistration b) (atLevel img target) = .ok blobs) ↔
      RegistrationEncodable target b := by
  have hlogDirs : 3 ≤ registerVersion target ↔ directoryAssignmentMinLevel ≤ target := by
    rw [← Int16.not_lt, ← Int16.not_lt, registerVersion_lt_three]
  have hcordoned : 4 ≤ registerVersion target ↔ cordonedLogDirsMinLevel ≤ target := by
    rw [← Int16.not_lt, ← Int16.not_lt, registerVersion_lt_four]
  rw [@toKraftValues_isOk codec ω img target hmin _ _ (registerBrokerToKraft b) .registerBroker rfl]
  constructor
  · rintro ⟨kb, hkb, hblob⟩
    have hfits := (frameValue_isOk hgen (fitsLevel_registerBroker hkb hproject)).mp hblob
    obtain ⟨id, hid, hkb⟩ := bind_eq_ok.mp hkb
    cases hkb
    obtain ⟨hends, hfeatures, hrack, hdirs, hcordonedDirs⟩ := hfits
    obtain ⟨hhost, hends⟩ := (endPoints_fit rfl).mp hends
    exact ⟨nodeIdAs_isOk.mp ⟨id, hid⟩, hhost, hends, features_fit.mp hfeatures, hrack,
      fun hlevel => hdirs (hlogDirs.mpr hlevel), fun hlevel => hcordonedDirs (hcordoned.mpr hlevel)⟩
  · intro h
    obtain ⟨id, hid⟩ : ∃ id, nodeIdToWire b.nodeId "broker_id" = .ok id := nodeIdAs_isOk.mpr h.nodeId
    obtain ⟨kb, hkb⟩ : ∃ kb, registerBrokerToKraft b = .ok kb := ⟨_, bind_eq_ok.mpr ⟨id, hid, rfl⟩⟩
    refine ⟨kb, hkb, (frameValue_isOk hgen (fitsLevel_registerBroker hkb hproject)).mpr ?_⟩
    obtain ⟨id', _, hkb⟩ := bind_eq_ok.mp hkb
    cases hkb
    exact ⟨(endPoints_fit rfl).mpr ⟨h.host, h.endpoints⟩, features_fit.mpr h.features, h.rack,
      fun hv => h.logDirs (hlogDirs.mp hv), fun hv => h.cordonedLogDirs (hcordoned.mp hv)⟩

/-- A list that is on the wire only with leader state there is. -/
theorem elrToWire_isOk {elr : PartitionElrState} {nodes : List NodeId} {field : String}
    (hnodes : elr = ([], []) → nodes = []) :
    (∃ o, (if elr = ([], []) then none else some nodes).mapM (nodesToWire · field) = .ok o) ↔
      ∀ n ∈ nodes, n.toNat < 2 ^ 31 := by
  split
  · rename_i hempty
    rw [hnodes hempty]
    exact iff_of_true ⟨none, rfl⟩ fun _ hn => nomatch hn
  · rw [← @nodesToWire_isOk nodes field, mapM_some]
    constructor
    · rintro ⟨o, ho⟩
      obtain ⟨values, hvalues, -⟩ := bind_eq_ok.mp ho
      exact ⟨values, hvalues⟩
    · rintro ⟨values, hvalues⟩
      exact ⟨some values, bind_eq_ok.mpr ⟨values, hvalues, rfl⟩⟩

/-- Such a list has as many elements as its translation. -/
theorem listBytes_elrToWire {elr : PartitionElrState} {nodes : List NodeId} {field : String}
    {o : Option (List Int32)} (hnodes : elr = ([], []) → nodes = [])
    (h : (if elr = ([], []) then none else some nodes).mapM (nodesToWire · field) = .ok o) :
    (∀ l ∈ o, listBytes l.length 4 < 2 ^ 32) ↔ listBytes nodes.length 4 < 2 ^ 32 := by
  split at h
  · rename_i hempty
    rw [hnodes hempty]
    cases h
    exact iff_of_true (fun _ hl => nomatch hl) (by decide)
  · rw [mapM_some] at h
    obtain ⟨values, hvalues, h⟩ := bind_eq_ok.mp h
    cases h
    rw [← length_nodesToWire hvalues]
    simp

/-- A partition is translated where all its node ids are small enough. -/
theorem partitionToKraft_isOk {p : PartitionRecord} {id : Uuid} {img : MetadataImage} :
    (∃ kp, partitionToKraft p id img = .ok kp) ↔ p.leader.toNat < 2 ^ 31 ∧
      ∀ nodes ∈ [p.replicas, p.isr, p.removingReplicas, p.addingReplicas, (img.elrOf p.topic p.partition).1,
        (img.elrOf p.topic p.partition).2], ∀ n ∈ nodes, n.toNat < 2 ^ 31 := by
  simp only [List.forall_mem_cons, List.not_mem_nil, false_implies, implies_true, and_true,
    partitionToKraft_eq_ok]
  constructor
  · rintro ⟨kp, hw⟩
    exact ⟨partitionLeaderToWire_isOk.mp ⟨_, hw.leader⟩, nodesToWire_isOk.mp ⟨_, hw.replicas⟩,
      nodesToWire_isOk.mp ⟨_, hw.isr⟩, nodesToWire_isOk.mp ⟨_, hw.removing⟩,
      nodesToWire_isOk.mp ⟨_, hw.adding⟩, (elrToWire_isOk (congrArg Prod.fst)).mp ⟨_, hw.eligible⟩,
      (elrToWire_isOk (congrArg Prod.snd)).mp ⟨_, hw.lastKnown⟩⟩
  · rintro ⟨hleader, hreplicas, hisr, hremoving, hadding, heligible, hlastKnown⟩
    obtain ⟨leader, hleader⟩ := (@partitionLeaderToWire_isOk p.leader "partition leader").mpr hleader
    obtain ⟨replicas, hreplicas⟩ := (@nodesToWire_isOk p.replicas "partition replicas").mpr hreplicas
    obtain ⟨isr, hisr⟩ := (@nodesToWire_isOk p.isr "partition isr").mpr hisr
    obtain ⟨removing, hremoving⟩ :=
      (@nodesToWire_isOk p.removingReplicas "partition removing_replicas").mpr hremoving
    obtain ⟨adding, hadding⟩ := (@nodesToWire_isOk p.addingReplicas "partition adding_replicas").mpr hadding
    obtain ⟨eligible, heligible⟩ := (@elrToWire_isOk (img.elrOf p.topic p.partition) _
      "eligible leader replica" (congrArg Prod.fst)).mpr heligible
    obtain ⟨lastKnown, hlastKnown⟩ := (@elrToWire_isOk (img.elrOf p.topic p.partition) _
      "last known eligible leader replica" (congrArg Prod.snd)).mpr hlastKnown
    exact ⟨⟨p.partition, id, replicas, isr, removing, adding, leader, p.leaderEpoch, p.partitionEpoch,
      p.directories, (img.leaderRecoveryState p.topic p.partition).asI8, eligible, lastKnown⟩,
      rfl, rfl, hleader, hreplicas, hisr, hremoving, hadding, rfl, rfl, rfl, rfl, heligible, hlastKnown⟩

/-- The lengths of a partition on the wire are those in the image. -/
theorem fits_partition {p : PartitionRecord} {id : Uuid} {img : MetadataImage} {kp : KPartitionRecord}
    (hw : PartitionWritten img p id kp) :
    (KraftMetadataRecord.partition kp).Fits (partitionVersion target) ↔
      (∀ nodes ∈ [p.replicas, p.isr, p.removingReplicas, p.addingReplicas], CompactFits nodes.length) ∧
        (directoryAssignmentMinLevel ≤ target → CompactFits p.directories.length) ∧
        (elrMinLevel ≤ target → listBytes (img.elrOf p.topic p.partition).1.length 4 < 2 ^ 32 ∧
          listBytes (img.elrOf p.topic p.partition).2.length 4 < 2 ^ 32) := by
  simp only [List.forall_mem_cons, List.not_mem_nil, false_implies, implies_true, and_true,
    ← one_le_partitionVersion, ← two_le_partitionVersion, forall_and,
    ← listBytes_elrToWire (congrArg Prod.fst) hw.eligible,
    ← listBytes_elrToWire (congrArg Prod.snd) hw.lastKnown, ← length_nodesToWire hw.replicas,
    ← length_nodesToWire hw.isr, ← length_nodesToWire hw.removing, ← length_nodesToWire hw.adding,
    hw.directories, and_assoc]
  rfl

/-- A partition is written exactly where it is encodable. -/
theorem partition_isOk (hgen : codec.Generated others) (hmin : metadataVersionMin ≤ target)
    {p : PartitionRecord} {t : TopicRecord} (ht : img.topics[p.topic]? = some t) :
    (∃ blobs, toKraftValues codec ω (.v1Partition p) (atLevel img target) = .ok blobs) ↔
      PartitionEncodable target (img.elrOf p.topic p.partition) p := by
  have hid : topicIdOf (atLevel img target) p.topic = .ok t.topicId := get_topicIdOf ht
  have hone : toKraftRecords codec ω (.v1Partition p) (atLevel img target) =
      partitionToKraft p t.topicId (atLevel img target) >>= fun kp => pure [.partition kp] := by
    show (topicIdOf (atLevel img target) p.topic >>= fun topicId =>
      partitionToKraft p topicId (atLevel img target) >>= fun kp => pure [KraftMetadataRecord.partition kp]) = _
    rw [hid]
    rfl
  rw [toKraftValues_isOk hmin hone]
  constructor
  · rintro ⟨kp, hkp, hblob⟩
    obtain ⟨hleader, hnodes⟩ := partitionToKraft_isOk.mp ⟨kp, hkp⟩
    obtain ⟨hlengths, hdirectories, helr⟩ := (fits_partition (partitionToKraft_eq_ok.mp hkp)).mp
      ((@frameValue_isOk codec others hgen target (.partition kp) trivial).mp hblob)
    exact ⟨hleader, hnodes, hlengths, hdirectories, helr⟩
  · intro h
    obtain ⟨kp, hkp⟩ := (@partitionToKraft_isOk _ t.topicId (atLevel img target)).mpr
      ⟨h.leader, h.nodeIds⟩
    refine ⟨kp, hkp, (@frameValue_isOk codec others hgen target (.partition kp) trivial).mpr ?_⟩
    exact (fits_partition (partitionToKraft_eq_ok.mp hkp)).mpr ⟨h.lengths, h.directories, h.elr⟩

/-- Two of the mechanisms have a number on the wire. -/
theorem scramMechanismToWire_isOk {m : SaslMechanism} :
    (∃ b, scramMechanismToWire m = .ok b) ↔ m = .scramSha256 ∨ m = .scramSha512 := by
  cases m <;> simp [scramMechanismToWire]

/-- A credential is written exactly where it is encodable. -/
theorem scram_isOk (hgen : codec.Generated others) (hmin : metadataVersionMin ≤ target)
    {s : ScramCredentialRecord} :
    (∃ blobs, toKraftValues codec ω (.v1ScramCredential s) (atLevel img target) = .ok blobs) ↔
      ScramEncodable s := by
  have hiterations : (∃ i, okOr (TranslateError.invalidValue "scram iterations"
      (toString s.iterations.toNat ++ " exceeds i32")) (i32OfU32 s.iterations) = .ok i) ↔
        s.iterations.toNat < 2 ^ 31 := by
    unfold i32OfU32
    split
    · rename_i h
      exact iff_of_true ⟨_, rfl⟩ h
    · rename_i h
      exact iff_of_false (fun ⟨_, hi⟩ => nomatch hi) h
  rw [@toKraftValues_isOk codec ω img target hmin _ _ (scramCredentialToKraft s) .userScramCredential rfl]
  constructor
  · rintro ⟨ks, hks, hblob⟩
    obtain ⟨huser, hkeys⟩ := (@frameValue_isOk codec others hgen target (.userScramCredential ks) trivial).mp hblob
    obtain ⟨i, hi, hks⟩ := bind_eq_ok.mp hks
    obtain ⟨m, hm, hks⟩ := bind_eq_ok.mp hks
    cases hks
    exact ⟨scramMechanismToWire_isOk.mp ⟨m, hm⟩, hiterations.mp ⟨i, hi⟩, huser, hkeys⟩
  · intro h
    obtain ⟨i, hi⟩ := hiterations.mpr h.iterations
    obtain ⟨m, hm⟩ := scramMechanismToWire_isOk.mpr h.mechanism
    refine ⟨_, bind_eq_ok.mpr ⟨i, hi, bind_eq_ok.mpr ⟨m, hm, rfl⟩⟩, ?_⟩
    exact (@frameValue_isOk codec others hgen target (.userScramCredential _) trivial).mpr ⟨h.user, h.keys⟩

/-- A record that is translated without a check. -/
theorem toKraftValues_isOk_of_pure (hgen : codec.Generated others) (hmin : metadataVersionMin ≤ target)
    {r : MetadataRecord} {kr : KraftMetadataRecord}
    (hr : toKraftRecords codec ω r (atLevel img target) = .ok [kr]) (hfits : FitsLevel target kr) :
    (∃ blobs, toKraftValues codec ω r (atLevel img target) = .ok blobs) ↔
      kr.Fits (recordVersion target kr) := by
  have hbind : toKraftRecords codec ω r (atLevel img target) =
      (.ok () : Except TranslateError Unit) >>= fun _ => pure [kr] := hr
  rw [toKraftValues_isOk hmin hbind, ← frameValue_isOk hgen hfits]
  exact ⟨fun ⟨_, _, h⟩ => h, fun h => ⟨(), rfl, h⟩⟩

/-- A token is written exactly where it is encodable. -/
theorem token_isOk (hgen : codec.Generated others) (hmin : metadataVersionMin ≤ target)
    {t : DelegationTokenRecord} :
    (∃ blobs, toKraftValues codec ω (.v1DelegationToken t) (atLevel img target) = .ok blobs) ↔
      TokenEncodable t := by
  have hkr : (KraftMetadataRecord.delegationToken (delegationTokenToKraft t)).Fits 0 ↔ TokenEncodable t := by
    unfold KraftMetadataRecord.Fits delegationTokenToKraft
    simp only [List.length_map, List.forall_mem_map]
    constructor
    · rintro ⟨howner, hrequester, ⟨hcount, hrenewers⟩, hid⟩
      exact ⟨hid, hcount, List.forall_mem_cons.mpr ⟨howner, List.forall_mem_cons.mpr ⟨hrequester, hrenewers⟩⟩⟩
    · rintro ⟨hid, hcount, hprincipals⟩
      obtain ⟨howner, hprincipals⟩ := List.forall_mem_cons.mp hprincipals
      obtain ⟨hrequester, hrenewers⟩ := List.forall_mem_cons.mp hprincipals
      exact ⟨howner, hrequester, ⟨hcount, hrenewers⟩, hid⟩
  have hwritten : toKraftRecords codec ω (.v1DelegationToken t) (atLevel img target) =
      .ok [.delegationToken (delegationTokenToKraft t)] := rfl
  exact (toKraftValues_isOk_of_pure hgen hmin hwritten trivial).trans hkr

/-! ## The whole log

The log can be written when each of its records can. -/

/-- The log can be written when every record of it can. -/
theorem downgradeValues_isOk_iff_forall :
    (∃ blobs, downgradeValues codec ω img target = .ok blobs) ↔
      ∀ r ∈ downgradeRecords ω img, ∃ blobs, toKraftValues codec ω r (atLevel img target) = .ok blobs := by
  constructor
  · rintro ⟨blobs, h⟩ r hr
    obtain ⟨blobss, hblobss, -⟩ := bind_eq_ok.mp h
    obtain ⟨own, -, hown⟩ := mapM_ok_of_mem hblobss hr
    exact ⟨own, hown⟩
  · intro h
    obtain ⟨blobss, hblobss⟩ := mapM_of_forall h
    exact ⟨_, bind_eq_ok.mpr ⟨blobss, hblobss, rfl⟩⟩

/-- **The log of a downgraded image can be written exactly when the image is encodable.** -/
theorem downgradeValues_isOk (hgen : codec.Generated others) (hmin : metadataVersionMin ≤ target)
    (hadm : Admitted img) (hm : Materialized img target) :
    (∃ blobs, downgradeValues codec ω img target = .ok blobs) ↔ Encodable img target := by
  have hw := wellFormed_of_admitted hadm
  have hi := integrity_of_admitted hadm
  have hpartition : ∀ topic idx p, img.partition topic idx = some p →
      ((∃ blobs, toKraftValues codec ω (.v1Partition p) (atLevel img target) = .ok blobs) ↔
        PartitionEncodable target (img.elrOf topic idx) p) := by
    intro topic idx p hp
    obtain ⟨rfl, rfl⟩ := hw.partitions_keyed topic idx p hp
    obtain ⟨parts, hparts, -⟩ := Option.bind_eq_some_iff.mp hp
    obtain ⟨t, ht⟩ := mem_iff_get.mp (hi.partitions_live p.topic (mem_iff_get.mpr ⟨parts, hparts⟩))
    exact partition_isOk hgen hmin ht
  have hbroker : ∀ (nodeId : NodeId) b, img.brokers[nodeId]? = some b →
      ((∃ blobs, toKraftValues codec ω (.v1BrokerRegistration b) (atLevel img target) = .ok blobs) ↔
        RegistrationEncodable target b) :=
    fun nodeId b hb => registration_isOk hgen hmin (hm.brokers nodeId b hb)
  have htopic : ∀ t : TopicRecord,
      ((∃ blobs, toKraftValues codec ω (.v1Topic t) (atLevel img target) = .ok blobs) ↔
        CompactFits t.name.utf8ByteSize) :=
    fun t => toKraftValues_isOk_of_pure hgen hmin
      (show toKraftRecords codec ω (.v1Topic t) (atLevel img target) = .ok [.topic ⟨t.name, t.topicId⟩] from rfl)
      trivial
  have hacl : ∀ e : AclEntry,
      ((∃ blobs, toKraftValues codec ω (.v1AccessControlEntry e) (atLevel img target) = .ok blobs) ↔
        AclEncodable e) :=
    fun e => toKraftValues_isOk_of_pure hgen hmin
      (show toKraftRecords codec ω (.v1AccessControlEntry e) (atLevel img target) = .ok [aclToKraft e] from rfl)
      trivial
  rw [downgradeValues_isOk_iff_forall, downgradeRecords_split]
  unfold credentialSegments
  simp only [List.flatMap_cons, List.flatMap_nil, List.append_nil, List.forall_mem_append, List.forall_mem_map]
  constructor
  · rintro ⟨htopics, hbrokers, hpartitions, hscram, hacls, htokens⟩
    refine ⟨fun name t ht => ?_, fun nodeId b hb => ?_, fun topic idx p hp => ?_,
      fun user mechanism cred hc => ?_, fun e he => ?_, fun id tok htok => ?_⟩
    · exact (htopic t).mp (htopics t (List.mem_map.mpr ⟨(name, t), (mem_iter ω _).mpr ht, rfl⟩))
    · exact (hbroker nodeId b hb).mp (hbrokers b (List.mem_map.mpr ⟨(nodeId, b), (mem_iter ω _).mpr hb, rfl⟩))
    · exact (hpartition topic idx p hp).mp
        (hpartitions p (List.mem_map.mpr ⟨(topic, idx, p), (mem_iter2 ω _).mpr hp, rfl⟩))
    · exact (scram_isOk hgen hmin).mp (hscram ((user, mechanism), cred) ((mem_iter ω _).mpr hc))
    · exact (hacl e).mp (hacls e ((AclIndex.mem_iter_iff hw.acls ω).mpr he))
    · exact (token_isOk hgen hmin).mp (htokens (id, tok) ((mem_iter ω _).mpr htok))
  · intro h
    refine ⟨fun t ht => ?_, fun b hb => ?_, fun p hp => ?_, fun c hc => ?_, fun e he => ?_, fun tok htok => ?_⟩
    · obtain ⟨⟨name, t⟩, hmem, rfl⟩ := List.mem_map.mp ht
      exact (htopic t).mpr (h.topics name t ((mem_iter ω _).mp hmem))
    · obtain ⟨⟨nodeId, b⟩, hmem, rfl⟩ := List.mem_map.mp hb
      have hget := (mem_iter ω _).mp hmem
      exact (hbroker nodeId b hget).mpr (h.brokers nodeId b hget)
    · obtain ⟨⟨topic, idx, p⟩, hmem, rfl⟩ := List.mem_map.mp hp
      have hget := (mem_iter2 ω _).mp hmem
      exact (hpartition topic idx p hget).mpr (h.partitions topic idx p hget)
    · exact (scram_isOk hgen hmin).mpr (h.scramCredentials c.1.1 c.1.2 c.2 ((mem_iter ω _).mp hc))
    · exact (hacl e).mpr (h.acls e ((AclIndex.mem_iter_iff hw.acls ω).mp he))
    · exact (token_isOk hgen hmin).mpr (h.delegationTokens tok.1 tok.2 ((mem_iter ω _).mp htok))

end

end Krabka.Metadata.Kraft
