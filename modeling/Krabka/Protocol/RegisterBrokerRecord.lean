import Krabka.Protocol.MetadataBodies
import Krabka.Protocol.OwnTags

/-!
# `Protocol.RegisterBrokerRecord` — the generated codec of a broker registration

`RegisterBrokerRecord.owned.rs`. Every version is flexible. A version has the fields of the versions before it:
`in_controlled_shutdown` from 1, `is_migrating_zk_broker` from 2, and as tagged fields `log_dirs` from 3 and
`cordoned_log_dirs` from 4. The record is written exactly when its lengths fit, and comes back as the part of it
that its version has (`guarded`).
-/

namespace Krabka.Protocol.MetadataValue

open ByteStream Reader Output PartitionRecord

structure BrokerEndpoint where
  name : String := ""
  host : String := ""
  port : UInt16 := 0
  securityProtocol : Int16 := 0
  unknownTaggedFields : UnknownTaggedFields := []
deriving DecidableEq, Repr

namespace BrokerEndpoint

def encode (e : BrokerEndpoint) (_version : Int16) : Encode := do
  putCompactString e.name
  putCompactString e.host
  put (putU16 e.port)
  put (putI16 e.securityProtocol)
  writeUnknownTaggedFields e.unknownTaggedFields

def decode (_version : Int16) : Decode BrokerEndpoint := do
  let name ← getCompactStringOwned
  let host ← getCompactStringOwned
  let port ← getU16
  let securityProtocol ← getI16
  let unknown ← readUnknownTaggedFields
  return ⟨name, host, port, securityProtocol, unknown⟩

def Fits (e : BrokerEndpoint) : Prop :=
  CompactFits e.name.utf8ByteSize ∧ CompactFits e.host.utf8ByteSize ∧ e.unknownTaggedFields.Fits

theorem guarded {e : BrokerEndpoint} (h : Ascending e.unknownTaggedFields) (version : Int16) :
    Guarded e.Fits (e.encode version) (decode version) e :=
  (guarded_putCompactString e.name).bind ((guarded_putCompactString e.host).bind (.cons (exact_putU16 e.port)
    (.cons (exact_putI16 e.securityProtocol) ((guarded_unknown h).bind_nil (Reads.pure e)))))

end BrokerEndpoint

structure BrokerFeature where
  name : String := ""
  minSupportedVersion : Int16 := 0
  maxSupportedVersion : Int16 := 0
  unknownTaggedFields : UnknownTaggedFields := []
deriving DecidableEq, Repr

namespace BrokerFeature

def encode (f : BrokerFeature) (_version : Int16) : Encode := do
  putCompactString f.name
  put (putI16 f.minSupportedVersion)
  put (putI16 f.maxSupportedVersion)
  writeUnknownTaggedFields f.unknownTaggedFields

def decode (_version : Int16) : Decode BrokerFeature := do
  let name ← getCompactStringOwned
  let minSupportedVersion ← getI16
  let maxSupportedVersion ← getI16
  let unknown ← readUnknownTaggedFields
  return ⟨name, minSupportedVersion, maxSupportedVersion, unknown⟩

def Fits (f : BrokerFeature) : Prop := CompactFits f.name.utf8ByteSize ∧ f.unknownTaggedFields.Fits

theorem guarded {f : BrokerFeature} (h : Ascending f.unknownTaggedFields) (version : Int16) :
    Guarded f.Fits (f.encode version) (decode version) f :=
  (guarded_putCompactString f.name).bind (.cons (exact_putI16 f.minSupportedVersion)
    (.cons (exact_putI16 f.maxSupportedVersion) ((guarded_unknown h).bind_nil (Reads.pure f))))

end BrokerFeature

structure RegisterBrokerRecord where
  brokerId : Int32 := 0
  isMigratingZkBroker : Bool := false
  incarnationId : Uuid := .zero
  brokerEpoch : Int64 := 0
  endPoints : List BrokerEndpoint := []
  features : List BrokerFeature := []
  rack : Option String := some ""
  fenced : Bool := true
  inControlledShutdown : Bool := false
  logDirs : List Uuid := []
  cordonedLogDirs : Option (List Uuid) := none
  unknownTaggedFields : UnknownTaggedFields := []
deriving DecidableEq, Repr

namespace RegisterBrokerRecord

def maxVersion : Int16 := 4

/-! ### Writing

Fields by version, then the tagged ones. -/

def taggedFields (r : RegisterBrokerRecord) (version : Int16) :
    Except ProtocolError (List (UInt32 × Bytes)) := do
  let logDirs ← taggedField 0 (3 ≤ version ∧ r.logDirs ≠ []) (putArray true putUuid r.logDirs)
  let cordoned ← taggedField 1 (4 ≤ version ∧ r.cordonedLogDirs.isSome)
    (putNullableArray true putUuid r.cordonedLogDirs)
  return logDirs ++ cordoned

/-- The fields in front of the trailer. -/
def encodeFields (r : RegisterBrokerRecord) (version : Int16) (trailer : Encode) : Encode := do
  put (putI32 r.brokerId)
  encodeIf (2 ≤ version) (put (putBool r.isMigratingZkBroker))
  put (putUuid r.incarnationId)
  put (putI64 r.brokerEpoch)
  encodeArray true (BrokerEndpoint.encode · version) r.endPoints
  encodeArray true (BrokerFeature.encode · version) r.features
  putCompactNullableString r.rack
  put (putBool r.fenced)
  encodeIf (1 ≤ version) (put (putBool r.inControlledShutdown))
  trailer

def encode (r : RegisterBrokerRecord) (version : Int16) : Encode :=
  checkRangeEncode "RegisterBrokerRecord version out of range" version 0 maxVersion
    (r.encodeFields version (writeTrailer (r.taggedFields version) r.unknownTaggedFields))

/-! ### Reading

The tagged fields are read into slots. -/

/-- The tagged fields found so far. -/
structure Tags where
  logDirs : Option (List Uuid) := none
  cordonedLogDirs : Option (Option (List Uuid)) := none

def readTag (version : Int16) (tag : UInt32) (s : Tags) : Decode (Option Tags) :=
  if tag = 0 then
    if 3 ≤ version then do
      let logDirs ← getArray true getUuid
      return some { s with logDirs := some logDirs }
    else throw (.tagNotValidForVersion 0 version)
  else if tag = 1 then
    if 4 ≤ version then do
      let cordoned ← getNullableArray true getUuid
      return some { s with cordonedLogDirs := some cordoned }
    else throw (.tagNotValidForVersion 1 version)
  else return none

def decode (version : Int16) : Decode RegisterBrokerRecord :=
  checkRangeDecode "RegisterBrokerRecord version out of range" version 0 maxVersion do
    let brokerId ← getI32
    let isMigratingZkBroker ← fieldIf (2 ≤ version) getBool false
    let incarnationId ← getUuid
    let brokerEpoch ← getI64
    let endPoints ← getArray true (BrokerEndpoint.decode version)
    let features ← getArray true (BrokerFeature.decode version)
    let rack ← getCompactNullableStringOwned
    let fenced ← getBool
    let inControlledShutdown ← fieldIf (1 ≤ version) getBool false
    let (tags, unknown) ← readTaggedFieldsInto (readTag version) {}
    return {
      brokerId := brokerId
      isMigratingZkBroker := isMigratingZkBroker
      incarnationId := incarnationId
      brokerEpoch := brokerEpoch
      endPoints := endPoints
      features := features
      rack := rack
      fenced := fenced
      inControlledShutdown := inControlledShutdown
      logDirs := tags.logDirs.getD []
      cordonedLogDirs := tags.cordonedLogDirs.getD none
      unknownTaggedFields := unknown }

/-! ### The round trip

Field by field, each with the versions that have it. -/

/-- The part of a registration that a version has. -/
def carried (r : RegisterBrokerRecord) (version : Int16) : RegisterBrokerRecord :=
  { r with
    isMigratingZkBroker := if 2 ≤ version then r.isMigratingZkBroker else false
    inControlledShutdown := if 1 ≤ version then r.inControlledShutdown else false
    logDirs := if 3 ≤ version then r.logDirs else []
    cordonedLogDirs := if 4 ≤ version then r.cordonedLogDirs else none }

def DirsFit (r : RegisterBrokerRecord) (version : Int16) : Prop :=
  (3 ≤ version → listBytes r.logDirs.length 16 < 2 ^ 32) ∧
    (4 ≤ version → ∀ dirs ∈ r.cordonedLogDirs, listBytes dirs.length 16 < 2 ^ 32)

def Fits (r : RegisterBrokerRecord) (version : Int16) : Prop :=
  (CompactFits r.endPoints.length ∧ ∀ e ∈ r.endPoints, e.Fits) ∧
    (CompactFits r.features.length ∧ ∀ f ∈ r.features, f.Fits) ∧
    (∀ rack ∈ r.rack, CompactFits rack.utf8ByteSize) ∧ r.DirsFit version

/-- What the readers make of the field of the log directories. -/
theorem knownFields_logDirs {r : RegisterBrokerRecord} {version : Int16} {entries : List (UInt32 × Bytes)}
    (h : taggedField 0 (3 ≤ version ∧ r.logDirs ≠ []) (putArray true putUuid r.logDirs) = .ok entries) :
    ∃ found : Option (List Uuid), found.getD [] = (if 3 ≤ version then r.logDirs else []) ∧
      knownFields (readTag version) {} entries = some { logDirs := found } ∧ AtMost 0 entries := by
  unfold taggedField at h
  split at h
  · rename_i hpresent
    obtain ⟨w, hw, h⟩ := Results.bind_eq_ok.mp h
    cases h
    have huuid : ∀ u : Uuid, 1 ≤ (putUuid u).length := fun u => by rw [length_putUuid]; decide
    have hreads := reads_putArray reads_putUuid huuid (encodeToBytes_eq_ok.mp hw)
    refine ⟨some r.logDirs, by rw [if_pos hpresent.1]; rfl, ?_, Or.inr ⟨w, rfl⟩⟩
    have hread : readTag version 0 {} w = .ok (some { logDirs := some r.logDirs }, []) := by
      unfold readTag
      rw [if_pos rfl, if_pos hpresent.1, bind_of_ok hreads.all]
      rfl
    unfold knownFields
    rw [List.foldlM_cons, hread]
    rfl
  · rename_i habsent
    cases h
    refine ⟨none, ?_, rfl, Or.inl rfl⟩
    split
    · rename_i hversion
      have hempty : r.logDirs = [] := by simpa [hversion] using habsent
      rw [hempty]
      rfl
    · rfl

theorem knownFields_cordoned {r : RegisterBrokerRecord} {version : Int16} {entries : List (UInt32 × Bytes)}
    (h : taggedField 1 (4 ≤ version ∧ r.cordonedLogDirs.isSome)
      (putNullableArray true putUuid r.cordonedLogDirs) = .ok entries) (s : Tags)
    (hs : s.cordonedLogDirs = none) :
    ∃ found : Option (Option (List Uuid)),
      found.getD none = (if 4 ≤ version then r.cordonedLogDirs else none) ∧
      knownFields (readTag version) s entries = some { s with cordonedLogDirs := found } ∧
      AtMost 1 entries := by
  unfold taggedField at h
  split at h
  · rename_i hpresent
    obtain ⟨w, hw, h⟩ := Results.bind_eq_ok.mp h
    cases h
    obtain ⟨dirs, hdirs⟩ := Option.isSome_iff_exists.mp hpresent.2
    rw [hdirs] at hw
    have huuid : ∀ u : Uuid, 1 ≤ (putUuid u).length := fun u => by rw [length_putUuid]; decide
    have hreads := reads_putNullableArray reads_putUuid huuid (encodeToBytes_eq_ok.mp hw)
    refine ⟨some (some dirs), by rw [if_pos hpresent.1, hdirs]; rfl, ?_, Or.inr ⟨w, rfl⟩⟩
    have hread : readTag version 1 s w = .ok (some { s with cordonedLogDirs := some (some dirs) }, []) := by
      unfold readTag
      rw [if_neg (by decide), if_pos rfl, if_pos hpresent.1, bind_of_ok hreads.all]
      rfl
    unfold knownFields
    rw [List.foldlM_cons, hread]
    rfl
  · rename_i habsent
    cases h
    refine ⟨none, ?_, by rw [← hs]; rfl, Or.inl rfl⟩
    split
    · rename_i hversion
      have hempty : r.cordonedLogDirs = none := by simpa [hversion] using habsent
      rw [hempty]
      rfl
    · rfl

theorem writes_trailer {r : RegisterBrokerRecord} {version : Int16} :
    Writes (writeTrailer (r.taggedFields version) []) ↔ r.DirsFit version := by
  have hlogDirs := @taggedField_isOk 0 (3 ≤ version ∧ r.logDirs ≠ []) _ _ _
    fun _ => payload_putArray (by decide) exact_putUuid r.logDirs
  have hcordoned := @taggedField_isOk 1 (4 ≤ version ∧ r.cordonedLogDirs.isSome) _
    (putNullableArray true putUuid r.cordonedLogDirs) (listBytes (r.cordonedLogDirs.getD []).length 16)
    fun hpresent => by
      obtain ⟨dirs, hdirs⟩ := Option.isSome_iff_exists.mp hpresent.2
      rw [hdirs]
      exact payload_putNullableArray (by decide) exact_putUuid dirs
  rw [writes_writeTrailer]
  unfold taggedFields DirsFit
  refine Iff.trans (@fewTags_append [] ⟨Nat.zero_le 1, fun _ he => nomatch he⟩ _ _
    (fun _ => length_taggedField_le) fun _ => length_taggedField_le) ?_
  rw [hlogDirs, hcordoned]
  refine and_congr ?_ ?_
  · constructor
    · intro h hversion
      by_cases hempty : r.logDirs = []
      · rw [hempty]
        decide
      · exact h ⟨hversion, hempty⟩
    · intro h hpresent
      exact h hpresent.1
  · constructor
    · intro h hversion dirs hdirs
      rw [Option.mem_def.mp hdirs] at h
      exact h ⟨hversion, rfl⟩
    · rintro h ⟨hversion, hsome⟩
      obtain ⟨dirs, hdirs⟩ := Option.isSome_iff_exists.mp hsome
      rw [hdirs]
      exact h hversion dirs hdirs

/-- The trailer is refused where a list of directories does not fit, and comes back. -/
theorem guarded_trailer (r : RegisterBrokerRecord) (version : Int16) :
    ∃ tags : Tags, tags.logDirs.getD [] = (if 3 ≤ version then r.logDirs else []) ∧
      tags.cordonedLogDirs.getD none = (if 4 ≤ version then r.cordonedLogDirs else none) ∧
      Guarded (r.DirsFit version) (writeTrailer (r.taggedFields version) [])
        (readTaggedFieldsInto (readTag version) {}) (tags, []) := by
  cases hfields : r.taggedFields version with
  | error e =>
      have hnot : ¬r.DirsFit version := by
        rw [← writes_trailer, hfields]
        exact not_writes_fail e
      refine ⟨⟨some (if 3 ≤ version then r.logDirs else []),
        some (if 4 ≤ version then r.cordonedLogDirs else none)⟩,
        rfl, rfl, ?_⟩
      exact ⟨iff_of_false (not_writes_fail e) hnot, fun hw => absurd hw not_wrote_fail⟩
  | ok entries =>
      have hwrites := @writes_trailer r version
      rw [hfields] at hwrites
      obtain ⟨logDirs, hlogDirs, h⟩ := Results.bind_eq_ok.mp hfields
      obtain ⟨cordoned, hcordoned, h⟩ := Results.bind_eq_ok.mp h
      cases h
      obtain ⟨dirs, hdirs, hknown, hmost⟩ := knownFields_logDirs hlogDirs
      obtain ⟨cordonedDirs, hcordonedDirs, hknown', hmost'⟩ :=
        knownFields_cordoned hcordoned { logDirs := dirs } rfl
      refine ⟨⟨dirs, cordonedDirs⟩, hdirs, hcordonedDirs, hwrites, fun hw => ?_⟩
      have hsorted : (logDirs ++ cordoned).Pairwise fun a b => a.1 < b.1 := by
        have hpairwise := pairwise_of_atMost (a := 0) (b := 1) (c := 2) (by decide) (by decide) hmost hmost'
          (Or.inl rfl)
        rwa [List.append_nil] at hpairwise
      refine reads_writeTaggedFields hw hsorted ?_
      unfold knownFields at hknown hknown' ⊢
      rw [List.foldlM_append, hknown, Option.bind_eq_bind, Option.bind_some, hknown']

/-- **A registration is written exactly when its lengths fit, and comes back as what its version carries.** -/
theorem guarded {r : RegisterBrokerRecord} (hunknown : r.unknownTaggedFields = [])
    (hendPoints : ∀ e ∈ r.endPoints, Ascending e.unknownTaggedFields)
    (hfeatures : ∀ f ∈ r.features, Ascending f.unknownTaggedFields) (version : Int16) :
    Guarded ((0 ≤ version ∧ version ≤ maxVersion) ∧ r.Fits version) (r.encode version) (decode version)
      (r.carried version) := by
  obtain ⟨tags, hlogDirs, hcordoned, htrailer⟩ := r.guarded_trailer version
  have hends := guarded_encodeArray (fun e he => BrokerEndpoint.guarded (hendPoints e he) version)
    fun e w hw => one_le_of_wrote_named hw
  have hfeats := guarded_encodeArray (fun f hf => BrokerFeature.guarded (hfeatures f hf) version)
    fun f w hw => one_le_of_wrote_named hw
  rw [List.map_id'] at hends hfeats
  unfold encode
  rw [hunknown]
  refine guarded_checkRange (.cons (exact_putI32 r.brokerId) (guarded_encodeIf
    (exact_putBool r.isMigratingZkBroker) (.cons (exact_putUuid r.incarnationId)
      (.cons (exact_putI64 r.brokerEpoch) (hends.bind (hfeats.bind
        ((guarded_putCompactNullableString r.rack).bind (.cons (exact_putBool r.fenced)
          (guarded_encodeIf (exact_putBool r.inControlledShutdown) (htrailer.bind_nil ?_))))))))))
  simp only [hlogDirs, hcordoned, ← hunknown]
  exact Reads.pure (r.carried version)

end RegisterBrokerRecord

/-! ## The codecs with tagged fields behind the envelope

The two bodies with a tagged section, in the form that the enumeration of metadata records asks for. -/

def registerBrokerBody : BodyCodec :=
  ⟨RegisterBrokerRecord, RegisterBrokerRecord.encode, RegisterBrokerRecord.decode⟩

def partitionBody : BodyCodec := ⟨PartitionRecord, PartitionRecord.encode, PartitionRecord.decode⟩

end Krabka.Protocol.MetadataValue
