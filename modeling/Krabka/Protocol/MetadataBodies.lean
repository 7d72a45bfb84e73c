import Krabka.Protocol.GuardedPrimitives
import Krabka.Protocol.KraftMessages
import Krabka.Protocol.MetadataValue

/-!
# `Protocol.MetadataBodies` — records behind the envelope without tags of their own

`TopicRecord.owned.rs`, `UserScramCredentialRecord.owned.rs`, `AccessControlEntryRecord.owned.rs` and
`DelegationTokenRecord.owned.rs`, and the `FeatureLevelRecord` of `KraftMessages`. Every version of these
schemas is flexible (`MIN_VERSION` and `FLEXIBLE_MIN` are both 0), so the branches of the classic encoding are
never taken and are left out.

Each record has `Fits`, the lengths that its writer does not refuse, and `guarded`: it is written exactly when
these lengths fit and the version is in range, and then it comes back. What a reader answers has its unknown
tags in order, so reading, writing and reading again gives the same record (`stable_of_answers`); that is the
law which the envelope asks of a body's codec.
-/

namespace Krabka.Protocol.MetadataValue

open ByteStream Reader Output PartitionRecord

theorem guarded_checkRange {α : Type} {fits : Prop} {text : String} {version min max : Int16} {x : Encode}
    {d : Decode α} {a : α} (h : Guarded fits x d a) :
    Guarded ((min ≤ version ∧ version ≤ max) ∧ fits) (checkRangeEncode text version min max x)
      (checkRangeDecode text version min max d) a := by
  unfold checkRangeEncode checkRangeDecode
  by_cases hrange : min ≤ version ∧ version ≤ max
  · simp only [hrange, and_self, if_true, true_and]
    exact h
  · simp only [hrange, if_false, false_and]
    exact ⟨iff_of_false (not_writes_fail _) not_false, fun hw => absurd hw not_wrote_fail⟩

/-! ## Records without tagged fields of their own

Each is written when its lengths fit, and comes back as the part that its version has. -/

structure TopicRecord where
  name : String := ""
  topicId : Uuid := .zero
  unknownTaggedFields : UnknownTaggedFields := []
deriving DecidableEq, Repr

namespace TopicRecord

def encode (r : TopicRecord) (version : Int16) : Encode :=
  checkRangeEncode "TopicRecord version out of range" version 0 0 do
    putCompactString r.name
    put (putUuid r.topicId)
    writeUnknownTaggedFields r.unknownTaggedFields

def decode (version : Int16) : Decode TopicRecord :=
  checkRangeDecode "TopicRecord version out of range" version 0 0 do
    let name ← getCompactStringOwned
    let topicId ← getUuid
    let unknown ← readUnknownTaggedFields
    return ⟨name, topicId, unknown⟩

def Fits (r : TopicRecord) : Prop := CompactFits r.name.utf8ByteSize ∧ r.unknownTaggedFields.Fits

theorem guarded {r : TopicRecord} (h : Ascending r.unknownTaggedFields) (version : Int16) :
    Guarded ((0 ≤ version ∧ version ≤ 0) ∧ r.Fits) (r.encode version) (decode version) r :=
  guarded_checkRange ((guarded_putCompactString r.name).bind (.cons (exact_putUuid r.topicId)
    ((guarded_unknown h).bind_nil (Reads.pure r))))

end TopicRecord

theorem guarded_featureLevel {r : FeatureLevelRecord} (h : Ascending r.unknownTaggedFields) (version : Int16) :
    Guarded ((FeatureLevelRecord.minVersion ≤ version ∧ version ≤ FeatureLevelRecord.maxVersion) ∧
      CompactFits r.name.utf8ByteSize ∧ r.unknownTaggedFields.Fits) (r.encode version)
      (FeatureLevelRecord.decode version) r :=
  guarded_checkRange ((guarded_putCompactString r.name).bind (.cons (exact_putI16 r.featureLevel)
    ((guarded_unknown h).bind_nil (Reads.pure r))))

structure UserScramCredentialRecord where
  name : String := ""
  mechanism : Int8 := 0
  salt : Bytes := []
  storedKey : Bytes := []
  serverKey : Bytes := []
  iterations : Int32 := 0
  unknownTaggedFields : UnknownTaggedFields := []
deriving DecidableEq, Repr

namespace UserScramCredentialRecord

def encode (r : UserScramCredentialRecord) (version : Int16) : Encode :=
  checkRangeEncode "UserScramCredentialRecord version out of range" version 0 0 do
    putCompactString r.name
    put (putI8 r.mechanism)
    putCompactBytes r.salt
    putCompactBytes r.storedKey
    putCompactBytes r.serverKey
    put (putI32 r.iterations)
    writeUnknownTaggedFields r.unknownTaggedFields

def decode (version : Int16) : Decode UserScramCredentialRecord :=
  checkRangeDecode "UserScramCredentialRecord version out of range" version 0 0 do
    let name ← getCompactStringOwned
    let mechanism ← getI8
    let salt ← getCompactBytesOwned
    let storedKey ← getCompactBytesOwned
    let serverKey ← getCompactBytesOwned
    let iterations ← getI32
    let unknown ← readUnknownTaggedFields
    return ⟨name, mechanism, salt, storedKey, serverKey, iterations, unknown⟩

def Fits (r : UserScramCredentialRecord) : Prop :=
  CompactFits r.name.utf8ByteSize ∧ CompactFits r.salt.length ∧ CompactFits r.storedKey.length ∧
    CompactFits r.serverKey.length ∧ r.unknownTaggedFields.Fits

theorem guarded {r : UserScramCredentialRecord} (h : Ascending r.unknownTaggedFields) (version : Int16) :
    Guarded ((0 ≤ version ∧ version ≤ 0) ∧ r.Fits) (r.encode version) (decode version) r :=
  guarded_checkRange ((guarded_putCompactString r.name).bind (.cons (exact_putI8 r.mechanism)
    ((guarded_putCompactBytes r.salt).bind ((guarded_putCompactBytes r.storedKey).bind
      ((guarded_putCompactBytes r.serverKey).bind (.cons (exact_putI32 r.iterations)
        ((guarded_unknown h).bind_nil (Reads.pure r))))))))

end UserScramCredentialRecord

structure AccessControlEntryRecord where
  id : Uuid := .zero
  resourceType : Int8 := 0
  resourceName : String := ""
  patternType : Int8 := 0
  principal : String := ""
  host : String := ""
  operation : Int8 := 0
  permissionType : Int8 := 0
  unknownTaggedFields : UnknownTaggedFields := []
deriving DecidableEq, Repr

namespace AccessControlEntryRecord

def encode (r : AccessControlEntryRecord) (version : Int16) : Encode :=
  checkRangeEncode "AccessControlEntryRecord version out of range" version 0 0 do
    put (putUuid r.id)
    put (putI8 r.resourceType)
    putCompactString r.resourceName
    put (putI8 r.patternType)
    putCompactString r.principal
    putCompactString r.host
    put (putI8 r.operation)
    put (putI8 r.permissionType)
    writeUnknownTaggedFields r.unknownTaggedFields

def decode (version : Int16) : Decode AccessControlEntryRecord :=
  checkRangeDecode "AccessControlEntryRecord version out of range" version 0 0 do
    let id ← getUuid
    let resourceType ← getI8
    let resourceName ← getCompactStringOwned
    let patternType ← getI8
    let principal ← getCompactStringOwned
    let host ← getCompactStringOwned
    let operation ← getI8
    let permissionType ← getI8
    let unknown ← readUnknownTaggedFields
    return ⟨id, resourceType, resourceName, patternType, principal, host, operation, permissionType, unknown⟩

def Fits (r : AccessControlEntryRecord) : Prop :=
  CompactFits r.resourceName.utf8ByteSize ∧ CompactFits r.principal.utf8ByteSize ∧
    CompactFits r.host.utf8ByteSize ∧ r.unknownTaggedFields.Fits

theorem guarded {r : AccessControlEntryRecord} (h : Ascending r.unknownTaggedFields) (version : Int16) :
    Guarded ((0 ≤ version ∧ version ≤ 0) ∧ r.Fits) (r.encode version) (decode version) r :=
  guarded_checkRange (.cons (exact_putUuid r.id) (.cons (exact_putI8 r.resourceType)
    ((guarded_putCompactString r.resourceName).bind (.cons (exact_putI8 r.patternType)
      ((guarded_putCompactString r.principal).bind ((guarded_putCompactString r.host).bind
        (.cons (exact_putI8 r.operation) (.cons (exact_putI8 r.permissionType)
          ((guarded_unknown h).bind_nil (Reads.pure r))))))))))

end AccessControlEntryRecord

structure DelegationTokenRecord where
  owner : String := ""
  requester : String := ""
  renewers : List String := []
  issueTimestamp : Int64 := 0
  maxTimestamp : Int64 := 0
  expirationTimestamp : Int64 := 0
  tokenId : String := ""
  unknownTaggedFields : UnknownTaggedFields := []
deriving DecidableEq, Repr

namespace DelegationTokenRecord

def encode (r : DelegationTokenRecord) (version : Int16) : Encode :=
  checkRangeEncode "DelegationTokenRecord version out of range" version 0 0 do
    putCompactString r.owner
    putCompactString r.requester
    encodeArray true putCompactString r.renewers
    put (putI64 r.issueTimestamp)
    put (putI64 r.maxTimestamp)
    put (putI64 r.expirationTimestamp)
    putCompactString r.tokenId
    writeUnknownTaggedFields r.unknownTaggedFields

def decode (version : Int16) : Decode DelegationTokenRecord :=
  checkRangeDecode "DelegationTokenRecord version out of range" version 0 0 do
    let owner ← getCompactStringOwned
    let requester ← getCompactStringOwned
    let renewers ← getArray true getCompactStringOwned
    let issueTimestamp ← getI64
    let maxTimestamp ← getI64
    let expirationTimestamp ← getI64
    let tokenId ← getCompactStringOwned
    let unknown ← readUnknownTaggedFields
    return ⟨owner, requester, renewers, issueTimestamp, maxTimestamp, expirationTimestamp, tokenId, unknown⟩

def Fits (r : DelegationTokenRecord) : Prop :=
  CompactFits r.owner.utf8ByteSize ∧ CompactFits r.requester.utf8ByteSize ∧
    (CompactFits r.renewers.length ∧ ∀ renewer ∈ r.renewers, CompactFits renewer.utf8ByteSize) ∧
    CompactFits r.tokenId.utf8ByteSize ∧ r.unknownTaggedFields.Fits

theorem guarded {r : DelegationTokenRecord} (h : Ascending r.unknownTaggedFields) (version : Int16) :
    Guarded ((0 ≤ version ∧ version ≤ 0) ∧ r.Fits) (r.encode version) (decode version) r := by
  have hrenewers := @guarded_encodeArray _ _ _ _ _ _ r.renewers (fun s _ => guarded_putCompactString s)
    fun s w hw => one_le_of_wrote_putCompactString hw
  rw [List.map_id'] at hrenewers
  exact guarded_checkRange ((guarded_putCompactString r.owner).bind ((guarded_putCompactString r.requester).bind
    (hrenewers.bind (.cons (exact_putI64 r.issueTimestamp) (.cons (exact_putI64 r.maxTimestamp)
      (.cons (exact_putI64 r.expirationTimestamp) ((guarded_putCompactString r.tokenId).bind
        ((guarded_unknown h).bind_nil (Reads.pure r)))))))))

end DelegationTokenRecord

/-! ## Bodies of the envelope

The codecs in the form that the enumeration of metadata records asks for. -/

/-- Every value that the decoder answers has the property. -/
def Answers {α : Type} (d : Decode α) (P : α → Prop) : Prop := ∀ bs a rest, d bs = .ok (a, rest) → P a

section
variable {α β : Type} {P : β → Prop}

theorem Answers.bind {d : Decode α} {f : α → Decode β} (hf : ∀ a, Answers (f a) P) : Answers (d >>= f) P := by
  intro bs b rest h
  obtain ⟨a, mid, -, h⟩ := bind_eq_ok.mp h
  exact hf a mid b rest h

theorem Answers.checkRange {text : String} {version min max : Int16} {d : Decode β} (hd : Answers d P) :
    Answers (checkRangeDecode text version min max d) P := by
  intro bs b rest h
  unfold checkRangeDecode at h
  split at h
  · exact hd bs b rest h
  · cases h

/-- A decoder that ends in the trailer of a record without tags of its own. -/
theorem Answers.trailer {mk : UnknownTaggedFields → β} (h : ∀ unknown, Ascending unknown → P (mk unknown)) :
    Answers (readUnknownTaggedFields >>= fun unknown => pure (mk unknown)) P := by
  intro bs b rest hb
  obtain ⟨unknown, mid, hunknown, hb⟩ := bind_eq_ok.mp hb
  cases hb
  exact h unknown (ascending_of_readUnknownTaggedFields hunknown)

/-- A codec is stable when every body that it reads is one that comes back. -/
theorem stable_of_answers {c : BodyCodec} {P : c.Body → Prop}
    (hdecode : ∀ version, Answers (c.decode version) P)
    (h : ∀ version body, P body → ∃ fits, Guarded fits (c.encode body version) (c.decode version) body) :
    c.Stable := by
  intro version bs rest w body hread hw
  obtain ⟨fits, hguarded⟩ := h version body (hdecode version bs body rest hread)
  exact hguarded.reads hw

end

def topicBody : BodyCodec := ⟨TopicRecord, TopicRecord.encode, TopicRecord.decode⟩

theorem topicBody_stable : topicBody.Stable := by
  have hdecode : ∀ version, Answers (TopicRecord.decode version) (Ascending ·.unknownTaggedFields) := by
    intro version
    exact .checkRange <| .bind fun _ => .bind fun _ => .trailer fun _ h => h
  exact @stable_of_answers topicBody _ hdecode fun version _ h => ⟨_, TopicRecord.guarded h version⟩

def featureLevelBody : BodyCodec := ⟨FeatureLevelRecord, FeatureLevelRecord.encode, FeatureLevelRecord.decode⟩

theorem featureLevelBody_stable : featureLevelBody.Stable := by
  have hdecode : ∀ version, Answers (FeatureLevelRecord.decode version) (Ascending ·.unknownTaggedFields) := by
    intro version
    exact .checkRange <| .bind fun _ => .bind fun _ => .trailer fun _ h => h
  exact @stable_of_answers featureLevelBody _ hdecode fun version _ h =>
    ⟨_, guarded_featureLevel h version⟩

def userScramCredentialBody : BodyCodec :=
  ⟨UserScramCredentialRecord, UserScramCredentialRecord.encode, UserScramCredentialRecord.decode⟩

theorem userScramCredentialBody_stable : userScramCredentialBody.Stable := by
  have hdecode : ∀ version, Answers (UserScramCredentialRecord.decode version)
      (Ascending ·.unknownTaggedFields) := by
    intro version
    exact .checkRange <| .bind fun _ => .bind fun _ => .bind fun _ => .bind fun _ =>
      .bind fun _ => .bind fun _ => .trailer fun _ h => h
  exact @stable_of_answers userScramCredentialBody _ hdecode fun version _ h =>
    ⟨_, UserScramCredentialRecord.guarded h version⟩

def accessControlEntryBody : BodyCodec :=
  ⟨AccessControlEntryRecord, AccessControlEntryRecord.encode, AccessControlEntryRecord.decode⟩

theorem accessControlEntryBody_stable : accessControlEntryBody.Stable := by
  have hdecode : ∀ version, Answers (AccessControlEntryRecord.decode version)
      (Ascending ·.unknownTaggedFields) := by
    intro version
    exact .checkRange <| .bind fun _ => .bind fun _ => .bind fun _ => .bind fun _ =>
      .bind fun _ => .bind fun _ => .bind fun _ => .bind fun _ => .trailer fun _ h => h
  exact @stable_of_answers accessControlEntryBody _ hdecode fun version _ h =>
    ⟨_, AccessControlEntryRecord.guarded h version⟩

def delegationTokenBody : BodyCodec :=
  ⟨DelegationTokenRecord, DelegationTokenRecord.encode, DelegationTokenRecord.decode⟩

theorem delegationTokenBody_stable : delegationTokenBody.Stable := by
  have hdecode : ∀ version, Answers (DelegationTokenRecord.decode version)
      (Ascending ·.unknownTaggedFields) := by
    intro version
    exact .checkRange <| .bind fun _ => .bind fun _ => .bind fun _ => .bind fun _ =>
      .bind fun _ => .bind fun _ => .bind fun _ => .trailer fun _ h => h
  exact @stable_of_answers delegationTokenBody _ hdecode fun version _ h =>
    ⟨_, DelegationTokenRecord.guarded h version⟩


end Krabka.Protocol.MetadataValue
