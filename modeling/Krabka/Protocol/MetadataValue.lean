import Krabka.Protocol.PartitionRecord
import Krabka.Lib.ShortestVarint

/-!
# `Protocol.MetadataValue` — the value envelope and the records behind it

`records/metadata/envelope.rs`, and the two record enumerations that are framed with it:
`KraftMetadataRecord` of the metadata log and `RemoteLogMetadataRecord` of the tiered-storage log. Both pick
the body's codec by an api key of their own namespace, keep a record of a key they do not know as its bytes,
and refuse a known body that leaves bytes behind. A namespace is a `KeySpace`, the two enumerations are
`Framed` over theirs, and the generated codecs of the bodies are a parameter.

`decodeFramed_eq_ok` says what a value is decoded to, for both.
-/

namespace Krabka.Protocol.MetadataValue

open ByteStream Reader Output PartitionRecord

/-! ## The envelope

A frame version, a key and a version of the body, each a varint, and the body behind them. -/

/-- `FRAME_VERSION` of a metadata record value. -/
def frameVersion : UInt32 := 1

/-- `api_version_to_u32`: a negative version clamps to 0. -/
def apiVersionToU32 (version : Int16) : UInt32 := UInt32.ofNat version.toInt.toNat

/-- The envelope without its frame version, which is always 1. -/
structure ValueHeader where
  apiKey : UInt32
  apiVersion : UInt32
deriving DecidableEq, Repr

inductive EnvelopeError where
  | truncated
  | unknownFrameVersion (frameVersion : UInt32)
deriving DecidableEq, Repr

/-- `encode_value` of the envelope. -/
def encodeValue (apiKey apiVersion : UInt32) (body : Bytes) : Bytes :=
  putUvarint frameVersion ++ (putUvarint apiKey ++ (putUvarint apiVersion ++ body))

/-- Whatever is wrong with a number of the envelope, the envelope is truncated. -/
def headerVarint : Reader EnvelopeError UInt32 := mapErr (fun _ => .truncated) getUvarint

def decodeValueHeader : Reader EnvelopeError ValueHeader := do
  let frame ← headerVarint
  if frame ≠ frameVersion then throw (.unknownFrameVersion frame)
  else do
    let apiKey ← headerVarint
    let apiVersion ← headerVarint
    return ⟨apiKey, apiVersion⟩

theorem reads_header (apiKey apiVersion : UInt32) : Reads decodeValueHeader (encodeValue apiKey apiVersion [])
    ⟨apiKey, apiVersion⟩ := by
  unfold decodeValueHeader encodeValue headerVarint
  refine (reads_putUvarint frameVersion).mapErr.bind ?_
  rw [if_neg (not_not_intro rfl)]
  refine (reads_putUvarint apiKey).mapErr.bind ?_
  exact (reads_putUvarint apiVersion).mapErr.bind (Reads.pure _)

theorem headerVarint_eq_ok {bs rest : Bytes} {v : UInt32} (h : headerVarint bs = .ok (v, rest)) :
    ∃ used, bs = used ++ rest ∧ (putUvarint v).length ≤ used.length := by
  obtain ⟨z, mid, hz, h⟩ := bind_eq_ok.mp (mapErr_eq_ok.mp h)
  cases h
  obtain ⟨used, hused, -, hlen⟩ := WireInt.getVarint_eq_ok (by decide) hz
  refine ⟨used, hused, ?_⟩
  rwa [putUvarint, WireInt.length_putVarint (by decide), UInt32.toBitVec_ofBitVec]

/-- An envelope is read from no fewer bytes than it is written in. -/
theorem decodeValueHeader_eq_ok {bs rest : Bytes} {hdr : ValueHeader}
    (h : decodeValueHeader bs = .ok (hdr, rest)) :
    ∃ used, bs = used ++ rest ∧ (encodeValue hdr.apiKey hdr.apiVersion []).length ≤ used.length := by
  obtain ⟨frame, mid, hframe, h⟩ := bind_eq_ok.mp h
  split at h
  · cases h
  · rename_i hone
    cases not_not.mp hone
    obtain ⟨apiKey, mid', hkey, h⟩ := bind_eq_ok.mp h
    obtain ⟨apiVersion, mid'', hversion, h⟩ := bind_eq_ok.mp h
    cases h
    obtain ⟨used, rfl, hlen⟩ := headerVarint_eq_ok hframe
    obtain ⟨used', rfl, hlen'⟩ := headerVarint_eq_ok hkey
    obtain ⟨used'', rfl, hlen''⟩ := headerVarint_eq_ok hversion
    refine ⟨used ++ (used' ++ used''), by simp only [List.append_assoc], ?_⟩
    simp only [encodeValue, List.append_nil, List.length_append]
    omega

/-! ## Namespaces of keys

The reader looks the key up among the kinds of a namespace. What it does not find it keeps as bytes. -/

/-- The generated codec of one record type. -/
structure BodyCodec where
  Body : Type
  encode : Body → Int16 → Encode
  decode : Int16 → Decode Body

/-- A namespace of record keys: the key of each type, and the type of each key that has one. -/
structure KeySpace (τ : Type) where
  apiKey : τ → UInt32
  ofApiKey : UInt32 → Option τ
  ofApiKey_eq_some : ∀ {k : UInt32} {t : τ}, ofApiKey k = some t ↔ apiKey t = k

/-- A framed record. One of an unknown key keeps the bytes behind the envelope. -/
inductive Framed {τ : Type} (codec : τ → BodyCodec) where
  | known (t : τ) (body : (codec t).Body)
  | unknown (apiKey apiVersion : UInt32) (body : Bytes)

/-- The texts of the errors in which two enumerations differ. -/
structure Texts where
  envelope : EnvelopeError → String
  apiVersion : String
  trailing : String

section
variable {τ : Type} (K : KeySpace τ) (codec : τ → BodyCodec) (texts : Texts)

/-- The body behind the envelope `hdr`. -/
def decodeBody (hdr : ValueHeader) (version : Int16) : Decode (Framed codec) :=
  match K.ofApiKey hdr.apiKey with
  -- the bytes of an unknown record are kept, so none are left
  | none => fun bs => .ok (.unknown hdr.apiKey hdr.apiVersion bs, [])
  | some t => do
      let body ← (codec t).decode version
      let left ← remaining
      if left ≠ 0 then throw (.schemaMismatch texts.trailing) else return .known t body

def getFramed : Decode (Framed codec × Int16) := do
  let hdr ← mapErr (fun e => .schemaMismatch (texts.envelope e)) decodeValueHeader
  match FixedWidth.i16OfLen hdr.apiVersion.toNat with
  | none => throw (.schemaMismatch texts.apiVersion)
  | some version => do
      let record ← decodeBody K codec texts hdr version
      return (record, version)

def decodeFramed (value : Bytes) : Except ProtocolError (Framed codec × Int16) :=
  Prod.fst <$> getFramed K codec texts value

variable {K codec texts}

/-- **What a value is decoded to.** -/
theorem decodeFramed_eq_ok {value : Bytes} {r : Framed codec} {version : Int16} :
    decodeFramed K codec texts value = .ok (r, version) ↔
      ∃ hdr body, decodeValueHeader value = .ok (hdr, body) ∧
        FixedWidth.i16OfLen hdr.apiVersion.toNat = some version ∧
        ((K.ofApiKey hdr.apiKey = none ∧ r = .unknown hdr.apiKey hdr.apiVersion body) ∨
          ∃ t b, K.ofApiKey hdr.apiKey = some t ∧ (codec t).decode version body = .ok (b, []) ∧
            r = .known t b) := by
  unfold decodeFramed getFramed
  simp only [Results.map_eq_ok, Prod.exists, bind_eq_ok, mapErr_eq_ok]
  constructor
  · rintro ⟨r', v, rest, ⟨hdr, body, hhdr, h⟩, heq⟩
    cases heq
    refine ⟨hdr, body, hhdr, ?_⟩
    cases hv : FixedWidth.i16OfLen hdr.apiVersion.toNat with
    | none =>
        rw [hv] at h
        cases h
    | some v =>
        rw [hv] at h
        obtain ⟨record, left, hrecord, h⟩ := bind_eq_ok.mp h
        cases h
        refine ⟨rfl, ?_⟩
        unfold decodeBody at hrecord
        cases hkey : K.ofApiKey hdr.apiKey with
        | none =>
            rw [hkey] at hrecord
            cases hrecord
            exact Or.inl ⟨rfl, rfl⟩
        | some t =>
            rw [hkey] at hrecord
            obtain ⟨b, mid, hb, hrecord⟩ := bind_eq_ok.mp hrecord
            obtain ⟨n, mid', hn, hrecord⟩ := bind_eq_ok.mp hrecord
            cases hn
            split at hrecord
            · cases hrecord
            · rename_i hnil
              cases hrecord
              rw [List.length_eq_zero_iff.mp (not_not.mp hnil)] at hb
              exact Or.inr ⟨t, b, rfl, hb, rfl⟩
  · rintro ⟨hdr, body, hhdr, hv, hr⟩
    refine ⟨r, version, [], ⟨hdr, body, hhdr, ?_⟩, rfl⟩
    rw [hv]
    refine bind_eq_ok.mpr ⟨r, [], ?_, rfl⟩
    unfold decodeBody
    rcases hr with ⟨hkey, rfl⟩ | ⟨t, b, hkey, hb, rfl⟩
    · rw [hkey]
    · rw [hkey]
      exact bind_eq_ok.mpr ⟨b, [], hb, rfl⟩

/-- An envelope that was written is read back. -/
theorem decodeValueHeader_encodeValue (apiKey apiVersion : UInt32) (body : Bytes) :
    decodeValueHeader (encodeValue apiKey apiVersion body) = .ok (⟨apiKey, apiVersion⟩, body) := by
  have hsplit : encodeValue apiKey apiVersion body = encodeValue apiKey apiVersion [] ++ body := by
    simp only [encodeValue, List.append_assoc, List.append_nil]
  rw [hsplit]
  exact reads_header apiKey apiVersion body

theorem length_encodeValue (apiKey apiVersion : UInt32) (body : Bytes) :
    (encodeValue apiKey apiVersion body).length =
      (encodeValue apiKey apiVersion []).length + body.length := by
  simp only [encodeValue, List.length_append, List.append_nil]
  omega

end

/-! ## The two enumerations

Each has its keys and its texts, and nothing else of its own. -/

/-- The record types of the metadata log. -/
inductive MetadataRecordType where
  | registerBroker
  | unregisterBroker
  | topic
  | partition
  | config
  | partitionChange
  | removeTopic
  | delegationToken
  | userScramCredential
  | featureLevel
  | clientQuota
  | producerIds
  | brokerRegistrationChange
  | accessControlEntry
  | removeAccessControlEntry
  | noOp
  | removeUserScramCredential
  | beginTransaction
  | endTransaction
  | removeDelegationToken
  | registerController
  | unregisterController
deriving DecidableEq, Repr

namespace MetadataRecordType

def apiKey : MetadataRecordType → UInt32
  | .registerBroker => 0
  | .unregisterBroker => 1
  | .topic => 2
  | .partition => 3
  | .config => 4
  | .partitionChange => 5
  | .removeTopic => 9
  | .delegationToken => 10
  | .userScramCredential => 11
  | .featureLevel => 12
  | .clientQuota => 14
  | .producerIds => 15
  | .brokerRegistrationChange => 17
  | .accessControlEntry => 18
  | .removeAccessControlEntry => 19
  | .noOp => 20
  | .removeUserScramCredential => 22
  | .beginTransaction => 23
  | .endTransaction => 24
  | .removeDelegationToken => 26
  | .registerController => 27
  | .unregisterController => 29

/-- The arms of `KraftMetadataRecord::decode_value`. -/
def ofApiKey : UInt32 → Option MetadataRecordType
  | 0 => some .registerBroker
  | 2 => some .topic
  | 3 => some .partition
  | 5 => some .partitionChange
  | 9 => some .removeTopic
  | 12 => some .featureLevel
  | 17 => some .brokerRegistrationChange
  | 20 => some .noOp
  | 23 => some .beginTransaction
  | 24 => some .endTransaction
  | 27 => some .registerController
  | 29 => some .unregisterController
  | 1 => some .unregisterBroker
  | 4 => some .config
  | 10 => some .delegationToken
  | 11 => some .userScramCredential
  | 14 => some .clientQuota
  | 15 => some .producerIds
  | 18 => some .accessControlEntry
  | 19 => some .removeAccessControlEntry
  | 22 => some .removeUserScramCredential
  | 26 => some .removeDelegationToken
  | _ => none

/-- `api_key` and the arms of `decode_value` are one mapping. -/
theorem ofApiKey_eq_some {k : UInt32} {t : MetadataRecordType} : ofApiKey k = some t ↔ t.apiKey = k := by
  constructor
  · intro h
    unfold ofApiKey at h
    split at h <;> cases h <;> rfl
  · rintro rfl
    cases t <;> rfl

end MetadataRecordType

def metadataKeys : KeySpace MetadataRecordType where
  apiKey := MetadataRecordType.apiKey
  ofApiKey := MetadataRecordType.ofApiKey
  ofApiKey_eq_some := MetadataRecordType.ofApiKey_eq_some

/-- `KraftMetadataRecord`, over the generated codecs of its bodies. -/
abbrev KraftMetadataRecord (codec : MetadataRecordType → BodyCodec) := Framed codec

namespace KraftMetadataRecord

def texts : Texts where
  envelope
    | .truncated => "metadata record envelope"
    | .unknownFrameVersion _ => "unknown metadata record frame version"
  apiVersion := "metadata record apiVersion"
  trailing := "trailing bytes after metadata record body"

def encodeValue {codec : MetadataRecordType → BodyCodec} (r : KraftMetadataRecord codec) (apiVersion : Int16) :
    Except ProtocolError Bytes :=
  match r with
  | .known t body => do
      let w ← encodeToBytes ((codec t).encode body apiVersion)
      return MetadataValue.encodeValue t.apiKey (apiVersionToU32 apiVersion) w
  | .unknown apiKey _ raw => .ok (MetadataValue.encodeValue apiKey (apiVersionToU32 apiVersion) raw)

def decodeValue (codec : MetadataRecordType → BodyCodec) (value : Bytes) :
    Except ProtocolError (KraftMetadataRecord codec × Int16) :=
  decodeFramed metadataKeys codec texts value

end KraftMetadataRecord

/-- The record types of the tiered-storage log. -/
inductive RemoteLogRecordType where
  | segmentMetadata
  | segmentMetadataUpdate
  | partitionDelete
  | segmentMetadataSnapshot
deriving DecidableEq, Repr

namespace RemoteLogRecordType

def apiKey : RemoteLogRecordType → UInt32
  | .segmentMetadata => 0
  | .segmentMetadataUpdate => 1
  | .partitionDelete => 2
  | .segmentMetadataSnapshot => 3

def ofApiKey : UInt32 → Option RemoteLogRecordType
  | 0 => some .segmentMetadata
  | 1 => some .segmentMetadataUpdate
  | 2 => some .partitionDelete
  | 3 => some .segmentMetadataSnapshot
  | _ => none

theorem ofApiKey_eq_some {k : UInt32} {t : RemoteLogRecordType} : ofApiKey k = some t ↔ t.apiKey = k := by
  constructor
  · intro h
    unfold ofApiKey at h
    split at h <;> cases h <;> rfl
  · rintro rfl
    cases t <;> rfl

end RemoteLogRecordType

def remoteLogKeys : KeySpace RemoteLogRecordType where
  apiKey := RemoteLogRecordType.apiKey
  ofApiKey := RemoteLogRecordType.ofApiKey
  ofApiKey_eq_some := RemoteLogRecordType.ofApiKey_eq_some

/-- `RemoteLogMetadataRecord`. -/
abbrev RemoteLogMetadataRecord (codec : RemoteLogRecordType → BodyCodec) := Framed codec

namespace RemoteLogMetadataRecord

def texts : Texts where
  envelope _ := "remote-log metadata record envelope"
  apiVersion := "remote-log metadata record apiVersion"
  trailing := "trailing bytes after remote-log metadata record body"

/-- A record of a known type is always written at version 0, and an unknown one at its own. -/
def encodeValue {codec : RemoteLogRecordType → BodyCodec} :
    RemoteLogMetadataRecord codec → Except ProtocolError Bytes
  | .known t body => do
      let w ← encodeToBytes ((codec t).encode body 0)
      return MetadataValue.encodeValue t.apiKey 0 w
  | .unknown apiKey apiVersion raw => .ok (MetadataValue.encodeValue apiKey apiVersion raw)

def decodeValue (codec : RemoteLogRecordType → BodyCodec) (value : Bytes) :
    Except ProtocolError (RemoteLogMetadataRecord codec) :=
  Prod.fst <$> decodeFramed remoteLogKeys codec texts value

end RemoteLogMetadataRecord

/-! ## Values at a version

A version is 16 bits on either side of the envelope, and what is decoded is encoded at the version that it
came with. -/

/-- The version of the envelope is what `api_version_to_u32` makes of the one it is narrowed to. -/
theorem apiVersionToU32_of_i16OfLen {v : UInt32} {version : Int16}
    (h : FixedWidth.i16OfLen v.toNat = some version) : apiVersionToU32 version = v := by
  unfold FixedWidth.i16OfLen at h
  split at h
  · rename_i hlt
    cases h
    unfold apiVersionToU32
    rw [show (Int16.ofNat v.toNat).toInt = v.toNat from Int16.toInt_ofNat_of_lt hlt, Int.toNat_natCast,
      UInt32.ofNat_toNat]
  · cases h

/-- A version that is not negative comes back from the envelope. -/
theorem i16OfLen_apiVersionToU32 {version : Int16} (h : 0 ≤ version) :
    FixedWidth.i16OfLen (apiVersionToU32 version).toNat = some version := by
  have hmin : (0 : Int) ≤ version.toInt := Int16.le_iff_toInt_le.mp h
  have hmax := version.toInt_lt
  have hnat : (apiVersionToU32 version).toNat = version.toInt.toNat :=
    UInt32.toNat_ofNat_of_lt' (Nat.lt_trans (show version.toInt.toNat < 2 ^ 15 by omega) (by decide))
  have hback : Int16.ofNat version.toInt.toNat = version := by
    rw [← Int16.toInt_inj, Int16.toInt_ofNat_of_lt (by omega), Int.toNat_of_nonneg hmin]
  unfold FixedWidth.i16OfLen
  rw [hnat, if_pos (by omega), hback]

/-- What the codec read at a version and wrote again at it, it reads as the same. A codec may write less
    than it was given where the version has no place for it, but not less than it read. -/
def BodyCodec.Stable (c : BodyCodec) : Prop :=
  ∀ {version : Int16} {bs rest w : Bytes} {body : c.Body}, c.decode version bs = .ok (body, rest) →
    Wrote (c.encode body version) w → Reads (c.decode version) w body

section
variable {codec : MetadataRecordType → BodyCodec}

theorem KraftMetadataRecord.decodeValue_unknown {apiKey apiVersion : UInt32} {version : Int16}
    (hkey : MetadataRecordType.ofApiKey apiKey = none)
    (hversion : FixedWidth.i16OfLen apiVersion.toNat = some version) (body : Bytes) :
    KraftMetadataRecord.decodeValue codec (MetadataValue.encodeValue apiKey apiVersion body) =
      .ok (.unknown apiKey apiVersion body, version) :=
  decodeFramed_eq_ok.mpr ⟨_, body, decodeValueHeader_encodeValue apiKey apiVersion body, hversion,
    Or.inl ⟨hkey, rfl⟩⟩

theorem KraftMetadataRecord.decodeValue_known {t : MetadataRecordType} {apiVersion : UInt32}
    {version : Int16} {b : (codec t).Body} {w : Bytes}
    (hversion : FixedWidth.i16OfLen apiVersion.toNat = some version)
    (hw : Reads ((codec t).decode version) w b) :
    KraftMetadataRecord.decodeValue codec (MetadataValue.encodeValue t.apiKey apiVersion w) =
      .ok (.known t b, version) :=
  decodeFramed_eq_ok.mpr ⟨_, w, decodeValueHeader_encodeValue t.apiKey apiVersion w, hversion,
    Or.inr ⟨t, b, MetadataRecordType.ofApiKey_eq_some.mpr rfl, hw.all, rfl⟩⟩

end

end Krabka.Protocol.MetadataValue
