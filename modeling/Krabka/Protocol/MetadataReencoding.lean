import Krabka.Protocol.RegisterBrokerRecord

/-!
# `Protocol.MetadataReencoding` — records that are read and written again

A record that is read and written again stays what it was (`KraftMetadataRecord.reencodes`): nothing of a newer
build's record is lost on the way through an older one. Of a record of a known type this asks that the codec
of its body reads back what it wrote of what it had read (`BodyCodec.Stable`). The generated codecs without
tags of their own do (`generatedBodies_stable`).
-/

namespace Krabka.Protocol.MetadataValue

open ByteStream Reader Output PartitionRecord

/-- The generated codecs that are modelled; those of the other record types are `others`. -/
def generatedBodies (others : MetadataRecordType → BodyCodec) : MetadataRecordType → BodyCodec
  | .registerBroker => registerBrokerBody
  | .topic => topicBody
  | .partition => partitionBody
  | .delegationToken => delegationTokenBody
  | .userScramCredential => userScramCredentialBody
  | .featureLevel => featureLevelBody
  | .accessControlEntry => accessControlEntryBody
  | t => others t

theorem generatedBodies_stable (others : MetadataRecordType → BodyCodec) {t : MetadataRecordType}
    (ht : t ∈ [MetadataRecordType.topic, .delegationToken, .userScramCredential, .featureLevel,
      .accessControlEntry]) : (generatedBodies others t).Stable := by
  simp only [List.mem_cons, List.not_mem_nil, or_false] at ht
  rcases ht with rfl | rfl | rfl | rfl | rfl
  · exact topicBody_stable
  · exact delegationTokenBody_stable
  · exact userScramCredentialBody_stable
  · exact featureLevelBody_stable
  · exact accessControlEntryBody_stable

/-- **A record value that is read and written again stays the same record.** What `encode_value` writes at the
    version that `decode_value` gave is decoded to the same record and version. A record of a key that this
    build does not know is always written, in no more bytes than it was read from, and its body is the bytes
    behind the envelope. -/
theorem KraftMetadataRecord.reencodes {codec : MetadataRecordType → BodyCodec} {value : Bytes}
    {r : KraftMetadataRecord codec} {version : Int16}
    (h : KraftMetadataRecord.decodeValue codec value = .ok (r, version))
    (hcodec : ∀ t body, r = .known t body → (codec t).Stable) :
    (∀ again, r.encodeValue version = .ok again →
      KraftMetadataRecord.decodeValue codec again = .ok (r, version)) ∧
    ∀ apiKey apiVersion body, r = .unknown apiKey apiVersion body →
      ∃ again, r.encodeValue version = .ok again ∧ again.length ≤ value.length ∧ body <:+ value ∧
        body <:+ again := by
  obtain ⟨hdr, body, hhdr, hversion, hr⟩ := decodeFramed_eq_ok.mp h
  have hback := apiVersionToU32_of_i16OfLen hversion
  rcases hr with ⟨hkey, rfl⟩ | ⟨t, b, hkey, hb, rfl⟩
  · constructor
    · intro again hagain
      cases hagain
      rw [hback]
      exact KraftMetadataRecord.decodeValue_unknown hkey hversion body
    · rintro _ _ _ ⟨⟩
      obtain ⟨used, rfl, hlen⟩ := decodeValueHeader_eq_ok hhdr
      refine ⟨_, rfl, ?_, List.suffix_append _ _, ?_⟩
      · rw [hback, length_encodeValue, List.length_append]
        omega
      · unfold MetadataValue.encodeValue
        simp only [← List.append_assoc]
        exact List.suffix_append _ _
  · constructor
    · intro again hagain
      obtain ⟨w, hw, hagain⟩ := Results.bind_eq_ok.mp hagain
      cases hagain
      rw [hback]
      exact KraftMetadataRecord.decodeValue_known hversion (hcodec t b rfl hb (encodeToBytes_eq_ok.mp hw))
    · rintro _ _ _ ⟨⟩

/-- A codec of bodies without fields. -/
def emptyBody : BodyCodec where
  Body := Unit
  encode _ _ := pure ()
  decode _ := pure ()

/-- A topic whose key the envelope writes in two bytes where one is enough, and what is written for it. -/
def paddedTopic : Bytes := [0x01, 0x82, 0x00, 0x00, 0x02, 0x61] ++ List.replicate 15 0 ++ [0x05, 0x00]

def topicAgain : Bytes := [0x01, 0x02, 0x00, 0x02, 0x61] ++ List.replicate 15 0 ++ [0x05, 0x00]

theorem KraftMetadataRecord.reencodes_topic :
    KraftMetadataRecord.decodeValue (generatedBodies fun _ => emptyBody) topicAgain =
      .ok (.known .topic (⟨"a", ⟨5⟩, []⟩ : TopicRecord), 0) := by
  have hdecode : KraftMetadataRecord.decodeValue (generatedBodies fun _ => emptyBody) paddedTopic =
      .ok (.known .topic (⟨"a", ⟨5⟩, []⟩ : TopicRecord), 0) := rfl
  refine (KraftMetadataRecord.reencodes hdecode fun t body h => ?_).1 topicAgain rfl
  cases h
  exact generatedBodies_stable _ (by decide)

section
variable {codec : RemoteLogRecordType → BodyCodec}

/-- The same for the tiered-storage log, whose known bodies have no version but 0. -/
theorem RemoteLogMetadataRecord.decodeValue_again (hcodec : ∀ t, (codec t).Stable)
    (hzero : ∀ t version bs b rest, (codec t).decode version bs = .ok (b, rest) → version = 0)
    {value again : Bytes} {r : RemoteLogMetadataRecord codec}
    (h : RemoteLogMetadataRecord.decodeValue codec value = .ok r) (hagain : r.encodeValue = .ok again) :
    RemoteLogMetadataRecord.decodeValue codec again = .ok r := by
  obtain ⟨⟨r', version⟩, hr, rfl⟩ := Results.map_eq_ok.mp h
  obtain ⟨hdr, body, -, hversion, hr⟩ := decodeFramed_eq_ok.mp hr
  refine Results.map_eq_ok.mpr ⟨(r', version), ?_, rfl⟩
  rcases hr with ⟨hkey, rfl⟩ | ⟨t, b, hkey, hb, rfl⟩
  · cases hagain
    exact decodeFramed_eq_ok.mpr ⟨_, body, decodeValueHeader_encodeValue _ _ body, hversion, Or.inl ⟨hkey, rfl⟩⟩
  · obtain ⟨w, hw, hagain⟩ := Results.bind_eq_ok.mp hagain
    cases hagain
    obtain rfl := hzero t version _ b [] hb
    have hread := hcodec t hb (encodeToBytes_eq_ok.mp hw)
    exact decodeFramed_eq_ok.mpr ⟨_, w, decodeValueHeader_encodeValue t.apiKey 0 w, rfl,
      Or.inr ⟨t, b, RemoteLogRecordType.ofApiKey_eq_some.mpr rfl, hread.all, rfl⟩⟩

end

end Krabka.Protocol.MetadataValue
