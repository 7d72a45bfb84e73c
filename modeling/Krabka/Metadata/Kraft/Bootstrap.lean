import Krabka.Metadata.Feature
import Krabka.Metadata.Kraft.FromKraft
import Krabka.Protocol.BootstrapCheckpoint

/-!
# `Metadata.Kraft.Bootstrap` — from the bootstrap levels to the image of a fresh node

The levels that the bootstrap resolves are written to a checkpoint; a node reads the checkpoint as records,
takes the values of its data batch through the translation and applies what comes out. `bootstrap_restores`
follows the way to its end: the node's image is the one that the bootstrap records themselves lead to.
-/

namespace Krabka.Metadata.Kraft

open ByteStream Collections Results
open Protocol (MetadataValue.BodyCodec MetadataValue.MetadataRecordType metadataCodecs)

/-! ## The generated decoder as the log's codec

The translation reads what the decoder of the metadata log gives it. -/

section
variable {other : MetadataValue.MetadataRecordType → MetadataValue.BodyCodec}
variable (view : ∀ t, (metadataCodecs other t).Body → KraftMetadataRecord)

/-- A decoded record in the form that the translation takes. Of the types other than feature levels, `view`
    gives it. -/
def recordView : Protocol.MetadataValue.KraftMetadataRecord (metadataCodecs other) → KraftMetadataRecord
  | .known .featureLevel (body : Protocol.FeatureLevelRecord) =>
    .featureLevel { name := body.name, featureLevel := body.featureLevel }
  | .known t body => view t body
  | .unknown apiKey apiVersion raw => .unknown apiKey apiVersion raw

/-- The codec of a log whose values the generated decoder reads. -/
def generatedCodec (base : Codec) : Codec :=
  { base with
    decodeValue := fun value =>
      ((fun e => (recordView view e.1, e.2)) <$>
        Protocol.MetadataValue.KraftMetadataRecord.decodeValue (metadataCodecs other) value).mapError
          Protocol.ProtocolError.message }

variable {view} {base : Codec}

/-- A decoded feature level is translated to its record, whatever the image. -/
theorem fromKraftValue_featureLevel {value : Bytes} {name : String} {level : Int16}
    (h : Protocol.MetadataValue.KraftMetadataRecord.decodeValue (metadataCodecs other) value =
      .ok (Protocol.featureLevel other name level, Protocol.featureLevelApiVersion))
    (ω : MapOrder) (img : MetadataImage) :
    fromKraftValue (generatedCodec view base) ω value img =
      .ok (.v1FeatureLevel { name := name, level := level }) := by
  have hdecode : (generatedCodec view base).decodeValue value =
      .ok (.featureLevel { name := name, featureLevel := level }, Protocol.featureLevelApiVersion) := by
    unfold generatedCodec
    simp only [h]
    rfl
  unfold fromKraftValue
  rw [hdecode]
  rfl

/-- The records of a data batch replay as the feature records of its levels. -/
theorem replay_holdsFeature {ls : List (String × Int16)} {k : Nat} {records : List Protocol.Records.Record}
    (h : List.Forall₂ (Protocol.HoldsFeature other) (ls.zipIdx k) records) :
    ∃ values, records.map (·.value) = values.map some ∧ ∀ ωs img,
      replay (generatedCodec view base) ωs img values = .ok
        ((ls.map fun e => .v1FeatureLevel { name := e.1, level := e.2 }).foldl MetadataImage.apply img) := by
  induction ls generalizing k records with
  | nil =>
      cases h
      exact ⟨[], rfl, fun _ _ => rfl⟩
  | cons e rest ih =>
      rw [List.zipIdx_cons] at h
      cases h with
      | cons hhead htail =>
          obtain ⟨-, value, hvalue, hdecode⟩ := hhead
          obtain ⟨values, hvalues, hreplay⟩ := ih htail
          refine ⟨value :: values, by rw [List.map_cons, List.map_cons, hvalue, hvalues], fun ωs img => ?_⟩
          refine bind_eq_ok.mpr ⟨_, fromKraftValue_featureLevel hdecode (ωs 0) img, ?_⟩
          exact hreplay _ _

end

/-! ## From the levels to the image

Every record of the data batch is a level, and the translation sets it. -/

/-- The names of the registry are short. -/
theorem roomFor_bootstrapLevels (mv : Int16) (overrides : BTreeMap String Int16) :
    Protocol.RoomFor (bootstrapLevels mv overrides) := by
  have hnames : ∀ f ∈ featureRegistry, f.name.utf8ByteSize ≤ 32 := by
    rw [forall_registry]
    decide
  have hsizes : ∀ n ∈ (bootstrapLevels mv overrides).map fun f => f.1.utf8ByteSize + 57, n ≤ 89 := by
    intro n hn
    obtain ⟨e, he, rfl⟩ := List.mem_map.mp hn
    obtain ⟨f, hf, -, -, rfl⟩ := mem_bootstrapLevels_iff.mp he
    have := hnames f hf
    show f.name.utf8ByteSize + 57 ≤ 89
    omega
  have hsum := List.sum_le_card_nsmul _ _ hsizes
  have hlength := bootstrapLevels_length mv overrides
  have height : featureRegistry.length = 8 := rfl
  rw [List.length_map, smul_eq_mul] at hsum
  unfold Protocol.RoomFor
  omega

section
variable (other : MetadataValue.MetadataRecordType → MetadataValue.BodyCodec)
variable (view : ∀ t, (metadataCodecs other t).Body → KraftMetadataRecord)
variable (codecs : Compression.Codecs) (base : Codec)

/-- **A formatted node starts at the levels that it was formatted with.** For every bootstrap level and every
    set of overrides a checkpoint of the resolved levels is built. It is read as a header, one data batch with
    these levels in order and a footer, and the values of the data batch replay on an empty image to the image
    that the bootstrap records lead to: every feature at its resolved level, and no other finalized. -/
theorem bootstrap_restores [Protocol.Records.CrcFast] (mv : Int16) (overrides : BTreeMap String Int16) (clusterId : Uuid) :
    ∃ out header data footer, ∃ footerOffset : Int64, ∃ values img,
      Protocol.buildBootstrapCheckpoint other codecs
        (levelsOf (bootstrapFeatureRecordsWithOverrides mv overrides)) = .ok out ∧
      Protocol.Records.fromBytes codecs out = .ok (.v2 [header, data, footer]) ∧
      Protocol.HoldsControl header 0 (.snapshotHeader {}) ∧
      Protocol.HoldsFeatures other data (levelsOf (bootstrapFeatureRecordsWithOverrides mv overrides)) ∧
      footerOffset.toInt = 1 + (levelsOf (bootstrapFeatureRecordsWithOverrides mv overrides)).length ∧
      Protocol.HoldsControl footer footerOffset (.snapshotFooter {}) ∧
      data.records.map (·.value) = values.map some ∧
      (∀ ωs, replay (generatedCodec view base) ωs (.new clusterId) values = .ok img) ∧
      img = (bootstrapFeatureRecordsWithOverrides mv overrides).foldl MetadataImage.apply (.new clusterId) ∧
      ∀ name : String, img.featureLevels[name]? = bootstrapLevel mv overrides name := by
  obtain ⟨out, hout⟩ := Protocol.buildBootstrapCheckpoint_isOk (roomFor_bootstrapLevels mv overrides)
  obtain ⟨header, data, footer, offset, hread, hheader, hdata, hoffset, hfooter⟩ :=
    Protocol.batches_of_built hout
  obtain ⟨values, hvalues, hreplay⟩ := @replay_holdsFeature other view base _ 0 _ hdata.records
  have hfold := foldl_bootstrap mv overrides (.new clusterId) rfl
  have himg := fun ωs => (hreplay ωs (.new clusterId)).trans
    (congrArg (fun rs => Except.ok (List.foldl MetadataImage.apply (.new clusterId) rs))
      (records_eq_map mv overrides).symm)
  refine ⟨out, header, data, footer, offset, values, _, hout, hread, hheader, hdata, hoffset, hfooter, hvalues,
    himg, rfl, fun name => ?_⟩
  rw [hfold]
  exact get_bootstrapFeatures mv overrides name

end

end Krabka.Metadata.Kraft
