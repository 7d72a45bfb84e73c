import Krabka.Metadata.Kraft.DowngradeLog
import Krabka.Metadata.MetadataVersion

/-!
# `Metadata.Kraft.FormatChange` — levels that no format change separates

`did_metadata_change` says of each level whether it changed the format of the metadata records. The encoders
and the downgrade look at the level themselves, at fixed thresholds. `unchanged_levels` says that the two
agree: between levels that no change separates, every record is written as the same bytes, and a downgrade
removes the same.
-/

namespace Krabka.Metadata.Kraft

open Collections MetadataImage VersionTable

/-! ## The thresholds

Every level at which the encoders change what they do is one that is marked as a change. -/

/-- Every level at which an encoder or a removal takes another branch changed the format. -/
theorem thresholds_changed : ∀ g ∈ ([8, scramMinLevel, delegationTokenMinLevel, directoryAssignmentMinLevel,
    elrMinLevel, cordonedLogDirsMinLevel, cidrAclMinLevel] : List Int16),
    didMetadataChange g = some true := by
  simp only [List.forall_mem_cons]
  refine ⟨?_, ?_, ?_, ?_, ?_, ?_, ?_, fun g hg => absurd hg List.not_mem_nil⟩ <;> decide

theorem min_le_of_inTable {level : Int16} (h : (didMetadataChange level).isSome) :
    metadataVersionMin ≤ level := by
  have htable : ∀ m ∈ table, metadataVersionMin ≤ m.level := by decide
  obtain ⟨m, hm⟩ := Option.isSome_iff_exists.mp ((Option.isSome_map).symm.trans h)
  obtain ⟨hmem, rfl⟩ := fromFeatureLevel_eq_some.mp hm
  exact htable m hmem

section
variable {a b : Int16} (h : metadataChangedBetween a b = false)
include h

theorem lt_iff_of_unchanged {g : Int16} (hg : didMetadataChange g = some true) : a < g ↔ b < g := by
  rw [← Int16.not_le, ← Int16.not_le, le_iff_of_unchanged h hg]

theorem stripChange_of_unchanged (kr : KraftMetadataRecord) : stripChange a kr = stripChange b kr := by
  have hdirs := lt_iff_of_unchanged h (thresholds_changed directoryAssignmentMinLevel (by simp))
  have hcordoned := lt_iff_of_unchanged h (thresholds_changed cordonedLogDirsMinLevel (by simp))
  cases kr with
  | brokerRegistrationChange c =>
      unfold stripChange
      simp only [hdirs, hcordoned]
  | _ => rfl

theorem recordVersion_of_unchanged (kr : KraftMetadataRecord) : recordVersion a kr = recordVersion b kr := by
  have hmigration := le_iff_of_unchanged h (thresholds_changed 8 (by simp))
  have hdirs := le_iff_of_unchanged h (thresholds_changed directoryAssignmentMinLevel (by simp))
  have helr := le_iff_of_unchanged h (thresholds_changed elrMinLevel (by simp))
  have hcordoned := le_iff_of_unchanged h (thresholds_changed cordonedLogDirsMinLevel (by simp))
  cases kr with
  | partition p =>
      unfold recordVersion
      simp only [hdirs, helr]
  | partitionChange c =>
      unfold recordVersion
      simp only [hdirs, helr]
  | registerBroker r =>
      unfold recordVersion
      simp only [hmigration, hdirs, hcordoned]
  | _ => rfl

theorem frameValue_of_unchanged (codec : Codec) (kr : KraftMetadataRecord) :
    frameValue codec a kr = frameValue codec b kr := by
  unfold frameValue
  simp only [stripChange_of_unchanged h, recordVersion_of_unchanged h]

theorem projectBroker_of_unchanged (broker : BrokerRegistrationRecord) :
    projectBroker a broker = projectBroker b broker := by
  have hdirs := lt_iff_of_unchanged h (thresholds_changed directoryAssignmentMinLevel (by simp))
  have hcordoned := lt_iff_of_unchanged h (thresholds_changed cordonedLogDirsMinLevel (by simp))
  unfold projectBroker
  simp only [hdirs, hcordoned]

theorem downgradeRecords_of_unchanged (ω : MapOrder) (img : MetadataImage) :
    metadataVersionDowngradeRecords ω img a = metadataVersionDowngradeRecords ω img b := by
  have hscram := lt_iff_of_unchanged h (thresholds_changed scramMinLevel (by simp))
  have htoken := lt_iff_of_unchanged h (thresholds_changed delegationTokenMinLevel (by simp))
  have hdirs := lt_iff_of_unchanged h (thresholds_changed directoryAssignmentMinLevel (by simp))
  have hcidr := lt_iff_of_unchanged h (thresholds_changed cidrAclMinLevel (by simp))
  unfold metadataVersionDowngradeRecords cidrAclRemovals scramRemovals tokenRemovals brokerProjections
  simp only [hscram, htoken, hdirs, hcidr, projectBroker_of_unchanged h]

/-- The levels are the same, or both are supported from below. -/
theorem eq_or_min_le_of_unchanged : a = b ∨ metadataVersionMin ≤ a ∧ metadataVersionMin ≤ b := by
  have hupper : ∀ {a b : Int16}, metadataChangedBetween a b = false → a < b → metadataVersionMin ≤ b := by
    intro a b h hab
    refine min_le_of_inTable (Option.isSome_iff_ne_none.mpr fun hnone => ?_)
    have hchanged := (metadataChangedBetween_eq_true (Int16.le_of_lt hab)).mpr
      (Or.inr ⟨b, hab, Int16.le_refl b, by rw [hnone]; decide⟩)
    rw [h] at hchanged
    cases hchanged
  have hfirst : didMetadataChange metadataVersionMin = some true := by decide
  have hiff := le_iff_of_unchanged h hfirst
  rcases Int16.lt_or_le a b with hab | hba
  · have hb := hupper h hab
    exact Or.inr ⟨hiff.mpr hb, hb⟩
  · rcases Int16.lt_or_eq_of_le hba with hba | rfl
    · have ha := hupper (metadataChangedBetween_comm b a ▸ h) hba
      exact Or.inr ⟨ha, hiff.mp ha⟩
    · exact Or.inl rfl

end

/-! ## The log

Two levels on one side of every threshold frame every record alike. -/

/-- The level does not decide which records there are. -/
theorem toKraftRecords_atLevel (codec : Codec) (ω : MapOrder) (r : MetadataRecord) (img : MetadataImage)
    (a b : Int16) : toKraftRecords codec ω r (atLevel img a) = toKraftRecords codec ω r (atLevel img b) := by
  cases r <;> rfl

/-- A record is put on the log as the same blobs at both levels. -/
theorem toKraftValues_of_unchanged {a b : Int16} (h : metadataChangedBetween a b = false) (codec : Codec)
    (ω : MapOrder) (r : MetadataRecord) (img : MetadataImage) :
    toKraftValues codec ω r (atLevel img a) = toKraftValues codec ω r (atLevel img b) := by
  rcases eq_or_min_le_of_unchanged h with rfl | ⟨ha, hb⟩
  · rfl
  · have hframe : frameValue codec a = frameValue codec b := funext (frameValue_of_unchanged h codec)
    unfold toKraftValues
    rw [finalized_atLevel ha, finalized_atLevel hb, toKraftRecords_atLevel codec ω r img a b]
    simp only [hframe]

/-- **Levels that no format change separates are the same on the log.** Whatever the image, a record is written
    as the same blobs at both, and bringing the image down to one removes what bringing it down to the other
    does, and leaves the same log. -/
theorem unchanged_levels {a b : Int16} (h : metadataChangedBetween a b = false) (codec : Codec) (ω : MapOrder)
    (img : MetadataImage) :
    (∀ r, toKraftValues codec ω r (atLevel img a) = toKraftValues codec ω r (atLevel img b)) ∧
      metadataVersionDowngradeRecords ω img a = metadataVersionDowngradeRecords ω img b ∧
      downgradeValues codec ω img a = downgradeValues codec ω img b := by
  have hvalues := fun r => toKraftValues_of_unchanged h codec ω r img
  refine ⟨hvalues, downgradeRecords_of_unchanged h ω img, ?_⟩
  unfold downgradeValues
  simp only [hvalues]

/-- `4.0-IV2` and `4.2-IV1`, and an image with a topic and a partition, whose log both levels write. -/
theorem unchanged_levels_24_29 :
    downgradeValues tabledCodec (HashOrder.sorted MapSite) finalized 24 =
        .ok [topicBlob, eligiblePartitionBlob] ∧
      (∀ r, toKraftValues tabledCodec (HashOrder.sorted MapSite) r (atLevel finalized 24) =
        toKraftValues tabledCodec (HashOrder.sorted MapSite) r (atLevel finalized 29)) ∧
      metadataVersionDowngradeRecords (HashOrder.sorted MapSite) finalized 24 =
        metadataVersionDowngradeRecords (HashOrder.sorted MapSite) finalized 29 ∧
      downgradeValues tabledCodec (HashOrder.sorted MapSite) finalized 24 =
        downgradeValues tabledCodec (HashOrder.sorted MapSite) finalized 29 :=
  ⟨rfl, unchanged_levels (by decide) tabledCodec (HashOrder.sorted MapSite) finalized⟩

end Krabka.Metadata.Kraft
