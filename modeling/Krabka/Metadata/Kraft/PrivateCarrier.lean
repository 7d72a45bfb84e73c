import Krabka.Metadata.Kraft.FromKraft

/-!
# `Metadata.Kraft.PrivateCarrier` — the carrier of krabka-private records

A record without a KIP-631 counterpart rides in a `NoOp` that Kafka skips: one tagged field at the tag of
its kind, whose body is a version and the wincode record. `TagTable` is the tag table of the on-disk
contract; the two functions that state it in the source agree with it (`privateTag_eq_some`).

The carrier is a bijection (`carrier_bijective`): the reader accepts exactly the `NoOp`s that the writer
writes, and gives back the record that was written. Everything else is refused, and `Foreign` says what
there is to refuse. The one assumption is that wincode is canonical: what it reads is a record it writes,
followed by the bytes it leaves.
-/

namespace Krabka.Metadata.Kraft

open Results

/-! ## The version in front of the body

Two bytes, most significant first. -/

theorem i16ToBeBytes_i16OfBeBytes (hi lo : UInt8) :
    i16ToBeBytes (i16OfBeBytes hi lo) = [hi, lo] := by
  unfold i16ToBeBytes i16OfBeBytes
  congr 1
  · apply UInt8.toBitVec_inj.mp
    ext i hlt
    -- the low byte has no bit at `8 + i`
    have hin : 8 + i < 16 := by omega
    have hin' : i < 16 := by omega
    simp [BitVec.getElem_setWidth, hin, hin', BitVec.getLsbD_eq_getElem hlt]
  · congr 1
    apply UInt8.toBitVec_inj.mp
    simp

theorem i16OfBeBytes_i16ToBeBytes (v : Int16) :
    i16OfBeBytes (v.toUInt16 >>> 8).toUInt8 v.toUInt16.toUInt8 = v := by
  unfold i16OfBeBytes
  apply Int16.toBitVec_inj.mp
  simp only [UInt16.toBitVec_toInt16, UInt16.toBitVec_or, UInt16.toBitVec_shiftLeft,
    UInt8.toBitVec_toUInt16, UInt16.toBitVec_toUInt8, UInt16.toBitVec_shiftRight,
    Int16.toBitVec_toUInt16]
  ext i hlt
  by_cases h : i < 8
  · simp [BitVec.getElem_setWidth, h, BitVec.getLsbD_eq_getElem hlt]
  · have hin : i - 8 < 8 := by omega
    have hback : 8 + (i - 8) = i := by omega
    simp [BitVec.getElem_setWidth, h, hin, hback, BitVec.getLsbD_eq_getElem hlt]

theorem i16ToBeBytes_inj {v w : Int16} (h : i16ToBeBytes v = i16ToBeBytes w) : v = w := by
  obtain ⟨hhi, hlo, -⟩ := List.cons_eq_cons.mp h |>.imp_right List.cons_eq_cons.mp
  rw [← i16OfBeBytes_i16ToBeBytes v, ← i16OfBeBytes_i16ToBeBytes w, hhi, hlo]

/-! ## The tag table

The source gives the tags once as constants of the kinds and once as a match; the two agree. -/

/-- The 1.x tag table of the on-disk contract: a tag carries exactly one kind of record. -/
inductive TagTable : UInt32 → MetadataRecord → Prop
  | featuresEpoch (e : FeaturesEpochRecord) : TagTable 1001 (.v1FeaturesEpoch e)
  | partitionOffsetAdvance (a : PartitionOffsetAdvanceRecord) :
      TagTable 1003 (.v1PartitionOffsetAdvance a)
  | topicFreeze (f : TopicFreezeRecord) : TagTable 1004 (.v1TopicFreeze f)
  | breakGlassProposal (p : BreakGlassProposalRecord) : TagTable 1005 (.v1BreakGlassProposal p)
  | deleteBreakGlassProposal (id : Uuid) : TagTable 1006 (.v1DeleteBreakGlassProposal id)

theorem privateTag_eq_some {r : MetadataRecord} {tag : UInt32} :
    privateTag r = some tag ↔ TagTable tag r := by
  constructor
  · intro h
    unfold privateTag at h
    split at h
    · injection h with h; subst h; exact .featuresEpoch _
    · injection h with h; subst h; exact .partitionOffsetAdvance _
    · injection h with h; subst h; exact .topicFreeze _
    · injection h with h; subst h; exact .breakGlassProposal _
    · injection h with h; subst h; exact .deleteBreakGlassProposal _
    · cases h
  · rintro (_ | _ | _ | _ | _) <;> rfl

/-- Every tag of the table is one that the reader checks for. -/
theorem TagTable.assigned {r : MetadataRecord} {tag : UInt32} (h : TagTable tag r) :
    ¬tag < privateTagFloor ∧ privateTags.contains tag = true := by
  cases h <;> decide

/-! ## What is written and what is read

Both directions in one form: a carrier is the tag, the version and the serialized record, and nothing else. -/

/-- What the assumption on wincode is: a record is read from a buffer exactly when its own bytes stand at
    the front, and the rest is what stands behind them. -/
def Codec.Canonical (codec : Codec) : Prop :=
  ∀ bytes r rest, codec.get bytes = .ok (r, rest) ↔ ∃ s, codec.serialize r = .ok s ∧ bytes = s ++ rest

/-- The `NoOp` that carries the wincode bytes `s` at `tag`. -/
def carrierOf (tag : UInt32) (s : List UInt8) : NoOpRecord :=
  ⟨[⟨tag, i16ToBeBytes privateRecordVersion ++ s⟩]⟩

variable {codec : Codec} {n : NoOpRecord} {r : MetadataRecord}

theorem privateCarrier_eq_ok {kr : KraftMetadataRecord} :
    privateCarrier codec r = .ok kr ↔
      ∃ tag s, TagTable tag r ∧ codec.serialize r = .ok s ∧ kr = .noOp (carrierOf tag s) := by
  constructor
  · intro h
    obtain ⟨tag, htag, h⟩ := bind_eq_ok.mp h
    obtain ⟨s, hs, h⟩ := bind_eq_ok.mp h
    rw [pure_eq_ok] at h
    exact ⟨tag, s, privateTag_eq_some.mp (okOr_eq_ok.mp htag), mapError_eq_ok.mp hs, h.symm⟩
  · rintro ⟨tag, s, htag, hs, rfl⟩
    exact bind_eq_ok.mpr ⟨tag, okOr_eq_ok.mpr (privateTag_eq_some.mpr htag),
      bind_eq_ok.mpr ⟨s, mapError_eq_ok.mpr hs, rfl⟩⟩

/-- The reader accepts one field at the tag of the record's kind, our version in front of a body that
    wincode reads to its end. -/
theorem fromPrivateCarrier_eq_ok :
    fromPrivateCarrier codec n = .ok r ↔
      ∃ tag body, TagTable tag r ∧ codec.get body = .ok (r, []) ∧ n = carrierOf tag body := by
  constructor
  · intro h
    obtain ⟨fields⟩ := n
    unfold fromPrivateCarrier at h
    split at h
    · rename_i field hfield
      obtain ⟨tag, bytes⟩ := field
      dsimp only at h hfield
      split at h
      · cases h
      · split at h
        · cases h
        · split at h
          · rename_i hi lo body
            split at h
            · cases h
            · rename_i hversion
              obtain ⟨⟨r', rest⟩, hget, h⟩ := bind_eq_ok.mp h
              dsimp only at h
              split at h
              · cases h
              · rename_i hrest
                split at h
                · cases h
                · rename_i htag
                  injection h with h
                  subst h
                  have hrest : rest = [] := by simpa using hrest
                  subst hrest
                  refine ⟨tag, body, privateTag_eq_some.mp (not_not.mp htag), mapError_eq_ok.mp hget, ?_⟩
                  rw [hfield, carrierOf, ← not_not.mp hversion, i16ToBeBytes_i16OfBeBytes]
                  rfl
          · cases h
    · cases h
  · rintro ⟨tag, body, htag, hget, rfl⟩
    obtain ⟨hfloor, hknown⟩ := htag.assigned
    have htag := privateTag_eq_some.mpr htag
    simp only [fromPrivateCarrier, carrierOf, i16ToBeBytes, List.cons_append, List.nil_append,
      i16OfBeBytes_i16ToBeBytes, hget, hknown, htag, Except.mapError, ok_bind, if_neg hfloor]
    simp

/-! ## What is refused

`Foreign` has one constructor for each way in which a `NoOp` is no carrier. A `NoOp` is either accepted or one
of these. -/

/-- A `NoOp` that is no carrier of ours. -/
inductive Foreign (codec : Codec) : NoOpRecord → Prop
  | untagged : Foreign codec ⟨[]⟩
  | severalTags (a b : UnknownTaggedField) (rest : List UnknownTaggedField) :
      Foreign codec ⟨a :: b :: rest⟩
  | belowFloor {tag : UInt32} (h : tag < privateTagFloor) (body : List UInt8) :
      Foreign codec ⟨[⟨tag, body⟩]⟩
  | burnedTag (body : List UInt8) : Foreign codec ⟨[⟨1002, body⟩]⟩
  | unassignedTag {tag : UInt32} (h : ∀ r, ¬TagTable tag r) (body : List UInt8) :
      Foreign codec ⟨[⟨tag, body⟩]⟩
  | short (tag : UInt32) {body : List UInt8} (h : body.length < 2) : Foreign codec ⟨[⟨tag, body⟩]⟩
  | otherVersion (tag : UInt32) {version : Int16} (h : version ≠ privateRecordVersion)
      (body : List UInt8) : Foreign codec ⟨[⟨tag, i16ToBeBytes version ++ body⟩]⟩
  | malformed (tag : UInt32) {body : List UInt8}
      (h : ∀ r s rest, codec.serialize r = .ok s → body ≠ s ++ rest) :
      Foreign codec (carrierOf tag body)
  | trailingBytes (tag : UInt32) {r : MetadataRecord} {s rest : List UInt8}
      (h : codec.serialize r = .ok s) (hrest : rest ≠ []) : Foreign codec (carrierOf tag (s ++ rest))
  /-- The record of another tag, or of no tag at all. -/
  | otherRecord {tag : UInt32} {r : MetadataRecord} {s : List UInt8}
      (h : codec.serialize r = .ok s) (htag : ¬TagTable tag r) : Foreign codec (carrierOf tag s)

theorem eq_carrierOf {tag tag' : UInt32} {body s : List UInt8}
    (h : (⟨[⟨tag, body⟩]⟩ : NoOpRecord) = carrierOf tag' s) :
    tag = tag' ∧ body = i16ToBeBytes privateRecordVersion ++ s := by
  injection h with h
  obtain ⟨h, -⟩ := List.cons_eq_cons.mp h
  injection h with htag hbody
  exact ⟨htag, hbody⟩

theorem carrierOf_inj {tag tag' : UInt32} {s s' : List UInt8} (h : carrierOf tag s = carrierOf tag' s') :
    tag = tag' ∧ s = s' :=
  (eq_carrierOf h).imp_right List.append_cancel_left

/-- What the reader accepts, under the assumption: the carrier of the bytes that wincode writes. -/
theorem Codec.Canonical.fromPrivateCarrier_eq_ok (hc : codec.Canonical) :
    fromPrivateCarrier codec n = .ok r ↔
      ∃ tag s, TagTable tag r ∧ codec.serialize r = .ok s ∧ n = carrierOf tag s := by
  constructor
  · intro h
    obtain ⟨tag, body, htag, hget, hn⟩ := Kraft.fromPrivateCarrier_eq_ok.mp h
    obtain ⟨s, hs, hbody⟩ := (hc body r []).mp hget
    rw [List.append_nil] at hbody
    exact ⟨tag, s, htag, hs, hn.trans (by rw [hbody])⟩
  · rintro ⟨tag, s, htag, hs, hn⟩
    exact Kraft.fromPrivateCarrier_eq_ok.mpr
      ⟨tag, s, htag, (hc s r []).mpr ⟨s, hs, (List.append_nil s).symm⟩, hn⟩

/-- The same bytes are not the bytes of one record and the start of another. -/
theorem Codec.Canonical.serialize_append (hc : codec.Canonical) {r r' : MetadataRecord}
    {s rest : List UInt8} (h : codec.serialize r = .ok s) (h' : codec.serialize r' = .ok (s ++ rest)) :
    r = r' ∧ rest = [] := by
  have hget := (hc (s ++ rest) r rest).mpr ⟨s, h, rfl⟩
  have hget' := (hc (s ++ rest) r' []).mpr ⟨s ++ rest, h', (List.append_nil _).symm⟩
  have := hget.symm.trans hget'
  injection this with this
  injection this with hr hrest
  exact ⟨hr, hrest⟩

theorem not_foreign_of_accepted (hc : codec.Canonical) (h : fromPrivateCarrier codec n = .ok r) :
    ¬Foreign codec n := by
  obtain ⟨tag, s, htag, hs, hn⟩ := hc.fromPrivateCarrier_eq_ok.mp h
  intro hf
  cases hf with
  | untagged => cases hn
  | severalTags a b rest => cases hn
  | belowFloor hlt body =>
    obtain ⟨rfl, -⟩ := eq_carrierOf hn
    exact htag.assigned.1 hlt
  | burnedTag body =>
    obtain ⟨rfl, -⟩ := eq_carrierOf hn
    cases htag
  | unassignedTag hnone body =>
    obtain ⟨rfl, -⟩ := eq_carrierOf hn
    exact hnone r htag
  | short tag' hlt =>
    obtain ⟨-, rfl⟩ := eq_carrierOf hn
    exact absurd hlt (by simp [i16ToBeBytes])
  | otherVersion tag' hversion body =>
    obtain ⟨-, hbody⟩ := eq_carrierOf hn
    exact hversion (i16ToBeBytes_inj (List.append_inj hbody rfl).1)
  | malformed tag' hbody =>
    obtain ⟨-, rfl⟩ := carrierOf_inj hn
    exact hbody r _ [] hs (List.append_nil _).symm
  | trailingBytes tag' hs' hrest =>
    obtain ⟨-, rfl⟩ := carrierOf_inj hn
    exact hrest (hc.serialize_append hs' hs).2
  | @otherRecord tag' r' s' hs' hother =>
    obtain ⟨rfl, rfl⟩ := carrierOf_inj hn
    have hs : codec.serialize r = .ok (s' ++ []) := by
      rw [List.append_nil]
      exact hs
    obtain ⟨rfl, -⟩ := hc.serialize_append hs' hs
    exact hother htag

theorem accepted_of_not_foreign (hc : codec.Canonical) (h : ¬Foreign codec n) :
    ∃ r, fromPrivateCarrier codec n = .ok r := by
  obtain ⟨fields⟩ := n
  rcases fields with - | ⟨⟨tag, bytes⟩, - | ⟨b, rest⟩⟩
  · exact absurd .untagged h
  · rcases bytes with - | ⟨hi, - | ⟨lo, body⟩⟩
    · exact absurd (.short tag (by decide)) h
    · exact absurd (.short tag (Nat.lt_succ_self 1)) h
    · -- two bytes are a version, and it is ours
      have hbytes : hi :: lo :: body = i16ToBeBytes (i16OfBeBytes hi lo) ++ body := by
        rw [i16ToBeBytes_i16OfBeBytes]
        rfl
      rw [hbytes] at h ⊢
      by_cases hversion : i16OfBeBytes hi lo = privateRecordVersion
      · rw [hversion] at h ⊢
        by_cases hread : ∃ r s rest, codec.serialize r = .ok s ∧ body = s ++ rest
        · obtain ⟨r, s, rest, hs, rfl⟩ := hread
          rcases rest with - | ⟨x, rest⟩
          · rw [List.append_nil] at h ⊢
            have htag : TagTable tag r := not_not.mp (fun ht => h (.otherRecord hs ht))
            exact ⟨r, hc.fromPrivateCarrier_eq_ok.mpr ⟨tag, s, htag, hs, rfl⟩⟩
          · exact absurd (.trailingBytes tag hs (List.cons_ne_nil x rest)) h
        · push Not at hread
          exact absurd (.malformed tag hread) h
      · exact absurd (.otherVersion tag hversion body) h
  · exact absurd (.severalTags _ b rest) h

theorem refused_iff_foreign (hc : codec.Canonical) :
    (∃ e, fromPrivateCarrier codec n = .error e) ↔ Foreign codec n := by
  constructor
  · rintro ⟨e, he⟩
    by_contra hn
    obtain ⟨r, hr⟩ := accepted_of_not_foreign hc hn
    cases he.symm.trans hr
  · intro hf
    cases h : fromPrivateCarrier codec n with
    | ok r => exact absurd hf (not_foreign_of_accepted hc h)
    | error e => exact ⟨e, rfl⟩

/-! ## The bijection

From the two forms above, for every `NoOp` and every private record. -/

/-- **The krabka-private carrier is a bijection.** The reader accepts exactly what the writer writes for
    the record it returns; the writer writes a `NoOp` for the records of the tag table and for no others,
    and each comes back; every other `NoOp` is foreign, and the foreign ones are what the reader
    refuses. -/
theorem carrier_bijective (hc : codec.Canonical) :
    (∀ n r, fromPrivateCarrier codec n = .ok r ↔ privateCarrier codec r = .ok (.noOp n)) ∧
    (∀ r kr, privateCarrier codec r = .ok kr → ∃ tag n, TagTable tag r ∧ kr = .noOp n) ∧
    (∀ tag r s, TagTable tag r → codec.serialize r = .ok s →
      ∃ n, privateCarrier codec r = .ok (.noOp n) ∧ fromPrivateCarrier codec n = .ok r) ∧
    ∀ n, ((∃ e, fromPrivateCarrier codec n = .error e) ↔ Foreign codec n) ∧
      (Foreign codec n ↔ ∀ r, privateCarrier codec r ≠ .ok (.noOp n)) := by
  have hiff : ∀ n r, fromPrivateCarrier codec n = .ok r ↔ privateCarrier codec r = .ok (.noOp n) := by
    intro n r
    rw [hc.fromPrivateCarrier_eq_ok, privateCarrier_eq_ok]
    simp only [KraftMetadataRecord.noOp.injEq]
  refine ⟨hiff, ?_, ?_, fun n => ⟨refused_iff_foreign hc, ?_, ?_⟩⟩
  · intro r kr h
    obtain ⟨tag, s, htag, -, hkr⟩ := privateCarrier_eq_ok.mp h
    exact ⟨tag, carrierOf tag s, htag, hkr⟩
  · intro tag r s htag hs
    have hwrite : privateCarrier codec r = .ok (.noOp (carrierOf tag s)) :=
      privateCarrier_eq_ok.mpr ⟨tag, s, htag, hs, rfl⟩
    exact ⟨carrierOf tag s, hwrite, (hiff _ r).mpr hwrite⟩
  · intro hf r hr
    exact not_foreign_of_accepted hc ((hiff n r).mpr hr) hf
  · intro hnone
    by_contra hf
    obtain ⟨r, hr⟩ := accepted_of_not_foreign hc hf
    exact hnone r ((hiff n r).mp hr)

/-- The wincode bytes of the features epoch 7: the index of the variant, then the epoch, both
    little-endian. -/
def epochBytes : List UInt8 := [0x13, 0, 0, 0, 7, 0, 0, 0, 0, 0, 0, 0]

/-- wincode on the features epoch 7, and on nothing else. -/
def epochCodec : Codec :=
  { Codec.ofTable [] with
    serialize := fun r => if r = .v1FeaturesEpoch ⟨7⟩ then .ok epochBytes else .error "not in the table"
    get := fun bytes =>
      if epochBytes <+: bytes then .ok (.v1FeaturesEpoch ⟨7⟩, bytes.drop epochBytes.length)
      else .error "not in the table" }

theorem epochCodec_canonical : epochCodec.Canonical := by
  intro bytes r rest
  show (if epochBytes <+: bytes then Except.ok _ else .error _) = _ ↔
    ∃ s, (if r = .v1FeaturesEpoch ⟨7⟩ then Except.ok epochBytes else .error _) = _ ∧ _
  constructor
  · intro h
    split at h
    · rename_i hpre
      obtain ⟨tail, rfl⟩ := hpre
      injection h with h
      injection h with hr hrest
      rw [List.drop_left] at hrest
      exact ⟨epochBytes, if_pos hr.symm, by rw [hrest]⟩
    · cases h
  · rintro ⟨s, hs, rfl⟩
    split at hs
    · rename_i hr
      injection hs with hs
      subst hs hr
      rw [if_pos (List.prefix_append epochBytes rest), List.drop_left]
    · cases hs

/-- The features epoch 7 rides at tag 1001 and comes back. At the tag of a topic freeze, and with a byte
    behind it, it is refused. -/
theorem carrier_bijective_epoch :
    privateCarrier epochCodec (.v1FeaturesEpoch ⟨7⟩) = .ok (.noOp ⟨[⟨1001, 0 :: 0 :: epochBytes⟩]⟩) ∧
    fromPrivateCarrier epochCodec ⟨[⟨1001, 0 :: 0 :: epochBytes⟩]⟩ = .ok (.v1FeaturesEpoch ⟨7⟩) ∧
    (∃ e, fromPrivateCarrier epochCodec ⟨[⟨1004, 0 :: 0 :: epochBytes⟩]⟩ = .error e) ∧
    ∃ e, fromPrivateCarrier epochCodec ⟨[⟨1001, 0 :: 0 :: (epochBytes ++ [0])⟩]⟩ = .error e := by
  have hs : epochCodec.serialize (.v1FeaturesEpoch ⟨7⟩) = .ok epochBytes := by
    simp [epochCodec]
  have hwrite : privateCarrier epochCodec (.v1FeaturesEpoch ⟨7⟩) =
      .ok (.noOp (carrierOf 1001 epochBytes)) :=
    privateCarrier_eq_ok.mpr ⟨1001, epochBytes, .featuresEpoch _, hs, rfl⟩
  obtain ⟨hread, -, -, hrefuse⟩ := carrier_bijective epochCodec_canonical
  refine ⟨hwrite, (hread _ _).mpr hwrite, (hrefuse _).1.mpr ?_, (hrefuse _).1.mpr ?_⟩
  · exact .otherRecord hs (by rintro ⟨⟩)
  · exact .trailingBytes 1001 hs (List.cons_ne_nil 0 [])

end Krabka.Metadata.Kraft
