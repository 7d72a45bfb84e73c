import Krabka.Codegen.Flavours

/-!
# `Codegen.FlavourDifferences` — where the two flavours of a schema part

A struct type that is reached and does not match shows: there is an input of the message that the owned flavour
accepts, and on which the borrowed one fails or answers another value. It is put together from the inside out,
out of probes: every field that does not matter has the shortest input that its type takes, an array on the way
has one element, and a nullable struct on the way its marker. So the flavours agree exactly where the structs
that the version reaches match (`flavours_agree_iff`).
-/

namespace Krabka.Codegen

open ByteStream Reader Krabka.Protocol PairedLists
open Records (RecordsCodec recordsPayload)

variable {ρ : Type}

/-! ## Expressions

Every type has a shortest input that its readers accept. Around a struct that differs, that input is extended
by one element or one marker. -/

section
variable {records : RecordsCodec ρ} {borrow : Bytes → Except ProtocolError ρ} {owned : String → Codec ρ}
  {callee : String → Int16 → Decode (Value ρ)} {lenient : Bool} {version : Int16} {flex nullable : Bool}
  {differs : String → Prop}

/-- The shortest input of a type that holds no struct. -/
theorem exists_shortest {b : BaseType} (hcoded : b ≠ .uint32 ∧ ∀ text, b ≠ .other text) (hrecords : b ≠ .records)
    (hstruct : ∀ name, b ≠ .struct name) :
    ∃ w v, Reads (decodeBase records owned lenient version flex b nullable) w v := by
  have hexact : ∀ {α : Type} {x : Encode} {n : Nat} {d : Decode α} {a : α} (g : α → Value ρ), Exact x n d a →
      ∃ w v, Reads (d >>= fun a => pure (g a)) w v := by
    rintro α x n d a g ⟨w, -, -, hread, -⟩
    exact ⟨w, g a, hread.map g⟩
  have hshort : LenFits flex (2 ^ 15) "".utf8ByteSize := by cases flex <;> decide
  have hlong : LenFits flex (2 ^ 31) ([] : Bytes).length := by cases flex <;> decide
  cases b with
  | bool => exact hexact Value.bool (exact_putBool false)
  | int8 => exact hexact Value.int8 (exact_putI8 0)
  | int16 => exact hexact Value.int16 (exact_putI16 0)
  | int32 => exact hexact Value.int32 (exact_putI32 0)
  | int64 => exact hexact Value.int64 (exact_putI64 0)
  | uint16 => exact hexact Value.uint16 (exact_putU16 0)
  | float64 => exact hexact Value.float64 (exact_putF64 0)
  | uuid => exact hexact Value.uuid (exact_putUuid Uuid.zero)
  | string =>
      cases nullable with
      | false => exact hexact Value.string (exact_string hshort)
      | true => exact hexact (ofOption Value.string) (exact_nullableString (s := none) (by simp))
  | bytes =>
      cases nullable with
      | false => exact hexact Value.bytes (exact_bytes hlong)
      | true => exact hexact (ofOption Value.bytes) (exact_nullableBytes (b := none) (by simp))
  | records => exact absurd rfl hrecords
  | struct name => exact absurd rfl (hstruct name)
  | uint32 => exact absurd rfl hcoded.1
  | other text => exact absurd rfl (hcoded.2 text)

/-- A call is told apart where the struct inside is. -/
theorem probe_decodeCall {t : FieldType} (hcoded : t.inner ≠ .uint32 ∧ ∀ text, t.inner ≠ .other text)
    (hrecords : t.inner ≠ .records)
    (hchild : ∀ name, t.inner = .struct name → t = .base (.struct name) ∨ differs name →
      Probe ((owned name).decode version) (callee name version) (differs name)) :
    Probe (decodeCall records owned lenient version flex t nullable)
      (decodeBorrowCall borrow callee version flex t nullable) (∃ name, t.inner = .struct name ∧ differs name) := by
  induction t generalizing nullable with
  | base b =>
      by_cases hstruct : ∃ name, b = .struct name
      · obtain ⟨name, rfl⟩ := hstruct
        have hname : (∃ other, BaseType.struct name = .struct other ∧ differs other) → differs name := by
          rintro ⟨other, hother, h⟩
          rwa [BaseType.struct.inj hother]
        have hone := (hchild name rfl (.inl rfl)).mono hname
        cases nullable with
        | false => exact hone
        | true => exact .behind (reads_putI8 1) hone
      · have hplain : ∀ name, b ≠ .struct name := fun name h => hstruct ⟨name, h⟩
        obtain ⟨w, v, hread⟩ := @exists_shortest _ records owned lenient version flex nullable b hcoded hrecords hplain
        refine (Probe.of_alike hread (alike_decodeBorrowCall (t := .base b) (fun name h => ?_) hrecords)).mono ?_
        · exact absurd h (hplain name)
        · rintro ⟨name, h, -⟩
          exact hplain name h
  | array elem ih =>
      have hinj : Function.Injective (ofOption (Value.array (ρ := ρ))) :=
        ofOption_injective (fun _ _ => Value.array.inj) nofun
      by_cases hdiffers : ∃ name, elem.inner = .struct name ∧ differs name
      · obtain ⟨name, hname, hd⟩ := hdiffers
        have helem := @ih false hcoded hrecords fun other hother _ => hchild other hother (.inr ?_)
        · cases nullable with
          | false => exact (probe_getArray flex helem).map fun _ _ hne heq => hne (Value.array.inj heq)
          | true => exact (probe_getNullableArray flex helem).map fun _ _ hne heq => hne (hinj heq)
        · cases hname.symm.trans hother
          exact hd
      · cases nullable with
        | false =>
            exact ((probe_getArray_nil flex _ _).map fun _ _ hne heq => hne (Value.array.inj heq)).mono hdiffers
        | true =>
            exact ((probe_getNullableArray_nil flex _ _).map fun _ _ hne heq => hne (hinj heq)).mono hdiffers

/-! ## Positional fields

The fields in front of the one that differs and those behind it read their shortest inputs, in both flavours.
-/

variable {d : StructDef} {map : ResMap}

/-- What shows of a field: the default that it keeps, or a struct inside. -/
def FieldSpec.Differs (version : Int16) (differs : String → Prop) (f : FieldSpec) (o dflt : Value ρ) : Prop :=
  if f.keepsDefault version then o ≠ dflt else ∃ name, f.fieldType.inner = .struct name ∧ differs name

theorem probe_untagged {f : FieldSpec} (hc : f.FlavoursCompile)
    (hchild : f.keepsDefault version = false → ∀ name, f.fieldType.inner = .struct name →
      f.fieldType = .base (.struct name) ∨ differs name →
      Probe ((owned name).decode version) (callee name version) (differs name)) (o dflt : Value ρ) :
    Probe (d.decodeUntagged records owned lenient version (f, o)) (d.borrowUntagged borrow callee version (f, dflt))
      (f.Differs version differs o dflt) := by
  unfold FieldSpec.Differs StructDef.decodeUntagged StructDef.borrowUntagged decodeOne decodeBorrowOne
  unfold FieldSpec.keepsDefault at hchild ⊢
  have hpure : Probe (pure o : Decode (Value ρ)) (pure dflt) (o ≠ dflt) :=
    .of_reads (Reads.pure o) (Reads.pure dflt) Ne.symm
  dsimp only
  cases htag : f.isTagged with
  | true => exact hpure
  | false =>
      cases hversion : versionCond f.versions version with
      | false => exact hpure
      | true =>
          rw [htag, hversion] at hchild
          have hcall := hchild rfl
          simp only [Bool.not_true, Bool.or_false, Bool.false_eq_true, if_false, if_true]
          cases f.form version <;> exact probe_decodeCall hc.coded hc.noRecords hcall

theorem probe_positional {fields : List FieldSpec} {os ds : List (Value ρ)} (hos : os.length = fields.length)
    (hds : ds.length = fields.length) (hc : ∀ f ∈ fields, f.FlavoursCompile)
    (hchild : ∀ f ∈ fields, f.keepsDefault version = false → ∀ name, f.fieldType.inner = .struct name →
      f.fieldType = .base (.struct name) ∨ differs name →
      Probe ((owned name).decode version) (callee name version) (differs name)) :
    Probe (d.decodePositional records owned lenient version (fields.zip os))
      (d.borrowPositional borrow callee version (fields.zip ds))
      (∃ p ∈ fields.zip (os.zip ds), p.1.Differs version differs p.2.1 p.2.2) := by
  induction fields generalizing os ds with
  | nil =>
      refine (Probe.of_reads (Reads.pure []) (Reads.pure []) (D := False) False.elim).mono ?_
      rintro ⟨p, hp, -⟩
      exact List.not_mem_nil hp
  | cons f fields ih =>
      obtain ⟨o, os, rfl⟩ := List.exists_cons_of_length_eq_add_one hos
      obtain ⟨dflt, ds, rfl⟩ := List.exists_cons_of_length_eq_add_one hds
      rw [List.length_cons, List.length_cons, Nat.add_right_cancel_iff] at hos hds
      have hone := @probe_untagged _ records borrow owned callee lenient version differs d f
        (hc f List.mem_cons_self) (hchild f List.mem_cons_self) o dflt
      have hrest := ih hos hds (fun g hg => hc g (List.mem_cons_of_mem f hg))
        fun g hg => hchild g (List.mem_cons_of_mem f hg)
      refine (Probe.cons hone hrest).mono ?_
      rw [List.zip_cons_cons, List.zip_cons_cons, List.exists_mem_cons_iff]
      exact id

end

/-! ## The tagged section

An empty section, or one with a single entry for the tag that differs. -/

/-- A tagged section without known and unknown fields. -/
theorem readTaggedFieldsInto_zero {σ : Type} (known : UInt32 → σ → Decode (Option σ)) (s : σ) (rest : Bytes) :
    readTaggedFieldsInto known s (putUvarint 0 ++ rest) = .ok ((s, []), rest) := by
  unfold readTaggedFieldsInto
  rw [bind_of_ok (reads_putUvarint 0 rest)]
  rfl

/-- A tagged section of one field, whose payload is one byte. -/
def oneByteSection (tag : UInt32) (b : UInt8) : Bytes := putUvarint 1 ++ (putUvarint tag ++ (putUvarint 1 ++ [b]))

section
variable {σ : Type} {known : UInt32 → σ → Decode (Option σ)} {s : σ} {tag : UInt32} {b : UInt8} {rest : Bytes}

theorem readTaggedFieldsInto_one :
    readTaggedFieldsInto known s (oneByteSection tag b ++ rest) =
      (do let (recognized, left) ← inside [b] (known tag s)
          match recognized with
          | none => return (s, [⟨tag, [b]⟩])
          | some t =>
              if left.isEmpty then return (t, [])
              else throw (.invalidValue "tagged field decoder did not consume all bytes") :
        Decode (σ × UnknownTaggedFields)) rest := by
  have htake : takeBytes (1 : UInt32).toNat ([b] ++ rest) = .ok ([b], rest) := take_eq_ok.mpr ⟨rfl, rfl⟩
  have hcount : (1 : UInt32).toNat = 1 := rfl
  unfold readTaggedFieldsInto oneByteSection
  simp only [List.append_assoc]
  rw [bind_of_ok (reads_putUvarint 1 _), hcount]
  simp only [loop, bind_pure]
  unfold readTaggedFieldInto
  simp only [bind_assoc]
  rw [bind_of_ok (reads_putUvarint tag _)]
  simp only [Option.any_none, Bool.false_eq_true, if_false, bind_assoc]
  rw [bind_of_ok (reads_putUvarint 1 _), bind_of_ok htake]
  refine congrFun (bind_congr fun x => ?_) rest
  obtain ⟨recognized, left⟩ := x
  cases recognized with
  | none => rfl
  | some t => cases left <;> rfl

theorem readTaggedFieldsInto_of_known {t : σ} (h : known tag s [b] = .ok (some t, [])) :
    readTaggedFieldsInto known s (oneByteSection tag b ++ rest) = .ok ((t, []), rest) := by
  rw [readTaggedFieldsInto_one, bind_of_ok (inside_eq_ok.mpr ⟨h, rfl⟩)]
  rfl

theorem known_of_readTaggedFieldsInto {p : (σ × UnknownTaggedFields) × Bytes}
    (h : readTaggedFieldsInto known s (oneByteSection tag b ++ rest) = .ok p) :
    ∃ o left, p.2 = rest ∧ known tag s [b] = .ok (o, left) ∧ ∀ t ∈ o, p.1.1 = t := by
  rw [readTaggedFieldsInto_one] at h
  obtain ⟨q, r⟩ := p
  obtain ⟨⟨o, left⟩, mid, hknown, h⟩ := bind_eq_ok.mp h
  obtain ⟨hone, rfl⟩ := inside_eq_ok.mp hknown
  cases o with
  | none =>
      cases h
      exact ⟨none, left, rfl, hone, fun t ht => by cases ht⟩
  | some t =>
      dsimp only at h
      split at h
      · cases h
        exact ⟨some t, left, rfl, hone, fun t' ht => by cases ht; rfl⟩
      · cases h

end

section
variable {records : RecordsCodec ρ} {borrow : Bytes → Except ProtocolError ρ} {owned : String → Codec ρ}
  {callee : String → Int16 → Decode (Value ρ)} {structs : String → Value ρ} {lenient : Bool}
  {version : Int16} {d : StructDef} {map : ResMap} {defaults : List (Value ρ)} {D : Prop}

/-- The place of a field whose arm is taken, among slots that nothing has been read to. -/
theorem exists_arm {fields : List FieldSpec} {tag : UInt32} {f : FieldSpec}
    (hf : fields.find? (fun g => g.tag = some tag) = some f) (hvalid : f.tagValid d.flexMin version) :
    ∃ i < fields.length, ∀ (read : FieldSpec → Decode (Value ρ)) bs slots left,
      d.arms version read (fields.zip (fields.map fun _ => none)) tag bs = .ok (slots, left) ↔
        ∃ v, read f bs = .ok (v, left) ∧ slots = some ((fields.map fun _ => none).set i (some v)) := by
  induction fields with
  | nil => cases hf
  | cons g fields ih =>
      have hsnd : (fields.zip (fields.map fun _ => (none : Option (Value ρ)))).map (·.2) =
          fields.map fun _ => none := List.map_snd_zip (by simp)
      by_cases htag : g.tag = some tag
      · rw [List.find?_cons, decide_eq_true htag] at hf
        cases hf
        refine ⟨0, Nat.succ_pos _, fun read bs slots left => ?_⟩
        rw [List.map_cons, List.zip_cons_cons]
        unfold StructDef.arms
        rw [if_pos htag, if_pos hvalid, bind_eq_ok, hsnd]
        constructor
        · rintro ⟨v, mid, hv, h⟩
          cases h
          exact ⟨v, hv, rfl⟩
        · rintro ⟨v, hv, rfl⟩
          exact ⟨v, left, hv, rfl⟩
      · rw [List.find?_cons, decide_eq_false htag] at hf
        obtain ⟨i, hi, hiff⟩ := ih hf
        refine ⟨i + 1, Nat.succ_lt_succ hi, fun read bs slots left => ?_⟩
        rw [List.map_cons, List.zip_cons_cons]
        unfold StructDef.arms
        rw [if_neg htag, bind_eq_ok]
        constructor
        · rintro ⟨rest, mid, hrest, h⟩
          cases h
          obtain ⟨v, hv, rfl⟩ := (hiff read bs rest left).mp hrest
          exact ⟨v, hv, rfl⟩
        · rintro ⟨v, hv, rfl⟩
          exact ⟨_, left, (hiff read bs _ left).mpr ⟨v, hv, rfl⟩, rfl⟩

/-- The tag of the field at this place, and what is written back to it. -/
theorem writeBack_none {fields : List FieldSpec} {values : List (Value ρ)} (h : values.length = fields.length) :
    StructDef.writeBack values (fields.map fun _ => none) = values := by
  induction fields generalizing values with
  | nil =>
      rw [List.length_eq_zero_iff.mp h]
      rfl
  | cons f fields ih =>
      obtain ⟨v, values, rfl⟩ := List.exists_cons_of_length_eq_add_one h
      exact congrArg (v :: ·) (ih (Nat.succ.inj h))

theorem getElem?_writeBack_set {fields : List FieldSpec} {values : List (Value ρ)} {i : Nat} {v : Value ρ}
    (h : values.length = fields.length) (hi : i < fields.length) :
    (StructDef.writeBack values ((fields.map fun _ => none).set i (some v)))[i]? = some v := by
  unfold StructDef.writeBack
  rw [List.getElem?_zipWith, List.getElem?_set_self (by rw [List.length_map]; exact hi),
    List.getElem?_eq_getElem (by omega)]
  rfl

/-! ## Structs

A struct differs in its own marker, in a positional field or in a tagged one. -/

/-- A null that the borrowed flavour takes for a struct: the payload of a tag that is valid. -/
def StructDef.MissesMarker (d : StructDef) (map : ResMap) (version : Int16) : Prop :=
  d.hasTrailer version ∧ ∃ tag f, d.armOf tag = some f ∧ f.markerMissed map ∧ f.tagValid d.flexMin version

theorem length_decodePositional {ps : List (FieldSpec × Value ρ)} {bs rest : Bytes} {values : List (Value ρ)}
    (h : d.decodePositional records owned lenient version ps bs = .ok (values, rest)) :
    values.length = ps.length := by
  rw [decodePositional_eq_mapM] at h
  exact (forall₂_of_mapM h).length_eq.symm

theorem length_borrowPositional {ps : List (FieldSpec × Value ρ)} {bs rest : Bytes} {values : List (Value ρ)}
    (h : d.borrowPositional borrow callee version ps bs = .ok (values, rest)) : values.length = ps.length := by
  rw [borrowPositional_eq_mapM] at h
  exact (forall₂_of_mapM h).length_eq.symm

/-- The owned decoder, behind its positional fields. -/
theorem decode_of_positional (hguard : d.guard version = none) {bs r : Bytes} {values : List (Value ρ)}
    (hvalues : d.decodePositional records owned lenient version
      (d.fields.zip (ownedDefaults records structs d.fields)) bs = .ok (values, r)) :
    d.decode records owned structs lenient version bs =
      (if d.hasTrailer version then
        d.readTrailer records owned lenient version >>= fun s =>
          pure (.struct (StructDef.writeBack values s.1) s.2)
      else pure (.struct values []) : Decode (Value ρ)) r := by
  unfold StructDef.decode
  rw [hguard]
  dsimp only
  unfold StructDef.decodeFields
  rw [bind_of_ok hvalues]

/-- So the borrowed one. -/
theorem positional_of_decodeBorrow (hguard : d.guard version = none) {bs : Bytes} {p : Value ρ × Bytes}
    (h : d.decodeBorrow map borrow owned callee version defaults bs = .ok p) :
    ∃ values r, d.borrowPositional borrow callee version (d.fields.zip defaults) bs = .ok (values, r) ∧
      (if d.hasTrailer version then
        d.borrowTrailer map borrow owned callee version >>= fun s =>
          pure (.struct (StructDef.writeBack values s.1) s.2)
      else pure (.struct values []) : Decode (Value ρ)) r = .ok p := by
  unfold StructDef.decodeBorrow at h
  rw [hguard] at h
  exact bind_eq_ok.mp h

/-- A struct is told apart where its positional fields are. -/
theorem probe_fields (hguard : d.guard version = none) (hlen : defaults.length = d.fields.length)
    (h : Probe (d.decodePositional records owned lenient version
        (d.fields.zip (ownedDefaults records structs d.fields)))
      (d.borrowPositional borrow callee version (d.fields.zip defaults)) D) :
    Probe (d.decode records owned structs lenient version)
      (d.decodeBorrow map borrow owned callee version defaults) D := by
  obtain ⟨w, values, least, hall⟩ := h
  -- the positional fields and then, where there is one, an empty tagged section
  refine ⟨w ++ (if d.hasTrailer version then putUvarint 0 else []), .struct values [], least, fun r hr => ?_⟩
  obtain ⟨hvalues, hborrow⟩ := hall ((if d.hasTrailer version then putUvarint 0 else []) ++ r)
    (by rw [List.length_append]; omega)
  rw [List.append_assoc]
  have hlength := length_decodePositional hvalues
  rw [List.length_zip, length_ownedDefaults, Nat.min_self] at hlength
  refine ⟨?_, ?_⟩
  · rw [decode_of_positional hguard hvalues]
    cases htrailer : d.hasTrailer version with
    | false => rfl
    | true =>
        simp only [if_true]
        unfold StructDef.readTrailer
        rw [bind_of_ok (readTaggedFieldsInto_zero _ _ _)]
        dsimp only
        rw [writeBack_none hlength]
        rfl
  · rintro ⟨v, rest⟩ hv
    obtain ⟨values', mid, hvalues', hv⟩ := positional_of_decodeBorrow hguard hv
    have hlength' := length_borrowPositional hvalues'
    rw [List.length_zip, hlen, Nat.min_self] at hlength'
    obtain ⟨hmid, hne⟩ := hborrow _ hvalues'
    dsimp only at hmid hne
    subst hmid
    have hresult : v = .struct values' [] ∧ rest = r := by
      cases htrailer : d.hasTrailer version with
      | false =>
          rw [htrailer] at hv
          cases hv
          exact ⟨rfl, rfl⟩
      | true =>
          simp only [htrailer, if_true] at hv
          unfold StructDef.borrowTrailer at hv
          rw [bind_of_ok (readTaggedFieldsInto_zero _ _ _)] at hv
          dsimp only at hv
          rw [writeBack_none hlength'] at hv
          cases hv
          exact ⟨rfl, rfl⟩
    obtain ⟨rfl, rfl⟩ := hresult
    exact ⟨rfl, fun hD heq => hne hD (Value.struct.inj heq).1⟩

/-- A struct is told apart where it misses a marker: a null on the wire is not null to the borrowed flavour. -/
theorem probe_marker (hguard : d.guard version = none) (hlen : defaults.length = d.fields.length)
    (hnotNull : ∀ name bs rest, (owned name).decode version bs ≠ .ok (.null, rest))
    (h : Probe (d.decodePositional records owned lenient version
        (d.fields.zip (ownedDefaults records structs d.fields)))
      (d.borrowPositional borrow callee version (d.fields.zip defaults)) D)
    (hmarker : d.MissesMarker map version) :
    Probe (d.decode records owned structs lenient version)
      (d.decodeBorrow map borrow owned callee version defaults) True := by
  obtain ⟨htrailer, tag, f, harm, hmissed, hvalid⟩ := hmarker
  unfold FieldSpec.markerMissed at hmissed
  rw [Bool.and_eq_true, Bool.and_eq_true] at hmissed
  obtain ⟨⟨howned, hnullable⟩, hname⟩ := hmissed
  obtain ⟨name, hname⟩ := Option.isSome_iff_exists.mp hname
  have htype : f.fieldType = .base (.struct name) := by
    cases htype : f.fieldType with
    | array elem => rw [htype] at hname; cases hname
    | base b => cases b <;> rw [htype] at hname <;> cases hname; rfl
  obtain ⟨i, hi, hat⟩ := @exists_arm ρ _ d _ _ _ harm hvalid
  have hnull : decodeCall records owned lenient version true f.fieldType f.nullable [0xFF] = .ok (.null, []) := by
    have hneg : getI8 [0xFF] = .ok (-1, []) := rfl
    rw [htype, hnullable]
    show (getI8 >>= _) _ = _
    rw [bind_of_ok hneg]
    rfl
  have hslots : ∀ r, d.readTrailer records owned lenient version (oneByteSection tag 0xFF ++ r) =
      .ok (((d.fields.map fun _ => none).set i (some .null), []), r) := by
    intro r
    refine readTaggedFieldsInto_of_known ?_
    rw [readKnown_eq_arms]
    exact (hat _ _ _ _).mpr ⟨.null, hnull, rfl⟩
  obtain ⟨w, values, least, hall⟩ := h
  refine ⟨w ++ oneByteSection tag 0xFF,
    .struct (StructDef.writeBack values ((d.fields.map fun _ => none).set i (some .null))) [], least, fun r hr => ?_⟩
  obtain ⟨hvalues, hborrow⟩ := hall (oneByteSection tag 0xFF ++ r) (by rw [List.length_append]; omega)
  rw [List.append_assoc]
  have hlength := length_decodePositional hvalues
  rw [List.length_zip, length_ownedDefaults, Nat.min_self] at hlength
  refine ⟨?_, ?_⟩
  · rw [decode_of_positional hguard hvalues]
    simp only [htrailer, if_true]
    rw [bind_of_ok (hslots r)]
    rfl
  · rintro ⟨v, rest⟩ hv
    obtain ⟨values', mid, hvalues', hv⟩ := positional_of_decodeBorrow hguard hv
    have hlength' := length_borrowPositional hvalues'
    rw [List.length_zip, hlen, Nat.min_self] at hlength'
    obtain ⟨hmid, -⟩ := hborrow _ hvalues'
    dsimp only at hmid
    subst hmid
    simp only [htrailer, if_true] at hv
    obtain ⟨⟨slots, unknown⟩, r', hread, hresult⟩ := bind_eq_ok.mp hv
    obtain ⟨o, left, hrest, hknown, ho⟩ := known_of_readTaggedFieldsInto hread
    rw [borrowKnown_eq_arms] at hknown
    obtain ⟨x, hx, rfl⟩ := (hat _ _ _ _).mp hknown
    have hslots' := ho _ rfl
    dsimp only at hslots' hrest
    subst hslots' hrest
    cases hresult
    refine ⟨rfl, fun _ heq => ?_⟩
    -- the value that the borrowed flavour reads is at the place of the null
    have hplace := congrArg (·[i]?) (Value.struct.inj heq).1
    dsimp only at hplace
    rw [getElem?_writeBack_set hlength' hi, getElem?_writeBack_set hlength hi, Option.some.injEq] at hplace
    unfold StructDef.borrowTagged at hx
    rw [if_pos howned, htype, hnullable, hplace] at hx
    exact hnotNull name _ _ hx

/-- **One struct.** -/
theorem probe_struct (hguard : d.guard version = none) (hlen : defaults.length = d.fields.length)
    (hnotNull : ∀ name bs rest, (owned name).decode version bs ≠ .ok (.null, rest))
    (h : Probe (d.decodePositional records owned lenient version
        (d.fields.zip (ownedDefaults records structs d.fields)))
      (d.borrowPositional borrow callee version (d.fields.zip defaults)) D) :
    Probe (d.decode records owned structs lenient version)
      (d.decodeBorrow map borrow owned callee version defaults) (d.MissesMarker map version ∨ D) := by
  by_cases hmarker : d.MissesMarker map version
  · exact (probe_marker hguard hlen hnotNull h hmarker).mono fun _ => trivial
  · exact (probe_fields hguard hlen h).mono (Or.resolve_left · hmarker)

end

/-! ## Messages

The difference is carried up to the message through the positional fields that lead to the struct. The depth
of the nesting is bounded by the number of structs. -/

namespace MessageSpec

section
variable (spec : MessageSpec) (records : RecordsCodec ρ) (version : Int16)

/-- A difference shows in calls that are nested `n` deep: in the struct itself, or in one that a positional field
    of the version leads to. -/
def DiffersAt : Nat → StructId → Prop
  | 0, _ => False
  | n + 1, id =>
      spec.SizedAt (n + 1) id ∧ ∃ d, spec.structDef id = some d ∧
        (¬d.FlavoursMatch spec.resMap version (ownedDefaults records (spec.defaultOf records id.file) d.fields)
            (spec.borrowedDefaults records (spec.borrowedDefaultAt records spec.structCount) id d) ∨
          ∃ f ∈ d.fields, f.keepsDefault version = false ∧ ∃ name target, f.fieldType.inner = .struct name ∧
            spec.path id.file name = some target ∧ DiffersAt n target)

end

variable {spec : MessageSpec} {records : RecordsCodec ρ} {borrow : Bytes → Except ProtocolError ρ} {version : Int16}

/-- A decoder of a struct type never answers a null. -/
theorem decode_ne_null {n : Nat} {file : Option String} {name : String} {bytes rest : Bytes} :
    (spec.callee records n file name).decode version bytes ≠ .ok (.null, rest) := by
  unfold callee
  cases spec.path file name with
  | none =>
      intro h
      cases h
  | some target =>
      show (spec.codec records n target).decode version bytes ≠ _
      cases n with
      | zero =>
          intro h
          cases h
      | succ n =>
          cases hd : spec.structDef target with
          | none =>
              unfold codec
              rw [hd]
              intro h
              cases h
          | some d =>
              rw [decode_succ hd]
              unfold StructDef.decode
              cases d.guard version with
              | some e =>
                  intro h
                  cases h
              | none =>
                  intro h
                  obtain ⟨values, mid, -, h⟩ := bind_eq_ok.mp h
                  cases htrailer : d.hasTrailer version with
                  | false =>
                      rw [htrailer] at h
                      cases h
                  | true =>
                      rw [htrailer] at h
                      obtain ⟨slots, left, -, h⟩ := bind_eq_ok.mp h
                      cases h

theorem DiffersAt.sized {n : Nat} {id : StructId} (h : spec.DiffersAt records version n id) : spec.SizedAt n id := by
  cases n with
  | zero => exact h.elim
  | succ n => exact h.1

/-- **An input of a struct type** that the owned flavour accepts, and that tells the flavours apart where a
difference shows. -/
theorem probe_codec (hc : spec.FlavoursCompile) (hvalid : spec.validVersions.contains version) {n : Nat}
    {id : StructId} (hsized : spec.SizedAt n id) :
    Probe ((spec.codec records n id).decode version) (spec.decodeBorrow records borrow n id version)
      (spec.DiffersAt records version n id) := by
  induction n generalizing id with
  | zero => exact hsized.elim
  | succ n ih =>
      obtain ⟨d, hd, hfields⟩ := hsized
      rw [decodeBorrow_succ hd, decode_succ hd]
      have hchild : ∀ f ∈ d.fields, f.keepsDefault version = false → ∀ name, f.fieldType.inner = .struct name →
          (f.fieldType = .base (.struct name) ∨
            ∃ target, spec.path id.file name = some target ∧ spec.DiffersAt records version n target) →
          Probe ((spec.callee records n id.file name).decode version)
            ((spec.path id.file name).elim (fun _ => throw (.schemaMismatch "nested too deep"))
              (spec.decodeBorrow records borrow n) version)
            (∃ target, spec.path id.file name = some target ∧ spec.DiffersAt records version n target) := by
        intro f hf _ name _ hor
        obtain ⟨target, hpath, hsized⟩ : ∃ target, spec.path id.file name = some target ∧ spec.SizedAt n target := by
          rcases hor with htype | ⟨target, hpath, hdiffers⟩
          · exact hfields f hf name htype
          · exact ⟨target, hpath, hdiffers.sized⟩
        unfold callee
        rw [hpath]
        refine (ih hsized).mono ?_
        rintro ⟨target', htarget', hdiffers⟩
        cases htarget'
        exact hdiffers
      refine (probe_struct (guard_eq_none hd hvalid) (List.length_map _) (fun _ _ _ => decode_ne_null)
        (probe_positional (length_ownedDefaults d.fields) (List.length_map _) (hc.fields id d hd) hchild)).mono ?_
      rintro ⟨-, d', hd', hdiffers⟩
      cases hd.symm.trans hd'
      rcases hdiffers with hmismatch | ⟨f, hf, hkeep, name, target, hname, hpath, hdiffers⟩
      · by_contra hnone
        obtain ⟨hmarker, hfield⟩ := not_or.mp hnone
        refine hmismatch ⟨fun htrailer tag f harm hmissed => ?_, fun p hp hkeep => ?_⟩
        · exact Bool.eq_false_iff.mpr fun htag => hmarker ⟨htrailer, tag, f, harm, hmissed, htag⟩
        · exact by_contra fun hne => hfield ⟨p, hp, (if_pos hkeep).mpr hne⟩
      · have hzip : ((d.fields.zip ((ownedDefaults records (spec.defaultOf records id.file) d.fields).zip
            (spec.borrowedDefaults records (spec.borrowedDefaultAt records spec.structCount) id d))).map
              Prod.fst) = d.fields := by
          refine List.map_fst_zip ?_
          rw [List.length_zip, length_ownedDefaults, borrowedDefaults, List.length_map, Nat.min_self]
        obtain ⟨p, hp, rfl⟩ := List.mem_map.mp (hzip.symm ▸ hf)
        refine .inr ⟨p, hp, ?_⟩
        rw [FieldSpec.Differs, hkeep, if_neg Bool.false_ne_true]
        exact ⟨name, hname, target, hpath, hdiffers⟩

theorem SizedAt.mono {n m : Nat} {id : StructId} (h : spec.SizedAt n id) (hle : n ≤ m) : spec.SizedAt m id := by
  induction n generalizing m id with
  | zero => exact h.elim
  | succ n ih =>
      obtain ⟨m, rfl⟩ := Nat.exists_eq_add_of_le' hle
      obtain ⟨d, hd, hfields⟩ := h
      refine ⟨d, hd, fun f hf name htype => ?_⟩
      obtain ⟨target, hpath, hsized⟩ := hfields f hf name htype
      exact ⟨target, hpath, ih hsized (Nat.le_add_left n m)⟩

/-- A difference in a struct that is reached shows at the message. -/
theorem exists_differsAt_top (hc : spec.FlavoursCompile) {id : StructId} (h : spec.Reached version id) {n : Nat}
    (hn : spec.structCount ≤ n) (hdiffers : spec.DiffersAt records version n id) :
    ∃ m, spec.DiffersAt records version m spec.top := by
  induction h generalizing n with
  | top => exact ⟨n, hdiffers⟩
  | @field id target d f name hreached hd hf hversion hname hpath ih =>
      have hle : spec.structCount ≤ n + 1 := Nat.le_succ_of_le hn
      exact ih hle ⟨(hc.sized id d hd).mono hle, d, hd, .inr ⟨f, hf, hversion, name, target, hname, hpath, hdiffers⟩⟩

/-- A version that the message does not have is refused by both flavours. -/
theorem alike_of_invalid (h : spec.validVersions.contains version = false) (n : Nat) :
    Alike (spec.decodeBorrow records borrow n spec.top version) ((spec.codec records n spec.top).decode version) := by
  cases n with
  | zero => exact .refl _
  | succ n =>
      have hd : spec.structDef spec.top = some spec.topDef := if_pos rfl
      have hguard : spec.topDef.guard version = some (spec.versionErr version) := by
        show (if spec.validVersions.contains version then none else _) = _
        rw [h, if_neg Bool.false_ne_true]
      rw [decodeBorrow_succ hd, decode_succ hd]
      unfold StructDef.decodeBorrow StructDef.decode
      rw [hguard]
      exact .refl _

/-- **The flavours of a message agree exactly where the structs that it reaches match**, at the versions that it
has. At any other version both refuse every input. -/
theorem flavours_agree_iff (hc : spec.FlavoursCompile) :
    (∀ n, spec.FlavoursAgree records borrow version n spec.top) ↔
      (spec.validVersions.contains version → spec.FlavoursMatch records version) := by
  simp only [flavoursAgree_iff_alike]
  cases hvalid : spec.validVersions.contains version with
  | false => exact iff_of_true (alike_of_invalid hvalid) nofun
  | true =>
      refine ⟨fun halike _ id d hreached hd => ?_, fun hmatch n => alike_of_reached hc (hmatch rfl) n .top⟩
      by_contra hmismatch
      have hle := Nat.le_succ spec.structCount
      obtain ⟨m, hm⟩ := exists_differsAt_top hc hreached hle ⟨(hc.sized id d hd).mono hle, d, hd, .inl hmismatch⟩
      exact (probe_codec hc hvalid hm.sized).not_alike hm (halike m)

/-! ## A marker that is missed

A nullable struct in the tagged section, and the version at which its marker is read by one flavour only. -/

/-- A request with a nullable struct that is tagged since version 2. -/
def nullableDetail : MessageSpec where
  name := "DetailRequest"
  messageType := .request
  apiKey := some 0
  validVersions := ⟨0, 3⟩
  latestVersionUnstable := false
  flexibleVersions := .range ⟨0, .maxValue⟩
  fields := [
    { name := "Detail", fieldType := .base (.struct "DetailInfo"), versions := ⟨0, .maxValue⟩,
      nullableVersions := some ⟨0, .maxValue⟩, taggedVersions := some ⟨2, .maxValue⟩, tag := some 0,
      fields := [
        { name := "Name", fieldType := .base .string, versions := ⟨0, .maxValue⟩, nullableVersions := none,
          taggedVersions := none, tag := none, fields := [], default := none, flexibleVersions := none }],
      default := some (.string "null".toList), flexibleVersions := none }]
  commonStructs := []

/-- Its structs are the request and the detail. -/
theorem structDef_nullableDetail {id : StructId} {d : StructDef} (h : nullableDetail.structDef id = some d) :
    id = nullableDetail.top ∧ d = nullableDetail.topDef ∨
      id = ⟨none, "DetailInfo"⟩ ∧ d = nullableDetail.nestedDef (nullableDetail.fields.flatMap (·.fields)) := by
  obtain ⟨hfile, hmem⟩ := mem_structsOf h
  obtain ⟨file, name⟩ := id
  obtain rfl : file = none := List.mem_singleton.mp hfile
  rcases List.mem_cons.mp hmem with heq | hmem
  · obtain rfl : name = "DetailRequest" := congrArg Prod.fst heq
    exact .inl ⟨rfl, (Option.some.inj h).symm⟩
  · obtain rfl : name = "DetailInfo" := congrArg Prod.fst (List.mem_singleton.mp hmem)
    exact .inr ⟨rfl, (Option.some.inj h).symm⟩

theorem nullableDetail_compiles : nullableDetail.FlavoursCompile where
  fields id d hd f hf := by
    rcases structDef_nullableDetail hd with ⟨-, rfl⟩ | ⟨-, rfl⟩
    · obtain rfl := List.mem_singleton.mp hf
      exact ⟨⟨nofun, nofun⟩, nofun, nofun, ⟨fun _ _ => rfl, fun _ => .inl rfl⟩⟩
    · obtain rfl := List.mem_singleton.mp hf
      exact ⟨⟨nofun, nofun⟩, nofun, nofun, ⟨fun _ _ => rfl, nofun⟩⟩
  lifetimes id d hd f hf hplain := by
    rcases structDef_nullableDetail hd with ⟨-, rfl⟩ | ⟨-, rfl⟩
    · obtain rfl := List.mem_singleton.mp hf
      cases hplain
    · obtain rfl := List.mem_singleton.mp hf
      cases hplain
  sized id d hd := by
    have hdetail : nullableDetail.SizedAt 1 ⟨none, "DetailInfo"⟩ :=
      ⟨_, rfl, fun f hf name htype => by obtain rfl := List.mem_singleton.mp hf; cases htype⟩
    have hcount : nullableDetail.structCount = 2 := rfl
    rw [hcount]
    rcases structDef_nullableDetail hd with ⟨rfl, -⟩ | ⟨rfl, -⟩
    · refine ⟨_, rfl, fun f hf name htype => ?_⟩
      obtain rfl := List.mem_singleton.mp hf
      cases htype
      exact ⟨_, rfl, hdetail⟩
    · exact hdetail.mono one_le_two

/-- At version 1 its tag is not valid. -/
theorem nullableDetail_agrees :
    nullableDetail.FlavoursAgree (recordsPayload .disabled) (fun b => .ok (.raw b)) 1 2 nullableDetail.top := by
  refine (flavours_agree_iff nullableDetail_compiles).mpr (fun _ id d _ hd => ?_) 2
  rcases structDef_nullableDetail hd with ⟨rfl, rfl⟩ | ⟨rfl, rfl⟩
  · refine ⟨fun _ tag f harm _ => ?_, fun p hp _ => ?_⟩
    · obtain rfl := List.mem_singleton.mp (List.mem_of_find?_eq_some harm)
      rfl
    · obtain rfl := List.mem_singleton.mp hp
      rfl
  · refine ⟨fun _ tag f harm hmarker => ?_, fun p hp _ => ?_⟩
    · obtain rfl := List.mem_singleton.mp (List.mem_of_find?_eq_some harm)
      cases hmarker
    · obtain rfl := List.mem_singleton.mp hp
      rfl

/-- At version 2 a null detail is decoded by the owned flavour and refused by the borrowed one. -/
theorem nullableDetail_disagrees :
    validate [nullableDetail] = .ok () ∧ nullableDetail.resolve = .ok [("DetailInfo", ⟨.nested, true⟩)] ∧
      nullableDetail.FlavoursCompile ∧
      (nullableDetail.codec (recordsPayload .disabled) 2 nullableDetail.top).decode 2 [1, 0, 1, 0xFF] =
        .ok (.struct [.null] [], []) ∧
      nullableDetail.decodeBorrow (recordsPayload .disabled) (fun b => .ok (.raw b)) 2 nullableDetail.top 2
        [1, 0, 1, 0xFF] = .error (.unexpectedEof 1) ∧
      ¬nullableDetail.FlavoursAgree (recordsPayload .disabled) (fun b => .ok (.raw b)) 2 2 nullableDetail.top := by
  have howned : (nullableDetail.codec (recordsPayload .disabled) 2 nullableDetail.top).decode 2
      [1, 0, 1, 0xFF] = .ok (.struct [.null] [], []) := rfl
  have hborrowed : nullableDetail.decodeBorrow (recordsPayload .disabled) (fun b => .ok (.raw b)) 2
      nullableDetail.top 2 [1, 0, 1, 0xFF] = .error (.unexpectedEof 1) := rfl
  refine ⟨by decide +kernel, by decide +kernel, nullableDetail_compiles, howned, hborrowed, fun h => ?_⟩
  obtain ⟨b, hb, -⟩ := (h _ _ _).mp howned
  rw [hborrowed] at hb
  cases hb

end MessageSpec

end Krabka.Codegen
