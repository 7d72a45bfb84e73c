import Krabka.Codegen.RoundTrip

/-!
# `Codegen.Canonical` — what the schema promises of a round trip

Through a version of its schema, a value keeps what that version has: an absent field becomes its default,
and a null where its field is not nullable becomes the empty value (`canonical`). The generated codec keeps
that promise of every positional field. It breaks it of tagged fields, which have one codec for every
version and are left off the wire when they equal the default. Of a value whose tagged fields are named by
their calls, `Faithful` is the exact condition (`roundTrips_iff`).
-/

namespace Krabka.Codegen

open ByteStream Output Reader Krabka.Protocol
open Records (RecordsCodec recordsPayload)

variable {ρ : Type}

/-! ## What the schema promises

The conditions on versions that the generator writes are those that the schema states. -/

theorem versionCond_eq (r : VersionRange) (version : Int16) :
    versionCond r version = r.contains version := by
  have hmin := minValue_le version
  have hmax := le_maxValue version
  rw [Bool.eq_iff_iff, VersionRange.contains_iff]
  unfold versionCond
  split
  · rename_i h
    rw [Bool.and_eq_true, decide_eq_true_eq, decide_eq_true_eq] at h
    rw [h.1, h.2]
    exact ⟨fun _ => ⟨hmin, hmax⟩, fun _ => rfl⟩
  · split
    · rename_i h
      rw [decide_eq_true_eq, ← h]
      exact ⟨fun heq => ⟨heq ▸ Int16.le_refl r.min, heq ▸ Int16.le_refl r.min⟩,
        fun hle => (Int16.le_antisymm hle.1 hle.2).symm⟩
    · split
      · rename_i h
        rw [decide_eq_true_eq, h]
        exact ⟨fun hle => ⟨hmin, hle⟩, And.right⟩
      · split
        · rename_i h
          rw [decide_eq_true_eq, h]
          exact ⟨fun hle => ⟨hle, hmax⟩, And.left⟩
        · exact VersionRange.contains_iff

/-- The schema allows null at this version. -/
def FieldSpec.nullableAt (f : FieldSpec) (version : Int16) : Bool :=
  f.nullableVersions.any (·.contains version)

/-- Within the field's versions, the nullable codec is the one of the nullable versions. -/
theorem form_eq_nullable_iff {f : FieldSpec} {version : Int16} (hversion : f.versions.contains version)
    (hnull : f.isNullable) : f.form version = .nullable ↔ f.nullableAt version := by
  obtain ⟨r, hr⟩ := Option.isSome_iff_exists.mp hnull
  obtain ⟨hlow, hhigh⟩ := VersionRange.contains_iff.mp hversion
  have hat : f.nullableAt version ↔ r.min ≤ version ∧ version ≤ r.max := by
    rw [FieldSpec.nullableAt, hr, Option.any_some, VersionRange.contains_iff]
  rw [hat]
  unfold FieldSpec.form FieldSpec.nullableSplitCond
  rw [hr, Option.bind_some]
  by_cases hlower : f.versions.min < r.min <;> by_cases hupper : r.max < f.versions.max
  · simp [hlower, hupper]
  · have := Int16.le_trans hhigh (Int16.not_lt.mp hupper)
    simp [hlower, hupper, this]
  · have := Int16.le_trans (Int16.not_lt.mp hlower) hlow
    simp [hlower, hupper, this]
  · have hmin := Int16.le_trans (Int16.not_lt.mp hlower) hlow
    have hmax := Int16.le_trans hhigh (Int16.not_lt.mp hupper)
    simp [hlower, hupper, hmin, hmax, hnull]

/-- In a tagged section, a tag is valid at the versions in which it is declared. -/
theorem tagValid_eq {d : StructDef} {f : FieldSpec} {version : Int16} (htrailer : d.hasTrailer version) :
    f.tagValid d.flexMin version = f.tagRange.contains version := by
  unfold FieldSpec.tagValid FieldSpec.taggedVersionCond
  split
  · rename_i cond hcond
    split at hcond
    · cases hcond
    · cases hcond
      exact versionCond_eq f.tagRange version
  · rename_i hcond
    split at hcond
    · rename_i h
      rw [Bool.and_eq_true, decide_eq_true_eq, decide_eq_true_eq] at h
      unfold StructDef.hasTrailer StructDef.flex at htrailer
      rw [Bool.and_eq_true, decide_eq_true_eq] at htrailer
      refine (VersionRange.contains_iff.mpr ⟨Int16.le_trans h.1 htrailer.2, ?_⟩).symm
      rw [h.2]
      exact le_maxValue version
    · cases hcond

/-! ## Canonical values

The promise, by recursion on the nesting of structs and arrays. -/

section
variable (d : StructDef) (records : RecordsCodec ρ) (structs : String → Value ρ)
  (canonical : String → Value ρ → Value ρ) (faithful : String → Value ρ → Prop) (version : Int16)

/-- The version has the field: a tagged one only where its struct has a tagged section. -/
def StructDef.has (f : FieldSpec) : Bool :=
  f.versions.contains version && (!f.isTagged || d.hasTrailer version)

/-- Null stays where the field is nullable, and is the empty value elsewhere. -/
def canonicalValue (f : FieldSpec) (v : Value ρ) : Value ρ :=
  match v with
  | .null => if f.nullableAt version then .null else rustDefault records structs f.fieldType
  | v => carriedCall canonical f.fieldType v

/-- What a field is at this version, given its default. -/
def canonicalField (p : (FieldSpec × Value ρ) × Value ρ) : Value ρ :=
  if d.has version p.1.1 then canonicalValue records structs canonical version p.1.1 p.1.2 else p.2

/-- What a struct is at this version. Unknown tagged fields are there where the tagged section is. -/
def canonicalStruct : Value ρ → Value ρ
  | .struct values unknown =>
      .struct
        (((d.fields.zip values).zip (ownedDefaults records structs d.fields)).map
          (canonicalField d records structs canonical version))
        (if d.hasTrailer version then unknown else [])
  | v => v

/-! ## Faithful values

A value is carried to its canonical form field by field. Only a tagged field can miss it: by a null where it
is not nullable, or by a default that is left off and is another one at this version. -/

/-- A tagged field that is written holds null only where it is nullable. One that is left off the wire is
    its default already, at this version. -/
def FieldFaithful (p : (FieldSpec × Value ρ) × Value ρ) : Prop :=
  d.has version p.1.1 →
    if p.1.1.isTagged && !taggedShouldEncode records structs p.1.1 p.1.2 then
      canonicalValue records structs canonical version p.1.1 p.1.2 = p.2
    else
      (p.1.1.isTagged → p.1.2 = .null → p.1.1.nullableAt version) ∧
        Throughout faithful p.1.1.fieldType p.1.2

def StructFaithful : Value ρ → Prop
  | .struct values _ =>
      ∀ p ∈ (d.fields.zip values).zip (ownedDefaults records structs d.fields),
        FieldFaithful d records structs canonical faithful version p
  | _ => True

end

section
variable {d : StructDef} {records : RecordsCodec ρ} {callee : String → Codec ρ}
  {structs : String → Value ρ} {fits : String → Value ρ → Prop}
  {carried canonical : String → Value ρ → Value ρ} {faithful : String → Value ρ → Prop}
  {version : Int16} {flex : Bool}

theorem canonicalValue_of_ne {f : FieldSpec} {v : Value ρ} (h : v ≠ .null) :
    canonicalValue records structs canonical version f v = carriedCall canonical f.fieldType v := by
  unfold canonicalValue
  split
  · exact absurd rfl h
  · rfl

/-- Inside a value, the two agree exactly on faithful structs. -/
theorem carriedCall_eq_iff
    (hstruct : ∀ name v, fits name v → (carried name v = canonical name v ↔ faithful name v))
    {t : FieldType} {v : Value ρ} (h : CallFits records callee fits version flex t v) :
    carriedCall carried t v = carriedCall canonical t v ↔ Throughout faithful t v := by
  induction t generalizing v with
  | base b =>
      cases b <;> cases v <;> try exact h.elim
      all_goals try exact ⟨fun _ => trivial, fun _ => rfl⟩
      exact hstruct _ _ h
  | array elem ih =>
      cases v <;> try exact h.elim
      case array vs =>
        obtain ⟨-, hall⟩ := h
        unfold carriedCall Throughout
        rw [Value.array.injEq, List.map_inj_left]
        exact forall₂_congr fun v hv => ih (hall v hv).1

/-- The empty value of a type that takes an `Option` is not null. -/
theorem rustDefault_ne_null {t : FieldType} (h : t.takesOption)
    (hstructs : ∀ name, t = .base (.struct name) → structs name ≠ .null) :
    rustDefault records structs t ≠ .null := by
  cases t with
  | array elem => exact fun hn => by cases hn
  | base b =>
      cases b <;> try exact absurd h Bool.false_ne_true
      case struct name => exact hstructs name rfl
      all_goals exact fun hn => by cases hn

/-- A positional field keeps the promise where the structs inside it do. -/
theorem carriedPositional_eq_iff
    (hstruct : ∀ name v, fits name v → (carried name v = canonical name v ↔ faithful name v))
    {p : (FieldSpec × Value ρ) × Value ρ} (htag : p.1.1.isTagged = false)
    (h : versionCond p.1.1.versions version →
      FieldFits records callee fits version flex p.1.1 p.1.2) :
    carriedPositional records structs carried version p =
        canonicalField d records structs canonical version p ↔
      (p.1.1.versions.contains version → Throughout faithful p.1.1.fieldType p.1.2) := by
  obtain ⟨⟨f, v⟩, dflt⟩ := p
  dsimp only at htag h ⊢
  unfold carriedPositional canonicalField StructDef.has
  rw [versionCond_eq] at h ⊢
  simp only [htag, Bool.false_eq_true, if_false, Bool.not_false, Bool.true_or, Bool.and_true]
  by_cases hversion : f.versions.contains version
  · rw [if_pos hversion, if_pos hversion]
    simp only [hversion, forall_true_left]
    rcases h hversion with ⟨hnull, rfl⟩ | hfits
    · -- null is kept by the nullable codec and is the empty value to the other one
      refine iff_of_true ?_ (throughout_null _)
      unfold canonicalValue
      dsimp only
      have hform := form_eq_nullable_iff hversion hnull
      rcases form_cases f version with ⟨-, hn⟩ | ⟨hf, -⟩ | ⟨hf, -, -⟩
      · rw [hnull] at hn
        cases hn
      · rw [hf, if_pos (hform.mp hf)]
        exact carriedCall_null _
      · rw [if_neg (fun hat => by rw [hform.mpr hat] at hf; cases hf), hf]
        rfl
    · have hne := ne_null_of_callFits hfits
      have hcarried : carriedForm records structs carried f.fieldType v (f.form version) =
          carriedCall carried f.fieldType v := by
        cases f.form version with
        | plain => rfl
        | nullable => rfl
        | unwrapped => exact carriedForm_unwrapped_of_ne hne
      rw [hcarried, canonicalValue_of_ne hne]
      exact carriedCall_eq_iff hstruct hfits
  · rw [if_neg hversion, if_neg hversion]
    exact iff_of_true rfl fun h => absurd h hversion

/-- A tagged value that is written keeps the promise unless it is a null that the schema does not allow. -/
theorem carriedTagged_eq_iff
    (hstruct : ∀ name v, fits name v → (carried name v = canonical name v ↔ faithful name v))
    {f : FieldSpec} {v : Value ρ} (hc : f.Compiles) (htag : f.isTagged)
    (hstructs : ∀ name, f.fieldType = .base (.struct name) → structs name ≠ .null)
    (h : TaggedFits records callee fits version f v) :
    carriedCall carried f.fieldType v = canonicalValue records structs canonical version f v ↔
      (v = .null → f.nullableAt version) ∧ Throughout faithful f.fieldType v := by
  rcases h.value with ⟨hnull, rfl⟩ | hfits
  · have hoption : f.isOption := by
      unfold FieldSpec.isOption
      rw [htag, Bool.true_and]
      exact hnull
    have hempty : rustDefault records structs f.fieldType ≠ .null :=
      rustDefault_ne_null (hc.option hoption) hstructs
    rw [carriedCall_null]
    unfold canonicalValue
    dsimp only
    by_cases hat : f.nullableAt version
    · rw [if_pos hat]
      exact iff_of_true rfl ⟨fun _ => hat, throughout_null _⟩
    · rw [if_neg hat]
      exact iff_of_false hempty.symm fun hf => hat (hf.1 rfl)
  · have hne := ne_null_of_callFits hfits
    rw [canonicalValue_of_ne hne]
    refine (carriedCall_eq_iff hstruct hfits).trans ⟨fun hf => ⟨fun hn => absurd hn hne, hf⟩, And.right⟩

/-- **A field** is read back as the schema promises exactly when it is faithful. -/
theorem carriedField_eq_iff
    (hstruct : ∀ name v, fits name v → (carried name v = canonical name v ↔ faithful name v))
    {values : List (Value ρ)} {unknown : UnknownTaggedFields}
    (hc : ∀ f ∈ d.fields, f.Compiles) (htagRange : ∀ f ∈ d.fields, f.isTagged → f.tagRange = f.versions)
    (hstructs : ∀ f ∈ d.fields, ∀ name, f.fieldType = .base (.struct name) → structs name ≠ .null)
    (hfits : StructFits d records callee structs fits version (.struct values unknown))
    {p : (FieldSpec × Value ρ) × Value ρ} (hp : p.1 ∈ d.fields.zip values) :
    carriedField d records structs carried version p =
        canonicalField d records structs canonical version p ↔
      FieldFaithful d records structs canonical faithful version p := by
  obtain ⟨-, hpositional, hsection⟩ := hfits
  have hf : p.1.1 ∈ d.fields := (List.of_mem_zip hp).1
  unfold carriedField FieldFaithful
  cases htag : p.1.1.isTagged with
  | false =>
      rw [if_neg Bool.false_ne_true]
      have hmem : p.1 ∈ positional (d.fields.zip values) :=
        List.mem_filter.mpr ⟨hp, by rw [htag]; rfl⟩
      refine (carriedPositional_eq_iff hstruct htag (hpositional p.1 hmem)).trans ?_
      unfold StructDef.has
      rw [htag]
      simp
  | true =>
      rw [if_pos rfl]
      unfold canonicalField StructDef.has StructDef.shouldEncode
      rw [htag]
      cases htrailer : d.hasTrailer version with
      | false => simp
      | true =>
          rw [tagValid_eq htrailer, htagRange _ hf htag]
          cases hversion : p.1.1.versions.contains version with
          | false => simp
          | true =>
              simp only [Bool.true_and, Bool.not_true, Bool.false_or, if_true, forall_true_left]
              cases hshould : taggedShouldEncode records structs p.1.1 p.1.2 with
              | false => exact eq_comm
              | true =>
                  obtain ⟨tag, hsome⟩ := Option.isSome_iff_exists.mp htag
                  have hwritten : (tag, p.1) ∈ d.written records structs version values := by
                    refine mem_written.mpr ⟨hp, hsome, ?_⟩
                    unfold StructDef.shouldEncode
                    rw [tagValid_eq htrailer, htagRange _ hf htag, hversion, hshould]
                    rfl
                  exact carriedTagged_eq_iff hstruct (hc _ hf) htag (hstructs _ hf)
                    ((hsection htrailer).payloads _ hwritten)

/-- **A struct** too. -/
theorem carriedStruct_eq_iff
    (hstruct : ∀ name v, fits name v → (carried name v = canonical name v ↔ faithful name v))
    (hc : ∀ f ∈ d.fields, f.Compiles) (htagRange : ∀ f ∈ d.fields, f.isTagged → f.tagRange = f.versions)
    (hstructs : ∀ f ∈ d.fields, ∀ name, f.fieldType = .base (.struct name) → structs name ≠ .null)
    {v : Value ρ} (h : StructFits d records callee structs fits version v) :
    carriedStruct d records structs carried version v =
        canonicalStruct d records structs canonical version v ↔
      StructFaithful d records structs canonical faithful version v := by
  cases v <;> try exact h.elim
  case struct values unknown =>
    unfold carriedStruct canonicalStruct StructFaithful
    rw [Value.struct.injEq, and_iff_left rfl, List.map_inj_left]
    exact forall₂_congr fun p hp =>
      carriedField_eq_iff hstruct hc htagRange hstructs h (List.of_mem_zip hp).1

end

/-! ## Messages

The codec carries a value to `carried`, and that is the canonical value exactly if the value is faithful. -/

namespace MessageSpec

variable (spec : MessageSpec) (records : RecordsCodec ρ) (version : Int16)

/-- What a value is at this version: nested less than `n` deep, a struct's own fields first. -/
def canonical : Nat → StructId → Value ρ → Value ρ
  | 0, _, v => v
  | n + 1, id, v =>
      match spec.structDef id with
      | some d =>
          canonicalStruct d records (spec.defaultOf records id.file)
            (fun name v => (spec.path id.file name).elim v (canonical n · v)) version v
      | none => v

/-- Every field at every depth is faithful. -/
def Faithful : Nat → StructId → Value ρ → Prop
  | 0, _, _ => True
  | n + 1, id, v =>
      ∀ d, spec.structDef id = some d →
        StructFaithful d records (spec.defaultOf records id.file)
          (fun name v => (spec.path id.file name).elim v (spec.canonical records version n · v))
          (fun name v => ∀ target, spec.path id.file name = some target → Faithful n target v) version v

variable {spec} {records} {version}

theorem structCount_pos : 0 < spec.structCount := by
  unfold structCount structsOf
  simp only [List.length_cons]
  omega

/-- The default of a struct type is a struct. -/
theorem defaultOf_ne_null {file : Option String} {name : String} {target : StructId}
    (hpath : spec.path file name = some target) (hdef : (spec.structDef target).isSome) :
    spec.defaultOf records file name ≠ .null := by
  obtain ⟨d, hd⟩ := Option.isSome_iff_exists.mp hdef
  obtain ⟨n, hn⟩ := Nat.exists_eq_add_one.mpr (@structCount_pos spec)
  unfold defaultOf
  rw [hpath, hn, Option.elim_some]
  unfold defaultAt
  rw [hd]
  exact fun h => by cases h

/-- **A value that fits is read back as the schema promises exactly when it is faithful.** -/
theorem carried_eq_iff (hspec : spec.Supported) {n : Nat} {id : StructId} {v : Value ρ}
    (h : spec.Fits records version n id v) :
    spec.carried records version n id v = spec.canonical records version n id v ↔
      spec.Faithful records version n id v := by
  induction n generalizing id v with
  | zero => exact h.elim
  | succ n ih =>
      obtain ⟨d, hd, hfits⟩ := h
      have hstructs : ∀ f ∈ d.fields, ∀ name, f.fieldType = .base (.struct name) →
          spec.defaultOf records id.file name ≠ .null := by
        intro f hf name htype
        have hname : f.baseType.structName = some name := by
          unfold FieldSpec.baseType
          rw [htype]
          rfl
        obtain ⟨target, hpath, hdef⟩ := hspec.resolves id d hd f hf name hname
        exact defaultOf_ne_null hpath hdef
      unfold carried canonical Faithful
      rw [hd]
      simp only [Option.some.injEq, forall_eq']
      refine carriedStruct_eq_iff ?_ (hspec.compiles id d hd) (hspec.tagRange id d hd) hstructs hfits
      rintro name v ⟨target, htarget, hv⟩
      rw [htarget]
      simp only [Option.elim_some, Option.some.injEq, forall_eq']
      exact ih hv

/-- What the schema promises of a value: `encode` writes `encoded_len` bytes, and `decode` takes exactly those
    and answers the value as it is at this version. -/
def RoundTrips (spec : MessageSpec) (records : RecordsCodec ρ) (version : Int16) (n : Nat) (v : Value ρ) :
    Prop :=
  ∃ w, Wrote ((spec.codec records n spec.top).encode v version) w ∧
    w.length = (spec.codec records n spec.top).encodedLen v version ∧
    ∀ suffix, (spec.codec records n spec.top).decode version (w ++ suffix) =
      .ok (spec.canonical records version n spec.top v, suffix)

/-- A value comes back as it is carried. -/
theorem roundTrips_iff_carried (hspec : spec.Supported) (hvalid : spec.validVersions.contains version)
    {n : Nat} {v : Value ρ} (hfits : spec.Fits records version n spec.top v)
    (hnamed : spec.Named records version n spec.top v) :
    spec.RoundTrips records version n v ↔
      spec.carried records version n spec.top v = spec.canonical records version n spec.top v := by
  obtain ⟨w, hw, hlen, hread, -⟩ := exact_codec hspec.compiles hspec.distinct hvalid hfits hnamed
  constructor
  · rintro ⟨w', hw', -, hread'⟩
    obtain rfl : w = w' := congrArg Output.out (hw.symm.trans hw')
    have heq := (hread []).symm.trans (hread' [])
    rw [Except.ok.injEq, Prod.mk.injEq] at heq
    exact heq.1
  · intro heq
    refine ⟨w, hw, hlen, ?_⟩
    rw [← heq]
    exact hread

/-- **The owned codec round-trips exactly the faithful values**, where calls name their own fields. Of every
such value that fits, it writes `encoded_len` bytes and takes exactly these. -/
theorem roundTrips_iff (hspec : spec.Supported) (hvalid : spec.validVersions.contains version) {n : Nat}
    {v : Value ρ} (hfits : spec.Fits records version n spec.top v) :
    (spec.Named records version n spec.top v ∧ spec.Faithful records version n spec.top v →
      spec.RoundTrips records version n v) ∧
    (spec.Named records version n spec.top v →
      (∃ w x, Wrote ((spec.codec records n spec.top).encode v version) w ∧
        w.length = (spec.codec records n spec.top).encodedLen v version ∧
        ∀ suffix, (spec.codec records n spec.top).decode version (w ++ suffix) = .ok (x, suffix)) ∧
      (spec.RoundTrips records version n v → spec.Faithful records version n spec.top v)) := by
  have hiff : spec.Named records version n spec.top v →
      (spec.RoundTrips records version n v ↔ spec.Faithful records version n spec.top v) := fun hnamed =>
    (roundTrips_iff_carried hspec hvalid hfits hnamed).trans (carried_eq_iff hspec hfits)
  refine ⟨fun h => (hiff h.1).mpr h.2, fun hnamed => ⟨?_, (hiff hnamed).mp⟩⟩
  obtain ⟨w, hw, hlen, hread, -⟩ := exact_codec hspec.compiles hspec.distinct hvalid hfits hnamed
  exact ⟨w, _, hw, hlen, hread⟩

/-! ## A null that comes back as null

A tagged field that is nullable from a later version on, in an earlier one. -/

/-- A request whose tagged `Notes` are there since version 1 and nullable since version 2. -/
def lateNull : MessageSpec where
  name := "LateNullRequest"
  messageType := .request
  apiKey := some 0
  validVersions := ⟨0, 3⟩
  latestVersionUnstable := false
  flexibleVersions := .range ⟨0, .maxValue⟩
  fields := [
    { name := "Count", fieldType := .base .int32, versions := ⟨0, .maxValue⟩, nullableVersions := none,
      taggedVersions := none, tag := none, fields := [], default := none, flexibleVersions := none },
    { name := "Notes", fieldType := .array (.base .int32), versions := ⟨1, .maxValue⟩,
      nullableVersions := some ⟨2, .maxValue⟩, taggedVersions := some ⟨1, .maxValue⟩, tag := some 0,
      fields := [], default := none, flexibleVersions := none }]
  commonStructs := []

/-- A value of it, whose notes are null. -/
def nullNote : Value Records.RecordsPayload := .struct [.int32 7, .null] []

theorem lateNull_supported : lateNull.Supported := supported_of_forall (by decide +kernel)

theorem nullNote_named (version : Int16) :
    lateNull.Named (recordsPayload .disabled) version 1 lateNull.top nullNote :=
  named_of_ownNames (by decide +kernel) 1 lateNull.top nullNote

theorem nullNote_fits (version : Int16) :
    lateNull.Fits (recordsPayload .disabled) version 1 lateNull.top nullNote := by
  refine ⟨lateNull.topDef, rfl, rfl, ?_, fun _ => ⟨?_, ⟨.nil, by simp, by simp⟩, by simp, ?_⟩⟩
  · intro p hp _
    obtain ⟨hmem, htag⟩ := List.mem_filter.mp hp
    rcases List.mem_cons.mp hmem with rfl | hmem
    · exact .inr trivial
    · obtain rfl := List.mem_singleton.mp hmem
      cases htag
  · intro e he
    obtain ⟨hmem, htag, -⟩ := mem_written.mp he
    obtain ⟨tag, f, v⟩ := e
    rcases List.mem_cons.mp hmem with heq | hmem
    · cases heq
      cases htag
    · have hlen : nullableArrayLen true (fun _ : Value Records.RecordsPayload => 4) none < 2 ^ 32 := by decide
      cases List.mem_singleton.mp hmem
      exact ⟨.inl ⟨rfl, rfl⟩, hlen⟩
  · refine Nat.lt_of_le_of_lt (Nat.add_le_add_right (List.length_filter_le _ _) 0) ?_
    decide

/-- At version 2, the notes may be null. -/
theorem nullNote_roundTrips : lateNull.RoundTrips (recordsPayload .disabled) 2 1 nullNote := by
  refine (roundTrips_iff lateNull_supported (by decide) (nullNote_fits 2)).1 ⟨nullNote_named 2, ?_⟩
  intro d hd p hp _
  cases hd
  rcases List.mem_cons.mp hp with rfl | hmem
  · exact ⟨fun htag => (by cases htag), trivial⟩
  · obtain rfl := List.mem_singleton.mp hmem
    exact ⟨fun _ _ => rfl, throughout_null _⟩

/-- At version 1 they may not, and come back null. -/
theorem nullNote_comes_back :
    validate [lateNull] = .ok () ∧ lateNull.resolve = .ok [] ∧ lateNull.Supported ∧
      lateNull.validVersions.contains 1 ∧ lateNull.Fits (recordsPayload .disabled) 1 1 lateNull.top nullNote ∧
      (∃ w, Wrote ((lateNull.codec (recordsPayload .disabled) 1 lateNull.top).encode nullNote 1) w ∧
        ∀ suffix, (lateNull.codec (recordsPayload .disabled) 1 lateNull.top).decode 1 (w ++ suffix) =
          .ok (nullNote, suffix)) ∧
      ¬lateNull.RoundTrips (recordsPayload .disabled) 1 1 nullNote := by
  have hcarried : lateNull.carried (recordsPayload .disabled) 1 1 lateNull.top nullNote = nullNote := rfl
  have hcanonical : lateNull.canonical (recordsPayload .disabled) 1 1 lateNull.top nullNote =
      .struct [.int32 7, .array []] [] := rfl
  obtain ⟨w, hw, -, hread, -⟩ :=
    exact_codec lateNull_supported.compiles lateNull_supported.distinct
      (by decide : lateNull.validVersions.contains 1) (nullNote_fits 1) (nullNote_named 1)
  rw [hcarried] at hread
  refine ⟨by decide +kernel, by decide +kernel, lateNull_supported, by decide, nullNote_fits 1,
    ⟨w, hw, hread⟩, fun h => ?_⟩
  rw [roundTrips_iff_carried lateNull_supported (by decide) (nullNote_fits 1) (nullNote_named 1), hcarried,
    hcanonical] at h
  cases h

/-! ## A field in place of another

A tagged field whose name ends in the name of the buffer. -/

/-- A request whose second count is tagged: the call of `Buf` names `B`. -/
def renamed : MessageSpec where
  name := "RenamedRequest"
  messageType := .request
  apiKey := some 0
  validVersions := ⟨0, 0⟩
  latestVersionUnstable := false
  flexibleVersions := .range ⟨0, .maxValue⟩
  fields := [
    { name := "B", fieldType := .base .int32, versions := ⟨0, .maxValue⟩, nullableVersions := none,
      taggedVersions := none, tag := none, fields := [], default := none, flexibleVersions := none },
    { name := "Buf", fieldType := .base .int32, versions := ⟨0, .maxValue⟩, nullableVersions := none,
      taggedVersions := some ⟨0, .maxValue⟩, tag := some 0, fields := [], default := none,
      flexibleVersions := none }]
  commonStructs := []

example :
    (renamed.codec (recordsPayload .disabled) 1 renamed.top).encode (.struct [.int32 1, .int32 2] []) 0 =
      ⟨[0, 0, 0, 1, 1, 0, 4, 0, 0, 0, 1], .ok ()⟩ := rfl

end MessageSpec

end Krabka.Codegen
