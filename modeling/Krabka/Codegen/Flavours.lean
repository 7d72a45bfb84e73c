import Krabka.Codegen.Borrowed
import Krabka.Codegen.PlainDefaults
import Krabka.Codegen.RoundTrip
import Krabka.Protocol.AlikePrimitives

/-!
# `Codegen.Flavours` — where the two flavours of a schema accept the same bytes

Two flavours of a schema agree at a version when the borrowed `decode_borrow` accepts what the owned `decode`
accepts, leaves the same rest, and answers a value whose `to_owned` is the owned one.

The tables of expressions agree but for one entry: a nullable struct in a tagged field that is stored owned is
read without its marker. The two `Default`s agree but for texts. A struct is immune to both where no such tag
is valid and where the fields that keep their default have the same one (`StructDef.FlavoursMatch`).

Not every struct type matters at a version: only those that positional fields of the version lead to
(`MessageSpec.Reached`). The payload of a tagged field that holds text is read by the owned flavour in both, and
a struct without text is always immune. So the flavours agree where the reached structs match
(`MessageSpec.alike_of_reached`).

## Contents
- **Getters.** The borrowed getters are the owned ones.
- **Expressions, positional fields, the tagged section, structs.** Each accepts alike in both flavours.
- **`to_owned`.** It copies.
- **Messages.** Structs without text, and structs that are reached.
-/

namespace Krabka.Codegen

open ByteStream Reader Krabka.Protocol PairedLists
open Records (RecordsCodec)

variable {ρ : Type}

/-! ## Getters

The borrowed readers of strings and bytes are the owned ones up to who owns the result. A reader that refuses
null does so with the same text. -/

section
variable {α : Type} {text : String}

/-- A null is refused behind whatever is read first. -/
theorem nonNull_bind {β : Type} (d : Decode β) (f : β → Decode (Option α)) :
    nonNull text (d >>= f) = d >>= fun b => nonNull text (f b) := by
  unfold nonNull
  rw [bind_assoc]

theorem nonNull_none : nonNull text (pure none : Decode (Option α)) = throw (.invalidValue text) := by
  unfold nonNull
  rw [pure_bind]

theorem nonNull_some (d : Decode α) : nonNull text (some <$> d) = d := by
  unfold nonNull
  rw [map_eq_pure_bind, bind_assoc]
  simp only [pure_bind, bind_pure]

end

/-- The borrowed reader of strings is the owned one. -/
theorem getStringBorrowed_eq : getStringBorrowed = getStringOwned := by
  unfold getStringBorrowed getStringOwned getNullableStringOwned
  rw [nonNull_bind]
  refine bind_congr fun len => ?_
  cases FixedWidth.usizeOfI16 len with
  | none => exact nonNull_none.symm
  | some n => exact (nonNull_some _).symm

/-- So is that of bytes. -/
theorem getBytesBorrowed_eq : getBytesBorrowed = getBytesOwned := by
  unfold getBytesBorrowed getBytesOwned getNullableBytesOwned
  rw [nonNull_bind]
  refine bind_congr fun len => ?_
  cases FixedWidth.usizeOfI32 len with
  | none => exact nonNull_none.symm
  | some n => exact (nonNull_some _).symm

/-- A compact length of 0 is null, which a getter that is not nullable refuses. -/
theorem nonNull_compact {α : Type} {text : String} (d : Nat → Decode α) :
    nonNull text (compact d) =
      getUvarint >>= fun raw => if raw = 0 then throw (.invalidValue text) else d (raw - 1).toNat := by
  unfold compact
  rw [nonNull_bind]
  refine bind_congr fun raw => ?_
  split
  · exact nonNull_none
  · exact nonNull_some _

theorem getCompactStringBorrowed_eq : getCompactStringBorrowed = getCompactStringOwned :=
  (nonNull_compact takeString).symm

theorem getCompactBytesBorrowed_eq : getCompactBytesBorrowed = getCompactBytesOwned :=
  (nonNull_compact takeBytes).symm

/-! ## Expressions

Both tables are compared entry by entry. `markerMissed` is the one entry in which they differ. -/

namespace FieldSpec

/-- What the compiler checks of a field of a schema without records: there is an expression for its type and one
    for its default, and no expression reads owned bytes. -/
structure FlavoursCompile (f : FieldSpec) : Prop where
  coded : f.fieldType.inner ≠ .uint32 ∧ ∀ text, f.fieldType.inner ≠ .other text
  noRecords : f.fieldType.inner ≠ .records
  noTaggedBytes : f.isTagged → f.fieldType.inner ≠ .bytes
  default : f.DefaultCompiles pastedLiteral

/-- The payload of the field starts with a marker that the borrowed flavour takes for the struct. -/
def markerMissed (map : ResMap) (f : FieldSpec) : Bool :=
  f.taggedNeedsOwned map && f.nullable && f.fieldType.structName.isSome

end FieldSpec

section
variable {records : RecordsCodec ρ} {borrow : Bytes → Except ProtocolError ρ} {owned : String → Codec ρ}
  {callee : String → Int16 → Decode (Value ρ)} {lenient : Bool} {version : Int16} {flex nullable : Bool}

/-- `decode_borrow_call` and `decode_call` accept alike when the structs do. -/
theorem alike_decodeBorrowCall {t : FieldType}
    (hcallee : ∀ name, t.inner = .struct name → Alike (callee name version) ((owned name).decode version))
    (ht : t.inner ≠ .records) :
    Alike (decodeBorrowCall borrow callee version flex t nullable)
      (decodeCall records owned lenient version flex t nullable) := by
  induction t generalizing nullable with
  | base b =>
      unfold decodeBorrowCall decodeCall
      cases b with
      | string =>
          cases nullable with
          | false =>
              unfold decodeBorrowBase decodeBase
              rw [getStringBorrowed_eq, getCompactStringBorrowed_eq]
              exact .refl _
          | true => exact .refl _
      | bytes =>
          cases nullable with
          | false =>
              unfold decodeBorrowBase decodeBase
              rw [getBytesBorrowed_eq, getCompactBytesBorrowed_eq]
              exact .refl _
          | true => exact .refl _
      | records => exact absurd rfl ht
      | struct name =>
          cases nullable with
          | false => exact hcallee name rfl
          | true => exact (Alike.refl _).bind fun marker => .ite (.refl _) (hcallee name rfl)
      | uint32 => exact fun _ _ => ⟨fun h => (by cases h), fun h => (by cases h)⟩
      | other text => exact fun _ _ => ⟨fun h => (by cases h), fun h => (by cases h)⟩
      | _ => exact .refl _
  | array elem ih =>
      cases nullable with
      | false => exact (alike_getArray (ih hcallee ht)).bind fun vs => .refl _
      | true => exact (alike_getNullableArray (ih hcallee ht)).bind fun vs => .refl _

/-- So do `decode_owned_call` and `decode_call`, but for bytes and for a nullable struct. -/
theorem alike_decodeOwnedCall {t : FieldType} (ht : t.inner ≠ .records) (hbytes : t.inner ≠ .bytes)
    (hnull : nullable → t.structName = none) :
    Alike (decodeOwnedCall owned version flex t nullable)
      (decodeCall records owned lenient version flex t nullable) := by
  induction t generalizing nullable with
  | base b =>
      unfold decodeOwnedCall decodeCall
      cases b with
      | bytes => exact absurd rfl hbytes
      | records => exact absurd rfl ht
      | string => cases nullable <;> exact .refl _
      | struct name =>
          cases nullable with
          | false => exact .refl _
          | true => exact absurd (hnull rfl) (Option.some_ne_none name)
      | uint32 => exact fun _ _ => ⟨fun h => (by cases h), fun h => (by cases h)⟩
      | other text => exact fun _ _ => ⟨fun h => (by cases h), fun h => (by cases h)⟩
      | _ => exact .refl _
  | array elem ih =>
      have helem := @ih false ht hbytes fun h => absurd h Bool.false_ne_true
      cases nullable with
      | false => exact (alike_getArray helem).bind fun vs => .refl _
      | true => exact (alike_getNullableArray helem).bind fun vs => .refl _

/-! ## Positional fields

The positional fields are read in the order of the schema. A field that its version does not have keeps its
default, and there the defaults have to agree. -/

variable {d : StructDef} {map : ResMap}

/-- The positional fields are read one after the other. -/
theorem decodePositional_eq_mapM (ps : List (FieldSpec × Value ρ)) :
    d.decodePositional records owned lenient version ps =
      ps.mapM (d.decodeUntagged records owned lenient version) := by
  induction ps with
  | nil => rw [List.mapM_nil]; rfl
  | cons p ps ih => rw [List.mapM_cons, ← ih]; rfl

/-- So they are in the borrowed flavour. -/
theorem borrowPositional_eq_mapM (ps : List (FieldSpec × Value ρ)) :
    d.borrowPositional borrow callee version ps = ps.mapM (d.borrowUntagged borrow callee version) := by
  induction ps with
  | nil => rw [List.mapM_nil]; rfl
  | cons p ps ih => rw [List.mapM_cons, ← ih]; rfl

/-- The positional fields leave this one at its default. -/
def FieldSpec.keepsDefault (version : Int16) (f : FieldSpec) : Bool :=
  f.isTagged || !versionCond f.versions version

/-- Over the same defaults, the positional fields are accepted alike. -/
theorem alike_borrowPositional {ps : List (FieldSpec × Value ρ)}
    (hcallee : ∀ p ∈ ps, p.1.keepsDefault version = false → ∀ name, p.1.fieldType.inner = .struct name →
      Alike (callee name version) ((owned name).decode version))
    (hc : ∀ p ∈ ps, p.1.FlavoursCompile) :
    Alike (d.borrowPositional borrow callee version ps)
      (d.decodePositional records owned lenient version ps) := by
  rw [decodePositional_eq_mapM, borrowPositional_eq_mapM]
  refine Alike.mapM fun p hp => ?_
  unfold StructDef.borrowUntagged StructDef.decodeUntagged decodeBorrowOne decodeOne
  cases htag : p.1.isTagged with
  | true => exact .refl _
  | false =>
      cases hversion : versionCond p.1.versions version with
      | false => exact .refl _
      | true =>
          have hkeep : p.1.keepsDefault version = false := by
            unfold FieldSpec.keepsDefault
            rw [htag, hversion]
            rfl
          cases p.1.form version <;> exact alike_decodeBorrowCall (hcallee p hp hkeep) (hc p hp).noRecords

/-- The default of any other field does not matter. -/
theorem decodeUntagged_congr {f : FieldSpec} {v v' : Value ρ} (h : f.keepsDefault version → v = v') :
    d.decodeUntagged records owned lenient version (f, v) =
      d.decodeUntagged records owned lenient version (f, v') := by
  cases hkeep : f.keepsDefault version with
  | true => rw [h hkeep]
  | false =>
      unfold FieldSpec.keepsDefault at hkeep
      rw [Bool.or_eq_false_iff, Bool.not_eq_false'] at hkeep
      unfold StructDef.decodeUntagged decodeOne
      simp only [hkeep.1, hkeep.2, Bool.false_eq_true, if_true, if_false]

/-- Where the kept defaults are the same, the others do not matter. -/
theorem decodePositional_congr {fields : List FieldSpec} {os ds : List (Value ρ)}
    (hos : os.length = fields.length) (hds : ds.length = fields.length)
    (h : ∀ p ∈ fields.zip (os.zip ds), p.1.keepsDefault version → p.2.1 = p.2.2) :
    d.decodePositional records owned lenient version (fields.zip os) =
      d.decodePositional records owned lenient version (fields.zip ds) := by
  induction fields generalizing os ds with
  | nil => rfl
  | cons f fields ih =>
      obtain ⟨o, os, rfl⟩ := List.exists_cons_of_length_eq_add_one hos
      obtain ⟨dflt, ds, rfl⟩ := List.exists_cons_of_length_eq_add_one hds
      rw [List.length_cons, List.length_cons, Nat.add_right_cancel_iff] at hos hds
      have hone := h (f, o, dflt) List.mem_cons_self
      have hrest := ih hos hds fun p hp => h p (List.mem_cons_of_mem _ hp)
      simp only [List.zip_cons_cons, StructDef.decodePositional]
      rw [decodeUntagged_congr hone, hrest]

/-! ## The tagged section

Both decoders of tagged fields are one loop over arms. An arm is found by the tag alone, so alike arms make
alike sections. -/

/-- The arms of `match tag`, given what reads a payload. -/
def StructDef.arms (d : StructDef) (version : Int16) (read : FieldSpec → Decode (Value ρ)) :
    List (FieldSpec × Option (Value ρ)) → UInt32 → Decode (Option (List (Option (Value ρ))))
  | [], _ => pure none
  | p :: ps, tag =>
      if p.1.tag = some tag then
        if p.1.tagValid d.flexMin version then do
          let v ← read p.1
          return some (some v :: ps.map (·.2))
        else throw (.tagNotValidForVersion tag version)
      else do
        let slots ← arms d version read ps tag
        return slots.map (p.2 :: ·)

/-- The owned decoder of tagged fields is a table of arms. -/
theorem readKnown_eq_arms (ps : List (FieldSpec × Option (Value ρ))) (tag : UInt32) :
    d.readKnown records owned lenient version ps tag =
      d.arms version (fun f => decodeCall records owned lenient version true f.fieldType f.nullable) ps tag := by
  induction ps with
  | nil => rfl
  | cons p ps ih =>
      unfold StructDef.readKnown StructDef.arms
      rw [ih]

/-- So is the borrowed one. -/
theorem borrowKnown_eq_arms (ps : List (FieldSpec × Option (Value ρ))) (tag : UInt32) :
    d.borrowKnown map borrow owned callee version ps tag =
      d.arms version (StructDef.borrowTagged map borrow owned callee version) ps tag := by
  induction ps with
  | nil => rfl
  | cons p ps ih =>
      unfold StructDef.borrowKnown StructDef.arms
      rw [ih]

/-- Only the first field with the tag, and only if the tag is valid, is read. -/
theorem alike_arms {read read' : FieldSpec → Decode (Value ρ)} {ps : List (FieldSpec × Option (Value ρ))}
    {tag : UInt32}
    (h : ∀ f, (ps.map Prod.fst).find? (fun g => g.tag = some tag) = some f → f.tagValid d.flexMin version →
      Alike (read f) (read' f)) :
    Alike (d.arms version read ps tag) (d.arms version read' ps tag) := by
  induction ps with
  | nil => exact .refl _
  | cons p ps ih =>
      unfold StructDef.arms
      by_cases htag : p.1.tag = some tag
      · rw [if_pos htag, if_pos htag]
        by_cases hvalid : p.1.tagValid d.flexMin version
        · rw [if_pos hvalid, if_pos hvalid]
          have hfirst : ((p :: ps).map Prod.fst).find? (fun g => g.tag = some tag) = some p.1 := by
            rw [List.map_cons, List.find?_cons, decide_eq_true htag]
          exact (h p.1 hfirst hvalid).bind fun v => .refl _
        · rw [if_neg hvalid, if_neg hvalid]
          exact .refl _
      · rw [if_neg htag, if_neg htag]
        refine (ih fun f hf => h f ?_).bind fun slots => .refl _
        rw [List.map_cons, List.find?_cons, decide_eq_false htag]
        exact hf

/-- The payload of a tagged field is accepted alike, unless its marker is missed. -/
theorem alike_borrowTagged {f : FieldSpec}
    (hcallee : f.taggedNeedsOwned map = false → ∀ name, f.fieldType.inner = .struct name →
      Alike (callee name version) ((owned name).decode version))
    (hc : f.FlavoursCompile) (htag : f.isTagged) (hmarker : f.markerMissed map = false) :
    Alike (StructDef.borrowTagged map borrow owned callee version f)
      (decodeCall records owned lenient version true f.fieldType f.nullable) := by
  unfold StructDef.borrowTagged
  cases howned : f.taggedNeedsOwned map with
  | false => exact alike_decodeBorrowCall (hcallee howned) hc.noRecords
  | true =>
      refine alike_decodeOwnedCall hc.noRecords (hc.noTaggedBytes htag) fun hnull => ?_
      unfold FieldSpec.markerMissed at hmarker
      rw [howned, hnull, Bool.true_and, Bool.true_and] at hmarker
      exact Option.not_isSome_iff_eq_none.mp (by rw [hmarker]; exact Bool.false_ne_true)

end

/-! ## Structs

A struct is its positional fields and then its section. `FlavoursMatch` is what both need. -/

/-- The field whose arm a tag takes. -/
def StructDef.armOf (d : StructDef) (tag : UInt32) : Option FieldSpec :=
  d.fields.find? fun f => f.tag = some tag

/-- Nothing of a struct shows a difference between the flavours: no marker can be missed, and the two
    defaults of a field that may keep its default are the same. -/
structure StructDef.FlavoursMatch (d : StructDef) (map : ResMap) (version : Int16)
    (ownedDefaults borrowedDefaults : List (Value ρ)) : Prop where
  markers : d.hasTrailer version → ∀ tag f, d.armOf tag = some f → f.markerMissed map →
    f.tagValid d.flexMin version = false
  defaults : ∀ p ∈ d.fields.zip (ownedDefaults.zip borrowedDefaults), p.1.keepsDefault version → p.2.1 = p.2.2

section
variable {records : RecordsCodec ρ} {borrow : Bytes → Except ProtocolError ρ} {owned : String → Codec ρ}
  {callee : String → Int16 → Decode (Value ρ)} {structs : String → Value ρ} {lenient : Bool}
  {version : Int16} {d : StructDef} {map : ResMap} {defaults : List (Value ρ)}

/-- The tagged section is accepted alike where no marker can be missed. -/
theorem alike_borrowTrailer
    (hcallee : ∀ f ∈ d.fields, f.isTagged → f.taggedNeedsOwned map = false → ∀ name,
      f.fieldType.inner = .struct name → Alike (callee name version) ((owned name).decode version))
    (hc : ∀ f ∈ d.fields, f.FlavoursCompile)
    (hmarkers : ∀ tag f, d.armOf tag = some f → f.markerMissed map → f.tagValid d.flexMin version = false) :
    Alike (d.borrowTrailer map borrow owned callee version) (d.readTrailer records owned lenient version) := by
  unfold StructDef.borrowTrailer StructDef.readTrailer
  refine alike_readTaggedFieldsInto (fun tag slots => ?_) _
  rw [readKnown_eq_arms, borrowKnown_eq_arms]
  refine alike_arms fun f hf hvalid => ?_
  have harm : d.armOf tag = some f := by
    unfold StructDef.armOf
    rw [← List.take_append_drop slots.length d.fields, List.find?_append]
    rw [map_fst_zip_eq_take] at hf
    rw [hf]
    rfl
  have hmem : f ∈ d.fields := List.mem_of_find?_eq_some harm
  have htag : f.tag = some tag := by simpa using List.find?_some harm
  have htagged : f.isTagged := by rw [FieldSpec.isTagged, htag]; rfl
  refine alike_borrowTagged (hcallee f hmem htagged) (hc f hmem) htagged ?_
  refine Bool.eq_false_iff.mpr fun hmarker => ?_
  rw [hmarkers tag f harm hmarker] at hvalid
  cases hvalid

/-- **One struct.** Its flavours accept alike when they match and the structs of its fields do. -/
theorem alike_decodeBorrow
    (hcallee : ∀ f ∈ d.fields, (f.keepsDefault version = false ∨ f.isTagged ∧ f.taggedNeedsOwned map = false) →
      ∀ name, f.fieldType.inner = .struct name → Alike (callee name version) ((owned name).decode version))
    (hc : ∀ f ∈ d.fields, f.FlavoursCompile) (hlen : defaults.length = d.fields.length)
    (hmatch : d.FlavoursMatch map version (ownedDefaults records structs d.fields) defaults) :
    Alike (d.decodeBorrow map borrow owned callee version defaults)
      (d.decode records owned structs lenient version) := by
  have hpositional : Alike (d.borrowPositional borrow callee version (d.fields.zip defaults))
      (d.decodePositional records owned lenient version
        (d.fields.zip (ownedDefaults records structs d.fields))) := by
    rw [decodePositional_congr (length_ownedDefaults d.fields) hlen hmatch.defaults]
    exact alike_borrowPositional (fun p hp hkeep => hcallee p.1 (List.of_mem_zip hp).1 (.inl hkeep))
      fun p hp => hc p.1 (List.of_mem_zip hp).1
  unfold StructDef.decodeBorrow StructDef.decode
  cases d.guard version with
  | some e => exact .refl _
  | none =>
      unfold StructDef.borrowFields StructDef.decodeFields
      refine hpositional.bind fun values => ?_
      cases htrailer : d.hasTrailer version with
      | false =>
          rw [if_neg Bool.false_ne_true, if_neg Bool.false_ne_true]
          exact .refl _
      | true =>
          rw [if_pos rfl, if_pos rfl]
          refine Alike.bind (alike_borrowTrailer (fun f hf htag howned => ?_) hc (hmatch.markers htrailer))
            fun s => .refl _
          exact hcallee f hf (.inr ⟨htag, howned⟩)

end

/-! ## `to_owned`

Owning a borrowed value changes no field of it in the model, where text is text in either flavour. -/

/-- Making a field owned changes no value. -/
theorem toOwnedFieldExpr_eq {callee : String → Value ρ → Value ρ} (h : ∀ name v, callee name v = v)
    (t : FieldType) (v : Value ρ) : toOwnedFieldExpr callee t v = v := by
  unfold toOwnedFieldExpr
  split
  · rename_i name vs
    rw [List.map_congr_left fun v _ => h name v, List.map_id']
  · exact h _ _
  · rfl

/-- Nor does making a struct owned. -/
theorem toOwnedFields_eq {callee : String → Value ρ → Value ρ} (h : ∀ name v, callee name v = v)
    (topLevel : Bool) (map : ResMap) (fields : List FieldSpec) (values : List (Value ρ)) :
    toOwnedFields callee topLevel map fields values = values := by
  induction fields generalizing values with
  | nil => cases values <;> rfl
  | cons f fields ih =>
      cases values with
      | nil => rfl
      | cons v values =>
          unfold toOwnedFields
          rw [ih, toOwnedFieldExpr_eq h, ite_self]

/-! ## Messages

By induction on the nesting, the decoders of a message agree where those of its structs do. -/

namespace MessageSpec

variable (spec : MessageSpec) (records : RecordsCodec ρ) (borrow : Bytes → Except ProtocolError ρ)
  (version : Int16)

/-- `to_owned` copies what it converts. -/
theorem toOwned_eq (n : Nat) (id : StructId) (v : Value ρ) : spec.toOwned n id v = v := by
  induction n generalizing id v with
  | zero => cases v <;> rfl
  | succ n ih =>
      cases v <;> try rfl
      case struct values unknown =>
        unfold toOwned
        cases spec.structDef id with
        | none => rfl
        | some d =>
            dsimp only
            rw [toOwnedFields_eq]
            intro name v
            cases spec.path id.file name with
            | none => rfl
            | some target => exact ih target v

/-- No struct type contains itself but through an array, so its values have a size. -/
def SizedAt : Nat → StructId → Prop
  | 0, _ => False
  | n + 1, id =>
      ∃ d, spec.structDef id = some d ∧ ∀ f ∈ d.fields, ∀ name, f.fieldType = .base (.struct name) →
        ∃ target, spec.path id.file name = some target ∧ SizedAt n target

/-- Both flavours of a schema without records compile: each field does, a type that is written without a lifetime
    holds no text, and every struct type has a size. -/
structure FlavoursCompile : Prop where
  fields : ∀ id d, spec.structDef id = some d → ∀ f ∈ d.fields, f.FlavoursCompile
  lifetimes : ∀ id d, spec.structDef id = some d → ∀ f ∈ d.fields, f.needsLifetimeIn spec.resMap = false →
    f.fieldType.inner ≠ .string ∧ ∀ name target e, f.fieldType.inner = .struct name →
      spec.path id.file name = some target → spec.structDef target = some e →
        needsLifetimeIn spec.resMap e.fields = false
  sized : ∀ id d, spec.structDef id = some d → spec.SizedAt spec.structCount id

/-- A struct type that positional fields of this version lead to. -/
inductive Reached : StructId → Prop
  | top : Reached spec.top
  | field {id target : StructId} {d : StructDef} {f : FieldSpec} {name : String} (h : Reached id)
      (hd : spec.structDef id = some d) (hf : f ∈ d.fields) (hversion : f.keepsDefault version = false)
      (hname : f.fieldType.inner = .struct name) (hpath : spec.path id.file name = some target) : Reached target

/-- No struct of this version shows a difference between the flavours. -/
def FlavoursMatch : Prop :=
  ∀ id d, spec.Reached version id → spec.structDef id = some d →
    d.FlavoursMatch spec.resMap version (ownedDefaults records (spec.defaultOf records id.file) d.fields)
      (spec.borrowedDefaults records (spec.borrowedDefaultAt records spec.structCount) id d)

/-- On every input, `decode_borrow` of a struct type succeeds exactly when the owned `decode` does; both then
    leave the same rest, and `to_owned` of the borrowed value is the owned value. -/
def FlavoursAgree (n : Nat) (id : StructId) : Prop :=
  ∀ bytes v rest, (spec.codec records n id).decode version bytes = .ok (v, rest) ↔
    ∃ b, spec.decodeBorrow records borrow n id version bytes = .ok (b, rest) ∧ spec.toOwned n id b = v

variable {spec} {records} {borrow} {version}

/-- The two flavours agree where they read alike. -/
theorem flavoursAgree_iff_alike {n : Nat} {id : StructId} :
    spec.FlavoursAgree records borrow version n id ↔
      Alike (spec.decodeBorrow records borrow n id version) ((spec.codec records n id).decode version) := by
  unfold FlavoursAgree
  simp only [toOwned_eq, exists_eq_right]
  exact ⟨fun h bytes p => (h bytes p.1 p.2).symm, fun h bytes v rest => (h bytes (v, rest)).symm⟩

/-- What `decode_borrow` calls for a name. -/
theorem alike_callee {n : Nat} {file : Option String} {name : String}
    (h : ∀ target, spec.path file name = some target →
      Alike (spec.decodeBorrow records borrow n target version) ((spec.codec records n target).decode version)) :
    Alike
      ((spec.path file name).elim (fun _ => throw (.schemaMismatch "nested too deep"))
        (spec.decodeBorrow records borrow n) version)
      ((spec.callee records n file name).decode version) := by
  unfold callee
  cases hpath : spec.path file name with
  | none => exact .refl _
  | some target => exact h target hpath

/-- The borrowed decoder of a struct, one level down. -/
theorem decodeBorrow_succ {n : Nat} {id : StructId} {d : StructDef} (hd : spec.structDef id = some d) :
    spec.decodeBorrow records borrow (n + 1) id version =
      d.decodeBorrow spec.resMap borrow (spec.callee records n id.file)
        (fun name => (spec.path id.file name).elim (fun _ => throw (.schemaMismatch "nested too deep"))
          (spec.decodeBorrow records borrow n))
        version (spec.borrowedDefaults records (spec.borrowedDefaultAt records spec.structCount) id d) := by
  conv_lhs => unfold decodeBorrow
  rw [hd]

/-- The owned decoder of a struct, one level down. -/
theorem decode_succ {n : Nat} {id : StructId} {d : StructDef} (hd : spec.structDef id = some d) :
    (spec.codec records (n + 1) id).decode version =
      d.decode records (spec.callee records n id.file) (spec.defaultOf records id.file) spec.lenient version := by
  unfold codec
  rw [hd]
  rfl

/-- Nothing is known of a struct type that is not emitted. -/
theorem alike_of_structDef_eq_none {id : StructId} (hd : spec.structDef id = none) (n : Nat) :
    Alike (spec.decodeBorrow records borrow n id version) ((spec.codec records n id).decode version) := by
  cases n with
  | zero => exact .refl _
  | succ n =>
      unfold decodeBorrow codec
      rw [hd]
      exact .refl _

/-! ### Structs without text

The borrowed file does not repeat a struct that holds no text; it uses the owned one, default and all. -/

/-- A struct needs no lifetime where no field does. -/
theorem needsLifetimeIn_eq_false {map : ResMap} {fields : List FieldSpec} :
    needsLifetimeIn map fields = false ↔ ∀ f ∈ fields, f.needsLifetimeIn map = false := by
  induction fields with
  | nil => exact iff_of_true rfl fun f hf => absurd hf List.not_mem_nil
  | cons f fs ih => rw [needsLifetimeIn, Bool.or_eq_false_iff, ih, List.forall_mem_cons]

variable (spec) in
/-- A struct type that is written without a lifetime. -/
def Plain (id : StructId) : Prop := ∀ d, spec.structDef id = some d → needsLifetimeIn spec.resMap d.fields = false

/-- A struct below a plain one is plain. -/
theorem Plain.field (hc : spec.FlavoursCompile) {id : StructId} {d : StructDef} (hd : spec.structDef id = some d)
    {f : FieldSpec} (hf : f ∈ d.fields) (hplain : f.needsLifetimeIn spec.resMap = false) {name : String}
    (hname : f.fieldType.inner = .struct name) {target : StructId} (hpath : spec.path id.file name = some target) :
    spec.Plain target := fun e he => (hc.lifetimes id d hd f hf hplain).2 name target e hname hpath he

theorem inner_of_baseType {f : FieldSpec} {b : BaseType} (h : f.baseType = .base b) : f.fieldType.inner = b := by
  unfold FieldSpec.baseType at h
  cases htype : f.fieldType with
  | base c =>
      rw [htype] at h
      exact FieldType.base.inj h
  | array elem =>
      rw [htype, show (FieldType.array elem).baseType = elem from rfl] at h
      rw [h]
      rfl

/-- The fields of a plain struct have one default each. -/
theorem borrowedDefaults_eq_of_plain (hc : spec.FlavoursCompile) {id : StructId} {d : StructDef}
    (hd : spec.structDef id = some d) (hplain : needsLifetimeIn spec.resMap d.fields = false)
    {structs structs' : StructId → Value ρ} (hstructs : ∀ target, spec.Plain target → structs target = structs' target) :
    ownedDefaults records (fun name => (spec.path id.file name).elim .null structs) d.fields =
      spec.borrowedDefaults records structs' id d := by
  have hfield := needsLifetimeIn_eq_false.mp hplain
  have hcopy : spec.borrowedDefaults records structs' id d = d.fields.map fun f =>
      (defaultExpr records (fun name => (spec.path id.file name).elim .null structs') pastedLiteral f).getD
        .null := by
    refine List.map_congr_left fun f hf => ?_
    unfold borrowedDefault FieldSpec.taggedNeedsOwned
    rw [hfield f hf, Bool.and_false, Bool.and_false, if_neg Bool.false_ne_true]
  rw [hcopy]
  refine ownedDefaults_eq_of_plain (fun f hf => ?_) fun f hf name hname => ?_
  · have hcompiles := hc.fields id d hd f hf
    exact ⟨(hc.lifetimes id d hd f hf (hfield f hf)).1, hcompiles.noRecords, hcompiles.default⟩
  · cases hpath : spec.path id.file name with
    | none => rfl
    | some target => exact hstructs target (Plain.field hc hd hf (hfield f hf) (inner_of_baseType hname) hpath)

/-- **A plain struct has one default in both flavours.** -/
theorem defaultAt_eq_of_plain (hc : spec.FlavoursCompile) (n : Nat) {id : StructId} (hplain : spec.Plain id) :
    spec.defaultAt records n id = spec.borrowedDefaultAt records n id := by
  induction n generalizing id with
  | zero => rfl
  | succ n ih =>
      unfold defaultAt borrowedDefaultAt
      cases hd : spec.structDef id with
      | none => rfl
      | some d => exact congrArg (Value.struct · []) (borrowedDefaults_eq_of_plain hc hd (hplain d hd) fun _ => ih)

/-- **A plain struct matches** at every version. -/
theorem flavoursMatch_of_plain (hc : spec.FlavoursCompile) {id : StructId} {d : StructDef}
    (hd : spec.structDef id = some d) (hplain : needsLifetimeIn spec.resMap d.fields = false) :
    d.FlavoursMatch spec.resMap version (ownedDefaults records (spec.defaultOf records id.file) d.fields)
      (spec.borrowedDefaults records (spec.borrowedDefaultAt records spec.structCount) id d) where
  markers _ tag f harm hmarker := by
    have hfield := needsLifetimeIn_eq_false.mp hplain f (List.mem_of_find?_eq_some harm)
    unfold FieldSpec.markerMissed FieldSpec.taggedNeedsOwned at hmarker
    rw [hfield, Bool.and_false] at hmarker
    cases hmarker
  defaults p hp _ := by
    have heq : ownedDefaults records (spec.defaultOf records id.file) d.fields = _ :=
      borrowedDefaults_eq_of_plain hc hd hplain fun _ => defaultAt_eq_of_plain hc spec.structCount
    rw [heq] at hp
    exact eq_of_mem_zip_self (List.of_mem_zip hp).2

/-- So its flavours accept alike. -/
theorem alike_of_plain (hc : spec.FlavoursCompile) (n : Nat) {id : StructId} (hplain : spec.Plain id) :
    Alike (spec.decodeBorrow records borrow n id version) ((spec.codec records n id).decode version) := by
  induction n generalizing id with
  | zero => exact .refl _
  | succ n ih =>
      cases hd : spec.structDef id with
      | none => exact alike_of_structDef_eq_none hd (n + 1)
      | some d =>
          rw [decodeBorrow_succ hd, decode_succ hd]
          refine alike_decodeBorrow (fun f hf _ name hname => alike_callee fun target hpath => ?_) (hc.fields id d hd)
            (List.length_map _) (flavoursMatch_of_plain hc hd (hplain d hd))
          exact ih (Plain.field hc hd hf (needsLifetimeIn_eq_false.mp (hplain d hd) f hf) hname hpath)

/-! ### Structs that are reached

A positional field of the version leads to its struct. Only what is reached has to match. -/

/-- **The flavours accept alike** when every struct that is reached matches. -/
theorem alike_of_reached (hc : spec.FlavoursCompile) (hmatch : spec.FlavoursMatch records version) (n : Nat)
    {id : StructId} (h : spec.Reached version id) :
    Alike (spec.decodeBorrow records borrow n id version) ((spec.codec records n id).decode version) := by
  induction n generalizing id with
  | zero => exact .refl _
  | succ n ih =>
      cases hd : spec.structDef id with
      | none => exact alike_of_structDef_eq_none hd (n + 1)
      | some d =>
          rw [decodeBorrow_succ hd, decode_succ hd]
          refine alike_decodeBorrow (fun f hf hread name hname => alike_callee fun target hpath => ?_)
            (hc.fields id d hd) (List.length_map _) (hmatch id d h hd)
          rcases hread with hversion | ⟨htag, howned⟩
          · exact ih (.field h hd hf hversion hname hpath)
          · unfold FieldSpec.taggedNeedsOwned at howned
            rw [htag, Bool.true_and] at howned
            exact alike_of_plain hc n (Plain.field hc hd hf howned hname hpath)

end MessageSpec

end Krabka.Codegen
