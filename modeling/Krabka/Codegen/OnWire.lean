import Krabka.Codegen.SameValue

/-!
# `Codegen.OnWire` — which fields a version carries

A positional field is written at every version that declares it. A tagged field is written where its struct
has a tagged section and its tag is valid, and nowhere else: a version that declares it outside its tagged
versions drops it. The call of a tagged field may name another field, and so write that one in its place.

Two values that differ in one field, at a position that is reached, are written differently exactly when the
field has a place on the wire and its two values are not the same at this version (`carries_iff`). Where no call
is renamed, the place depends on the tag only.

## Contents
- **Values that differ in one place.** A list, the structs inside a value, a struct.
- **Places.** Where a struct writes a field.
- **Messages.** From the field outwards: each layer is the same exactly when what it holds is.
- **A field that is dropped.** The failing schema.
-/

namespace Krabka.Codegen

open ByteStream Output Reader Krabka.Protocol PairedLists
open Records (putTrailer RecordsCodec recordsPayload)

variable {ρ : Type}

/-! ## Values that differ in one place

The two values are followed from the message down to the struct that holds the field. Everything beside this
path is equal. -/

/-- Two values of a type of which one struct inside differs. -/
def Within (R : String → Value ρ → Value ρ → Prop) : FieldType → Value ρ → Value ρ → Prop
  | .base (.struct name), .struct vs u, .struct vs' u' => R name (.struct vs u) (.struct vs' u')
  | .array elem, .array xs, .array ys => ∃ x y, DifferAt x y xs ys ∧ Within R elem x y
  | _, _, _ => False

/-- Two structs that differ in one field. -/
def StructDef.DifferIn (d : StructDef) (R : List (Value ρ) → FieldSpec → Value ρ → Value ρ → Prop) :
    Value ρ → Value ρ → Prop
  | .struct values unknown, .struct values' unknown' =>
      unknown = unknown' ∧ ∃ fs f gs us x y vs, d.fields = fs ++ f :: gs ∧ us.length = fs.length ∧
        values = us ++ x :: vs ∧ values' = us ++ y :: vs ∧ R values f x y
  | _, _ => False

section
variable {records : RecordsCodec ρ} {structs : String → Value ρ} {same R : String → Value ρ → Value ρ → Prop}
  {version : Int16} {flex : Bool} {Q : Prop}

theorem ne_null_of_within {t : FieldType} {x y : Value ρ} (h : Within R t x y) : x ≠ .null ∧ y ≠ .null := by
  constructor
  · rintro rfl
    cases t with
    | array elem => cases y <;> exact h
    | base b => cases b <;> cases y <;> exact h
  · rintro rfl
    cases t with
    | array elem => cases x <;> exact h
    | base b => cases b <;> cases x <;> exact h

/-- There is such a struct. -/
theorem exists_of_within {t : FieldType} {x y : Value ρ} (h : Within R t x y)
    (hR : ∀ name x y, R name x y → Q) : Q := by
  induction t generalizing x y with
  | base b =>
      cases b <;> cases x <;> cases y <;> try exact h.elim
      exact hR _ _ _ h
  | array elem ih =>
      cases x <;> cases y <;> try exact h.elim
      obtain ⟨a, b, -, hab⟩ := h
      exact ih hab

/-- The struct decides. -/
theorem sameCall_iff_of_within (hrefl : ∀ name vs u, same name (.struct vs u) (.struct vs u))
    (hR : ∀ name vs u vs' u', R name (.struct vs u) (.struct vs' u') →
      (same name (.struct vs u) (.struct vs' u') ↔ Q)) {t : FieldType} {x y : Value ρ} (h : Within R t x y) :
    SameCall records same version flex t x y ↔ Q := by
  induction t generalizing x y with
  | base b =>
      cases b <;> cases x <;> cases y <;> try exact h.elim
      exact hR _ _ _ _ _ h
  | array elem ih =>
      cases x <;> cases y <;> try exact h.elim
      case array xs ys =>
        obtain ⟨a, b, hdiffer, hab⟩ := h
        exact (hdiffer.forall₂_iff fun c => sameCall_refl hrefl elem c).trans (ih hab)

theorem sameForm_iff_of_within (hrefl : ∀ name vs u, same name (.struct vs u) (.struct vs u))
    (hR : ∀ name vs u vs' u', R name (.struct vs u) (.struct vs' u') →
      (same name (.struct vs u) (.struct vs' u') ↔ Q)) {t : FieldType} {form : Form} {x y : Value ρ}
    (h : Within R t x y) : SameForm records structs same version flex t form x y ↔ Q := by
  unfold SameForm
  rw [unwrapped_of_ne (ne_null_of_within h).1, unwrapped_of_ne (ne_null_of_within h).2]
  exact sameCall_iff_of_within hrefl hR h

end

/-! ## Places

A field has a place in front of the section or in it. What is written there is the field that the call names.
-/

/-- The positional place of a field. -/
def FieldSpec.inPlace (f : FieldSpec) (version : Int16) : Bool := !f.isTagged && f.versions.contains version

/-- The place of a field in the tagged section: the call of a field that is written names it. -/
def StructDef.InSection (d : StructDef) (records : RecordsCodec ρ) (structs : String → Value ρ) (version : Int16)
    (values : List (Value ρ)) (f : FieldSpec) : Prop :=
  d.hasTrailer version ∧ ∃ e ∈ d.written records structs version values, e.2.1.calledName = f.rustName

section
variable {d : StructDef} {records : RecordsCodec ρ} {callee : String → Codec ρ} {structs : String → Value ρ}
  {same : String → Value ρ → Value ρ → Prop} {version : Int16} {fs gs : List FieldSpec} {f : FieldSpec}
  {us vs : List (Value ρ)} {x y : Value ρ} {unknown : UnknownTaggedFields}

theorem zip_differ (hlen : us.length = fs.length) :
    (fs ++ f :: gs).zip (us ++ x :: vs) = fs.zip us ++ (f, x) :: gs.zip vs := by
  rw [List.zip_append hlen.symm, List.zip_cons_cons]

/-- The same tagged fields are written. -/
theorem written_differ (hfields : d.fields = fs ++ f :: gs) (hlen : us.length = fs.length)
    (hgate : f.isTagged → taggedShouldEncode records structs f x = taggedShouldEncode records structs f y) :
    (d.written records structs version (us ++ x :: vs)).map (fun e => (e.1, e.2.1)) =
      (d.written records structs version (us ++ y :: vs)).map fun e => (e.1, e.2.1) := by
  unfold StructDef.written tagged
  rw [hfields, zip_differ hlen, zip_differ hlen, List.filterMap_append, List.filterMap_append, List.filterMap_cons,
    List.filterMap_cons]
  cases htag : f.tag with
  | none => rfl
  | some tag =>
      have htagged : f.isTagged := by rw [FieldSpec.isTagged, htag]; rfl
      have hshould : d.shouldEncode records structs version f x = d.shouldEncode records structs version f y := by
        unfold StructDef.shouldEncode
        rw [hgate htagged]
      simp only [Option.map_some, List.filter_append, List.filter_cons, List.map_append, hshould]
      split <;> rfl

/-- A call that names the field. -/
theorem called_of_eq (hnames : (d.fields.map (·.rustName)).Nodup) (hfields : d.fields = fs ++ f :: gs)
    (hlen : us.length = fs.length) {g : FieldSpec} (hname : g.calledName = f.rustName) :
    d.called (us ++ x :: vs) g = some (f, x) := by
  have hnone : (fs.zip us).find? (fun p => p.1.rustName = g.calledName) = none := by
    refine List.find?_eq_none.mpr fun p hp => ?_
    rw [decide_eq_true_eq, hname]
    intro heq
    rw [hfields, List.map_append, List.map_cons, List.nodup_append] at hnames
    exact hnames.2.2 _ (List.mem_map_of_mem (List.of_mem_zip hp).1) _ List.mem_cons_self heq
  unfold StructDef.called
  rw [hfields, zip_differ hlen, List.find?_append, hnone, Option.none_or]
  exact List.find?_cons_of_pos (decide_eq_true hname.symm)

/-- A call that does not. -/
theorem called_of_ne (hfields : d.fields = fs ++ f :: gs) (hlen : us.length = fs.length) {g : FieldSpec}
    (hname : g.calledName ≠ f.rustName) : d.called (us ++ x :: vs) g = d.called (us ++ y :: vs) g := by
  have hskip : ∀ z : Value ρ, ((f, z) :: gs.zip vs).find? (fun p => p.1.rustName = g.calledName) =
      (gs.zip vs).find? fun p => p.1.rustName = g.calledName := fun z =>
    List.find?_cons_of_neg fun h => hname (of_decide_eq_true h).symm
  unfold StructDef.called
  rw [hfields, zip_differ hlen, zip_differ hlen, List.find?_append, List.find?_append, hskip x, hskip y]

theorem sameEntry_known {f : FieldSpec} {x y : Value ρ} {nullable : Bool} :
    SameEntry records callee same version (.known (some (f, x)) nullable) (.known (some (f, y)) nullable) ↔
      SameCall records same version true f.fieldType x y := by
  unfold SameEntry
  dsimp only
  rw [if_pos ⟨rfl, rfl⟩]

/-- **The field decides**, in each of its places. -/
theorem sameStruct_iff (hrefl : ∀ name vs u, same name (.struct vs u) (.struct vs u))
    (hnames : (d.fields.map (·.rustName)).Nodup) (hfields : d.fields = fs ++ f :: gs)
    (hlen : us.length = fs.length)
    (hgate : f.isTagged → taggedShouldEncode records structs f x = taggedShouldEncode records structs f y) :
    SameStruct d records callee structs same version (.struct (us ++ x :: vs) unknown)
        (.struct (us ++ y :: vs) unknown) ↔
      (f.inPlace version → SameForm records structs same version (d.flex version && !f.forcesNonFlex) f.fieldType
        (f.form version) x y) ∧
      (d.InSection records structs version (us ++ x :: vs) f →
        SameCall records same version true f.fieldType x y) := by
  refine and_congr ?_ ?_
  · have hzip : d.fields.zip ((us ++ x :: vs).zip (us ++ y :: vs)) =
        fs.zip (us.zip us) ++ (f, x, y) :: gs.zip (vs.zip vs) := by
      rw [hfields, List.zip_append rfl, List.zip_cons_cons, List.zip_append, List.zip_cons_cons]
      rw [List.length_zip, Nat.min_self, hlen]
    have hpair : ∀ {ws : List (Value ρ)} {hs : List FieldSpec}, ∀ p ∈ hs.zip (ws.zip ws), p.2.1 = p.2.2 :=
      fun p hp => eq_of_mem_zip_self (List.of_mem_zip hp).2
    rw [hzip]
    simp only [List.forall_mem_append, List.forall_mem_cons]
    constructor
    · rintro ⟨-, hf, -⟩ hplace
      unfold FieldSpec.inPlace at hplace
      rw [Bool.and_eq_true, Bool.not_eq_true'] at hplace
      exact hf hplace.1 hplace.2
    · intro hf
      refine ⟨fun p hp _ _ => ?_, fun htag hversion => hf ?_, fun p hp _ _ => ?_⟩
      · rw [hpair p hp]
        exact sameForm_refl hrefl _ _ _
      · unfold FieldSpec.inPlace
        rw [htag, hversion]
        rfl
      · rw [hpair p hp]
        exact sameForm_refl hrefl _ _ _
  · unfold StructDef.InSection
    rw [and_imp]
    refine forall_congr' fun _ => ?_
    have hfirst : ∀ {ws : List (Value ρ)}, (d.entries records structs version ws unknown).map Prod.fst =
        ((d.written records structs version ws).map fun e => (e.1, e.2.1)).map Prod.fst ++
          unknown.map (·.tag) := by
      intro ws
      unfold StructDef.entries
      rw [List.map_append, List.map_map, List.map_map, List.map_map]
      rfl
    rw [forall₂_insertionSort_iff (by rw [hfirst, hfirst, written_differ hfields hlen hgate])]
    have hentries : ∀ ws : List (Value ρ), d.entries records structs version ws unknown =
        (((d.written records structs version ws).map fun e => (e.1, e.2.1)).map fun e =>
          (e.1, Entry.known (d.called ws e.2) e.2.nullable)) ++ unknown.map fun u => (u.tag, .unknown u.bytes) := by
      intro ws
      unfold StructDef.entries
      rw [List.map_map]
      rfl
    rw [hentries, hentries, ← written_differ hfields hlen hgate,
      forall₂_map_append_iff (fun e => ⟨rfl, sameEntry_refl hrefl e.2⟩)]
    constructor
    · rintro hall ⟨e, he, hname⟩
      have hentry := (hall _ (List.mem_map_of_mem he)).2
      dsimp only at hentry
      rw [called_of_eq hnames hfields hlen hname, called_of_eq hnames hfields hlen hname, sameEntry_known] at hentry
      exact hentry
    · intro hf e' he'
      obtain ⟨e, he, rfl⟩ := List.mem_map.mp he'
      refine ⟨rfl, ?_⟩
      dsimp only
      by_cases hname : e.2.1.calledName = f.rustName
      · rw [called_of_eq hnames hfields hlen hname, called_of_eq hnames hfields hlen hname, sameEntry_known]
        exact hf ⟨e, he, hname⟩
      · rw [called_of_ne hfields hlen hname]
        exact sameEntry_refl hrefl _

end

/-! ## Messages

Both kinds of place in one statement, over the version and the position of the field. -/

/-- A field of a struct type, in calls that are nested `depth` deep below it, with two values: one of them beside
    the other fields of its struct. -/
structure Leaf (ρ : Type) where
  depth : Nat
  id : StructId
  values : List (Value ρ)
  field : FieldSpec
  left : Value ρ
  right : Value ρ

namespace MessageSpec

section
variable (spec : MessageSpec) (records : RecordsCodec ρ) (version : Int16) (leaf : Leaf ρ)

/-- A field with a place on the wire, whose two values are both written or both left off. -/
structure SharesPlace (id : StructId) (d : StructDef) (values : List (Value ρ)) (f : FieldSpec) (x y : Value ρ) :
    Prop where
  place : f.inPlace version ∨ d.InSection records (spec.defaultOf records id.file) version values f
  gate : f.isTagged → taggedShouldEncode records (spec.defaultOf records id.file) f x =
    taggedShouldEncode records (spec.defaultOf records id.file) f y

/-- Two values of a struct type that differ in the leaf's field only, at a position that is reached. -/
def DifferIn : Nat → StructId → Value ρ → Value ρ → Prop
  | 0, _, _, _ => False
  | n + 1, id, X, Y =>
      ∃ d, spec.structDef id = some d ∧
        d.DifferIn (fun values f x y =>
          (n = leaf.depth ∧ id = leaf.id ∧ values = leaf.values ∧ f = leaf.field ∧ x = leaf.left ∧ y = leaf.right) ∨
            spec.SharesPlace records version id d values f x y ∧
              Within (fun name x y => ∃ target, spec.path id.file name = some target ∧ DifferIn n target x y)
                f.fieldType x y) X Y

/-- The structs inside the leaf's values are the same at this version. -/
def leafSame (name : String) (v v' : Value ρ) : Prop :=
  ∀ target, spec.path leaf.id.file name = some target → spec.SameAt records version leaf.depth target v v'

/-- The leaf's values are the same in its positional place. -/
def SameInPlace (d : StructDef) : Prop :=
  SameForm records (spec.defaultOf records leaf.id.file) (spec.leafSame records version leaf) version
    (d.flex version && !leaf.field.forcesNonFlex) leaf.field.fieldType (leaf.field.form version) leaf.left leaf.right

/-- They are the same in a tagged section. -/
def SameInSection : Prop :=
  SameCall records (spec.leafSame records version leaf) version true leaf.field.fieldType leaf.left leaf.right

/-- They are the same in each of their places. -/
def SameOnWire (d : StructDef) : Prop :=
  (leaf.field.inPlace version → spec.SameInPlace records version leaf d) ∧
    (d.InSection records (spec.defaultOf records leaf.id.file) version leaf.values leaf.field →
      spec.SameInSection records version leaf)

end

section
variable {spec : MessageSpec} {records : RecordsCodec ρ} {version : Int16} {leaf : Leaf ρ}

/-- **From the leaf outwards.** -/
theorem sameAt_iff (hnames : ∀ id d, spec.structDef id = some d → (d.fields.map (·.rustName)).Nodup)
    {d : StructDef} (hd : spec.structDef leaf.id = some d)
    (hdefault : leaf.field.isTagged →
      taggedShouldEncode records (spec.defaultOf records leaf.id.file) leaf.field leaf.left =
        taggedShouldEncode records (spec.defaultOf records leaf.id.file) leaf.field leaf.right)
    {n : Nat} {id : StructId} {X Y : Value ρ} (h : spec.DifferIn records version leaf n id X Y) :
    spec.SameAt records version n id X Y ↔ spec.SameOnWire records version leaf d := by
  induction n generalizing id X Y with
  | zero => exact h.elim
  | succ n ih =>
      obtain ⟨e, he, hdiffer⟩ := h
      unfold SameAt
      rw [he]
      simp only [Option.some.injEq, forall_eq']
      cases X <;> try exact hdiffer.elim
      cases Y <;> try exact hdiffer.elim
      obtain ⟨rfl, fs, f, gs, us, x, y, vs, hfields, hlen, rfl, rfl, hor⟩ := hdiffer
      have hrefl : ∀ name vs u, ∀ target, spec.path id.file name = some target →
          spec.SameAt records version n target (.struct vs u) (.struct vs u) :=
        fun name vs u target _ => sameAt_refl n target vs u
      rcases hor with ⟨rfl, rfl, hvalues, rfl, rfl, rfl⟩ | ⟨hplace, hwithin⟩
      · cases hd.symm.trans he
        unfold SameOnWire
        rw [← hvalues]
        exact sameStruct_iff hrefl (hnames _ _ hd) hfields hlen hdefault
      · refine (sameStruct_iff hrefl (hnames id e he) hfields hlen hplace.gate).trans ?_
        have hone : ∀ name vs u vs' u', (∃ target, spec.path id.file name = some target ∧
              spec.DifferIn records version leaf n target (.struct vs u) (.struct vs' u')) →
            ((∀ target, spec.path id.file name = some target →
              spec.SameAt records version n target (.struct vs u) (.struct vs' u')) ↔
              spec.SameOnWire records version leaf d) := by
          rintro name vs u vs' u' ⟨target, htarget, hxy⟩
          rw [htarget]
          simp only [Option.some.injEq, forall_eq']
          exact ih hxy
        rw [sameForm_iff_of_within hrefl hone hwithin, sameCall_iff_of_within hrefl hone hwithin, ← or_imp]
        exact ⟨fun h => h hplace.place, fun h _ => h⟩

/-- The leaf is a field of its struct. -/
theorem mem_of_differIn {d : StructDef} (hd : spec.structDef leaf.id = some d) {n : Nat} {id : StructId}
    {X Y : Value ρ} (h : spec.DifferIn records version leaf n id X Y) :
    (leaf.field, leaf.left) ∈ d.fields.zip leaf.values := by
  induction n generalizing id X Y with
  | zero => exact h.elim
  | succ n ih =>
      obtain ⟨e, he, hdiffer⟩ := h
      cases X <;> try exact hdiffer.elim
      cases Y <;> try exact hdiffer.elim
      obtain ⟨rfl, fs, f, gs, us, x, y, vs, hfields, hlen, rfl, rfl, hor⟩ := hdiffer
      rcases hor with ⟨rfl, rfl, hvalues, rfl, rfl, rfl⟩ | ⟨-, hwithin⟩
      · cases hd.symm.trans he
        rw [← hvalues, hfields, zip_differ hlen]
        exact List.mem_append_right _ List.mem_cons_self
      · exact exists_of_within hwithin fun name x y ⟨target, _, hxy⟩ => ih hxy

/-- Where no call is renamed, the tag alone says whether a field that is written is in a tagged section. -/
theorem inSection_iff {d : StructDef} (hown : OwnNames d.fields) {values : List (Value ρ)} {f : FieldSpec}
    {structs : String → Value ρ} {v : Value ρ} (hmem : (f, v) ∈ d.fields.zip values)
    (hshould : f.isTagged → taggedShouldEncode records structs f v) :
    d.InSection records structs version values f ↔
      f.isTagged ∧ d.hasTrailer version ∧ f.tagRange.contains version := by
  have hf := (List.of_mem_zip hmem).1
  constructor
  · rintro ⟨htrailer, e, he, hname⟩
    obtain ⟨hzip, htag, hwritten⟩ := mem_written.mp he
    have htagged : e.2.1.isTagged := by rw [FieldSpec.isTagged, htag]; rfl
    have he := (List.of_mem_zip hzip).1
    rw [hown.2 _ he htagged] at hname
    obtain rfl : e.2.1 = f := List.inj_on_of_nodup_map hown.1 he hf hname
    unfold StructDef.shouldEncode at hwritten
    rw [Bool.and_eq_true, tagValid_eq htrailer] at hwritten
    exact ⟨htagged, htrailer, hwritten.1⟩
  · rintro ⟨htagged, htrailer, hrange⟩
    obtain ⟨tag, htag⟩ := Option.isSome_iff_exists.mp htagged
    refine ⟨htrailer, (tag, f, v), mem_written.mpr ⟨hmem, htag, ?_⟩, hown.2 f hf htagged⟩
    unfold StructDef.shouldEncode
    rw [tagValid_eq htrailer, hrange, hshould htagged]
    rfl

end

variable {spec : MessageSpec} {version : Int16}

/-- **A field is carried exactly where it has a place and its values are not the same.** Two values that differ
in one field, at a position that is reached, are written differently exactly when the field is positional or the
call of a written field names it, and its two values are not the same there at this version. Where no call is
renamed, a tagged field has a place exactly at the versions that its tag allows. -/
theorem carries_iff [Records.CrcFast] (codecs : Compression.Codecs) {leaf : Leaf Records.RecordsPayload} {d : StructDef}
    (hd : spec.structDef leaf.id = some d)
    (hnames : ∀ id d, spec.structDef id = some d → (d.fields.map (·.rustName)).Nodup)
    (hversion : leaf.field.versions.contains version)
    (hdefault : leaf.field.isTagged →
      taggedShouldEncode (recordsPayload codecs) (spec.defaultOf (recordsPayload codecs) leaf.id.file) leaf.field
          leaf.left ∧
        taggedShouldEncode (recordsPayload codecs) (spec.defaultOf (recordsPayload codecs) leaf.id.file) leaf.field
          leaf.right)
    {n : Nat} {X Y : Value Records.RecordsPayload} (hX : spec.Shaped n spec.top X) (hY : spec.Shaped n spec.top Y)
    (h : spec.DifferIn (recordsPayload codecs) version leaf n spec.top X Y) {w w' : Bytes}
    (hw : Wrote ((spec.codec (recordsPayload codecs) n spec.top).encode X version) w)
    (hw' : Wrote ((spec.codec (recordsPayload codecs) n spec.top).encode Y version) w') :
    (w ≠ w' ↔
      (leaf.field.isTagged = false ∧ ¬spec.SameInPlace (recordsPayload codecs) version leaf d) ∨
        d.InSection (recordsPayload codecs) (spec.defaultOf (recordsPayload codecs) leaf.id.file) version leaf.values
            leaf.field ∧
          ¬spec.SameInSection (recordsPayload codecs) version leaf) ∧
    (OwnNames d.fields →
      (w ≠ w' ↔
        (leaf.field.isTagged → d.hasTrailer version ∧ leaf.field.tagRange.contains version) ∧
          ¬if leaf.field.isTagged then spec.SameInSection (recordsPayload codecs) version leaf
            else spec.SameInPlace (recordsPayload codecs) version leaf d)) := by
  have hsame : w = w' ↔ spec.SameOnWire (recordsPayload codecs) version leaf d :=
    ((apart_codec (framed_recordsPayload codecs) hX hY).eq_iff hw hw').trans
      (sameAt_iff hnames hd (fun htag => (hdefault htag).1.trans (hdefault htag).2.symm) h)
  have hplace : leaf.field.inPlace version ↔ leaf.field.isTagged = false := by
    unfold FieldSpec.inPlace
    rw [hversion, Bool.and_true, Bool.not_eq_true']
  have hne : w ≠ w' ↔ _ := not_congr hsame
  unfold SameOnWire at hne
  rw [hplace, not_and_or, Classical.not_imp, Classical.not_imp] at hne
  refine ⟨hne, fun hown => hne.trans ?_⟩
  rw [inSection_iff hown (mem_of_differIn hd h) fun htag => (hdefault htag).1]
  cases leaf.field.isTagged with
  | true => simp
  | false => simp

/-! ## A field that is dropped

A tagged field of a version outside its tagged versions. -/

/-- A request whose count is tagged since version 3. -/
def lateTag : MessageSpec where
  name := "LateTagRequest"
  messageType := .request
  apiKey := some 0
  validVersions := ⟨0, 3⟩
  latestVersionUnstable := false
  flexibleVersions := .range ⟨0, .maxValue⟩
  fields := [
    { name := "Count", fieldType := .base .int32, versions := ⟨0, .maxValue⟩, nullableVersions := none,
      taggedVersions := some ⟨3, .maxValue⟩, tag := some 0, fields := [], default := none,
      flexibleVersions := none }]
  commonStructs := []

/-- Its count is 1 or 2. -/
def oneOrTwo : Leaf Records.RecordsPayload where
  depth := 0
  id := lateTag.top
  values := [.int32 1]
  field := { name := "Count", fieldType := .base .int32, versions := ⟨0, .maxValue⟩, nullableVersions := none,
             taggedVersions := some ⟨3, .maxValue⟩, tag := some 0, fields := [], default := none,
             flexibleVersions := none }
  left := .int32 1
  right := .int32 2

theorem oneOrTwo_differ (version : Int16) :
    lateTag.DifferIn (recordsPayload .disabled) version oneOrTwo 1 lateTag.top (.struct [.int32 1] [])
      (.struct [.int32 2] []) :=
  ⟨lateTag.topDef, rfl, rfl, [], _, [], [], _, _, [], rfl, rfl, rfl, rfl, .inl ⟨rfl, rfl, rfl, rfl, rfl, rfl⟩⟩

theorem shaped_oneOrTwo (n : Int32) :
    lateTag.Shaped 1 lateTag.top (.struct [.int32 n] [] : Value Records.RecordsPayload) := by
  intro d hd
  obtain rfl : lateTag.topDef = d := Option.some.inj hd
  refine ⟨rfl, fun p hp => ?_⟩
  obtain rfl := List.mem_singleton.mp hp
  trivial

theorem lateTag_names (id : StructId) (d : StructDef) (hd : lateTag.structDef id = some d) :
    (d.fields.map (·.rustName)).Nodup := by
  have hall : ∀ file ∈ lateTag.files, ∀ s ∈ lateTag.structsOf file, (s.2.map (·.rustName)).Nodup := by decide
  exact hall _ (mem_structsOf hd).1 _ (mem_structsOf hd).2

/-- At version 3 the count is on the wire. -/
theorem oneOrTwo_carried :
    [1, 0, 4, 0, 0, 0, 1] ≠ ([1, 0, 4, 0, 0, 0, 2] : Bytes) ↔
      (oneOrTwo.field.isTagged → lateTag.topDef.hasTrailer 3 ∧ oneOrTwo.field.tagRange.contains 3) ∧
        ¬if oneOrTwo.field.isTagged then lateTag.SameInSection (recordsPayload .disabled) 3 oneOrTwo
          else lateTag.SameInPlace (recordsPayload .disabled) 3 oneOrTwo lateTag.topDef := by
  have hw : ((lateTag.codec (recordsPayload .disabled) 1 lateTag.top).encode (.struct [.int32 1] []) 3) =
    ⟨[1, 0, 4, 0, 0, 0, 1], .ok ()⟩ := rfl
  have hw' : ((lateTag.codec (recordsPayload .disabled) 1 lateTag.top).encode (.struct [.int32 2] []) 3) =
    ⟨[1, 0, 4, 0, 0, 0, 2], .ok ()⟩ := rfl
  have hown : OwnNames lateTag.topDef.fields := by decide
  exact (@carries_iff lateTag 3 _ .disabled oneOrTwo lateTag.topDef rfl lateTag_names (by decide)
    (fun _ => ⟨rfl, rfl⟩) _ _ _ (shaped_oneOrTwo 1) (shaped_oneOrTwo 2) (oneOrTwo_differ 3) _ _ hw hw').2 hown

/-- At version 1, which declares it, it is not: both requests are written as an empty tagged section. -/
theorem oneOrTwo_dropped :
    validate [lateTag] = .ok () ∧ lateTag.resolve = .ok [] ∧ lateTag.validVersions.contains 1 ∧
      oneOrTwo.field.versions.contains 1 ∧
      lateTag.DifferIn (recordsPayload .disabled) 1 oneOrTwo 1 lateTag.top (.struct [.int32 1] [])
        (.struct [.int32 2] []) ∧
      taggedShouldEncode (recordsPayload .disabled) (lateTag.defaultOf (recordsPayload .disabled) none)
        oneOrTwo.field oneOrTwo.left ∧
      taggedShouldEncode (recordsPayload .disabled) (lateTag.defaultOf (recordsPayload .disabled) none)
        oneOrTwo.field oneOrTwo.right ∧
      Wrote ((lateTag.codec (recordsPayload .disabled) 1 lateTag.top).encode (.struct [.int32 1] []) 1) [0] ∧
      Wrote ((lateTag.codec (recordsPayload .disabled) 1 lateTag.top).encode (.struct [.int32 2] []) 1) [0] :=
  ⟨by decide +kernel, by decide +kernel, by decide, by decide, oneOrTwo_differ 1, rfl, rfl, rfl, rfl⟩

end MessageSpec

end Krabka.Codegen
