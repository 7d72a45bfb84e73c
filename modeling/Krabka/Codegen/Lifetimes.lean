import Krabka.Codegen.Borrowed
import Krabka.Lib.Saturation

/-!
# `Codegen.Lifetimes` — which common structs borrow

The common structs of a message refer to each other by name, in any order and in circles. Which of their
borrowed types has a `<'a>` is found in rounds, and is written down twice: where the struct is declared, and in
the path of every field that names it. Rust takes the generated code only where the two agree.
-/

namespace Krabka.Codegen

/-- A field of the list points to text: itself, in a struct that it defines, or in a common struct that it
    names. -/
inductive HoldsText (commonStructs : List CommonStruct) : List FieldSpec → Prop where
  | text {f : FieldSpec} {fields : List FieldSpec} :
      f ∈ fields → f.baseType.borrows = true → HoldsText commonStructs fields
  | inline {f : FieldSpec} {fields : List FieldSpec} :
      f ∈ fields → HoldsText commonStructs f.fields → HoldsText commonStructs fields
  | named {f : FieldSpec} {fields : List FieldSpec} {cs : CommonStruct} :
      f ∈ fields → f.fields = [] → cs ∈ commonStructs → f.baseType.structName = some cs.name →
        HoldsText commonStructs cs.fields → HoldsText commonStructs fields

/-! ## The rounds

A common struct needs a lifetime if it holds a text or names a struct that needs one. The set grows until a
round adds nothing. -/

/-- The loop `while changed` of `resolve_message`. -/
def lifetimeSweep (commonStructs : List CommonStruct) :
    List String × Bool → Except Empty (List String × Bool) :=
  Saturation.sweep CommonStruct.name (fun names cs => commonStructNeedsLifetime names cs.fields) commonStructs

/-- Over the fields of a struct and of the structs that they define. -/
theorem fieldTree {P : List FieldSpec → Prop} (nil : P [])
    (cons : ∀ f fs, P f.fields → P fs → P (f :: fs)) (fields : List FieldSpec) : P fields :=
  @FieldSpec.rec_1 (fun f => P f.fields) P (fun _ _ _ _ _ _ _ _ _ ih => ih) nil cons fields

/-- A field needs a lifetime for its type, for its inline fields or for the struct that it names. -/
theorem needsLifetimeBy_iff {names : List String} {f : FieldSpec} :
    f.needsLifetimeBy names = true ↔
      f.baseType.borrows = true ∨ commonStructNeedsLifetime names f.fields = true ∨
        f.fields = [] ∧ ∃ name ∈ names, f.baseType.structName = some name := by
  cases f with
  | mk =>
      simp [FieldSpec.needsLifetimeBy, FieldSpec.baseType, Option.any_eq_true, or_assoc, and_comm]

/-- A struct needs one where a field does. -/
theorem commonStructNeedsLifetime_iff {names : List String} {fields : List FieldSpec} :
    commonStructNeedsLifetime names fields = true ↔ ∃ f ∈ fields, f.needsLifetimeBy names = true := by
  induction fields with
  | nil => simp [commonStructNeedsLifetime]
  | cons f fs ih => rw [commonStructNeedsLifetime, Bool.or_eq_true, ih, List.exists_mem_cons_iff]

/-- More known names never take a lifetime away. -/
theorem needsLifetime_mono {names more : List String} (hmore : names ⊆ more) {fields : List FieldSpec}
    (h : commonStructNeedsLifetime names fields = true) : commonStructNeedsLifetime more fields = true := by
  induction fields using fieldTree with
  | nil => cases h
  | cons f fs ihf ihfs =>
      rw [commonStructNeedsLifetime, Bool.or_eq_true, needsLifetimeBy_iff] at h ⊢
      rcases h with (hborrows | hinline | ⟨hempty, name, hname, hstruct⟩) | hfs
      · exact .inl (.inl hborrows)
      · exact .inl (.inr (.inl (ihf hinline)))
      · exact .inl (.inr (.inr ⟨hempty, name, hmore hname, hstruct⟩))
      · exact .inr (ihfs hfs)

/-- A struct stays known to borrow when more structs are. -/
theorem lifetime_monotone :
    Saturation.Monotone (fun names (cs : CommonStruct) => commonStructNeedsLifetime names cs.fields) :=
  fun _ _ _ hmore h => needsLifetime_mono hmore h

variable {commonStructs : List CommonStruct}

/-- Text in a later field is text in the struct. -/
theorem HoldsText.cons {f : FieldSpec} {fs : List FieldSpec} (h : HoldsText commonStructs fs) :
    HoldsText commonStructs (f :: fs) := by
  cases h with
  | text hf hborrows => exact .text (List.mem_cons_of_mem f hf) hborrows
  | inline hf hinline => exact .inline (List.mem_cons_of_mem f hf) hinline
  | named hf hempty hcs hname htext => exact .named (List.mem_cons_of_mem f hf) hempty hcs hname htext

/-- The common structs that hold text, by name. -/
def textStructs (commonStructs : List CommonStruct) : Set String :=
  {name | ∃ cs ∈ commonStructs, cs.name = name ∧ HoldsText commonStructs cs.fields}

/-- What is found to need a lifetime holds text. -/
theorem holdsText_of_needsLifetime {names : List String}
    (hnames : ∀ name ∈ names, name ∈ textStructs commonStructs) {fields : List FieldSpec}
    (h : commonStructNeedsLifetime names fields = true) :
    HoldsText commonStructs fields := by
  induction fields using fieldTree with
  | nil => cases h
  | cons f fs ihf ihfs =>
      rw [commonStructNeedsLifetime, Bool.or_eq_true, needsLifetimeBy_iff] at h
      rcases h with (hborrows | hinline | ⟨hempty, name, hname, hstruct⟩) | hfs
      · exact .text List.mem_cons_self hborrows
      · exact .inline List.mem_cons_self (ihf hinline)
      · obtain ⟨cs, hcs, rfl, htext⟩ := hnames name hname
        exact .named List.mem_cons_self hempty hcs hstruct htext
      · exact (ihfs hfs).cons

/-- Nothing but text makes a struct borrow. -/
theorem closed_textStructs :
    Saturation.Closed CommonStruct.name (fun names cs => commonStructNeedsLifetime names cs.fields)
      commonStructs (textStructs commonStructs) :=
  fun cs hcs _ hknown hneeds => ⟨cs, hcs, rfl, holdsText_of_needsLifetime hknown hneeds⟩

/-- Text is found through every chain of names. -/
theorem HoldsText.needsLifetime {fields : List FieldSpec} (h : HoldsText commonStructs fields) :
    commonStructNeedsLifetime (lifetimeNames commonStructs) fields = true := by
  induction h with
  | text hf hborrows =>
      exact commonStructNeedsLifetime_iff.mpr ⟨_, hf, needsLifetimeBy_iff.mpr (.inl hborrows)⟩
  | inline hf _ ih => exact commonStructNeedsLifetime_iff.mpr ⟨_, hf, needsLifetimeBy_iff.mpr (.inr (.inl ih))⟩
  | @named f fields cs hf hempty hcs hname _ ih =>
      have hknown : cs.name ∈ lifetimeNames commonStructs :=
        Saturation.closed_saturated lifetime_monotone cs hcs _ (fun _ ha => ha) ih
      exact commonStructNeedsLifetime_iff.mpr
        ⟨_, hf, needsLifetimeBy_iff.mpr (.inr (.inr ⟨hempty, _, hknown, hname⟩))⟩

/-- **The last round finds exactly the structs that hold text.** -/
theorem needsLifetime_iff {fields : List FieldSpec} :
    commonStructNeedsLifetime (lifetimeNames commonStructs) fields = true ↔ HoldsText commonStructs fields :=
  ⟨holdsText_of_needsLifetime closed_textStructs.saturated, HoldsText.needsLifetime⟩

/-- So do the names. -/
theorem mem_lifetimeNames_iff {name : String} :
    name ∈ lifetimeNames commonStructs ↔ name ∈ textStructs commonStructs := by
  constructor
  · exact closed_textStructs.saturated name
  · rintro ⟨cs, hcs, rfl, htext⟩
    exact Saturation.closed_saturated lifetime_monotone cs hcs _ (fun _ ha => ha) htext.needsLifetime

/-- **The loop ends, and finds the structs that hold text.** A name is found where some chain of names leads
    from a common struct of this name to text, through circles and against the order of the list; the last
    round finds none. -/
theorem lifetimes_found (commonStructs : List CommonStruct) :
    (∃ n ≤ commonStructs.length + 1, WhileLoop.Ends (·.2) (lifetimeSweep commonStructs) n ([], true)
        (.ok (lifetimeNames commonStructs, false))) ∧
      ∀ name, name ∈ lifetimeNames commonStructs ↔
        ∃ cs ∈ commonStructs, cs.name = name ∧ HoldsText commonStructs cs.fields :=
  ⟨Saturation.sweeps_end, fun _ => mem_lifetimeNames_iff⟩

/-! ## Uses and declarations

Both sides ask the same set, one by the name of the struct and one by the path of the field. -/

/-- A field of the list, or of a struct that one of its fields defines. -/
inductive Inside : FieldSpec → List FieldSpec → Prop where
  | here {f : FieldSpec} {fields : List FieldSpec} : f ∈ fields → Inside f fields
  | inside {f g : FieldSpec} {fields : List FieldSpec} : g ∈ fields → Inside f g.fields → Inside f fields

/-- `struct_path_for`: whether the path of a struct field ends in `<'a>`. -/
def FieldSpec.pathLifetime (map : ResMap) (f : FieldSpec) : Option Bool :=
  match f.baseType.structName with
  | some name =>
      (map.lookup name).map fun r =>
        if f.fields.isEmpty then r.needsLifetime else Codegen.needsLifetimeIn map f.fields
  | none => none

namespace MessageSpec

variable (spec : MessageSpec)

/-- `spec_needs_lifetime`: the message's own struct stores its tagged fields owned. -/
def specNeedsLifetime : Bool := needsLifetimeIn spec.resMap (spec.fields.filter (!·.isTagged))

/-- Whether the emitted struct has a `<'a>`: the argument `has_lt` of `struct_block`. -/
def declaresLifetime (id : StructId) : Option Bool :=
  if id = spec.top then some spec.specNeedsLifetime
  else (spec.structFields id).map (needsLifetimeIn spec.resMap)

/-- One struct for each name, and the common structs name no struct of the message's own file. -/
structure SeparateNames : Prop where
  nested : (spec.name :: (nestedStructs spec.fields).map (·.1)).Nodup
  common : (spec.commonStructs.map (·.name)).Nodup
  apart : ∀ name ∈ (nestedStructs spec.fields).map (·.1), name ∉ spec.commonStructs.map (·.name)
  references : ∀ cs ∈ spec.commonStructs, ∀ f, Inside f cs.fields → f.fields = [] →
    ∀ name, f.baseType.structName = some name → name ∉ (nestedStructs spec.fields).map (·.1)
  definitions : ∀ cs ∈ spec.commonStructs, ∀ f, Inside f cs.fields → f.fields ≠ [] →
    ∃ name, f.baseType.structName = some name

end MessageSpec

theorem Inside.cons {f g : FieldSpec} {fs : List FieldSpec} (h : Inside f fs) : Inside f (g :: fs) := by
  cases h with
  | here hf => exact .here (List.mem_cons_of_mem g hf)
  | inside hf hin => exact .inside (List.mem_cons_of_mem g hf) hin

/-- The resolved map says of a field what the rounds say. -/
theorem needsLifetimeIn_field {map : ResMap} {names : List String} {f : FieldSpec}
    (hinline : needsLifetimeIn map f.fields = commonStructNeedsLifetime names f.fields)
    (hreference : f.fields = [] → ∀ name, f.baseType.structName = some name →
      (map.lookup name).any (·.needsLifetime) = decide (name ∈ names))
    (hdefinition : f.fields ≠ [] → ∃ name, f.baseType.structName = some name) :
    f.needsLifetimeIn map = f.needsLifetimeBy names := by
  rcases f with ⟨_, t, _, _, _, _, fields, _, _⟩
  rw [FieldSpec.needsLifetimeIn, FieldSpec.needsLifetimeBy]
  simp only [FieldSpec.baseType] at hinline hreference hdefinition
  generalize t.baseType = base at hreference hdefinition ⊢
  by_cases hempty : fields = []
  · cases base with
    | base b =>
        cases b with
        | struct name =>
            have hname := hreference hempty name rfl
            simp [hempty, FieldType.borrows, FieldType.structName, commonStructNeedsLifetime, hname]
        | _ => simp [hempty, FieldType.borrows, FieldType.structName, commonStructNeedsLifetime]
    | array elem => simp [hempty, FieldType.borrows, FieldType.structName, commonStructNeedsLifetime]
  · obtain ⟨name, hname⟩ := hdefinition hempty
    cases base with
    | base b =>
        cases b with
        | struct name => simp [hempty, FieldType.borrows, hinline]
        | _ => cases hname
    | array elem => cases hname

/-- `needs_lifetime` finds what the rounds found, where the resolution says of every name that is used what the
    rounds do, and only a field of a struct type defines a struct. -/
theorem needsLifetimeIn_eq {map : ResMap} {names : List String} {fields : List FieldSpec}
    (hreferences : ∀ f, Inside f fields → f.fields = [] → ∀ name, f.baseType.structName = some name →
      (map.lookup name).any (·.needsLifetime) = decide (name ∈ names))
    (hdefinitions : ∀ f, Inside f fields → f.fields ≠ [] → ∃ name, f.baseType.structName = some name) :
    needsLifetimeIn map fields = commonStructNeedsLifetime names fields := by
  induction fields using fieldTree with
  | nil => rfl
  | cons f fs ihf ihfs =>
      have hinline := ihf (fun g hg => hreferences g (.inside List.mem_cons_self hg))
        (fun g hg => hdefinitions g (.inside List.mem_cons_self hg))
      have hhead : f.needsLifetimeIn map = f.needsLifetimeBy names :=
        needsLifetimeIn_field hinline (hreferences f (.here List.mem_cons_self))
          (hdefinitions f (.here List.mem_cons_self))
      rw [needsLifetimeIn, commonStructNeedsLifetime, hhead,
        ihfs (fun g hg => hreferences g hg.cons) fun g hg => hdefinitions g hg.cons]

/-- Distinct keys are looked up as they are listed. -/
theorem lookup_of_mem {β : Type} {l : List (String × β)} {key : String} {b : β} (hkeys : (l.map (·.1)).Nodup)
    (h : (key, b) ∈ l) : l.lookup key = some b := by
  induction l with
  | nil => cases h
  | cons p l ih =>
      rw [List.map_cons, List.nodup_cons] at hkeys
      rcases List.mem_cons.mp h with rfl | h
      · rw [List.lookup_cons_self]
      · have hne : key ≠ p.1 := fun heq => hkeys.1 (heq ▸ List.mem_map_of_mem h)
        rw [List.lookup_cons, beq_false_of_ne hne]
        exact ih hkeys.2 h

theorem filter_of_mem {l : List CommonStruct} {cs : CommonStruct} (hnames : (l.map (·.name)).Nodup)
    (h : cs ∈ l) : l.filter (·.name = cs.name) = [cs] := by
  induction l with
  | nil => cases h
  | cons cs' l ih =>
      rw [List.map_cons, List.nodup_cons] at hnames
      rcases List.mem_cons.mp h with rfl | h
      · rw [List.filter_cons_of_pos (by simp), List.filter_eq_nil_iff.mpr]
        intro other hother heq
        exact hnames.1 (of_decide_eq_true heq ▸ List.mem_map_of_mem hother)
      · have hne : cs'.name ≠ cs.name := fun heq => hnames.1 (heq ▸ List.mem_map_of_mem h)
        rw [List.filter_cons_of_neg (by simpa using hne)]
        exact ih hnames.2 h

/-- A struct that a field defines is generated into the message's file. -/
theorem Inside.nested {f : FieldSpec} {fields : List FieldSpec} (h : Inside f fields) (hfields : f.fields ≠ [])
    {name : String} (hname : f.baseType.structName = some name) : (name, f.fields) ∈ nestedStructs fields := by
  have hmem {g : FieldSpec} {fs : List FieldSpec} {s : String × List FieldSpec} (hg : g ∈ fs)
      (hs : s ∈ g.nestedStructs) : s ∈ nestedStructs fs := by
    induction fs with
    | nil => cases hg
    | cons g' fs ih =>
        rw [nestedStructs, List.mem_append]
        rcases List.mem_cons.mp hg with rfl | hg
        · exact .inl hs
        · exact .inr (ih hg)
  induction h with
  | @here _ hf =>
      refine hmem hf ?_
      rcases f with ⟨_, t, _, _, _, _, fields, _, _⟩
      change t.baseType.structName = some name at hname
      rw [FieldSpec.nestedStructs, if_neg (by simpa using hfields), hname]
      exact List.mem_cons_self
  | @inside g _ hg _ ih =>
      refine hmem hg ?_
      rcases g with ⟨_, t, _, _, _, _, inner, _, _⟩
      have hinner : inner ≠ [] := by
        rintro rfl
        cases ih
      rw [FieldSpec.nestedStructs, if_neg (by simpa using hinner)]
      cases t.baseType.structName with
      | none => exact ih
      | some _ => exact List.mem_cons_of_mem _ ih

namespace MessageSpec.SeparateNames

variable {spec : MessageSpec}

/-- What the resolution says of a name that is no nested struct's is what the rounds found. -/
theorem lookup_any {name : String} (hname : name ∉ (nestedStructs spec.fields).map (·.1)) :
    (spec.resMap.lookup name).any (·.needsLifetime) = decide (name ∈ lifetimeNames spec.commonStructs) ∧
      (name ∈ spec.commonStructs.map (·.name) → (spec.resMap.lookup name).isSome) := by
  have hnested : (((nestedStructs spec.fields).map fun s =>
      (s.1, (⟨.nested, fieldsNeedLifetime s.2⟩ : Resolution))).reverse).lookup name = none := by
    rw [List.lookup_eq_none_iff]
    rintro ⟨key, r⟩ hp
    obtain ⟨s, hs, heq⟩ := List.mem_map.mp (List.mem_reverse.mp hp)
    cases heq
    exact bne_iff_ne.mpr fun heq => hname (heq ▸ List.mem_map_of_mem hs)
  have hgraph : spec.commonStructs.map (fun cs =>
      (cs.name, (⟨.common, decide (cs.name ∈ lifetimeNames spec.commonStructs)⟩ : Resolution))) =
      (spec.commonStructs.map (·.name)).map fun name =>
        (name, ⟨.common, decide (name ∈ lifetimeNames spec.commonStructs)⟩) := by
    rw [List.map_map]
    rfl
  rw [resMap, List.lookup_append, hnested, Option.none_or, hgraph, ← List.map_reverse]
  by_cases hcommon : name ∈ spec.commonStructs.map (·.name)
  · rw [List.lookup_graph _ (List.mem_reverse.mpr hcommon)]
    exact ⟨rfl, fun _ => rfl⟩
  · refine ⟨?_, fun h => absurd h hcommon⟩
    rw [List.lookup_eq_none_iff.mpr]
    · symm
      rw [Option.any_none, decide_eq_false_iff_not, mem_lifetimeNames_iff]
      rintro ⟨cs, hcs, rfl, -⟩
      exact hcommon (List.mem_map_of_mem hcs)
    · rintro ⟨key, r⟩ hp
      obtain ⟨key, hkey, heq⟩ := List.mem_map.mp hp
      cases heq
      exact bne_iff_ne.mpr fun heq => hcommon (heq ▸ List.mem_reverse.mp hkey)

variable (h : spec.SeparateNames)
include h

/-- A common struct is found by its name. -/
theorem structFields_common {cs : CommonStruct} (hcs : cs ∈ spec.commonStructs) :
    spec.structFields ⟨some cs.name, cs.name⟩ = some cs.fields := by
  change List.lookup cs.name ((spec.commonStructs.filter (·.name = cs.name)).flatMap _) = _
  rw [filter_of_mem h.common hcs, List.flatMap_cons, List.cons_append, List.lookup_cons_self]

/-- The emitter finds in a common struct what the rounds found. -/
theorem needsLifetimeIn_common {cs : CommonStruct} (hcs : cs ∈ spec.commonStructs) :
    needsLifetimeIn spec.resMap cs.fields =
      commonStructNeedsLifetime (lifetimeNames spec.commonStructs) cs.fields :=
  needsLifetimeIn_eq (fun f hf hempty name hname => (lookup_any (h.references cs hcs f hf hempty name hname)).1)
    (h.definitions cs hcs)

/-- Its declaration has a lifetime where its fields need one. -/
theorem declares_common {cs : CommonStruct} (hcs : cs ∈ spec.commonStructs) :
    spec.declaresLifetime ⟨some cs.name, cs.name⟩ = some (needsLifetimeIn spec.resMap cs.fields) := by
  rw [declaresLifetime, if_neg (by rintro ⟨⟩), h.structFields_common hcs, Option.map_some]

theorem mem_lifetimeNames {cs : CommonStruct} (hcs : cs ∈ spec.commonStructs) :
    cs.name ∈ lifetimeNames spec.commonStructs ↔ HoldsText spec.commonStructs cs.fields := by
  rw [mem_lifetimeNames_iff]
  constructor
  · rintro ⟨cs', hcs', hname, htext⟩
    rwa [List.inj_on_of_nodup_map h.common hcs' hcs hname] at htext
  · exact fun htext => ⟨cs, hcs, rfl, htext⟩

/-- The path of a field that names it agrees. -/
theorem path_common {cs : CommonStruct} (hcs : cs ∈ spec.commonStructs) {f : FieldSpec} (hempty : f.fields = [])
    (hname : f.baseType.structName = some cs.name) :
    f.pathLifetime spec.resMap = some (decide (cs.name ∈ lifetimeNames spec.commonStructs)) := by
  have hapart : cs.name ∉ (nestedStructs spec.fields).map (·.1) :=
    fun hnested => h.apart cs.name hnested (List.mem_map_of_mem hcs)
  obtain ⟨hany, hsome⟩ := lookup_any hapart
  obtain ⟨r, hr⟩ := Option.isSome_iff_exists.mp (hsome (List.mem_map_of_mem hcs))
  rw [hr, Option.any_some] at hany
  rw [FieldSpec.pathLifetime, hname, ← hany]
  simp [hr, hempty]

/-- The path of a field that defines its struct agrees with that declaration. -/
theorem path_nested {f : FieldSpec} {name : String} (hnested : (name, f.fields) ∈ nestedStructs spec.fields)
    (hfields : f.fields ≠ []) (hname : f.baseType.structName = some name) :
    f.pathLifetime spec.resMap = spec.declaresLifetime ⟨none, name⟩ := by
  have htop : (⟨none, name⟩ : StructId) ≠ spec.top := by
    intro heq
    have hother := (List.nodup_cons.mp h.nested).1
    rw [← (StructId.mk.inj heq).2] at hother
    exact hother (List.mem_map_of_mem hnested)
  have hdef : spec.structFields ⟨none, name⟩ = some f.fields :=
    lookup_of_mem h.nested (List.mem_cons_of_mem _ hnested)
  have hsome : (spec.resMap.lookup name).isSome := by
    rw [resMap, List.lookup_append, Option.isSome_or, Bool.or_eq_true, List.lookup_isSome_iff]
    exact .inl ⟨_, List.mem_reverse.mpr (List.mem_map_of_mem hnested), beq_self_eq_true name⟩
  obtain ⟨r, hr⟩ := Option.isSome_iff_exists.mp hsome
  rw [declaresLifetime, if_neg htop, hdef, FieldSpec.pathLifetime, hname]
  simp [hr, hfields]

end MessageSpec.SeparateNames

/-- **A use is written as the declaration is.** A field that names a common struct borrows where the common
    struct does, which is where it holds text; a field that defines a struct borrows where that does. -/
theorem pathLifetime_declared {spec : MessageSpec} (h : spec.SeparateNames) {f : FieldSpec} {name : String}
    (hname : f.baseType.structName = some name) :
    (f.fields = [] → ∀ cs ∈ spec.commonStructs, cs.name = name →
      f.pathLifetime spec.resMap = spec.declaresLifetime ⟨some name, name⟩ ∧
        (f.pathLifetime spec.resMap = some true ↔ HoldsText spec.commonStructs cs.fields)) ∧
      (f.fields ≠ [] → Inside f spec.fields →
        f.pathLifetime spec.resMap = spec.declaresLifetime ⟨none, name⟩) := by
  constructor
  · rintro hempty cs hcs rfl
    have hpath := h.path_common hcs hempty hname
    have hflag : decide (cs.name ∈ lifetimeNames spec.commonStructs) =
        needsLifetimeIn spec.resMap cs.fields := by
      rw [h.needsLifetimeIn_common hcs, Bool.eq_iff_iff, decide_eq_true_eq, needsLifetime_iff]
      exact h.mem_lifetimeNames hcs
    constructor
    · rw [hpath, hflag, h.declares_common hcs]
    · rw [hpath, ← h.mem_lifetimeNames hcs, Option.some_inj, decide_eq_true_eq]
  · intro hfields hwithin
    exact h.path_nested (hwithin.nested hfields hname) hfields hname

/-- Where no field has fields, inside means among. -/
theorem Inside.mem_of_flat {f : FieldSpec} {fields : List FieldSpec} (hflat : ∀ g ∈ fields, g.fields = [])
    (h : Inside f fields) : f ∈ fields := by
  cases h with
  | here hf => exact hf
  | inside hg hin =>
      rw [hflat _ hg] at hin
      cases hin with
      | here hf => cases hf
      | inside hf _ => cases hf

/-- A field of all versions, without a tag or a default. -/
def everyVersion (name : String) (t : FieldType) (fields : List FieldSpec) : FieldSpec :=
  ⟨name, t, ⟨0, Int16.maxValue⟩, none, none, none, fields, none, none⟩

/-- Two common structs that name each other; the second holds text, the first is used in the message, which
    defines a struct of its own. -/
def circularSpec : MessageSpec :=
  { name := "M", messageType := .data, apiKey := none, validVersions := ⟨0, 0⟩, latestVersionUnstable := false,
    flexibleVersions := .none,
    fields := [everyVersion "Links" (.array (.base (.struct "A"))) [],
      everyVersion "Own" (.base (.struct "N")) [everyVersion "Id" (.base .int32) []]],
    commonStructs := [⟨"A", [everyVersion "Next" (.base (.struct "B")) []]⟩,
      ⟨"B", [everyVersion "Back" (.base (.struct "A")) [], everyVersion "Text" (.base .string) []]⟩] }

theorem separateNames_circularSpec : circularSpec.SeparateNames := by
  have hflat : ∀ cs ∈ circularSpec.commonStructs, ∀ g ∈ cs.fields, g.fields = [] := by
    simp [circularSpec, everyVersion]
  refine ⟨by decide, by decide, by decide, ?_, ?_⟩
  · intro cs hcs f hf _ name hname
    have hmem := hf.mem_of_flat (hflat cs hcs)
    have hnested : (nestedStructs circularSpec.fields).map (·.1) = ["N"] := by decide
    rw [hnested, List.mem_singleton]
    rintro rfl
    simp only [circularSpec, List.mem_cons, List.not_mem_nil, or_false] at hcs
    rcases hcs with rfl | rfl <;> simp [everyVersion] at hmem
    · rw [hmem] at hname
      exact absurd hname (by decide)
    · rcases hmem with rfl | rfl <;> exact absurd hname (by decide)
  · intro cs hcs f hf hfields
    exact absurd (hflat cs hcs f (hf.mem_of_flat (hflat cs hcs))) hfields

/-- `A` is tried before `B`, and found a round later. -/
example : lifetimeNames circularSpec.commonStructs = ["A", "B"] := by decide

theorem pathLifetime_declared_circularSpec :
    ((everyVersion "Links" (.array (.base (.struct "A"))) []).fields = [] →
      ∀ cs ∈ circularSpec.commonStructs, cs.name = "A" →
        (everyVersion "Links" (.array (.base (.struct "A"))) []).pathLifetime circularSpec.resMap =
            circularSpec.declaresLifetime ⟨some "A", "A"⟩ ∧
          ((everyVersion "Links" (.array (.base (.struct "A"))) []).pathLifetime circularSpec.resMap =
            some true ↔ HoldsText circularSpec.commonStructs cs.fields)) ∧
      ((everyVersion "Links" (.array (.base (.struct "A"))) []).fields ≠ [] →
        Inside (everyVersion "Links" (.array (.base (.struct "A"))) []) circularSpec.fields →
        (everyVersion "Links" (.array (.base (.struct "A"))) []).pathLifetime circularSpec.resMap =
          circularSpec.declaresLifetime ⟨none, "A"⟩) :=
  pathLifetime_declared separateNames_circularSpec rfl

end Krabka.Codegen
