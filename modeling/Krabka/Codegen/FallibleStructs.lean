import Krabka.Codegen.Lifetimes

/-!
# `Codegen.FallibleStructs` — which conversions to the owned flavour can fail

A records field of the borrowed flavour holds bytes that `to_owned` parses, and that can fail. The generated
`to_owned` of a struct returns a `Result` only where a records field sits somewhere below it. The generator
collects the structs of a message with a stack and finds these in rounds; all that a struct outside the set
converts has no error to return.
-/

namespace Krabka.Codegen

open ByteStream

namespace BaseType

/-- The text of the type in a schema file. -/
def text : BaseType → String
  | bool => "bool"
  | int8 => "int8"
  | int16 => "int16"
  | int32 => "int32"
  | int64 => "int64"
  | uint16 => "uint16"
  | uint32 => "uint32"
  | float64 => "float64"
  | string => "string"
  | bytes => "bytes"
  | uuid => "uuid"
  | records => "records"
  | struct name => name
  | other text => text

end BaseType

def FieldType.text : FieldType → String
  | .base b => b.text
  | .array elem => "[]" ++ elem.text

/-- A struct's name and its fields. -/
abbrev NamedFields := String × List FieldSpec

/-! ## The stack

A turn takes one list of fields off the stack and pushes the lists that its fields define, so the number of
fields on the stack falls. -/

namespace FieldSpec

def baseText (f : FieldSpec) : String := f.baseType.text

/-- What the field defines, where it defines a struct. -/
def definition (f : FieldSpec) : NamedFields := (f.baseText, f.fields)

end FieldSpec

mutual

def FieldSpec.treeSize : FieldSpec → Nat
  | ⟨_, _, _, _, _, _, fields, _, _⟩ => treeSize fields

/-- One more than there are fields, here and in the structs that they define. -/
def treeSize : List FieldSpec → Nat
  | [] => 1
  | f :: fs => f.treeSize + treeSize fs

end

/-- The fields that define a struct. -/
def defining (fields : List FieldSpec) : List FieldSpec := fields.filter (!·.fields.isEmpty)

/-- The structs that were found, and the field lists that are still to be looked at. -/
structure Collecting where
  structs : List NamedFields
  stack : List (List FieldSpec)

namespace Collecting

def pending (st : Collecting) : Bool := !st.stack.isEmpty

/-- What was pushed last is popped first. -/
def pop (st : Collecting) : Except Empty Collecting :=
  match st.stack with
  | [] => .ok st
  | fields :: stack =>
      .ok ⟨st.structs ++ (defining fields).map (·.definition),
        ((defining fields).map (·.fields)).reverse ++ stack⟩

def weight (st : Collecting) : Nat := (st.stack.map treeSize).sum

end Collecting

theorem FieldSpec.treeSize_eq (f : FieldSpec) : f.treeSize = Codegen.treeSize f.fields := by
  cases f
  rw [FieldSpec.treeSize]

/-- The structs that fields define are smaller than the fields. -/
theorem sum_defining_lt (fields : List FieldSpec) :
    (((defining fields).map (·.fields)).map treeSize).sum < treeSize fields := by
  induction fields with
  | nil => exact Nat.one_pos
  | cons f fs ih =>
      rw [defining, List.filter_cons, treeSize, f.treeSize_eq]
      split
      · rw [List.map_cons, List.map_cons, List.sum_cons]
        exact Nat.add_lt_add_left ih _
      · exact Nat.lt_of_lt_of_le ih (Nat.le_add_left _ _)

/-- The stack gets lighter with every turn. -/
theorem Collecting.falls : WhileLoop.Falls Collecting.pending Collecting.pop Collecting.weight := by
  intro st st' hpending hpop
  rcases st with ⟨structs, _ | ⟨fields, stack⟩⟩
  · cases hpending
  · cases Except.ok.inj hpop
    have hlt := sum_defining_lt fields
    rw [weight, weight, List.map_append, List.sum_append, List.map_reverse, List.sum_reverse, List.map_cons,
      List.sum_cons]
    exact Nat.add_lt_add_right hlt _

/-- `while let Some(fields) = stack.pop()`. -/
def Collecting.run (st : Collecting) : List NamedFields :=
  (WhileLoop.finished (WhileLoop.whileLoop pending pop weight falls st)).structs

namespace MessageSpec

variable (spec : MessageSpec)

/-- Before the loop: the message and its common structs, whose fields are to be looked at. -/
def collecting : Collecting where
  structs := (spec.name, spec.fields) :: spec.commonStructs.map fun cs => (cs.name, cs.fields)
  stack := (spec.commonStructs.map (·.fields)).reverse ++ [spec.fields]

/-- `structs` of `fallible_structs`. -/
def allStructs : List NamedFields := spec.collecting.run

end MessageSpec

/-- What a list of fields defines, at any depth. -/
def Defined (fields : List FieldSpec) (s : NamedFields) : Prop :=
  ∃ f, Inside f fields ∧ f.fields ≠ [] ∧ s = f.definition

theorem mem_defining {f : FieldSpec} {fields : List FieldSpec} :
    f ∈ defining fields ↔ f ∈ fields ∧ f.fields ≠ [] := by
  simp [defining]

/-- What fields define: their own structs, and what these define. -/
theorem defined_iff {fields : List FieldSpec} {s : NamedFields} :
    Defined fields s ↔ ∃ f ∈ defining fields, s = f.definition ∨ Defined f.fields s := by
  constructor
  · rintro ⟨f, hf, hfields, rfl⟩
    cases hf with
    | here hf => exact ⟨f, mem_defining.mpr ⟨hf, hfields⟩, .inl rfl⟩
    | @inside g _ hg hin =>
        have hg' : g.fields ≠ [] := by
          intro hempty
          rw [hempty] at hin
          cases hin with
          | here h => cases h
          | inside h _ => cases h
        exact ⟨g, mem_defining.mpr ⟨hg, hg'⟩, .inr ⟨f, hin, hfields, rfl⟩⟩
  · rintro ⟨f, hf, rfl | ⟨g, hg, hfields, rfl⟩⟩
    · exact ⟨f, .here (mem_defining.mp hf).1, (mem_defining.mp hf).2, rfl⟩
    · exact ⟨g, .inside (mem_defining.mp hf).1 hg, hfields, rfl⟩

/-- What is found and what is still to be found. -/
def Collecting.all (st : Collecting) : Set NamedFields :=
  {s | s ∈ st.structs ∨ ∃ fields ∈ st.stack, Defined fields s}

/-- A turn moves structs from the stack to the list. -/
theorem Collecting.all_pop {structs : List NamedFields} {fields : List FieldSpec}
    {stack : List (List FieldSpec)} :
    Collecting.all ⟨structs ++ (defining fields).map (·.definition),
      ((defining fields).map (·.fields)).reverse ++ stack⟩ = Collecting.all ⟨structs, fields :: stack⟩ := by
  ext s
  simp only [all, Set.mem_ofPred_eq, List.mem_append, List.mem_map, List.mem_reverse, List.exists_mem_cons_iff,
    @defined_iff fields]
  constructor
  · rintro ((hfound | ⟨f, hf, rfl⟩) | ⟨fs, (⟨f, hf, rfl⟩ | hfs), hdefined⟩)
    · exact .inl hfound
    · exact .inr (.inl ⟨f, hf, .inl rfl⟩)
    · exact .inr (.inl ⟨f, hf, .inr hdefined⟩)
    · exact .inr (.inr ⟨fs, hfs, hdefined⟩)
  · rintro (hfound | ⟨f, hf, rfl | hdefined⟩ | ⟨fs, hfs, hdefined⟩)
    · exact .inl (.inl hfound)
    · exact .inl (.inr ⟨f, hf, rfl⟩)
    · exact .inr ⟨f.fields, .inl ⟨f, hf, rfl⟩, hdefined⟩
    · exact .inr ⟨fs, .inr hfs, hdefined⟩

/-- The loop finds what the stack's fields define. -/
theorem Collecting.mem_run {st : Collecting} {s : NamedFields} : s ∈ st.run ↔ s ∈ st.all := by
  obtain ⟨n, hends⟩ := WhileLoop.whileLoop_ends falls st
  have hrun := @WhileLoop.Ends.out_eq Collecting Empty pending pop st (Set NamedFields)
    (fun r => {s | s ∈ (WhileLoop.finished r).structs}) all ?_ (fun _ e => e.elim) ?_ n _ hends
  · exact Set.ext_iff.mp hrun s
  · rintro ⟨structs, _ | ⟨fields, stack⟩⟩ hstop
    · ext s
      simp [all, WhileLoop.finished]
    · cases hstop
  · rintro ⟨structs, _ | ⟨fields, stack⟩⟩ st' hpending hpop
    · cases hpending
    · cases Except.ok.inj hpop
      exact all_pop

/-! ## The rounds

A struct is in the set if it holds a records field or names a struct of the set. The set grows in every round
until it is closed. -/

/-- A records field, or one of a struct that is known to hold one. -/
def holdsRecords (known : List String) (s : NamedFields) : Bool :=
  s.2.any fun f => f.baseText == "records" || decide (f.baseText ∈ known)

namespace MessageSpec

variable (spec : MessageSpec)

/-- The loop `while changed` of `fallible_structs`. -/
def fallibleSweep : List String × Bool → Except Empty (List String × Bool) :=
  Saturation.sweep Prod.fst holdsRecords spec.allStructs

/-- `fallible_structs`. -/
def fallibleStructs : List String := Saturation.saturated Prod.fst holdsRecords spec.allStructs

/-- A records field sits below a struct of the name. -/
inductive HoldsRecords : String → Prop where
  | records {name : String} {fields : List FieldSpec} {f : FieldSpec} :
      (name, fields) ∈ spec.allStructs → f ∈ fields → f.baseText = "records" → HoldsRecords name
  | inside {name : String} {fields : List FieldSpec} {f : FieldSpec} :
      (name, fields) ∈ spec.allStructs → f ∈ fields → HoldsRecords f.baseText → HoldsRecords name

end MessageSpec

/-- A struct holds records in a field of its own or below a known one. -/
theorem holdsRecords_iff {known : List String} {s : NamedFields} :
    holdsRecords known s = true ↔ ∃ f ∈ s.2, f.baseText = "records" ∨ f.baseText ∈ known := by
  simp [holdsRecords]

/-- More known structs never take one away. -/
theorem holdsRecords_monotone : Saturation.Monotone holdsRecords := by
  intro known more s hmore h
  obtain ⟨f, hf, hheld⟩ := holdsRecords_iff.mp h
  exact holdsRecords_iff.mpr ⟨f, hf, hheld.imp_right fun hknown => hmore hknown⟩

variable {spec : MessageSpec}

/-- The structs that hold records are closed under the rule. -/
theorem closed_holdsRecords :
    Saturation.Closed Prod.fst holdsRecords spec.allStructs {name | spec.HoldsRecords name} := by
  rintro ⟨name, fields⟩ hs known hknown h
  obtain ⟨f, hf, hrecords | hbelow⟩ := holdsRecords_iff.mp h
  · exact .records hs hf hrecords
  · exact .inside hs hf (hknown f.baseText hbelow)

/-- The set is closed: a struct that holds a fallible one is fallible. -/
theorem mem_fallibleStructs {s : NamedFields} (hs : s ∈ spec.allStructs) {f : FieldSpec} (hf : f ∈ s.2)
    (h : f.baseText = "records" ∨ f.baseText ∈ spec.fallibleStructs) : s.1 ∈ spec.fallibleStructs :=
  Saturation.closed_saturated holdsRecords_monotone s hs _ (fun _ ha => ha) (holdsRecords_iff.mpr ⟨f, hf, h⟩)

/-- **The set is exactly the structs that hold records.** -/
theorem mem_fallibleStructs_iff {name : String} : name ∈ spec.fallibleStructs ↔ spec.HoldsRecords name := by
  constructor
  · exact closed_holdsRecords.saturated name
  · intro h
    induction h with
    | records hs hf hrecords => exact mem_fallibleStructs hs hf (.inl hrecords)
    | inside hs hf _ ih => exact mem_fallibleStructs hs hf (.inr ih)

/-- The structs that the stack finds: the message, its common structs, and what their fields define at any
    depth. -/
theorem mem_allStructs_iff {s : NamedFields} :
    s ∈ spec.allStructs ↔ s = (spec.name, spec.fields) ∨ (∃ cs ∈ spec.commonStructs, s = (cs.name, cs.fields)) ∨
      Defined spec.fields s ∨ ∃ cs ∈ spec.commonStructs, Defined cs.fields s := by
  rw [MessageSpec.allStructs, Collecting.mem_run]
  simp only [Collecting.all, MessageSpec.collecting, Set.mem_ofPred_eq, List.mem_cons, List.mem_map,
    List.mem_append, List.mem_reverse, List.not_mem_nil, or_false, eq_comm (b := s)]
  constructor
  · rintro ((rfl | ⟨cs, hcs, rfl⟩) | ⟨fields, ⟨cs, hcs, rfl⟩ | rfl, hdefined⟩)
    · exact .inl rfl
    · exact .inr (.inl ⟨cs, hcs, rfl⟩)
    · exact .inr (.inr (.inr ⟨cs, hcs, hdefined⟩))
    · exact .inr (.inr (.inl hdefined))
  · rintro (rfl | ⟨cs, hcs, rfl⟩ | hdefined | ⟨cs, hcs, hdefined⟩)
    · exact .inl (.inl rfl)
    · exact .inl (.inr ⟨cs, hcs, rfl⟩)
    · exact .inr ⟨spec.fields, .inr rfl, hdefined⟩
    · exact .inr ⟨cs.fields, .inl ⟨cs, hcs, rfl⟩, hdefined⟩

/-- **The loops end, and find the structs that hold records.** -/
theorem fallible_found (spec : MessageSpec) :
    (∃ n ≤ spec.allStructs.length + 1, WhileLoop.Ends (·.2) spec.fallibleSweep n ([], true)
        (.ok (spec.fallibleStructs, false))) ∧
      ∀ name, name ∈ spec.fallibleStructs ↔ spec.HoldsRecords name :=
  ⟨Saturation.sweeps_end, fun _ => mem_fallibleStructs_iff⟩

/-! ## Conversions that can fail

Outside the set a conversion is made of conversions without an error. -/

section
variable {ρ ε : Type}

/-- `to_owned_field_expr`, with the error that `RecordsPayloadBorrowed::to_owned` returns. A struct whose
    `to_owned` returns no `Result` is converted without a `?`. -/
def convertFieldExpr (convert : ρ → Except ε ρ) (callee : String → Value ρ → Except ε (Value ρ)) :
    FieldType → Value ρ → Except ε (Value ρ)
  | .array (.base (.struct name)), .array vs => .array <$> vs.mapM (callee name)
  | .array (.base .records), .array vs => .array <$> vs.mapM convertElement
  | .base (.struct name), .struct vs u => callee name (.struct vs u)
  | .base .records, v => convertElement v
  | _, v => .ok v
where
  /-- One records payload. -/
  convertElement : Value ρ → Except ε (Value ρ)
    | .records r => .records <$> convert r
    | v => .ok v

/-- `to_owned_expr`: what is stored owned is cloned. -/
def convertField (convert : ρ → Except ε ρ) (callee : String → Value ρ → Except ε (Value ρ)) (topLevel : Bool)
    (map : ResMap) (f : FieldSpec) (v : Value ρ) : Except ε (Value ρ) :=
  if topLevel && f.taggedNeedsOwned map then .ok v else convertFieldExpr convert callee f.fieldType v

def convertFields (convert : ρ → Except ε ρ) (callee : String → Value ρ → Except ε (Value ρ)) (topLevel : Bool)
    (map : ResMap) : List FieldSpec → List (Value ρ) → Except ε (List (Value ρ))
  | f :: fs, v :: vs => do
      let v ← convertField convert callee topLevel map f v
      let vs ← convertFields convert callee topLevel map fs vs
      return v :: vs
  | _, vs => .ok vs

/-- `to_owned` of a struct type, where a records payload is parsed again. -/
def MessageSpec.convert (spec : MessageSpec) (convert : ρ → Except ε ρ) :
    Nat → StructId → Value ρ → Except ε (Value ρ)
  | n + 1, id, .struct values unknown =>
      match spec.structDef id with
      | some d => do
          let values ← convertFields convert
            (fun name v => (spec.path id.file name).elim (.ok v) (spec.convert convert n · v))
            (id = spec.top) spec.resMap d.fields values
          return .struct values unknown
      | none => .ok (.struct values unknown)
  | _, _, v => .ok v

/-- A nested struct is defined by the fields. -/
theorem defined_of_nestedStructs {fields : List FieldSpec} {s : NamedFields} (h : s ∈ nestedStructs fields) :
    Defined fields s := by
  induction fields using fieldTree with
  | nil => cases h
  | cons f fs ihf ihfs =>
      rw [nestedStructs, List.mem_append] at h
      rcases h with hf | hfs
      · rw [defined_iff]
        refine ⟨f, ?_⟩
        rcases f with ⟨_, t, _, _, _, _, inner, _, _⟩
        rw [FieldSpec.nestedStructs] at hf
        split at hf
        · cases hf
        · rename_i hinner
          refine ⟨mem_defining.mpr ⟨List.mem_cons_self, by simpa using hinner⟩, ?_⟩
          split at hf
          · rename_i name hname
            rcases List.mem_cons.mp hf with rfl | hf
            · left
              have htype : t.baseType = .base (.struct name) := by
                revert hname
                cases t.baseType with
                | base b => cases b <;> simp [FieldType.structName]
                | array elem => simp [FieldType.structName]
              rw [FieldSpec.definition, FieldSpec.baseText, FieldSpec.baseType, htype]
              rfl
            · exact .inr (ihf hf)
          · exact .inr (ihf hf)
      · obtain ⟨f', hf', hfields, hs⟩ := ihfs hfs
        exact ⟨f', hf'.cons, hfields, hs⟩

/-- Every struct that a path leads to is found. -/
theorem mem_allStructs_of_structDef {id : StructId} {d : StructDef} (h : spec.structDef id = some d) :
    (id.name, d.fields) ∈ spec.allStructs := by
  rw [mem_allStructs_iff]
  unfold MessageSpec.structDef at h
  split at h
  · rename_i htop
    cases h
    rw [htop]
    exact .inl rfl
  · obtain ⟨fields, hfields, rfl⟩ := Option.map_eq_some_iff.mp h
    obtain ⟨before, after, hsplit, _⟩ := List.lookup_eq_some_iff.mp hfields
    have hmem : (id.name, fields) ∈ spec.structsOf id.file := by simp [hsplit]
    rcases id with ⟨_ | file, name⟩
    · rcases List.mem_cons.mp hmem with htop | hnested
      · exact .inl htop
      · exact .inr (.inr (.inl (defined_of_nestedStructs hnested)))
    · obtain ⟨cs, hcs, hin⟩ := List.mem_flatMap.mp hmem
      have hcs' := (List.mem_filter.mp hcs).1
      rcases List.mem_cons.mp hin with hown | hnested
      · exact .inr (.inl ⟨cs, hcs', hown⟩)
      · exact .inr (.inr (.inr ⟨cs, hcs', defined_of_nestedStructs hnested⟩))

variable {convert : ρ → Except ε ρ} {callee : String → Value ρ → Except ε (Value ρ)}

/-- A field that is neither a records field nor a fallible struct's is converted without an error. -/
theorem convertFieldExpr_ok {t : FieldType} {plain : String → Value ρ → Value ρ}
    (hrecords : t.baseType.text ≠ "records")
    (hcallee : ∀ name v, t.baseType.text = name → callee name v = .ok (plain name v)) (v : Value ρ) :
    convertFieldExpr convert callee t v = .ok (toOwnedFieldExpr plain t v) := by
  unfold convertFieldExpr
  split
  · rename_i name vs
    have hvs : vs.mapM (callee name) = .ok (vs.map (plain name)) := by
      rw [Results.mapM_eq_ok, List.forall₂_map_right_iff, List.forall₂_same]
      exact fun v _ => hcallee name v rfl
    rw [hvs]
    rfl
  · exact absurd rfl hrecords
  · exact hcallee _ _ rfl
  · exact absurd rfl hrecords
  · rw [toOwnedFieldExpr] <;> assumption

/-- Without records and with callees that do not fail, no field fails. -/
theorem convertFields_ok {plain : String → Value ρ → Value ρ} {topLevel : Bool} {map : ResMap}
    {fields : List FieldSpec} (hrecords : ∀ f ∈ fields, f.baseText ≠ "records")
    (hcallee : ∀ f ∈ fields, ∀ name v, f.baseText = name → callee name v = .ok (plain name v))
    (values : List (Value ρ)) :
    convertFields convert callee topLevel map fields values =
      .ok (toOwnedFields plain topLevel map fields values) := by
  induction fields generalizing values with
  | nil => cases values <;> rfl
  | cons f fs ih =>
      cases values with
      | nil => rfl
      | cons v vs =>
          have hexpr := @convertFieldExpr_ok _ _ convert callee f.fieldType plain
            (hrecords f List.mem_cons_self) (hcallee f List.mem_cons_self) v
          have hrest := ih (fun g hg => hrecords g (List.mem_cons_of_mem f hg))
            (fun g hg => hcallee g (List.mem_cons_of_mem f hg)) vs
          rw [convertFields, toOwnedFields, convertField, hexpr, hrest]
          split <;> rfl

theorem path_name {file : Option String} {name : String} {id : StructId} (h : spec.path file name = some id) :
    id.name = name := by
  unfold MessageSpec.path at h
  split at h
  · cases h
    rfl
  · cases h
    rfl
  · cases h

/-- What a struct outside the set converts has no error to return. -/
theorem convert_plain {id : StructId} (h : id.name ∉ spec.fallibleStructs) (n : Nat) (v : Value ρ) :
    spec.convert convert n id v = .ok (spec.toOwned n id v) := by
  induction n generalizing id v with
  | zero => cases v <;> rfl
  | succ n ih =>
      cases v <;> try rfl
      case struct values unknown =>
        rw [MessageSpec.convert, MessageSpec.toOwned]
        cases hd : spec.structDef id with
        | none => rfl
        | some d =>
            have hmem := mem_allStructs_of_structDef hd
            have hfields := @convertFields_ok _ _ convert
              (fun name v => (spec.path id.file name).elim (.ok v) (spec.convert convert n · v))
              (fun name v => (spec.path id.file name).elim v (spec.toOwned n · v)) (id = spec.top) spec.resMap
              d.fields (fun f hf hrecords => h (mem_fallibleStructs hmem hf (.inl hrecords))) ?_ values
            · dsimp only
              rw [hfields]
              rfl
            · rintro f hf name v rfl
              cases hpath : spec.path id.file f.baseText with
              | none => rfl
              | some target =>
                  refine ih (fun hbelow => h (mem_fallibleStructs hmem hf (.inr ?_))) v
                  rwa [path_name hpath] at hbelow

/-! ## The error that is returned

Inside the set, an error is that of some records field below. -/

theorem error_of_map {α β : Type} {g : α → β} {x : Except ε α} {e : ε} (h : g <$> x = .error e) :
    x = .error e := by
  cases x with
  | error e' => exact congrArg Except.error (Except.error.inj h)
  | ok a => cases h

/-- An element fails as a payload does. -/
theorem convertElement_error {v : Value ρ} {e : ε} (h : convertFieldExpr.convertElement convert v = .error e) :
    ∃ r, convert r = .error e := by
  unfold convertFieldExpr.convertElement at h
  split at h
  · rename_i r
    exact ⟨r, error_of_map h⟩
  · cases h

/-- A field fails as a payload or as a callee does. -/
theorem convertFieldExpr_error {t : FieldType} {v : Value ρ} {e : ε}
    (h : convertFieldExpr convert callee t v = .error e) :
    (∃ r, convert r = .error e) ∨ ∃ name v, callee name v = .error e := by
  unfold convertFieldExpr at h
  split at h
  · obtain ⟨v, _, hv⟩ := Results.exists_of_mapM_eq_error (error_of_map h)
    exact .inr ⟨_, v, hv⟩
  · obtain ⟨v, _, hv⟩ := Results.exists_of_mapM_eq_error (error_of_map h)
    exact .inl (convertElement_error hv)
  · exact .inr ⟨_, _, h⟩
  · exact .inl (convertElement_error h)
  · cases h

/-- So do all of them. -/
theorem convertFields_error {topLevel : Bool} {map : ResMap} {fields : List FieldSpec} {values : List (Value ρ)}
    {e : ε} (h : convertFields convert callee topLevel map fields values = .error e) :
    (∃ r, convert r = .error e) ∨ ∃ name v, callee name v = .error e := by
  induction fields generalizing values with
  | nil => cases values <;> cases h
  | cons f fs ih =>
      cases values with
      | nil => cases h
      | cons v vs =>
          rw [convertFields, Results.bind_eq_error] at h
          rcases h with hv | ⟨v', _, h⟩
          · rw [convertField] at hv
            split at hv
            · cases hv
            · exact convertFieldExpr_error hv
          · rcases Results.bind_eq_error.mp h with hvs | ⟨vs', _, h⟩
            · exact ih hvs
            · cases h

/-- An error of a conversion is one of a records payload. -/
theorem convert_error {n : Nat} {id : StructId} {v : Value ρ} {e : ε}
    (h : spec.convert convert n id v = .error e) : ∃ r, convert r = .error e := by
  induction n generalizing id v with
  | zero => cases v <;> cases h
  | succ n ih =>
      cases v <;> try cases h
      case struct values unknown =>
        rw [MessageSpec.convert] at h
        cases hd : spec.structDef id with
        | none => rw [hd] at h; cases h
        | some d =>
            rw [hd] at h
            rcases Results.bind_eq_error.mp h with hvalues | ⟨_, _, h⟩
            · rcases convertFields_error hvalues with hr | ⟨name, v, hcallee⟩
              · exact hr
              · cases hpath : spec.path id.file name with
                | none => rw [hpath] at hcallee; cases hcallee
                | some target => rw [hpath] at hcallee; exact ih hcallee
            · cases h

/-- **The declared signatures are right.** A struct outside the set is converted to the owned flavour without an
    error, whatever the records payloads do, so its `to_owned` needs no `Result`; and the only errors of the
    others are those of a records payload. -/
theorem convert_outcome (spec : MessageSpec) (convert : ρ → Except ε ρ) (n : Nat) (id : StructId)
    (v : Value ρ) :
    (¬spec.HoldsRecords id.name → spec.convert convert n id v = .ok (spec.toOwned n id v)) ∧
      ∀ e, spec.convert convert n id v = .error e → ∃ r, convert r = .error e :=
  ⟨fun h => convert_plain (fun hmem => h (mem_fallibleStructs_iff.mp hmem)) n v, fun _ => convert_error⟩

/-- `A` and `B` name each other; `B` holds records, and the message an `A`. -/
example :
    let spec : MessageSpec :=
      { name := "M", messageType := .data, apiKey := none, validVersions := ⟨0, 0⟩,
        latestVersionUnstable := false, flexibleVersions := .none,
        fields := [everyVersion "A" (.base (.struct "A")) [],
          everyVersion "Own" (.base (.struct "N")) [everyVersion "Id" (.base .int32) []]],
        commonStructs := [⟨"A", [everyVersion "Next" (.base (.struct "B")) []]⟩,
          ⟨"B", [everyVersion "Back" (.base (.struct "A")) [], everyVersion "Batches" (.base .records) []]⟩] }
    spec.fallibleStructs = ["M", "A", "B"] := by
  decide +kernel

end

end Krabka.Codegen
