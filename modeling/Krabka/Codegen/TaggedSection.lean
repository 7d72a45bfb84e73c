import Krabka.Codegen.Owned

/-!
# `Codegen.TaggedSection` — what the reader of a tagged section makes of it

The reader keeps one slot a field. `slotsOf` builds the slots from what is known of each tag, and one entry
changes what is known of its own tag. So a whole section, known and unknown entries mixed in the order of
their tags, leaves in the slots what the known ones hold and keeps the unknown ones (`absorb_sorted`).
-/

namespace Krabka.Codegen

open ByteStream Reader Krabka.Protocol
open Records (RecordsCodec)

variable {ρ : Type}

/-! ## Slots

One slot for each tagged field, empty until its entry is read. -/

/-- The slots of a struct's fields, when `known` is what was read of each tag. -/
def slotsOf (fields : List FieldSpec) (known : UInt32 → Option (Value ρ)) : List (Option (Value ρ)) :=
  fields.map fun f => f.tag.bind known

/-- The tags of a struct are distinct. -/
def DistinctTags (fields : List FieldSpec) : Prop := (fields.filterMap (·.tag)).Nodup

instance (fields : List FieldSpec) : Decidable (DistinctTags fields) :=
  inferInstanceAs (Decidable (List.Nodup _))

theorem slotsOf_none (fields : List FieldSpec) :
    slotsOf fields (fun _ => (none : Option (Value ρ))) = fields.map fun _ => none := by
  unfold slotsOf
  refine List.map_congr_left fun f _ => ?_
  cases f.tag <;> rfl

theorem slotsOf_congr {fields : List FieldSpec} {g h : UInt32 → Option (Value ρ)}
    (hgh : ∀ f ∈ fields, ∀ tag ∈ f.tag, g tag = h tag) : slotsOf fields g = slotsOf fields h := by
  refine List.map_congr_left fun f hf => ?_
  cases htag : f.tag with
  | none => rfl
  | some tag => exact hgh f hf tag htag

theorem zip_slotsOf_snd (fields : List FieldSpec) (g : UInt32 → Option (Value ρ)) :
    (fields.zip (slotsOf fields g)).map (·.2) = slotsOf fields g :=
  List.map_snd_zip (by simp [slotsOf])

theorem distinctTags_cons {f : FieldSpec} {fields : List FieldSpec} (h : DistinctTags (f :: fields)) :
    DistinctTags fields ∧ ∀ tag ∈ f.tag, ∀ g ∈ fields, g.tag ≠ some tag := by
  unfold DistinctTags at h ⊢
  cases htag : f.tag with
  | none =>
      rw [List.filterMap_cons_none htag] at h
      exact ⟨h, by simp⟩
  | some tag =>
      rw [List.filterMap_cons_some htag, List.nodup_cons] at h
      refine ⟨h.2, fun t ht g hg hgt => h.1 ?_⟩
      cases ht
      exact List.mem_filterMap.mpr ⟨g, hg, hgt⟩

section
variable (d : StructDef) (records : RecordsCodec ρ) (callee : String → Codec ρ) (lenient : Bool)
  (version : Int16)

/-- A tag that no field has is left to the caller, with its payload. -/
theorem readKnown_of_ne {fields : List FieldSpec} {tag : UInt32} (h : ∀ f ∈ fields, f.tag ≠ some tag)
    (known : UInt32 → Option (Value ρ)) (payload : Bytes) :
    d.readKnown records callee lenient version (fields.zip (slotsOf fields known)) tag payload =
      .ok (none, payload) := by
  induction fields with
  | nil => rfl
  | cons f fields ih =>
      have hrest := ih fun g hg => h g (List.mem_cons_of_mem f hg)
      unfold slotsOf at hrest ⊢
      rw [List.map_cons, List.zip_cons_cons, StructDef.readKnown, if_neg (h f List.mem_cons_self),
        bind_of_ok hrest]
      rfl

/-- The field of a tag reads its payload, and what is known of the other tags stays. -/
theorem readKnown_of_mem {fields : List FieldSpec} (hdistinct : DistinctTags fields) {f : FieldSpec}
    (hf : f ∈ fields) {tag : UInt32} (htag : f.tag = some tag) (hvalid : f.tagValid d.flexMin version)
    {payload : Bytes} {v : Value ρ}
    (hread : decodeCall records callee lenient version true f.fieldType f.nullable payload = .ok (v, []))
    (known : UInt32 → Option (Value ρ)) :
    d.readKnown records callee lenient version (fields.zip (slotsOf fields known)) tag payload =
      .ok (some (slotsOf fields (Function.update known tag (some v))), []) := by
  induction fields with
  | nil => cases hf
  | cons g fields ih =>
      obtain ⟨hrest, hhead⟩ := distinctTags_cons hdistinct
      rw [slotsOf, List.map_cons, List.zip_cons_cons, StructDef.readKnown]
      by_cases hgtag : g.tag = some tag
      · have hfg : f = g := by
          rcases List.mem_cons.mp hf with hfg | hmem
          · exact hfg
          · exact absurd htag (hhead tag hgtag f hmem)
        subst hfg
        have hother : slotsOf fields (Function.update known tag (some v)) = slotsOf fields known := by
          refine slotsOf_congr fun k hk t ht => Function.update_of_ne ?_ _ _
          rintro rfl
          exact hhead t htag k hk ht
        have hown : slotsOf (f :: fields) (Function.update known tag (some v)) =
            some v :: slotsOf fields known := by
          have hself : (some tag).bind (Function.update known tag (some v)) = some v := by
            rw [Option.bind_some, Function.update_self]
          rw [← hother, slotsOf, List.map_cons, htag, hself]
          rfl
        rw [if_pos hgtag, if_pos hvalid, bind_of_ok hread, hown]
        have hsnd := zip_slotsOf_snd fields known
        unfold slotsOf at hsnd ⊢
        rw [hsnd]
        rfl
      · have hmem : f ∈ fields := by
          rcases List.mem_cons.mp hf with rfl | hmem
          · exact absurd htag hgtag
          · exact hmem
        have hother : g.tag.bind (Function.update known tag (some v)) = g.tag.bind known := by
          cases hg : g.tag with
          | none => rfl
          | some t =>
              refine Function.update_of_ne ?_ _ _
              rintro rfl
              exact hgtag hg
        have hread' := ih hrest hmem
        unfold slotsOf at hread'
        rw [if_neg hgtag, bind_of_ok hread', slotsOf, List.map_cons, hother]
        rfl

/-! ## Sections

One entry fills one slot or goes to the unknown ones. A whole section is a fold over its entries. -/

/-- What an entry says of the tags: `val` is the value of a known one. -/
def learn (val : UInt32 → Option (Value ρ)) (known : UInt32 → Option (Value ρ)) (e : UInt32 × Bytes) :
    UInt32 → Option (Value ρ) :=
  if (val e.1).isSome then Function.update known e.1 (val e.1) else known

/-- The entries that no field reads. -/
def unknownOf (val : UInt32 → Option (Value ρ)) (entries : List (UInt32 × Bytes)) : UnknownTaggedFields :=
  (entries.filter fun e => (val e.1).isNone).map fun e => ⟨e.1, e.2⟩

/-- An entry is the payload of a known value, or no field has its tag. -/
def EntryReads (val : UInt32 → Option (Value ρ)) (e : UInt32 × Bytes) : Prop :=
  match val e.1 with
  | some v => ∃ f ∈ d.fields, f.tag = some e.1 ∧ f.tagValid d.flexMin version ∧
      decodeCall records callee lenient version true f.fieldType f.nullable e.2 = .ok (v, [])
  | none => ∀ f ∈ d.fields, f.tag ≠ some e.1

theorem absorb_entries (hdistinct : DistinctTags d.fields) {val : UInt32 → Option (Value ρ)}
    {entries : List (UInt32 × Bytes)}
    (h : ∀ e ∈ entries, EntryReads d records callee lenient version val e)
    (known : UInt32 → Option (Value ρ)) (unknown : UnknownTaggedFields) :
    absorb (fun tag slots => d.readKnown records callee lenient version (d.fields.zip slots) tag)
        (slotsOf d.fields known, unknown) entries =
      some (slotsOf d.fields (entries.foldl (learn val) known), unknown ++ unknownOf val entries) := by
  induction entries generalizing known unknown with
  | nil => exact congrArg some (congrArg (Prod.mk _) (List.append_nil unknown).symm)
  | cons e entries ih =>
      have hrest := ih fun e' he' => h e' (List.mem_cons_of_mem e he')
      have he := h e List.mem_cons_self
      unfold EntryReads at he
      unfold absorb at hrest ⊢
      rw [List.foldlM_cons, List.foldl_cons]
      cases hval : val e.1 with
      | some v =>
          rw [hval] at he
          obtain ⟨f, hf, htag, hvalid, hread⟩ := he
          have hlearn : learn val known e = Function.update known e.1 (some v) := by
            unfold learn
            rw [hval]
            rfl
          have hone : absorbOne (fun tag slots => d.readKnown records callee lenient version
              (d.fields.zip slots) tag) (slotsOf d.fields known, unknown) e =
              some (slotsOf d.fields (learn val known e), unknown) := by
            rw [hlearn]
            exact absorbOne_of_known
              (readKnown_of_mem d records callee lenient version hdistinct hf htag hvalid hread known)
          have hskip : unknownOf val (e :: entries) = unknownOf val entries := by
            simp [unknownOf, hval]
          rw [hone, hskip]
          exact hrest _ _
      | none =>
          rw [hval] at he
          have hlearn : learn val known e = known := by
            unfold learn
            rw [hval]
            rfl
          have hone : absorbOne (fun tag slots => d.readKnown records callee lenient version
              (d.fields.zip slots) tag) (slotsOf d.fields known, unknown) e =
              some (slotsOf d.fields (learn val known e), unknown ++ [⟨e.1, e.2⟩]) := by
            rw [hlearn]
            exact absorbOne_of_unknown (readKnown_of_ne d records callee lenient version he known e.2)
          have hkeep : unknownOf val (e :: entries) = ⟨e.1, e.2⟩ :: unknownOf val entries := by
            simp [unknownOf, hval]
          have hassoc : unknown ++ ⟨e.1, e.2⟩ :: unknownOf val entries =
              (unknown ++ [⟨e.1, e.2⟩]) ++ unknownOf val entries := List.append_cons _ _ _
          rw [hone, hkeep, hassoc]
          exact hrest _ _

end

/-- What a section says of a tag does not depend on the order of its entries. -/
theorem foldl_learn {val : UInt32 → Option (Value ρ)} (entries : List (UInt32 × Bytes))
    (known : UInt32 → Option (Value ρ)) (tag : UInt32) :
    entries.foldl (learn val) known tag =
      if tag ∈ entries.map Prod.fst then (val tag).or (known tag) else known tag := by
  induction entries generalizing known with
  | nil => rfl
  | cons e entries ih =>
      have hlearn : learn val known e tag = if tag = e.1 then (val tag).or (known tag) else known tag := by
        unfold learn
        by_cases htag : tag = e.1
        · subst htag
          rw [if_pos rfl]
          cases hval : val e.1 with
          | none => rfl
          | some v => exact Function.update_self e.1 _ known
        · rw [if_neg htag]
          split
          · exact Function.update_of_ne htag _ _
          · rfl
      rw [List.foldl_cons, ih, hlearn]
      simp only [List.map_cons, List.mem_cons]
      by_cases htag : tag = e.1
      · simp only [htag, if_true, true_or]
        split
        · cases val e.1 <;> rfl
        · rfl
      · simp only [htag, if_false, false_or]

/-! ### Known and unknown entries in one order

The writer merges the known entries into the unknown ones by tag; the reader takes them apart again. -/

section
variable {val : UInt32 → Option (Value ρ)} {entries : List (UInt32 × Bytes)}
  {unknown : UnknownTaggedFields}

/-- The entries that no field reads are the unknown ones, in their own order. -/
theorem unknownOf_sortedFields (hentries : ∀ e ∈ entries, (val e.1).isSome)
    (hunknown : ∀ u ∈ unknown, val u.tag = none) (hascending : unknown.Pairwise (fun a b => a.tag < b.tag))
    (hsorted : (sortedFields entries unknown).Pairwise (fun a b => a.1 < b.1)) :
    unknownOf val (sortedFields entries unknown) = unknown := by
  have hperm : ((sortedFields entries unknown).filter fun e => (val e.1).isNone).Perm
      (unknown.map fun u => (u.tag, u.bytes)) := by
    refine ((sortedFields_perm entries unknown).filter _).trans ?_
    have hnone : entries.filter (fun e => (val e.1).isNone) = [] := by
      refine List.filter_eq_nil_iff.mpr fun e he => ?_
      have := hentries e he
      cases hval : val e.1 with
      | none => rw [hval] at this; cases this
      | some v => simp
    have hall : (unknown.map fun u => (u.tag, u.bytes)).filter (fun e => (val e.1).isNone) =
        unknown.map fun u => (u.tag, u.bytes) := by
      refine List.filter_eq_self.mpr fun e he => ?_
      obtain ⟨u, hu, rfl⟩ := List.mem_map.mp he
      rw [hunknown u hu]
      rfl
    rw [List.filter_append, hnone, hall, List.nil_append]
  have heq : (sortedFields entries unknown).filter (fun e => (val e.1).isNone) =
      unknown.map fun u => (u.tag, u.bytes) := by
    have hantisymm : ∀ a b : UInt32 × Bytes,
        a ∈ (sortedFields entries unknown).filter (fun e => (val e.1).isNone) →
        b ∈ (unknown.map fun u => (u.tag, u.bytes)) → a.1 < b.1 → b.1 < a.1 → a = b :=
      fun a b _ _ hab hba => absurd hab (UInt32.lt_asymm hba)
    exact hperm.eq_of_pairwise hantisymm (hsorted.filter _) (List.pairwise_map.mpr hascending)
  unfold unknownOf
  rw [heq, List.map_map]
  exact List.map_id unknown

end

/-- **A section read back.** The slots hold what `val` says of the known entries, and the unknown ones are
kept. -/
theorem absorb_sorted (d : StructDef) (records : RecordsCodec ρ) (callee : String → Codec ρ)
    (lenient : Bool) (version : Int16) (hdistinct : DistinctTags d.fields)
    {val : UInt32 → Option (Value ρ)} {entries : List (UInt32 × Bytes)} {unknown : UnknownTaggedFields}
    (hreads : ∀ e ∈ entries, EntryReads d records callee lenient version val e)
    (hentries : ∀ tag, (val tag).isSome ↔ tag ∈ entries.map Prod.fst)
    (hunknown : ∀ u ∈ unknown, ∀ f ∈ d.fields, f.tag ≠ some u.tag)
    (hnone : ∀ u ∈ unknown, val u.tag = none)
    (hascending : unknown.Pairwise (fun a b => a.tag < b.tag))
    (hsorted : (sortedFields entries unknown).Pairwise (fun a b => a.1 < b.1)) :
    absorb (fun tag slots => d.readKnown records callee lenient version (d.fields.zip slots) tag)
        (d.fields.map fun _ => none, []) (sortedFields entries unknown) =
      some (slotsOf d.fields val, unknown) := by
  have hperm := sortedFields_perm entries unknown
  have hall : ∀ e ∈ sortedFields entries unknown, EntryReads d records callee lenient version val e := by
    intro e he
    rcases List.mem_append.mp (hperm.mem_iff.mp he) with he | he
    · exact hreads e he
    · obtain ⟨u, hu, rfl⟩ := List.mem_map.mp he
      unfold EntryReads
      rw [hnone u hu]
      exact hunknown u hu
  have hslots : (sortedFields entries unknown).foldl (learn val) (fun _ => none) = val := by
    funext tag
    rw [foldl_learn]
    cases hval : val tag with
    | none => split <;> rfl
    | some v =>
        have hmem : tag ∈ (sortedFields entries unknown).map Prod.fst := by
          refine ((hperm.map Prod.fst).mem_iff).mpr ?_
          rw [List.map_append]
          exact List.mem_append_left _ ((hentries tag).mp (by rw [hval]; rfl))
        rw [if_pos hmem]
        rfl
  rw [← slotsOf_none, absorb_entries d records callee lenient version hdistinct hall, hslots,
    List.nil_append, unknownOf_sortedFields (fun e he => (hentries e.1).mpr (List.mem_map_of_mem he)) hnone
      hascending hsorted]

end Krabka.Codegen
