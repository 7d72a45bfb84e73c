import Krabka.Lib.Text
import Krabka.Metadata.AclIndex

/-!
# `Metadata.AclLookup` — looking up the ACLs of one resource

The authorizer asks the index for the entries that could match a resource. `AclIndex.matching` reads the
literal bucket of the name, the wildcard bucket, and the map of prefixes once for each stored prefix
length that fits the name. What it is for is a **linear scan**: keep the entries of the resource type
that apply to the name (`AppliesTo`), each once.

The reference of a run of mutations is a set of entries (`AclOp.applySet`). `refines_run` relates every
run of the index to that set, and the listing and the lookup are read off the relation.
-/

namespace Krabka.Metadata

open Collections

/-! ## The lookup

Three places are read: the bucket of the name, the wildcard bucket and the prefixes. -/

/-- The entries whose prefix `name` starts with, shortest prefix first. -/
def PrefixedAcls.matching (acls : PrefixedAcls) (name : String) : List AclEntry :=
  -- one probe of the map for each stored length, at that many bytes of the name
  ((acls.lengths.keys.filter (· ≤ name.utf8ByteSize)).filterMap (Text.getTo name)).flatMap
    (fun pre => acls.byPrefix[pre]?.getD [])

namespace AclIndex

/-- Every entry that could match resource `name`: the literal entries for it, the literal wildcard
    entries, and the entries of its prefixes. -/
def matching (idx : AclIndex) (rt : ResourceType) (name : String) : List AclEntry :=
  let literal := idx.literal[rt]?
  let named := (literal.bind (fun acls => acls.byName[name]?)).getD []
  let wildcard := (literal.map (·.wildcard)).getD []
  let prefixed := (idx.prefixed[rt]?.map (·.matching name)).getD []
  named ++ wildcard ++ prefixed

end AclIndex

/-! ## What the lookup is for

A set of entries with insertion and removal. The index refines it along every run. -/

/-- The entry's resource pattern covers `name`. -/
def AclEntry.AppliesTo (e : AclEntry) (name : String) : Prop :=
  match e.patternType with
  | .literal => e.resourceName = name ∨ e.resourceName = wildcardResource
  | .prefixed => e.resourceName.toList <+: name.toList

/-- The mutations of an index. -/
inductive AclOp where
  | insert (entry : AclEntry)
  | removeMatching (filter : AclEntryFilter)

namespace AclOp

def apply (idx : AclIndex) : AclOp → AclIndex
  | .insert entry => idx.insert entry
  | .removeMatching filter => idx.removeMatching filter

/-- What the mutation does to a set of entries. -/
def applySet (S : Set AclEntry) : AclOp → Set AclEntry
  | .insert entry => Insert.insert entry S
  | .removeMatching filter => {e ∈ S | filter.matches e = false}

end AclOp

/-- The index holds exactly the entries of the set, and its representation is in order. -/
structure AclIndex.Refines (idx : AclIndex) (S : Set AclEntry) : Prop where
  inv : idx.Inv
  holds : ∀ e, idx.Holds e ↔ e ∈ S

/-- The empty index holds no entry. -/
theorem AclIndex.refines_empty : AclIndex.Refines {} ∅ where
  inv := AclIndex.inv_empty
  holds := fun e =>
    ⟨fun h => absurd h (AclIndex.not_holds_empty e), fun h => absurd h (Set.notMem_empty e)⟩

/-- A mutation of the index is the mutation of the set. -/
theorem AclIndex.Refines.apply {idx : AclIndex} {S : Set AclEntry} (h : idx.Refines S) (op : AclOp) :
    (op.apply idx).Refines (op.applySet S) := by
  cases op with
  | insert entry =>
      refine ⟨h.inv.insert entry, fun e => ?_⟩
      show (idx.insert entry).Holds e ↔ e ∈ Insert.insert entry S
      rw [AclIndex.holds_insert, h.holds e, Set.mem_insert_iff]
      exact or_comm
  | removeMatching filter =>
      refine ⟨h.inv.removeMatching filter, fun e => ?_⟩
      show (idx.removeMatching filter).Holds e ↔ e ∈ S ∧ filter.matches e = false
      rw [AclIndex.holds_removeMatching h.inv, h.holds e]

/-- **Every run of the index is one of the set of entries.** -/
theorem AclIndex.refines_run (ops : List AclOp) {idx : AclIndex} {S : Set AclEntry}
    (h : idx.Refines S) : (ops.foldl AclOp.apply idx).Refines (ops.foldl AclOp.applySet S) := by
  induction ops generalizing idx S with
  | nil => exact h
  | cons op ops ih => exact ih (h.apply op)

/-! ## The probes of the prefix map

A stored prefix of the name is found because its length is recorded, and a length is probed once. -/

section
variable {acls : PrefixedAcls} {name : String}

/-- The lengths that are stored are those of the stored prefixes. -/
theorem PrefixedAcls.Inv.mem_lengths (h : acls.Inv) {len : Nat} :
    len ∈ acls.lengths ↔ ∃ pre ∈ acls.byPrefix, pre.utf8ByteSize = len := by
  rw [mem_iff_get, h.lengths len]
  unfold countOrNone
  constructor
  · rintro ⟨count, hcount⟩
    split at hcount
    · cases hcount
    · rename_i hne
      obtain ⟨pre, hpre, hlen⟩ := List.countP_pos_iff.mp (Nat.pos_of_ne_zero hne)
      exact ⟨pre, Std.ExtTreeMap.mem_keys.mp hpre, by simpa using hlen⟩
  · rintro ⟨pre, hpre, hlen⟩
    rw [if_neg]
    · exact ⟨_, rfl⟩
    · exact Nat.ne_of_gt (List.countP_pos_iff.mpr
        ⟨pre, Std.ExtTreeMap.mem_keys.mpr hpre, by simpa using hlen⟩)

/-- A probe finds a prefix of the name: the one of the probed length. -/
theorem mem_probes {pre : String} :
    pre ∈ (acls.lengths.keys.filter (· ≤ name.utf8ByteSize)).filterMap (Text.getTo name) ↔
      pre.utf8ByteSize ∈ acls.lengths ∧ pre.toList <+: name.toList := by
  rw [List.mem_filterMap]
  constructor
  · rintro ⟨len, hlen, hget⟩
    obtain ⟨hpre, rfl⟩ := Text.getTo_eq_some_iff.mp hget
    exact ⟨Std.ExtTreeMap.mem_keys.mp (List.mem_filter.mp hlen).1, hpre⟩
  · rintro ⟨hlen, hpre⟩
    refine ⟨pre.utf8ByteSize, List.mem_filter.mpr ⟨Std.ExtTreeMap.mem_keys.mpr hlen, ?_⟩,
      Text.getTo_eq_some_iff.mpr ⟨hpre, rfl⟩⟩
    -- a prefix is no longer than the name, so its length is in the probed range
    exact decide_eq_true (Text.utf8ByteSize_le_of_prefix hpre)

/-- No prefix is probed twice. -/
theorem nodup_probes :
    ((acls.lengths.keys.filter (· ≤ name.utf8ByteSize)).filterMap (Text.getTo name)).Nodup := by
  refine List.Nodup.filterMap ?_ (Std.ExtTreeMap.nodup_keys.filter _)
  -- two lengths that read the same prefix are its length
  intro len len' pre hpre hpre'
  rw [← (Text.getTo_eq_some_iff.mp (Option.mem_def.mp hpre)).2,
    ← (Text.getTo_eq_some_iff.mp (Option.mem_def.mp hpre')).2]

/-- Probing the lengths finds the buckets of all prefixes. -/
theorem PrefixedAcls.Inv.mem_matching (h : acls.Inv) {e : AclEntry} :
    e ∈ acls.matching name ↔ ∃ pre, pre.toList <+: name.toList ∧ e ∈ acls.bucket pre := by
  unfold PrefixedAcls.matching
  rw [List.mem_flatMap]
  constructor
  · rintro ⟨pre, hpre, he⟩
    exact ⟨pre, (mem_probes.mp hpre).2, he⟩
  · rintro ⟨pre, hpre, he⟩
    refine ⟨pre, mem_probes.mpr ⟨h.mem_lengths.mpr ⟨pre, ?_, rfl⟩, hpre⟩, he⟩
    -- a bucket with an entry is stored
    cases hb : acls.byPrefix[pre]? with
    | none =>
        unfold PrefixedAcls.bucket at he
        rw [hb] at he
        cases he
    | some bucket => exact mem_iff_get.mpr ⟨bucket, hb⟩

end

/-! ## The lookup is the linear scan

The three places are disjoint, and together they are the entries that apply to the name. -/

namespace AclIndex

variable {idx : AclIndex} {rt : ResourceType} {name : String}

/-- The literal part of a lookup reads the bucket of the name and the wildcard bucket, and reads the
    wildcard bucket once when it is looked up by name. -/
theorem matching_eq (h : idx.Inv) :
    idx.matching rt name =
      (if name = wildcardResource then [] else idx.bucketAt rt .literal name) ++
        idx.bucketAt rt .literal wildcardResource ++
        (idx.prefixed[rt]?.getD {}).matching name := by
  have hnamed : (idx.literal[rt]?.bind (fun acls => acls.byName[name]?)).getD [] =
      if name = wildcardResource then [] else idx.bucketAt rt .literal name := by
    simp only [bucketAt]
    cases hl : idx.literal[rt]? with
    | none => simp [LiteralAcls.bucket]
    | some acls =>
        split
        · rename_i hw
          rw [hw, Option.bind_some, (h.literal rt acls hl).1.wildcard_absent]
          rfl
        · rename_i hw
          rw [Option.bind_some, Option.getD_some]
          unfold LiteralAcls.bucket
          rw [if_neg hw]
  have hwild : (idx.literal[rt]?.map (·.wildcard)).getD [] =
      idx.bucketAt rt .literal wildcardResource := by
    simp only [bucketAt]
    cases idx.literal[rt]? <;> simp [LiteralAcls.bucket]
  have hpre : (idx.prefixed[rt]?.map (·.matching name)).getD [] =
      (idx.prefixed[rt]?.getD {}).matching name := by
    cases idx.prefixed[rt]? with
    | none => simp [PrefixedAcls.matching]
    | some acls => rfl
  unfold matching
  simp only [hnamed, hwild, hpre]

/-- What matches: an entry of the type that applies to the name. -/
theorem mem_matching (h : idx.Inv) {e : AclEntry} :
    e ∈ idx.matching rt name ↔ idx.Holds e ∧ e.resourceType = rt ∧ e.AppliesTo name := by
  have hnamed : e ∈ (if name = wildcardResource then [] else idx.bucketAt rt .literal name) ++
        idx.bucketAt rt .literal wildcardResource ↔
      e ∈ idx.bucketAt rt .literal name ∨ e ∈ idx.bucketAt rt .literal wildcardResource := by
    rw [List.mem_append]
    split
    · rename_i hw
      rw [hw, or_self]
      exact ⟨fun he => he.elim (fun hn => by cases hn) id, Or.inr⟩
    · rfl
  rw [matching_eq h, List.mem_append, hnamed, h.inv_getD.2.mem_matching]
  constructor
  · rintro ((he | he) | ⟨pre, hpre, he⟩)
    · obtain ⟨hrt, hpt, hname⟩ := h.placed rt .literal name e he
      refine ⟨h.holds_of_mem he, hrt, ?_⟩
      unfold AclEntry.AppliesTo
      rw [hpt]
      exact Or.inl hname
    · obtain ⟨hrt, hpt, hname⟩ := h.placed rt .literal wildcardResource e he
      refine ⟨h.holds_of_mem he, hrt, ?_⟩
      unfold AclEntry.AppliesTo
      rw [hpt]
      exact Or.inr hname
    · have he : e ∈ idx.bucketAt rt .prefixed pre := he
      obtain ⟨hrt, hpt, hname⟩ := h.placed rt .prefixed pre e he
      refine ⟨h.holds_of_mem he, hrt, ?_⟩
      unfold AclEntry.AppliesTo
      rw [hpt]
      show e.resourceName.toList <+: name.toList
      rwa [hname]
  · rintro ⟨he, rfl, happ⟩
    unfold Holds at he
    unfold AclEntry.AppliesTo at happ
    cases hpt : e.patternType with
    | literal =>
        rw [hpt] at he happ
        obtain rfl | hw := happ
        · exact Or.inl (Or.inl he)
        · rw [hw] at he
          exact Or.inl (Or.inr he)
    | prefixed =>
        rw [hpt] at he happ
        exact Or.inr ⟨e.resourceName, happ, he⟩

/-- No entry matches twice. -/
theorem nodup_matching (h : idx.Inv) : (idx.matching rt name).Nodup := by
  have hpre : ((idx.prefixed[rt]?.getD {}).matching name).Nodup := by
    unfold PrefixedAcls.matching
    rw [List.nodup_flatMap]
    refine ⟨fun pre _ => h.nodup rt .prefixed pre, nodup_probes.imp ?_⟩
    -- an entry found under two prefixes would have both as its name
    intro pre pre' hne e he he'
    exact hne ((h.placed rt .prefixed pre e he).2.2.symm.trans
      (h.placed rt .prefixed pre' e he').2.2)
  have hwild := h.nodup rt .literal wildcardResource
  rw [matching_eq h]
  refine List.nodup_append.mpr ⟨?_, hpre, ?_⟩
  · split
    · rw [List.nil_append]
      exact hwild
    · rename_i hw
      refine List.nodup_append.mpr ⟨h.nodup rt .literal name, hwild, ?_⟩
      intro e he e' he' hee
      subst hee
      exact hw ((h.placed rt .literal name e he).2.2.symm.trans
        (h.placed rt .literal wildcardResource e he').2.2)
  · intro e he e' he' hee
    subst hee
    -- the two parts differ in the pattern type of their entries
    have hlit : e.patternType = .literal := by
      rcases List.mem_append.mp he with he | he
      · split at he
        · cases he
        · exact (h.placed rt .literal name e he).2.1
      · exact (h.placed rt .literal wildcardResource e he).2.1
    obtain ⟨pre, -, he'⟩ := h.inv_getD.2.mem_matching.mp he'
    rw [(h.placed rt .prefixed pre e he').2.1] at hlit
    cases hlit

/-- **The index is a linear scan of the set of its entries.** After any run of insertions and filtered
    removals, the listing holds each entry of the reference set once, and a lookup holds once each entry
    of the resource type whose pattern covers the name. -/
theorem matching_refines_scan (ops : List AclOp) (ω : MapOrder) :
    let idx : AclIndex := ops.foldl AclOp.apply {}
    let S : Set AclEntry := ops.foldl AclOp.applySet ∅
    ((idx.iter ω).Nodup ∧ ∀ e, e ∈ idx.iter ω ↔ e ∈ S) ∧
      ∀ (rt : ResourceType) (name : String),
        (idx.matching rt name).Nodup ∧
          ∀ e, e ∈ idx.matching rt name ↔ e ∈ S ∧ e.resourceType = rt ∧ e.AppliesTo name := by
  intro idx S
  have href : idx.Refines S := refines_run ops refines_empty
  refine ⟨⟨nodup_iter href.inv ω, fun e => ?_⟩, fun rt name => ⟨nodup_matching href.inv, fun e => ?_⟩⟩
  · rw [mem_iter_iff href.inv ω, href.holds e]
  · rw [mem_matching href.inv, href.holds e]

end AclIndex

end Krabka.Metadata
