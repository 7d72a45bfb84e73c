import Krabka.Metadata.AclLookup

/-!
# `Metadata.AclRepresentation` — the stored form of the ACL index

`AclIndex.Inv` speaks of the buckets of an index. Here is what it means for the maps themselves, in the words
of the source: which buckets and resource types are stored, where an entry sits, and what the length table
of the prefixes counts. `LiteralAcls.WellFormed` and `PrefixedAcls.WellFormed` say it for one resource type,
and `Inv` gives both, so every run of insertions and removals keeps them.

The length table is what a lookup goes by: it probes the lengths that are recorded, so a length that is
missing hides rules. A length is recorded exactly while a stored prefix has it.
-/

namespace Krabka.Metadata

open Collections

/-- What the maps of the literal ACLs of `rt` keep. -/
structure LiteralAcls.WellFormed (rt : ResourceType) (acls : LiteralAcls) : Prop where
  occupied : acls.wildcard ≠ [] ∨
    ∃ (name : String) (bucket : List AclEntry), acls.byName[name]? = some bucket ∧ bucket ≠ []
  nonempty : ∀ (name : String) (bucket : List AclEntry), acls.byName[name]? = some bucket → bucket ≠ []
  named : ∀ (name : String) (bucket : List AclEntry), acls.byName[name]? = some bucket →
    name ≠ wildcardResource ∧
      ∀ e ∈ bucket, e.resourceType = rt ∧ e.patternType = .literal ∧ e.resourceName = name
  wildcard : ∀ e ∈ acls.wildcard,
    e.resourceType = rt ∧ e.patternType = .literal ∧ e.resourceName = wildcardResource

/-- What the maps of the prefixed ACLs of `rt` keep. -/
structure PrefixedAcls.WellFormed (rt : ResourceType) (acls : PrefixedAcls) : Prop where
  occupied : ∃ (pre : String) (bucket : List AclEntry), acls.byPrefix[pre]? = some bucket ∧ bucket ≠ []
  nonempty : ∀ (pre : String) (bucket : List AclEntry), acls.byPrefix[pre]? = some bucket → bucket ≠ []
  placed : ∀ (pre : String) (bucket : List AclEntry), acls.byPrefix[pre]? = some bucket →
    ∀ e ∈ bucket, e.resourceType = rt ∧ e.patternType = .prefixed ∧ e.resourceName = pre
  /-- A length is recorded with the number of the stored prefixes that have it, and never with zero. -/
  lengths : ∀ len count : Nat, acls.lengths[len]? = some count ↔
    0 < count ∧ count = acls.byPrefix.keys.countP fun pre => pre.utf8ByteSize = len

/-! ## From the buckets to the maps

The two readings of the invariant are compared map by map. -/

/-- Literal ACLs without an entry are the empty ones, which no resource type stores. -/
theorem LiteralAcls.Inv.occupied {acls : LiteralAcls} (h : acls.Inv) (hne : acls ≠ {}) :
    acls.wildcard ≠ [] ∨
      ∃ (name : String) (bucket : List AclEntry), acls.byName[name]? = some bucket ∧ bucket ≠ [] := by
  by_contra hnone
  push Not at hnone
  apply hne
  refine LiteralAcls.ext_bucket h LiteralAcls.inv_empty fun name => ?_
  have hempty : LiteralAcls.bucket {} name = [] := by simp [LiteralAcls.bucket]
  rw [hempty]
  unfold LiteralAcls.bucket
  by_cases hw : name = wildcardResource
  · rw [if_pos hw, hnone.1]
  · rw [if_neg hw]
    cases hb : acls.byName[name]? with
    | none => rfl
    | some bucket => exact hnone.2 name bucket hb

/-- A type with prefixed entries has a bucket with entries. -/
theorem PrefixedAcls.Inv.occupied {acls : PrefixedAcls} (h : acls.Inv) (hne : acls ≠ {}) :
    ∃ (pre : String) (bucket : List AclEntry), acls.byPrefix[pre]? = some bucket ∧ bucket ≠ [] := by
  by_contra hnone
  push Not at hnone
  apply hne
  refine PrefixedAcls.ext_bucket h PrefixedAcls.inv_empty fun pre => ?_
  have hempty : PrefixedAcls.bucket {} pre = [] := by simp [PrefixedAcls.bucket]
  rw [hempty]
  unfold PrefixedAcls.bucket
  cases hb : acls.byPrefix[pre]? with
  | none => rfl
  | some bucket => exact hnone pre bucket hb

/-- A length is counted as often as prefixes have it. -/
theorem PrefixedAcls.Inv.lengths_eq_some {acls : PrefixedAcls} (h : acls.Inv) {len count : Nat} :
    acls.lengths[len]? = some count ↔
      0 < count ∧ count = acls.byPrefix.keys.countP fun pre => pre.utf8ByteSize = len := by
  rw [h.lengths len]
  unfold countOrNone
  have hsame : (fun pre : String => pre.utf8ByteSize == len) = fun pre => decide (pre.utf8ByteSize = len) :=
    rfl
  rw [hsame]
  split
  · rename_i hzero
    rw [hzero]
    constructor
    · intro hsome
      cases hsome
    · rintro ⟨hpos, rfl⟩
      exact absurd hpos (Nat.lt_irrefl 0)
  · rename_i hcount
    constructor
    · intro hsome
      cases hsome
      exact ⟨Nat.pos_of_ne_zero hcount, rfl⟩
    · rintro ⟨-, rfl⟩
      rfl

namespace AclIndex

variable {idx : AclIndex} {rt : ResourceType}

/-- The literal part of a type is well formed. -/
theorem Inv.literal_wellFormed (h : idx.Inv) {acls : LiteralAcls} (hacls : idx.literal[rt]? = some acls) :
    acls.WellFormed rt := by
  obtain ⟨hinv, hne⟩ := h.literal rt acls hacls
  have hplaced : ∀ name, ∀ e ∈ acls.bucket name,
      e.resourceType = rt ∧ e.patternType = .literal ∧ e.resourceName = name := by
    intro name e he
    refine h.placed rt .literal name e ?_
    simp only [bucketAt, hacls, Option.getD_some]
    exact he
  have hnamed : ∀ (name : String) (bucket : List AclEntry), acls.byName[name]? = some bucket →
      name ≠ wildcardResource := by
    rintro name bucket hb rfl
    rw [hinv.wildcard_absent] at hb
    cases hb
  refine ⟨hinv.occupied hne, hinv.nonempty, fun name bucket hb => ⟨hnamed name bucket hb, ?_⟩, ?_⟩
  · intro e he
    apply hplaced name e
    unfold LiteralAcls.bucket
    rw [if_neg (hnamed name bucket hb), hb]
    exact he
  · intro e he
    apply hplaced wildcardResource e
    unfold LiteralAcls.bucket
    rw [if_pos rfl]
    exact he

/-- So is the prefixed part. -/
theorem Inv.prefixed_wellFormed (h : idx.Inv) {acls : PrefixedAcls}
    (hacls : idx.prefixed[rt]? = some acls) : acls.WellFormed rt := by
  obtain ⟨hinv, hne⟩ := h.prefixed rt acls hacls
  refine ⟨hinv.occupied hne, hinv.nonempty, ?_, fun len count => hinv.lengths_eq_some⟩
  intro pre bucket hb e he
  refine h.placed rt .prefixed pre e ?_
  simp only [bucketAt, hacls, Option.getD_some, PrefixedAcls.bucket, hb]
  exact he

end AclIndex

/-- A removal may visit the prefixes in any order: the lengths it leaves are the same. -/
theorem PrefixedAcls.Inv.retain_lengths_of_perm {acls : PrefixedAcls} (h : acls.Inv)
    {keep : AclEntry → Bool} {visited : List String} (hperm : visited.Perm (acls.emptied keep)) :
    visited.foldl (fun ls pre => forgetLength ls pre.utf8ByteSize) acls.lengths =
      (acls.retain keep).lengths := by
  refine map_ext fun len => ?_
  show _ = ((acls.emptied keep).foldl (fun ls pre => forgetLength ls pre.utf8ByteSize) acls.lengths)[len]?
  rw [get_foldl_forgetLength _ h.lengths, get_foldl_forgetLength _ h.lengths, hperm.countP_eq]

/-! ## Runs

A run of operations keeps the buckets in order, and with them the maps. -/

namespace AclIndex

/-- The prefixes stored for one resource type. -/
def storedPrefixes (idx : AclIndex) (rt : ResourceType) : List String :=
  (idx.prefixed[rt]?.getD {}).byPrefix.keys

/-- The prefix lengths recorded for one resource type. -/
def recordedLengths (idx : AclIndex) (rt : ResourceType) : List Nat :=
  (idx.prefixed[rt]?.getD {}).lengths.keys

/-- **A length is recorded exactly while a stored prefix has it.** -/
theorem Inv.mem_recordedLengths {idx : AclIndex} (h : idx.Inv) {rt : ResourceType} {len : Nat} :
    len ∈ idx.recordedLengths rt ↔ ∃ pre ∈ idx.storedPrefixes rt, pre.utf8ByteSize = len := by
  unfold recordedLengths storedPrefixes
  rw [Std.ExtTreeMap.mem_keys, h.inv_getD.2.mem_lengths]
  constructor
  · rintro ⟨pre, hpre, hlen⟩
    exact ⟨pre, Std.ExtTreeMap.mem_keys.mpr hpre, hlen⟩
  · rintro ⟨pre, hpre, hlen⟩
    exact ⟨pre, Std.ExtTreeMap.mem_keys.mp hpre, hlen⟩

/-- **The index keeps its representation.** After any run of insertions and filtered removals every stored
bucket has an entry, every stored resource type has one, entries are stored once and in the bucket of their
own pattern, and the length table counts the stored prefixes; so a lookup reads every stored prefix of the
name, and a removal or insertion forgets a length exactly when the last prefix of that length goes. -/
theorem representation_kept (ops : List AclOp) :
    let idx : AclIndex := ops.foldl AclOp.apply {}
    (∀ (rt : ResourceType) (acls : LiteralAcls), idx.literal[rt]? = some acls → acls.WellFormed rt) ∧
      (∀ (rt : ResourceType) (acls : PrefixedAcls), idx.prefixed[rt]? = some acls → acls.WellFormed rt) ∧
      (∀ ω, (idx.iter ω).Nodup) ∧
      (∀ (rt : ResourceType) (pre name : String),
        pre ∈ idx.storedPrefixes rt → pre.toList <+: name.toList →
        pre.utf8ByteSize ∈ (idx.recordedLengths rt).filter (· ≤ name.utf8ByteSize) ∧
          Text.getTo name pre.utf8ByteSize = some pre) ∧
      ∀ (op : AclOp) (rt : ResourceType) (len : Nat),
        len ∈ idx.recordedLengths rt ∧ len ∉ (op.apply idx).recordedLengths rt ↔
          (∃ pre ∈ idx.storedPrefixes rt, pre.utf8ByteSize = len) ∧
            ∀ pre ∈ (op.apply idx).storedPrefixes rt, pre.utf8ByteSize ≠ len := by
  intro idx
  have href : idx.Refines (ops.foldl AclOp.applySet ∅) := refines_run ops refines_empty
  refine ⟨?_, ?_, fun ω => nodup_iter href.inv ω, ?_, ?_⟩
  · intro rt acls hacls
    exact href.inv.literal_wellFormed hacls
  · intro rt acls hacls
    exact href.inv.prefixed_wellFormed hacls
  · intro rt pre name hstored hpre
    refine ⟨List.mem_filter.mpr ⟨href.inv.mem_recordedLengths.mpr ⟨pre, hstored, rfl⟩, ?_⟩,
      Text.getTo_eq_some_iff.mpr ⟨hpre, rfl⟩⟩
    exact decide_eq_true (Text.utf8ByteSize_le_of_prefix hpre)
  · intro op rt len
    rw [href.inv.mem_recordedLengths, (href.apply op).inv.mem_recordedLengths]
    push Not
    rfl

end AclIndex

end Krabka.Metadata
