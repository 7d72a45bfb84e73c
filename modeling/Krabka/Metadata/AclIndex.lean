import Krabka.Metadata.Records

/-!
# `Metadata.AclIndex` — the in-memory ACL index of an image

The index of `image/acl_index.rs`: literal ACLs by resource type and name with a bucket of their own for
the wildcard name, and prefixed ACLs by resource type and prefix beside the multiset of prefix lengths.

The abstract reading of an index is its **buckets**: `bucketAt rt pt name` is the list of entries stored
for one resource pattern. Under the representation invariant `Inv` the buckets determine the index
(`ext_bucketAt`), and the two mutations act on them directly: `insert` moves one entry to the end of one
bucket, `removeMatching` filters every bucket.
-/

namespace Krabka.Metadata

open Collections
open Std (TransOrd LawfulEqOrd TransCmp)

/-! ## Hash-map keys

The places at which the index iterates a hash map, so that each can meet an order of its own. -/

instance : Ord ResourceType := ⟨compareOn ResourceType.ctorIdx⟩
instance : TransOrd ResourceType := inferInstanceAs (TransCmp (compareOn _))
instance : LawfulEqOrd ResourceType :=
  lawfulEqCmp_compareOn (fun a b h => by cases a <;> cases b <;> first | rfl | cases h)

instance : Ord SaslMechanism := ⟨compareOn SaslMechanism.ctorIdx⟩
instance : TransOrd SaslMechanism := inferInstanceAs (TransCmp (compareOn _))
instance : LawfulEqOrd SaslMechanism :=
  lawfulEqCmp_compareOn (fun a b h => by cases a <;> cases b <;> first | rfl | cases h)

instance transOrd_scramKey : TransOrd (String × SaslMechanism) := Std.instTransOrdProd

instance transOrd_uuid : TransOrd Uuid := BitVec.instTransOrd

/-- The hash maps of an image, as the sites at which they are iterated. -/
inductive MapSite where
  | topics
  | partitions
  | partitionNextOffsets
  | partitionElr
  | partitionRecovery
  | brokers
  | controllers
  | topicConfigs
  | brokerConfigs
  | clientMetricsConfigs
  | groupConfigs
  | scramCredentials
  | aclLiteral
  | aclByName (rt : ResourceType)
  | aclPrefixed
  | aclByPrefix (rt : ResourceType)
  | freezesLiteral
  | breakGlass
  | clientQuotas
  | delegationTokens
deriving DecidableEq

/-- One way for the hash maps of an image to iterate. -/
abbrev MapOrder := HashOrder MapSite

/-! ## The index

The operations as the source has them, with the entries that become empty removed. -/

/-- Kafka's `WILDCARD_RESOURCE`. -/
def wildcardResource : String := "*"

/-- The literal ACLs of one resource type. -/
structure LiteralAcls where
  byName : HashMap String (List AclEntry) := ∅
  wildcard : List AclEntry := []
deriving DecidableEq

/-- The prefixed ACLs of one resource type, with the number of prefixes of each length in bytes. -/
structure PrefixedAcls where
  byPrefix : HashMap String (List AclEntry) := ∅
  lengths : BTreeMap Nat Nat := ∅
deriving DecidableEq

/-- Every ACL of an image. -/
structure AclIndex where
  literal : HashMap ResourceType LiteralAcls := ∅
  prefixed : HashMap ResourceType PrefixedAcls := ∅
deriving DecidableEq

/-- `Vec::retain` on every bucket of a map, dropping the buckets it empties. -/
def retainBuckets (keep : AclEntry → Bool) (m : HashMap String (List AclEntry)) :
    HashMap String (List AclEntry) :=
  retainWith (·.filter keep) (·.isEmpty) m

namespace LiteralAcls

/-- `f` applied to the bucket that `bucket(name)` borrows, created when absent. -/
def modifyBucket (acls : LiteralAcls) (name : String) (f : List AclEntry → List AclEntry) :
    LiteralAcls :=
  if name = wildcardResource then { acls with wildcard := f acls.wildcard }
  else { acls with byName := acls.byName.insert name (f (acls.byName[name]?.getD [])) }

def retain (acls : LiteralAcls) (keep : AclEntry → Bool) : LiteralAcls where
  byName := retainBuckets keep acls.byName
  wildcard := acls.wildcard.filter keep

def isEmpty (acls : LiteralAcls) : Bool :=
  acls.byName.isEmpty && acls.wildcard.isEmpty

end LiteralAcls

/-- Drop one prefix of `len` bytes from the length counts. -/
def forgetLength (lengths : BTreeMap Nat Nat) (len : Nat) : BTreeMap Nat Nat :=
  match lengths[len]? with
  -- a length that is not counted cannot be forgotten; `retain` never asks for it under `Inv`
  | none => lengths
  | some count => if count - 1 = 0 then lengths.erase len else lengths.insert len (count - 1)

namespace PrefixedAcls

/-- `f` applied to the bucket that `bucket(pre)` borrows; a new prefix counts its length. -/
def modifyBucket (acls : PrefixedAcls) (pre : String) (f : List AclEntry → List AclEntry) :
    PrefixedAcls :=
  match acls.byPrefix[pre]? with
  | some bucket => { acls with byPrefix := acls.byPrefix.insert pre (f bucket) }
  | none =>
    { byPrefix := acls.byPrefix.insert pre (f [])
      lengths := acls.lengths.insert pre.utf8ByteSize (acls.lengths[pre.utf8ByteSize]?.getD 0 + 1) }

/-- The prefixes whose bucket `retain` empties. -/
def emptied (acls : PrefixedAcls) (keep : AclEntry → Bool) : List String :=
  acls.byPrefix.keys.filter (fun pre => ((acls.byPrefix[pre]?.getD []).filter keep).isEmpty)

/-- The visits of `HashMap::retain` come in no fixed order; each emptied prefix forgets its length
    once, so the counts do not depend on the order (`get_foldl_forgetLength`). -/
def retain (acls : PrefixedAcls) (keep : AclEntry → Bool) : PrefixedAcls where
  byPrefix := retainBuckets keep acls.byPrefix
  lengths := (acls.emptied keep).foldl (fun ls pre => forgetLength ls pre.utf8ByteSize) acls.lengths

def isEmpty (acls : PrefixedAcls) : Bool := acls.byPrefix.isEmpty

end PrefixedAcls

namespace AclIndex

/-- Add `entry`, replacing an identical entry, so that each ACL is held once. -/
def insert (idx : AclIndex) (entry : AclEntry) : AclIndex :=
  let push := fun bucket : List AclEntry => bucket.filter (· != entry) ++ [entry]
  match entry.patternType with
  | .literal =>
    { idx with
      literal := idx.literal.insert entry.resourceType
        ((idx.literal[entry.resourceType]?.getD {}).modifyBucket entry.resourceName push) }
  | .prefixed =>
    { idx with
      prefixed := idx.prefixed.insert entry.resourceType
        ((idx.prefixed[entry.resourceType]?.getD {}).modifyBucket entry.resourceName push) }

/-- Remove every entry that `filter` matches, and every resource type left without one. -/
def removeMatching (idx : AclIndex) (filter : AclEntryFilter) : AclIndex :=
  let keep := fun e => !filter.matches e
  { literal := retainWith (·.retain keep) (·.isEmpty) idx.literal
    prefixed := retainWith (·.retain keep) (·.isEmpty) idx.prefixed }

/-- Every entry, literal and prefixed, in the order the hash maps iterate. -/
def iter (ω : MapOrder) (idx : AclIndex) : List AclEntry :=
  (ω.iter .aclLiteral idx.literal).flatMap (fun p =>
      (ω.iter (.aclByName p.1) p.2.byName).flatMap (·.2) ++ p.2.wildcard) ++
    (ω.iter .aclPrefixed idx.prefixed).flatMap (fun p =>
      (ω.iter (.aclByPrefix p.1) p.2.byPrefix).flatMap (·.2))

end AclIndex

/-! ## Buckets and the representation invariant

No bucket is empty, an entry lies in the bucket of its own pattern, and the length table counts the stored
prefixes. -/

/-- The bucket of one literal name. -/
def LiteralAcls.bucket (acls : LiteralAcls) (name : String) : List AclEntry :=
  if name = wildcardResource then acls.wildcard else acls.byName[name]?.getD []

/-- The bucket of one prefix. -/
def PrefixedAcls.bucket (acls : PrefixedAcls) (pre : String) : List AclEntry :=
  acls.byPrefix[pre]?.getD []

/-- A count as the length table stores it: zero is no entry. -/
def countOrNone (n : Nat) : Option Nat := if n = 0 then none else some n

structure LiteralAcls.Inv (acls : LiteralAcls) : Prop where
  nonempty : Forall acls.byName (fun _ bucket => bucket ≠ [])
  wildcard_absent : acls.byName[wildcardResource]? = none

/-- The length table counts the prefixes. -/
structure PrefixedAcls.Inv (acls : PrefixedAcls) : Prop where
  nonempty : Forall acls.byPrefix (fun _ bucket => bucket ≠ [])
  lengths : ∀ len : Nat,
    acls.lengths[len]? = countOrNone (acls.byPrefix.keys.countP (fun pre => pre.utf8ByteSize == len))

namespace AclIndex

/-- The entries stored for one resource pattern. -/
def bucketAt (idx : AclIndex) (rt : ResourceType) (pt : PatternType) (name : String) :
    List AclEntry :=
  match pt with
  | .literal => (idx.literal[rt]?.getD {}).bucket name
  | .prefixed => (idx.prefixed[rt]?.getD {}).bucket name

/-- No empty part is stored, every entry sits in the bucket of its own pattern, and once. -/
structure Inv (idx : AclIndex) : Prop where
  literal : Forall idx.literal (fun _ acls => acls.Inv ∧ acls ≠ {})
  prefixed : Forall idx.prefixed (fun _ acls => acls.Inv ∧ acls ≠ {})
  placed : ∀ rt pt name, ∀ e ∈ idx.bucketAt rt pt name,
    e.resourceType = rt ∧ e.patternType = pt ∧ e.resourceName = name
  nodup : ∀ rt pt name, (idx.bucketAt rt pt name).Nodup

end AclIndex

theorem LiteralAcls.inv_empty : LiteralAcls.Inv {} := ⟨forall_empty, get_empty _⟩

theorem PrefixedAcls.inv_empty : PrefixedAcls.Inv {} := by
  refine ⟨forall_empty, fun len => ?_⟩
  exact get_empty len

/-- Literal entries are told apart by their buckets. -/
theorem LiteralAcls.ext_bucket {acls acls' : LiteralAcls} (h : acls.Inv) (h' : acls'.Inv)
    (hb : ∀ name, acls.bucket name = acls'.bucket name) : acls = acls' := by
  have hname : acls.byName = acls'.byName := by
    refine ext_getD h.nonempty h'.nonempty (fun name => ?_)
    -- the wildcard name has no bucket of its own in either map
    by_cases hw : name = wildcardResource
    · rw [hw, h.wildcard_absent, h'.wildcard_absent]
    · have := hb name
      unfold bucket at this
      rwa [if_neg hw, if_neg hw] at this
  have hwild : acls.wildcard = acls'.wildcard := by
    have := hb wildcardResource
    unfold bucket at this
    rwa [if_pos rfl, if_pos rfl] at this
  cases acls
  cases acls'
  simp only at hname hwild
  rw [hname, hwild]

/-- Prefixed entries are told apart by their buckets; the counts of lengths follow. -/
theorem PrefixedAcls.ext_bucket {acls acls' : PrefixedAcls} (h : acls.Inv) (h' : acls'.Inv)
    (hb : ∀ pre, acls.bucket pre = acls'.bucket pre) : acls = acls' := by
  have hpre : acls.byPrefix = acls'.byPrefix := ext_getD h.nonempty h'.nonempty hb
  have hlen : acls.lengths = acls'.lengths :=
    map_ext (fun len => by rw [h.lengths len, h'.lengths len, hpre])
  cases acls
  cases acls'
  simp only at hpre hlen
  rw [hpre, hlen]

/-- A resource type without entries keeps the invariant as well. -/
theorem AclIndex.Inv.inv_getD {rt : ResourceType} {idx : AclIndex} (h : idx.Inv) :
    (idx.literal[rt]?.getD {}).Inv ∧ (idx.prefixed[rt]?.getD {}).Inv := by
  constructor
  · cases hl : idx.literal[rt]? with
    | none => exact LiteralAcls.inv_empty
    | some acls => exact (h.literal rt acls hl).1
  · cases hp : idx.prefixed[rt]? with
    | none => exact PrefixedAcls.inv_empty
    | some acls => exact (h.prefixed rt acls hp).1

/-- **Extensionality.** The buckets determine the index. -/
theorem AclIndex.ext_bucketAt {idx idx' : AclIndex} (h : idx.Inv) (h' : idx'.Inv)
    (hb : ∀ rt pt name, idx.bucketAt rt pt name = idx'.bucketAt rt pt name) : idx = idx' := by
  -- a resource type with no entry is not stored, so the default reads as it
  have hl : idx.literal = idx'.literal :=
    ext_getD (fun k v hk => (h.literal k v hk).2) (fun k v hk => (h'.literal k v hk).2) (fun rt =>
      LiteralAcls.ext_bucket h.inv_getD.1 h'.inv_getD.1 (hb rt .literal))
  have hp : idx.prefixed = idx'.prefixed :=
    ext_getD (fun k v hk => (h.prefixed k v hk).2) (fun k v hk => (h'.prefixed k v hk).2) (fun rt =>
      PrefixedAcls.ext_bucket h.inv_getD.2 h'.inv_getD.2 (hb rt .prefixed))
  cases idx
  cases idx'
  simp only at hl hp
  rw [hl, hp]

/-! ## Adding an entry

An entry that is already there is not added a second time. The bucket of every other pattern stays as it was.
-/

/-- Only the bucket of that name is changed. -/
theorem LiteralAcls.bucket_modifyBucket (acls : LiteralAcls) (name n : String)
    (f : List AclEntry → List AclEntry) :
    (acls.modifyBucket name f).bucket n = if name = n then f (acls.bucket n) else acls.bucket n := by
  unfold modifyBucket bucket
  by_cases hw : name = wildcardResource
  · -- the write goes to the wildcard bucket
    rw [if_pos hw]
    by_cases hn : n = wildcardResource
    · rw [if_pos hn, if_pos hn, if_pos (hw.trans hn.symm)]
    · rw [if_neg hn, if_neg hn, if_neg (fun h => hn (h.symm.trans hw))]
  · -- the write goes to the map, which no wildcard read looks at
    rw [if_neg hw]
    by_cases hn : n = wildcardResource
    · rw [if_pos hn, if_pos hn, if_neg (fun h => hw (h.trans hn))]
    · rw [if_neg hn, if_neg hn, get_insert]
      split
      · rename_i hk
        rw [hk]
        rfl
      · rfl

/-- A change that leaves no bucket empty keeps the invariant. -/
theorem LiteralAcls.Inv.modifyBucket {acls : LiteralAcls} (h : acls.Inv) (name : String)
    {f : List AclEntry → List AclEntry} (hf : ∀ b, f b ≠ []) : (acls.modifyBucket name f).Inv := by
  unfold LiteralAcls.modifyBucket
  split
  · exact ⟨h.nonempty, h.wildcard_absent⟩
  · rename_i hw
    refine ⟨forall_insert h.nonempty (hf _), ?_⟩
    rw [get_insert, if_neg hw]
    exact h.wildcard_absent

/-- Only the bucket of that prefix is changed. -/
theorem PrefixedAcls.bucket_modifyBucket (acls : PrefixedAcls) (pre n : String)
    (f : List AclEntry → List AclEntry) :
    (acls.modifyBucket pre f).bucket n = if pre = n then f (acls.bucket n) else acls.bucket n := by
  unfold modifyBucket bucket
  cases hp : acls.byPrefix[pre]? with
  | none =>
      simp only [get_insert]
      split
      · rename_i hk
        rw [← hk, hp]
        rfl
      · rfl
  | some bucket =>
      simp only [get_insert]
      split
      · rename_i hk
        rw [← hk, hp]
        rfl
      · rfl

/-- A count that is absent is zero. -/
theorem countOrNone_getD (n : Nat) : (countOrNone n).getD 0 = n := by
  unfold countOrNone
  split
  · rename_i h
    exact h.symm
  · rfl

/-- A change that leaves no bucket empty keeps the buckets and the counts of lengths in step. -/
theorem PrefixedAcls.Inv.modifyBucket {acls : PrefixedAcls} (h : acls.Inv) (pre : String)
    {f : List AclEntry → List AclEntry} (hf : ∀ b, f b ≠ []) : (acls.modifyBucket pre f).Inv := by
  unfold PrefixedAcls.modifyBucket
  cases hp : acls.byPrefix[pre]? with
  | some bucket =>
      refine ⟨forall_insert h.nonempty (hf _), fun len => ?_⟩
      show acls.lengths[len]? = _
      rw [h.lengths len]
      -- overwriting a known prefix leaves the set of prefixes as it was
      refine congrArg countOrNone (countP_keys_of_perm (fun k => ?_) _)
      rw [mem_insert_iff]
      refine ⟨Or.inr, fun hk => hk.elim (fun he => ?_) id⟩
      rw [← he]
      exact mem_iff_get.mpr ⟨bucket, hp⟩
  | none =>
      refine ⟨forall_insert h.nonempty (hf _), fun len => ?_⟩
      -- a new prefix adds one to the count of its own length only
      have hnew : pre ∉ acls.byPrefix := by
        intro hmem
        obtain ⟨b, hb⟩ := mem_iff_get.mp hmem
        rw [hp] at hb
        cases hb
      show (acls.lengths.insert pre.utf8ByteSize _)[len]? = _
      rw [countP_keys_insert_new hnew, get_insert, h.lengths pre.utf8ByteSize, countOrNone_getD]
      by_cases hl : pre.utf8ByteSize = len
      · subst hl
        simp [countOrNone]
      · rw [if_neg hl, h.lengths len, if_neg (by simpa using hl), Nat.add_zero]

namespace AclIndex

/-- The bucket that `insert` leaves: the entry last, and once. -/
def pushEntry (entry : AclEntry) (bucket : List AclEntry) : List AclEntry :=
  bucket.filter (· != entry) ++ [entry]

theorem pushEntry_ne_nil (entry : AclEntry) (bucket : List AclEntry) : pushEntry entry bucket ≠ [] := by
  simp [pushEntry]

/-- `insert` moves the entry to the end of its bucket and leaves every other bucket alone. -/
theorem bucketAt_insert (idx : AclIndex) (entry : AclEntry) (rt : ResourceType) (pt : PatternType)
    (name : String) :
    (idx.insert entry).bucketAt rt pt name =
      if entry.resourceType = rt ∧ entry.patternType = pt ∧ entry.resourceName = name then
        pushEntry entry (idx.bucketAt rt pt name)
      else idx.bucketAt rt pt name := by
  unfold insert
  cases hpt : entry.patternType with
  | literal =>
      cases pt with
      | prefixed => simp [bucketAt]
      | literal =>
          simp only [bucketAt, get_insert, true_and]
          by_cases hrt : entry.resourceType = rt
          · rw [if_pos hrt, Option.getD_some, LiteralAcls.bucket_modifyBucket, hrt]
            simp only [true_and]
            rfl
          · rw [if_neg hrt, if_neg (fun h => hrt h.1)]
  | prefixed =>
      cases pt with
      | literal => simp [bucketAt]
      | prefixed =>
          simp only [bucketAt, get_insert, true_and]
          by_cases hrt : entry.resourceType = rt
          · rw [if_pos hrt, Option.getD_some, PrefixedAcls.bucket_modifyBucket, hrt]
            simp only [true_and]
            rfl
          · rw [if_neg hrt, if_neg (fun h => hrt h.1)]

/-- A bucket holds an entry once. -/
theorem mem_pushEntry {entry e : AclEntry} {bucket : List AclEntry} :
    e ∈ pushEntry entry bucket ↔ e ∈ bucket ∨ e = entry := by
  unfold pushEntry
  rw [List.mem_append, List.mem_filter, List.mem_singleton]
  by_cases he : e = entry <;> simp [he]

theorem nodup_pushEntry {entry : AclEntry} {bucket : List AclEntry} (h : bucket.Nodup) :
    (pushEntry entry bucket).Nodup := by
  unfold pushEntry
  refine List.nodup_append.mpr ⟨h.filter _, List.nodup_singleton _, ?_⟩
  intro a ha b hb hab
  rw [List.mem_singleton.mp hb] at hab
  subst hab
  simpa using (List.mem_filter.mp ha).2

theorem inv_empty : Inv {} where
  literal := forall_empty
  prefixed := forall_empty
  placed := by
    intro rt pt name e he
    cases pt <;> simp [bucketAt, LiteralAcls.bucket, PrefixedAcls.bucket] at he
  nodup := by
    intro rt pt name
    cases pt <;> simp [bucketAt, LiteralAcls.bucket, PrefixedAcls.bucket]

/-- An `Acls` with a non-empty bucket is not the empty one. -/
theorem ne_empty_of_bucket {acls : LiteralAcls} {name : String} (h : acls.bucket name ≠ []) :
    acls ≠ {} := by
  rintro rfl
  apply h
  simp [LiteralAcls.bucket]

/-- A prefix with entries keeps its resource type in the index. -/
theorem ne_empty_of_prefix_bucket {acls : PrefixedAcls} {pre : String} (h : acls.bucket pre ≠ []) :
    acls ≠ {} := by
  rintro rfl
  apply h
  simp [PrefixedAcls.bucket]

/-- Inserting keeps the invariant. -/
theorem Inv.insert {idx : AclIndex} (h : idx.Inv) (entry : AclEntry) : (idx.insert entry).Inv where
  literal := by
    unfold AclIndex.insert
    cases entry.patternType with
    | prefixed => exact h.literal
    | literal =>
        refine forall_insert h.literal ⟨h.inv_getD.1.modifyBucket _ (pushEntry_ne_nil entry), ?_⟩
        apply ne_empty_of_bucket
        rw [LiteralAcls.bucket_modifyBucket, if_pos rfl]
        exact pushEntry_ne_nil entry _
  prefixed := by
    unfold AclIndex.insert
    cases entry.patternType with
    | literal => exact h.prefixed
    | prefixed =>
        refine forall_insert h.prefixed ⟨h.inv_getD.2.modifyBucket _ (pushEntry_ne_nil entry), ?_⟩
        apply ne_empty_of_prefix_bucket
        rw [PrefixedAcls.bucket_modifyBucket, if_pos rfl]
        exact pushEntry_ne_nil entry _
  placed := by
    intro rt pt name e he
    rw [bucketAt_insert] at he
    split at he
    · rename_i hk
      rcases mem_pushEntry.mp he with he | rfl
      · exact h.placed rt pt name e he
      · exact hk
    · exact h.placed rt pt name e he
  nodup := by
    intro rt pt name
    rw [bucketAt_insert]
    split
    · exact nodup_pushEntry (h.nodup rt pt name)
    · exact h.nodup rt pt name

/-- The index holds the entry. -/
def Holds (idx : AclIndex) (e : AclEntry) : Prop :=
  e ∈ idx.bucketAt e.resourceType e.patternType e.resourceName

/-- An entry of any bucket is held: the bucket is the one of its own pattern. -/
theorem Inv.holds_of_mem {idx : AclIndex} (h : idx.Inv) {rt : ResourceType} {pt : PatternType}
    {name : String} {e : AclEntry} (he : e ∈ idx.bucketAt rt pt name) : idx.Holds e := by
  obtain ⟨hrt, hpt, hname⟩ := h.placed rt pt name e he
  unfold Holds
  rw [hrt, hpt, hname]
  exact he

/-- Inserting adds the entry and nothing else. -/
theorem holds_insert {idx : AclIndex} {entry e : AclEntry} :
    (idx.insert entry).Holds e ↔ idx.Holds e ∨ e = entry := by
  unfold Holds
  rw [bucketAt_insert]
  split
  · exact mem_pushEntry
  · rename_i hk
    refine ⟨Or.inl, fun h => h.elim id (fun he => ?_)⟩
    subst he
    exact absurd ⟨rfl, rfl, rfl⟩ hk

/-- Inserting a list adds its entries and nothing else. -/
theorem holds_foldl_insert (entries : List AclEntry) (idx : AclIndex) (e : AclEntry) :
    (entries.foldl AclIndex.insert idx).Holds e ↔ idx.Holds e ∨ e ∈ entries := by
  induction entries generalizing idx with
  | nil => simp
  | cons entry rest ih =>
      rw [List.foldl_cons, ih, holds_insert, List.mem_cons, or_assoc]

theorem not_holds_empty (e : AclEntry) : ¬Holds {} e := by
  intro h
  unfold Holds at h
  cases hp : e.patternType <;> rw [hp] at h <;>
    simp [bucketAt, LiteralAcls.bucket, PrefixedAcls.bucket] at h

end AclIndex

/-! ## Removing entries

Every bucket is filtered, those that become empty go, and so do their lengths. -/

variable {keep : AclEntry → Bool}

/-- Retaining filters every bucket. -/
theorem LiteralAcls.bucket_retain (acls : LiteralAcls) (name : String) :
    (acls.retain keep).bucket name = (acls.bucket name).filter keep := by
  unfold retain bucket retainBuckets
  split
  · rfl
  · exact getD_retainWith List.filter_nil (fun _ _ _ he => List.isEmpty_iff.mp he) name

/-- Buckets that are emptied are dropped. -/
theorem LiteralAcls.Inv.retain {acls : LiteralAcls} (h : acls.Inv) : (acls.retain keep).Inv where
  nonempty := forall_retainWith h.nonempty (fun _ _ _ he hnil => by
    rw [hnil] at he
    cases he)
  wildcard_absent := by
    show (retainBuckets keep acls.byName)[wildcardResource]? = none
    unfold retainBuckets
    rw [get_retainWith, h.wildcard_absent]
    rfl

theorem LiteralAcls.eq_empty_of_isEmpty {acls : LiteralAcls} (h : acls.isEmpty = true) :
    acls = {} := by
  cases acls
  simp only [isEmpty, Bool.and_eq_true, List.isEmpty_iff, Std.ExtTreeMap.isEmpty_iff] at h
  rw [h.1, h.2]

/-- Forgetting a prefix takes one off the count of its length. -/
theorem get_forgetLength {lengths : BTreeMap Nat Nat} {count : Nat → Nat}
    (h : ∀ len, lengths[len]? = countOrNone (count len)) (forgotten len : Nat) :
    (forgetLength lengths forgotten)[len]? =
      countOrNone (count len - if forgotten = len then 1 else 0) := by
  unfold forgetLength
  have hf := h forgotten
  unfold countOrNone at hf
  split at hf
  · -- nothing of that length is counted: the subtraction is from zero
    rename_i hz
    rw [hf]
    show lengths[len]? = _
    rw [h len]
    split
    · rename_i he
      rw [← he, hz]
    · rw [Nat.sub_zero]
  · rename_i hz
    rw [hf]
    show (if count forgotten - 1 = 0 then lengths.erase forgotten
      else lengths.insert forgotten (count forgotten - 1))[len]? = _
    by_cases hl : forgotten = len
    · subst hl
      rw [if_pos rfl]
      unfold countOrNone
      split
      · rw [get_erase, if_pos rfl]
      · rw [get_insert, if_pos rfl]
    · rw [if_neg hl, Nat.sub_zero, ← h len]
      split
      · rw [get_erase, if_neg hl]
      · rw [get_insert, if_neg hl]

/-- Each forgotten prefix takes one from the count of its length, in whatever order. -/
theorem get_foldl_forgetLength :
    ∀ (forgotten : List String) {lengths : BTreeMap Nat Nat} {count : Nat → Nat},
      (∀ len, lengths[len]? = countOrNone (count len)) → ∀ len : Nat,
      (forgotten.foldl (fun ls pre => forgetLength ls pre.utf8ByteSize) lengths)[len]? =
        countOrNone (count len - forgotten.countP (fun pre => pre.utf8ByteSize == len)) := by
  -- induction on the forgotten prefixes, with the counts they leave as the new counts
  intro forgotten
  induction forgotten with
  | nil => intro lengths count h len; exact h len
  | cons pre rest ih =>
      intro lengths count h len
      rw [List.foldl_cons, ih (get_forgetLength h pre.utf8ByteSize) len, List.countP_cons]
      congr 1
      by_cases hl : pre.utf8ByteSize = len
      · simp only [hl, if_true, beq_self_eq_true]
        omega
      · simp [hl]

/-- Retaining filters every bucket. -/
theorem PrefixedAcls.bucket_retain (acls : PrefixedAcls) (pre : String) :
    (acls.retain keep).bucket pre = (acls.bucket pre).filter keep :=
  getD_retainWith List.filter_nil (fun _ _ _ he => List.isEmpty_iff.mp he) pre

/-- Prefixes that are emptied are dropped, and forgotten by their lengths. -/
theorem PrefixedAcls.Inv.retain {acls : PrefixedAcls} (h : acls.Inv) : (acls.retain keep).Inv where
  nonempty := forall_retainWith h.nonempty (fun _ _ _ he hnil => by
    rw [hnil] at he
    cases he)
  lengths := by
    intro len
    show ((acls.emptied keep).foldl (fun ls pre => forgetLength ls pre.utf8ByteSize)
      acls.lengths)[len]? = _
    rw [get_foldl_forgetLength _ h.lengths len]
    congr 1
    -- the prefixes before are the kept ones and the emptied ones
    have hsplit := countP_keys_retainWith (·.filter keep) (·.isEmpty) acls.byPrefix []
      (fun pre => pre.utf8ByteSize == len)
    show acls.byPrefix.keys.countP _ - (acls.emptied keep).countP _ =
      (retainWith (·.filter keep) (·.isEmpty) acls.byPrefix).keys.countP _
    unfold emptied
    omega

theorem PrefixedAcls.eq_empty_of_isEmpty {acls : PrefixedAcls} (h : acls.Inv)
    (he : acls.isEmpty = true) : acls = {} := by
  refine PrefixedAcls.ext_bucket h PrefixedAcls.inv_empty (fun pre => ?_)
  unfold isEmpty at he
  unfold bucket
  rw [isEmpty_iff_get.mp he pre, get_empty]

theorem LiteralAcls.ne_empty_of_isEmpty_eq_false {acls : LiteralAcls} (h : acls.isEmpty = false) :
    acls ≠ {} := by
  rintro rfl
  simp [isEmpty] at h

theorem PrefixedAcls.ne_empty_of_isEmpty_eq_false {acls : PrefixedAcls} (h : acls.isEmpty = false) :
    acls ≠ {} := by
  rintro rfl
  simp [isEmpty] at h

theorem LiteralAcls.retain_empty : LiteralAcls.retain {} keep = {} :=
  LiteralAcls.ext_bucket LiteralAcls.inv_empty.retain LiteralAcls.inv_empty (fun name => by
    rw [LiteralAcls.bucket_retain]
    simp [LiteralAcls.bucket])

theorem PrefixedAcls.retain_empty : PrefixedAcls.retain {} keep = {} :=
  PrefixedAcls.ext_bucket PrefixedAcls.inv_empty.retain PrefixedAcls.inv_empty (fun pre => by
    rw [PrefixedAcls.bucket_retain]
    simp [PrefixedAcls.bucket])

namespace AclIndex

/-- `removeMatching` filters every bucket. -/
theorem bucketAt_removeMatching {idx : AclIndex} (h : idx.Inv) (filter : AclEntryFilter)
    (rt : ResourceType) (pt : PatternType) (name : String) :
    (idx.removeMatching filter).bucketAt rt pt name =
      (idx.bucketAt rt pt name).filter (fun e => !filter.matches e) := by
  have hlit : (idx.removeMatching filter).literal[rt]?.getD {} =
      (idx.literal[rt]?.getD {}).retain (fun e => !filter.matches e) :=
    getD_retainWith LiteralAcls.retain_empty
      (fun _ _ _ he => LiteralAcls.eq_empty_of_isEmpty he) rt
  have hpre : (idx.removeMatching filter).prefixed[rt]?.getD {} =
      (idx.prefixed[rt]?.getD {}).retain (fun e => !filter.matches e) :=
    getD_retainWith PrefixedAcls.retain_empty (fun k v hk he =>
      PrefixedAcls.eq_empty_of_isEmpty (h.prefixed k v hk).1.retain he) rt
  cases pt with
  | literal =>
      simp only [bucketAt, hlit]
      exact LiteralAcls.bucket_retain _ name
  | prefixed =>
      simp only [bucketAt, hpre]
      exact PrefixedAcls.bucket_retain _ name

/-- Removing takes out exactly the entries that the filter matches. -/
theorem holds_removeMatching {idx : AclIndex} (h : idx.Inv) {filter : AclEntryFilter} {e : AclEntry} :
    (idx.removeMatching filter).Holds e ↔ idx.Holds e ∧ filter.matches e = false := by
  unfold Holds
  rw [bucketAt_removeMatching h, List.mem_filter, Bool.not_eq_true']

/-- Removing keeps the invariant. -/
theorem Inv.removeMatching {idx : AclIndex} (h : idx.Inv) (filter : AclEntryFilter) :
    (idx.removeMatching filter).Inv where
  literal := forall_retainWith h.literal (fun _ _ hacls he =>
    ⟨hacls.1.retain, LiteralAcls.ne_empty_of_isEmpty_eq_false he⟩)
  prefixed := forall_retainWith h.prefixed (fun _ _ hacls he =>
    ⟨hacls.1.retain, PrefixedAcls.ne_empty_of_isEmpty_eq_false he⟩)
  placed := by
    intro rt pt name e he
    rw [bucketAt_removeMatching h] at he
    exact h.placed rt pt name e (List.mem_filter.mp he).1
  nodup := by
    intro rt pt name
    rw [bucketAt_removeMatching h]
    exact (h.nodup rt pt name).filter _

/-! ## Listing every entry

The listing is the union of the buckets, whatever the order of the maps. -/

/-- Iterating the literal entries of a type meets every bucket. -/
theorem mem_iter_byName (ω : MapOrder) (rt : ResourceType) {acls : LiteralAcls} (h : acls.Inv)
    {e : AclEntry} :
    e ∈ (ω.iter (.aclByName rt) acls.byName).flatMap (·.2) ++ acls.wildcard ↔
      ∃ name, e ∈ acls.bucket name := by
  rw [List.mem_append, List.mem_flatMap]
  constructor
  · rintro (⟨⟨name, bucket⟩, hp, he⟩ | he)
    · have hb := (mem_iter ω _).mp hp
      have hw : name ≠ wildcardResource := by
        rintro rfl
        rw [h.wildcard_absent] at hb
        cases hb
      refine ⟨name, ?_⟩
      unfold LiteralAcls.bucket
      rw [if_neg hw, hb]
      exact he
    · refine ⟨wildcardResource, ?_⟩
      unfold LiteralAcls.bucket
      rw [if_pos rfl]
      exact he
  · rintro ⟨name, he⟩
    unfold LiteralAcls.bucket at he
    split at he
    · exact Or.inr he
    · cases hb : acls.byName[name]? with
      | none =>
          rw [hb] at he
          cases he
      | some bucket =>
          rw [hb] at he
          exact Or.inl ⟨(name, bucket), (mem_iter ω _).mpr hb, he⟩

/-- Iterating the prefixed entries of a type meets every bucket. -/
theorem mem_iter_byPrefix (ω : MapOrder) (rt : ResourceType) {acls : PrefixedAcls} {e : AclEntry} :
    e ∈ (ω.iter (.aclByPrefix rt) acls.byPrefix).flatMap (·.2) ↔ ∃ pre, e ∈ acls.bucket pre := by
  rw [List.mem_flatMap]
  constructor
  · rintro ⟨⟨pre, bucket⟩, hp, he⟩
    refine ⟨pre, ?_⟩
    unfold PrefixedAcls.bucket
    rw [(mem_iter ω _).mp hp]
    exact he
  · rintro ⟨pre, he⟩
    unfold PrefixedAcls.bucket at he
    cases hb : acls.byPrefix[pre]? with
    | none =>
        rw [hb] at he
        cases he
    | some bucket =>
        rw [hb] at he
        exact ⟨(pre, bucket), (mem_iter ω _).mpr hb, he⟩

/-- The listing holds exactly the entries of the buckets, in every iteration order. -/
theorem mem_iter_iff {idx : AclIndex} (h : idx.Inv) (ω : MapOrder) {e : AclEntry} :
    e ∈ idx.iter ω ↔ idx.Holds e := by
  have hbucket : e ∈ idx.iter ω ↔ ∃ rt pt name, e ∈ idx.bucketAt rt pt name := by
    unfold iter
    rw [List.mem_append, List.mem_flatMap, List.mem_flatMap]
    constructor
    · rintro (⟨⟨rt, acls⟩, hp, he⟩ | ⟨⟨rt, acls⟩, hp, he⟩)
      · have hacls := (mem_iter ω _).mp hp
        obtain ⟨name, he⟩ := (mem_iter_byName ω rt (h.literal rt acls hacls).1).mp he
        refine ⟨rt, .literal, name, ?_⟩
        simp only [bucketAt, hacls, Option.getD_some]
        exact he
      · have hacls := (mem_iter ω _).mp hp
        obtain ⟨pre, he⟩ := (mem_iter_byPrefix ω rt).mp he
        refine ⟨rt, .prefixed, pre, ?_⟩
        simp only [bucketAt, hacls, Option.getD_some]
        exact he
    · rintro ⟨rt, pt, name, he⟩
      cases pt with
      | literal =>
          cases hacls : idx.literal[rt]? with
          | none => simp [bucketAt, hacls, LiteralAcls.bucket] at he
          | some acls =>
              simp only [bucketAt, hacls, Option.getD_some] at he
              exact Or.inl ⟨(rt, acls), (mem_iter ω _).mpr hacls,
                (mem_iter_byName ω rt (h.literal rt acls hacls).1).mpr ⟨name, he⟩⟩
      | prefixed =>
          cases hacls : idx.prefixed[rt]? with
          | none => simp [bucketAt, hacls, PrefixedAcls.bucket] at he
          | some acls =>
              simp only [bucketAt, hacls, Option.getD_some] at he
              exact Or.inr ⟨(rt, acls), (mem_iter ω _).mpr hacls,
                (mem_iter_byPrefix ω rt).mpr ⟨name, he⟩⟩
  -- `placed` names the one bucket that can hold the entry
  rw [hbucket]
  constructor
  · rintro ⟨rt, pt, name, he⟩
    exact h.holds_of_mem he
  · intro he
    exact ⟨_, _, _, he⟩

/-- It meets no entry twice. -/
theorem nodup_iter_byName {idx : AclIndex} (h : idx.Inv) (ω : MapOrder) {rt : ResourceType}
    {acls : LiteralAcls} (ha : idx.literal[rt]? = some acls) :
    ((ω.iter (.aclByName rt) acls.byName).flatMap (·.2) ++ acls.wildcard).Nodup := by
  have hbucket : ∀ name, idx.bucketAt rt .literal name = acls.bucket name := by
    intro name
    simp only [bucketAt, ha, Option.getD_some]
  have hnamed : ∀ (name : String) (bucket : List AclEntry), acls.byName[name]? = some bucket →
      name ≠ wildcardResource ∧ idx.bucketAt rt .literal name = bucket := by
    intro name bucket hb
    have hw : name ≠ wildcardResource := by
      rintro rfl
      rw [(h.literal rt acls ha).1.wildcard_absent] at hb
      cases hb
    rw [hbucket]
    unfold LiteralAcls.bucket
    rw [if_neg hw, hb]
    exact ⟨hw, rfl⟩
  have hwild : idx.bucketAt rt .literal wildcardResource = acls.wildcard := by
    rw [hbucket]
    exact if_pos rfl
  refine List.nodup_append.mpr ⟨?_, ?_, ?_⟩
  · apply nodup_flatMap_iter ω _ AclEntry.resourceName
    · intro name bucket hb
      rw [← (hnamed name bucket hb).2]
      exact h.nodup rt .literal name
    · intro name bucket hb e he
      rw [← (hnamed name bucket hb).2] at he
      exact (h.placed rt .literal name e he).2.2
  · rw [← hwild]
    exact h.nodup rt .literal wildcardResource
  · -- a named entry and a wildcard entry differ in their resource names
    intro e he e' he' hee
    subst hee
    obtain ⟨⟨name, bucket⟩, hp, he⟩ := List.mem_flatMap.mp he
    obtain ⟨hw, hb⟩ := hnamed name bucket ((mem_iter ω _).mp hp)
    rw [← hb] at he
    rw [← hwild] at he'
    exact hw ((h.placed rt .literal name e he).2.2.symm.trans
      (h.placed rt .literal wildcardResource e he').2.2)

/-- The listing holds each entry once. -/
theorem nodup_iter {idx : AclIndex} (h : idx.Inv) (ω : MapOrder) : (idx.iter ω).Nodup := by
  have hlit : ∀ (rt : ResourceType) (acls : LiteralAcls), idx.literal[rt]? = some acls →
      ∀ e ∈ (ω.iter (.aclByName rt) acls.byName).flatMap (·.2) ++ acls.wildcard,
        e.resourceType = rt ∧ e.patternType = .literal := by
    intro rt acls ha e he
    obtain ⟨name, he⟩ := (mem_iter_byName ω rt (h.literal rt acls ha).1).mp he
    have hb : idx.bucketAt rt .literal name = acls.bucket name := by
      simp only [bucketAt, ha, Option.getD_some]
    have hplaced := h.placed rt .literal name e (by rw [hb]; exact he)
    exact ⟨hplaced.1, hplaced.2.1⟩
  have hbucket : ∀ (rt : ResourceType) (acls : PrefixedAcls), idx.prefixed[rt]? = some acls →
      ∀ (pre : String) (bucket : List AclEntry), acls.byPrefix[pre]? = some bucket →
        idx.bucketAt rt .prefixed pre = bucket := by
    intro rt acls ha pre bucket hb
    simp only [bucketAt, ha, PrefixedAcls.bucket, Option.getD_some, hb]
  have hpre : ∀ (rt : ResourceType) (acls : PrefixedAcls), idx.prefixed[rt]? = some acls →
      ∀ e ∈ (ω.iter (.aclByPrefix rt) acls.byPrefix).flatMap (·.2),
        e.resourceType = rt ∧ e.patternType = .prefixed := by
    intro rt acls ha e he
    obtain ⟨⟨pre, bucket⟩, hp, he⟩ := List.mem_flatMap.mp he
    rw [← hbucket rt acls ha pre bucket ((mem_iter ω _).mp hp)] at he
    have hplaced := h.placed rt .prefixed pre e he
    exact ⟨hplaced.1, hplaced.2.1⟩
  unfold iter
  refine List.nodup_append.mpr ⟨?_, ?_, ?_⟩
  · exact nodup_flatMap_iter ω _ AclEntry.resourceType (fun rt acls ha => nodup_iter_byName h ω ha)
      (fun rt acls ha e he => (hlit rt acls ha e he).1)
  · refine nodup_flatMap_iter ω _ AclEntry.resourceType (fun rt acls ha => ?_)
      (fun rt acls ha e he => (hpre rt acls ha e he).1)
    refine nodup_flatMap_iter ω _ AclEntry.resourceName (fun pre bucket hb => ?_)
      (fun pre bucket hb e he => ?_)
    · rw [← hbucket rt acls ha pre bucket hb]
      exact h.nodup rt .prefixed pre
    · rw [← hbucket rt acls ha pre bucket hb] at he
      exact (h.placed rt .prefixed pre e he).2.2
  · -- an entry is literal or prefixed, never both
    intro e he e' he' hee
    subst hee
    obtain ⟨⟨rt, acls⟩, hp, he⟩ := List.mem_flatMap.mp he
    obtain ⟨⟨rt', acls'⟩, hp', he'⟩ := List.mem_flatMap.mp he'
    have hl := (hlit rt acls ((mem_iter ω _).mp hp) e he).2
    rw [(hpre rt' acls' ((mem_iter ω _).mp hp') e he').2] at hl
    cases hl

end AclIndex

end Krabka.Metadata
