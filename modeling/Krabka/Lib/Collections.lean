import Mathlib

/-!
# `Lib.Collections` — finite maps, maps of maps and unspecified iteration orders

A program's hash maps and ordered maps are both read here as Std's **extensional** tree maps: two maps
with the same lookups are equal, which is what equality of a program's maps means. What separates a hash
map from an ordered one is iteration. An ordered map iterates as `toList`. A hash map iterates in an
order its contents do not determine, so a function that iterates one takes a `HashOrder` and is proved
for every value of it.

## Contents
- **Keys.** Pairs are ordered lexicographically; `lawfulEqCmp_compareOn` orders a type through an
  injection into an ordered one.
- **Lookup.** `get_insert` / `get_erase` in terms of key equality, and `map_ext`.
- **Maps of maps.** `lookup2`, `insert2` (`entry(k).or_default().insert(i, v)`), `erase2` (removal that
  drops an inner map it empties), `setOrErase`, the invariant `NoEmptyInner` and `map2_ext`.
- **Iteration.** `HashOrder`, `mem_iter`, `find?_of_unique` and the listing `iter2` of a map of maps.
- **Restoring a store.** `get_foldl_put`: replaying any listing of a keyed store rebuilds its lookups.
- **Deltas.** `deltas old new`, whose replay on `old` is `new`.
-/

namespace Collections

open Std

set_option linter.unusedSectionVars false

/-- A hash map, up to the order in which it iterates. -/
abbrev HashMap (K V : Type) [Ord K] := ExtTreeMap K V compare

/-- An ordered map; it iterates as `toList`. -/
abbrev BTreeMap (K V : Type) [Ord K] := ExtTreeMap K V compare

variable {K I V : Type} [Ord K] [TransOrd K] [LawfulEqOrd K] [Ord I] [TransOrd I] [LawfulEqOrd I]

/-! ## Keys

A key of several parts is ordered part by part, and a type that embeds into an ordered one is ordered through
it. -/

attribute [instance] lexOrd

instance lawfulEqOrdProd {α β : Type} [Ord α] [Ord β] [LawfulEqOrd α] [LawfulEqOrd β] :
    LawfulEqOrd (α × β) where
  compare_self := by
    intro a
    simp [compare, compareLex, compareOn]
  eq_of_compare := by
    intro a b h
    simp only [compare, compareLex, compareOn, Ordering.then_eq_eq] at h
    exact Prod.ext (LawfulEqCmp.eq_of_compare h.1) (LawfulEqCmp.eq_of_compare h.2)

/-- An injection carries the order back. -/
theorem lawfulEqCmp_compareOn {α β : Type} [Ord β] [LawfulEqOrd β] {f : α → β}
    (hf : Function.Injective f) : LawfulEqCmp (compareOn f) where
  compare_self := fun {a} => ReflOrd.compare_self (a := f a)
  eq_of_compare := fun h => hf (LawfulEqCmp.eq_of_compare h)

/-! ## Lookup

Every operation on a map is known by what it does to a lookup. Equality of maps is equality of all lookups, so
these rules decide it. -/

/-- Inserting is seen at its key and nowhere else. -/
theorem get_insert (m : HashMap K V) (k a : K) (v : V) [DecidableEq K] :
    (m.insert k v)[a]? = if k = a then some v else m[a]? := by
  rw [ExtTreeMap.getElem?_insert]
  simp only [LawfulEqOrd.compare_eq_iff_eq]

/-- Erasing is seen at its key and nowhere else. -/
theorem get_erase (m : HashMap K V) (k a : K) [DecidableEq K] :
    (m.erase k)[a]? = if k = a then none else m[a]? := by
  rw [ExtTreeMap.getElem?_erase]
  simp only [LawfulEqOrd.compare_eq_iff_eq]

/-- Maps with the same lookups are equal. -/
theorem map_ext {m m' : HashMap K V} (h : ∀ k : K, m[k]? = m'[k]?) : m = m' :=
  ExtTreeMap.ext_getElem? h

theorem get_empty (a : K) : (∅ : HashMap K V)[a]? = none := by simp

/-- A map is empty where nothing is found in it. -/
theorem isEmpty_iff_get {m : HashMap K V} : m.isEmpty = true ↔ ∀ k : K, m[k]? = none := by
  rw [ExtTreeMap.isEmpty_iff]
  constructor
  · rintro rfl k
    exact get_empty k
  · intro h
    exact map_ext (fun k => by rw [h k, get_empty])

/-- The keys of a map are those that are found. -/
theorem mem_iff_get {m : HashMap K V} {k : K} : k ∈ m ↔ ∃ v, m[k]? = some v := by
  rw [ExtTreeMap.mem_iff_isSome_getElem?, Option.isSome_iff_exists]

theorem mem_insert_iff {m : HashMap K V} {k a : K} {v : V} : a ∈ m.insert k v ↔ k = a ∨ a ∈ m := by
  rw [ExtTreeMap.mem_insert, LawfulEqOrd.compare_eq_iff_eq]

theorem mem_erase_iff {m : HashMap K V} {k a : K} : a ∈ m.erase k ↔ k ≠ a ∧ a ∈ m := by
  rw [ExtTreeMap.mem_erase, ne_eq, LawfulEqOrd.compare_eq_iff_eq]

/-- Writing back the value a key already has changes nothing. -/
theorem insert_get [DecidableEq K] {m : HashMap K V} {k : K} {v : V} (h : m[k]? = some v) :
    m.insert k v = m := by
  refine map_ext (fun a => ?_)
  rw [get_insert]
  split
  · rename_i he
    rw [← he, h]
  · rfl

/-- Erasing what is not there does nothing. -/
theorem erase_of_get_none [DecidableEq K] {m : HashMap K V} {k : K} (h : m[k]? = none) :
    m.erase k = m := by
  refine map_ext (fun a => ?_)
  rw [get_erase]
  split
  · rename_i he
    rw [← he, h]
  · rfl

/-- Two maps with the same keys list them the same number of times under every predicate. -/
theorem countP_keys_of_perm {V' : Type} {m : HashMap K V} {m' : HashMap K V'}
    (h : ∀ k : K, k ∈ m ↔ k ∈ m') (p : K → Bool) : m.keys.countP p = m'.keys.countP p := by
  apply List.Perm.countP_eq
  rw [List.perm_ext_iff_of_nodup ExtTreeMap.nodup_keys ExtTreeMap.nodup_keys]
  intro k
  rw [ExtTreeMap.mem_keys, ExtTreeMap.mem_keys, h]

/-- A new key counts once. -/
theorem countP_keys_insert_new {m : HashMap K V} {k : K} (hk : k ∉ m) (v : V) (p : K → Bool) :
    (m.insert k v).keys.countP p = m.keys.countP p + if p k then 1 else 0 := by
  have hperm : (m.insert k v).keys.Perm (k :: m.keys) := by
    rw [List.perm_ext_iff_of_nodup ExtTreeMap.nodup_keys
      (List.nodup_cons.mpr ⟨by rwa [ExtTreeMap.mem_keys], ExtTreeMap.nodup_keys⟩)]
    intro a
    rw [ExtTreeMap.mem_keys, ExtTreeMap.mem_insert, List.mem_cons, ExtTreeMap.mem_keys,
      LawfulEqOrd.compare_eq_iff_eq]
    exact or_congr_left eq_comm
  rw [hperm.countP_eq, List.countP_cons]

/-! ## Facts about every entry

`Forall` lifts a fact about one entry to a map. It is kept by inserting an entry that has it, and by taking
entries away. -/

/-- `P` holds of every entry. -/
def Forall (m : HashMap K V) (P : K → V → Prop) : Prop := ∀ k v, m[k]? = some v → P k v

theorem forall_empty {P : K → V → Prop} : Forall (∅ : HashMap K V) P := by
  intro k v h
  rw [get_empty] at h
  cases h

/-- What holds of the entry as well holds after inserting it. -/
theorem forall_insert [DecidableEq K] {m : HashMap K V} {P : K → V → Prop} (h : Forall m P) {k : K}
    {v : V} (hv : P k v) : Forall (m.insert k v) P := by
  intro a w ha
  rw [get_insert] at ha
  split at ha
  · rename_i hk
    injection ha with ha
    rw [← hk, ← ha]
    exact hv
  · exact h a w ha

/-- What holds of all entries holds after erasing some. -/
theorem forall_erase [DecidableEq K] {m : HashMap K V} {P : K → V → Prop} (h : Forall m P) (k : K) :
    Forall (m.erase k) P := by
  intro a w ha
  rw [get_erase] at ha
  split at ha
  · cases ha
  · exact h a w ha

/-- Maps that never store the default are determined by their lookups with it. -/
theorem ext_getD {m m' : HashMap K V} {d : V} (h : Forall m (fun _ v => v ≠ d))
    (h' : Forall m' (fun _ v => v ≠ d)) (heq : ∀ k : K, m[k]?.getD d = m'[k]?.getD d) : m = m' := by
  refine map_ext (fun k => ?_)
  have hk := heq k
  cases hm : m[k]? with
  -- a key that only one map holds would hold the default there
  | none =>
      cases hm' : m'[k]? with
      | none => rfl
      | some w =>
          rw [hm, hm'] at hk
          exact absurd hk.symm (h' k w hm')
  | some v =>
      cases hm' : m'[k]? with
      | none =>
          rw [hm, hm'] at hk
          exact absurd hk (h k v hm)
      | some w =>
          rw [hm, hm'] at hk
          exact congrArg some hk

/-! ### `retain` with an update in place

A Rust `retain` may change the values it keeps. Values that become empty are dropped in the same pass. -/

/-- `m.retain(|_, v| { v.f(); !v.is_empty() })`: update every value and drop those left empty. -/
def retainWith (f : V → V) (isEmpty : V → Bool) (m : HashMap K V) : HashMap K V :=
  m.filterMap (fun _ v => if isEmpty (f v) then none else some (f v))

/-- Retaining rewrites each value on its own, and drops those that become empty. -/
theorem get_retainWith (f : V → V) (isEmpty : V → Bool) (m : HashMap K V) (k : K) :
    (retainWith f isEmpty m)[k]? =
      m[k]?.bind (fun v => if isEmpty (f v) then none else some (f v)) := by
  unfold retainWith
  rw [ExtTreeMap.getElem?_filterMap']

/-- Reading with the default sees the update alone, when an update that leaves a value empty leaves
    the default and the default stays as it is. -/
theorem getD_retainWith {f : V → V} {isEmpty : V → Bool} {m : HashMap K V} {d : V} (hd : f d = d)
    (hempty : ∀ (k : K) (v : V), m[k]? = some v → isEmpty (f v) = true → f v = d) (k : K) :
    (retainWith f isEmpty m)[k]?.getD d = f (m[k]?.getD d) := by
  rw [get_retainWith]
  cases hm : m[k]? with
  | none => simp [hd]
  | some v =>
      by_cases he : isEmpty (f v) = true
      · simp only [Option.bind_some, he, if_true, Option.getD_none, Option.getD_some]
        exact (hempty k v hm he).symm
      · simp [he]

/-- What a rewriting turns into `Q` satisfies it throughout. -/
theorem forall_retainWith {f : V → V} {isEmpty : V → Bool} {m : HashMap K V} {P Q : K → V → Prop}
    (h : Forall m P) (hf : ∀ k v, P k v → isEmpty (f v) = false → Q k (f v)) :
    Forall (retainWith f isEmpty m) Q := by
  intro k w hw
  rw [get_retainWith] at hw
  obtain ⟨v, hv, hw⟩ := Option.bind_eq_some_iff.mp hw
  split at hw
  · cases hw
  · rename_i he
    injection hw with hw
    rw [← hw]
    exact hf k v (h k v hv) (by simpa using he)

/-- The keys that an updating `retain` keeps and those it drops are together all the keys. -/
theorem countP_keys_retainWith [DecidableEq K] (f : V → V) (isEmpty : V → Bool) (m : HashMap K V)
    (d : V) (p : K → Bool) :
    m.keys.countP p = (retainWith f isEmpty m).keys.countP p +
      (m.keys.filter (fun k => isEmpty (f (m[k]?.getD d)))).countP p := by
  have hmem : ∀ k, k ∈ (retainWith f isEmpty m).keys ↔
      k ∈ m.keys ∧ isEmpty (f (m[k]?.getD d)) = false := by
    intro k
    rw [ExtTreeMap.mem_keys, ExtTreeMap.mem_keys, mem_iff_get, mem_iff_get, get_retainWith]
    cases m[k]? with
    | none => simp
    | some v => cases he : isEmpty (f v) <;> simp [he]
  -- as multisets of keys: kept and dropped, disjoint because the test decides
  have hperm : m.keys.Perm ((retainWith f isEmpty m).keys ++
      m.keys.filter (fun k => isEmpty (f (m[k]?.getD d)))) := by
    rw [List.perm_ext_iff_of_nodup ExtTreeMap.nodup_keys
      (List.nodup_append.mpr ⟨ExtTreeMap.nodup_keys, ExtTreeMap.nodup_keys.filter _, ?_⟩)]
    · intro k
      rw [List.mem_append, hmem, List.mem_filter]
      cases isEmpty (f (m[k]?.getD d)) <;> simp
    · intro a ha b hb hab
      subst hab
      have hkept := ((hmem a).mp ha).2
      have hdropped := (List.mem_filter.mp hb).2
      rw [hkept] at hdropped
      cases hdropped
  rw [hperm.countP_eq, List.countP_append]

/-! ## Maps of maps

A map of maps is read at a pair of keys. What a program does to it can leave empty inner maps, which no lookup
sees; `NoEmptyInner` says that there are none, and then lookups decide equality here as well. -/

/-- `m.get(k).and_then(|inner| inner.get(i))`. -/
def lookup2 (m : HashMap K (BTreeMap I V)) (k : K) (i : I) : Option V :=
  m[k]?.bind (fun inner => inner[i]?)

/-- `m.entry(k).or_default().insert(i, v)`. -/
def insert2 (m : HashMap K (BTreeMap I V)) (k : K) (i : I) (v : V) : HashMap K (BTreeMap I V) :=
  m.insert k ((m[k]?.getD ∅).insert i v)

/-- Remove `i` from the inner map at `k`, and the inner map with it once it is empty. -/
def erase2 (m : HashMap K (BTreeMap I V)) (k : K) (i : I) : HashMap K (BTreeMap I V) :=
  match m[k]? with
  | none => m
  | some inner => if (inner.erase i).isEmpty then m.erase k else m.insert k (inner.erase i)

/-- Replace the inner map at `k`; an empty one clears the key. -/
def setOrErase (m : HashMap K (BTreeMap I V)) (k : K) (inner : BTreeMap I V) :
    HashMap K (BTreeMap I V) :=
  if inner.isEmpty then m.erase k else m.insert k inner

/-- No key holds an empty inner map. -/
def NoEmptyInner (m : HashMap K (BTreeMap I V)) : Prop :=
  ∀ (k : K) (inner : BTreeMap I V), m[k]? = some inner → inner.isEmpty = false

/-- The map without the keys that hold an empty inner map. -/
def compact (m : HashMap K (BTreeMap I V)) : HashMap K (BTreeMap I V) :=
  m.filter (fun _ inner => !inner.isEmpty)

section Nested

variable [DecidableEq K] [DecidableEq I]

@[simp] theorem lookup2_empty (k : K) (i : I) :
    lookup2 (∅ : HashMap K (BTreeMap I V)) k i = none := by
  simp [lookup2]

/-- Inserting below a key is seen at that pair and nowhere else. -/
theorem lookup2_insert2 (m : HashMap K (BTreeMap I V)) (k k' : K) (i i' : I) (v : V) :
    lookup2 (insert2 m k i v) k' i' = if k = k' ∧ i = i' then some v else lookup2 m k' i' := by
  unfold lookup2 insert2
  rw [get_insert]
  by_cases hk : k = k'
  · subst hk
    cases hm : m[k]? with
    | none => simp [get_insert]
    | some inner => simp [get_insert]
  · simp [hk]

omit [Std.LawfulEqOrd I] [DecidableEq I] in
/-- The inner map of a key, after inserting below one. -/
theorem get_insert2 (m : HashMap K (BTreeMap I V)) (k a : K) (i : I) (v : V) :
    (insert2 m k i v)[a]? = if k = a then some ((m[k]?.getD ∅).insert i v) else m[a]? := by
  unfold insert2
  exact get_insert m k a _

/-- The later of two writes of one entry counts. -/
theorem insert2_insert2 (m : HashMap K (BTreeMap I V)) (k : K) (i : I) (v w : V) :
    insert2 (insert2 m k i v) k i w = insert2 m k i w := by
  refine map_ext fun a => ?_
  rw [get_insert2, get_insert2, get_insert2, get_insert2, if_pos rfl, Option.getD_some]
  by_cases ha : k = a
  · rw [if_pos ha, if_pos ha]
    refine congrArg some (map_ext fun j => ?_)
    rw [get_insert, get_insert, get_insert]
    split <;> rfl
  · rw [if_neg ha, if_neg ha, if_neg ha]

/-- Writes of two entries commute. -/
theorem insert2_comm (m : HashMap K (BTreeMap I V)) {k k' : K} {i i' : I} (h : ¬(k = k' ∧ i = i'))
    (v w : V) : insert2 (insert2 m k i v) k' i' w = insert2 (insert2 m k' i' w) k i v := by
  refine map_ext fun a => ?_
  rw [get_insert2, get_insert2, get_insert2, get_insert2, get_insert2, get_insert2]
  by_cases hk : k = k'
  · subst hk
    simp only [if_true, Option.getD_some]
    by_cases ha : k = a
    · rw [if_pos ha, if_pos ha]
      refine congrArg some (map_ext fun j => ?_)
      rw [get_insert, get_insert, get_insert, get_insert]
      by_cases hi : i' = j
      · have hne : i ≠ j := fun hij => h ⟨rfl, hij.trans hi.symm⟩
        rw [if_pos hi, if_neg hne, if_pos hi]
      · rw [if_neg hi, if_neg hi]
    · rw [if_neg ha, if_neg ha, if_neg ha, if_neg ha]
  · rw [if_neg hk, if_neg (Ne.symm hk)]
    by_cases ha : k' = a
    · have hne : k ≠ a := fun hka => hk (hka.trans ha.symm)
      rw [if_pos ha, if_neg hne, if_pos ha]
    · rw [if_neg ha, if_neg ha]
/-- Erasing below a key is seen at that pair and nowhere else. -/
theorem lookup2_erase2 (m : HashMap K (BTreeMap I V)) (k k' : K) (i i' : I) :
    lookup2 (erase2 m k i) k' i' = if k = k' ∧ i = i' then none else lookup2 m k' i' := by
  unfold lookup2 erase2
  cases hm : m[k]? with
  | none =>
      by_cases hk : k = k'
      · subst hk
        simp [hm]
      · simp [hk]
  | some inner =>
      by_cases hk : k = k'
      · subst hk
        by_cases he : (inner.erase i).isEmpty = true
        · -- an emptied inner map answers `none` at every index, so dropping its key changes no lookup
          have hnone := isEmpty_iff_get.mp he i'
          rw [get_erase] at hnone
          simp only [he, if_true, get_erase, hm, Option.bind_none, Option.bind_some, true_and]
          split
          · rfl
          · rename_i hi
            rw [if_neg hi] at hnone
            exact hnone.symm
        · simp [he, get_erase, hm]
      · by_cases he : (inner.erase i).isEmpty = true
        · simp [he, get_erase, hk]
        · simp [he, get_insert, hk]

/-- An entry found after a write that erases or stores one key is at that key or was there before. -/
theorem lookup2_of_erase2_or_insert2 {m : HashMap K (BTreeMap I V)} {c : Prop} [Decidable c] {k k' : K}
    {i i' : I} {v w : V} (h : lookup2 (if c then erase2 m k i else insert2 m k i v) k' i' = some w) :
    (k = k' ∧ i = i') ∨ lookup2 m k' i' = some w := by
  by_cases hk : k = k' ∧ i = i'
  · exact Or.inl hk
  · right
    split at h
    · rwa [lookup2_erase2, if_neg hk] at h
    · rwa [lookup2_insert2, if_neg hk] at h

/-- Erasing a key takes all of its inner map. -/
theorem lookup2_erase (m : HashMap K (BTreeMap I V)) (k k' : K) (i : I) :
    lookup2 (m.erase k) k' i = if k = k' then none else lookup2 m k' i := by
  unfold lookup2
  rw [get_erase]
  split <;> rfl

theorem mem_insert2_iff {m : HashMap K (BTreeMap I V)} {k a : K} {i : I} {v : V} :
    a ∈ insert2 m k i v ↔ k = a ∨ a ∈ m :=
  mem_insert_iff

/-- What is found below a key is below a key of the map. -/
theorem mem_of_lookup2 {m : HashMap K (BTreeMap I V)} {k : K} {i : I} {v : V}
    (h : lookup2 m k i = some v) : k ∈ m := by
  obtain ⟨inner, hk, _⟩ := Option.bind_eq_some_iff.mp h
  exact mem_iff_get.mpr ⟨inner, hk⟩

/-- Setting an inner map adds no other key. -/
theorem mem_of_mem_setOrErase {m : HashMap K (BTreeMap I V)} {k a : K} {inner : BTreeMap I V}
    (h : a ∈ setOrErase m k inner) : k = a ∨ a ∈ m := by
  unfold setOrErase at h
  split at h
  · exact Or.inr (mem_erase_iff.mp h).2
  · exact mem_insert_iff.mp h

/-- The size of the inner map that a write grows: by one when the index is new. -/
theorem size_insert2 (m : HashMap K (BTreeMap I V)) (k k' : K) (i : I) (v : V) :
    ((insert2 m k i v)[k']?.getD ∅).size =
      (m[k']?.getD ∅).size + if k = k' ∧ lookup2 m k i = none then 1 else 0 := by
  unfold insert2 lookup2
  rw [get_insert]
  by_cases hk : k = k'
  · subst hk
    have hbind : (m[k]?.bind fun inner => inner[i]?) = (m[k]?.getD ∅)[i]? := by
      cases m[k]? <;> simp
    rw [if_pos rfl, Option.getD_some, ExtTreeMap.size_insert, hbind,
      ExtTreeMap.contains_eq_isSome_getElem?]
    cases (m[k]?.getD ∅)[i]? <;> simp
  · simp [hk]

/-- Inserting leaves no empty inner map. -/
theorem noEmptyInner_insert2 {m : HashMap K (BTreeMap I V)} (h : NoEmptyInner m) (k : K) (i : I)
    (v : V) : NoEmptyInner (insert2 m k i v) := by
  intro k' inner hk'
  unfold insert2 at hk'
  rw [get_insert] at hk'
  split at hk'
  · injection hk' with hk'
    subst hk'
    simp
  · exact h k' inner hk'

/-- Neither does erasing a key. -/
theorem noEmptyInner_erase {m : HashMap K (BTreeMap I V)} (h : NoEmptyInner m) (k : K) :
    NoEmptyInner (m.erase k) := by
  intro k' inner hk'
  rw [get_erase] at hk'
  split at hk'
  · cases hk'
  · exact h k' inner hk'

/-- Setting an inner map that is empty erases its key. -/
theorem noEmptyInner_setOrErase {m : HashMap K (BTreeMap I V)} (h : NoEmptyInner m) (k : K)
    (inner : BTreeMap I V) : NoEmptyInner (setOrErase m k inner) := by
  unfold setOrErase
  split
  · exact noEmptyInner_erase h k
  · rename_i he
    intro k' inner' hk'
    rw [get_insert] at hk'
    split at hk'
    · injection hk' with hk'
      rw [← hk']
      simpa using he
    · exact h k' inner' hk'

/-- Erasing below a key is setting its inner map. -/
theorem erase2_eq_setOrErase (m : HashMap K (BTreeMap I V)) (k : K) (i : I) :
    erase2 m k i = m ∨ ∃ inner, erase2 m k i = setOrErase m k inner := by
  unfold erase2
  cases m[k]? with
  | none => exact Or.inl rfl
  | some inner => exact Or.inr ⟨inner.erase i, rfl⟩

/-- Erasing below a key leaves no empty inner map. -/
theorem noEmptyInner_erase2 {m : HashMap K (BTreeMap I V)} (h : NoEmptyInner m) (k : K) (i : I) :
    NoEmptyInner (erase2 m k i) := by
  rcases erase2_eq_setOrErase m k i with he | ⟨inner, he⟩
  · rw [he]
    exact h
  · rw [he]
    exact noEmptyInner_setOrErase h k inner

theorem noEmptyInner_empty : NoEmptyInner (∅ : HashMap K (BTreeMap I V)) := by
  intro k inner h
  rw [get_empty] at h
  cases h

/-- `P` holds of every entry of every inner map. -/
def ForallInner (m : HashMap K (BTreeMap I V)) (P : K → I → V → Prop) : Prop :=
  ∀ k i v, lookup2 m k i = some v → P k i v

theorem forallInner_empty {P : K → I → V → Prop} :
    ForallInner (∅ : HashMap K (BTreeMap I V)) P := by
  intro k i v h
  rw [lookup2_empty] at h
  cases h

/-- What holds of the entry as well holds after inserting it below its key. -/
theorem forallInner_insert2 {m : HashMap K (BTreeMap I V)} {P : K → I → V → Prop}
    (h : ForallInner m P) {k : K} {i : I} {v : V} (hv : P k i v) :
    ForallInner (insert2 m k i v) P := by
  intro k' i' w hw
  rw [lookup2_insert2] at hw
  split at hw
  · rename_i hk
    injection hw with hw
    rw [← hk.1, ← hk.2, ← hw]
    exact hv
  · exact h k' i' w hw

/-- What holds throughout holds after erasing below a key. -/
theorem forallInner_erase2 {m : HashMap K (BTreeMap I V)} {P : K → I → V → Prop}
    (h : ForallInner m P) (k : K) (i : I) : ForallInner (erase2 m k i) P := by
  intro k' i' w hw
  rw [lookup2_erase2] at hw
  split at hw
  · cases hw
  · exact h k' i' w hw

/-- What holds throughout holds after erasing a key. -/
theorem forallInner_erase {m : HashMap K (BTreeMap I V)} {P : K → I → V → Prop}
    (h : ForallInner m P) (k : K) : ForallInner (m.erase k) P := by
  intro k' i w hw
  rw [lookup2_erase] at hw
  split at hw
  · cases hw
  · exact h k' i w hw

/-- Maps of maps without empty inner maps are determined by their two-level lookups. -/
theorem map2_ext {m m' : HashMap K (BTreeMap I V)} (hm : NoEmptyInner m) (hm' : NoEmptyInner m')
    (h : ∀ k i, lookup2 m k i = lookup2 m' k i) : m = m' := by
  -- an inner map whose every lookup is `none` is empty, which the invariant excludes
  have key : ∀ {a b : HashMap K (BTreeMap I V)}, NoEmptyInner a →
      (∀ k i, lookup2 a k i = lookup2 b k i) → ∀ (k : K) (p : BTreeMap I V),
      a[k]? = some p → b[k]? = some p := by
    intro a b ha hab k p hp
    cases hb : b[k]? with
    | none =>
        have : p.isEmpty = true := isEmpty_iff_get.mpr (fun i => by
          have := hab k i
          simpa [lookup2, hp, hb] using this)
        rw [ha k p hp] at this
        cases this
    | some q =>
        have : p = q := map_ext (fun i => by
          have := hab k i
          simpa [lookup2, hp, hb] using this)
        rw [this]
  refine map_ext (fun k => ?_)
  cases hk : m[k]? with
  | some p => rw [key hm h k p hk]
  | none =>
      cases hk' : m'[k]? with
      | none => rfl
      | some p =>
          have := key hm' (fun k i => (h k i).symm) k p hk'
          rw [hk] at this
          cases this

/-- Writing back what is stored at a key and an index changes nothing. -/
theorem insert2_of_lookup2 {m : HashMap K (BTreeMap I V)} (hm : NoEmptyInner m) {k : K} {i : I} {v : V}
    (h : lookup2 m k i = some v) : insert2 m k i v = m := by
  refine map2_ext (noEmptyInner_insert2 hm k i v) hm (fun k' i' => ?_)
  rw [lookup2_insert2]
  split
  · rename_i hself
    rw [← hself.1, ← hself.2, h]
  · rfl

/-- Nor does erasing where nothing is stored. -/
theorem erase2_of_lookup2 {m : HashMap K (BTreeMap I V)} (hm : NoEmptyInner m) {k : K} {i : I}
    (h : lookup2 m k i = none) : erase2 m k i = m := by
  refine map2_ext (noEmptyInner_erase2 hm k i) hm (fun k' i' => ?_)
  rw [lookup2_erase2]
  split
  · rename_i hself
    rw [← hself.1, ← hself.2, h]
  · rfl

/-- Compacting drops every empty inner map. -/
theorem noEmptyInner_compact (m : HashMap K (BTreeMap I V)) : NoEmptyInner (compact m) := by
  intro k inner h
  unfold compact at h
  rw [ExtTreeMap.getElem?_filter', Option.filter_eq_some_iff] at h
  simpa using h.2

/-- Compacting changes no lookup. -/
theorem lookup2_compact (m : HashMap K (BTreeMap I V)) (k : K) (i : I) :
    lookup2 (compact m) k i = lookup2 m k i := by
  unfold lookup2 compact
  rw [ExtTreeMap.getElem?_filter']
  cases hm : m[k]? with
  | none => simp
  | some inner =>
      by_cases he : inner.isEmpty = true
      · rw [Option.filter_some_neg (by simp [he]), Option.bind_none, Option.bind_some,
          isEmpty_iff_get.mp he i]
      · rw [Option.filter_some_pos (by simpa using he)]

/-! ### `setOrErase`

Setting an inner map that may have become empty: it is kept or its key goes. -/

/-- The inner map that was set is the one found, an absent one being empty. -/
theorem setOrErase_getD (m : HashMap K (BTreeMap I V)) (k : K) (inner : BTreeMap I V) :
    (setOrErase m k inner)[k]?.getD ∅ = inner := by
  unfold setOrErase
  split
  · rename_i he
    rw [get_erase, if_pos rfl]
    exact (ExtTreeMap.isEmpty_iff.mp he).symm
  · rw [get_insert, if_pos rfl]
    rfl

/-- Setting twice is setting once. -/
theorem setOrErase_setOrErase (m : HashMap K (BTreeMap I V)) (k : K) (p q : BTreeMap I V) :
    setOrErase (setOrErase m k p) k q = setOrErase m k q := by
  refine map_ext (fun a => ?_)
  unfold setOrErase
  by_cases hq : q.isEmpty = true <;> by_cases hp : p.isEmpty = true <;> by_cases ha : k = a <;>
    simp [hq, hp, ha, get_insert, get_erase]

/-- Writing back the stored inner map changes nothing, as no empty one is stored. -/
theorem setOrErase_self {m : HashMap K (BTreeMap I V)} (h : NoEmptyInner m) (k : K) :
    setOrErase m k (m[k]?.getD ∅) = m := by
  unfold setOrErase
  cases hm : m[k]? with
  | none =>
      simp only [Option.getD_none, ExtTreeMap.isEmpty_empty, if_true]
      exact erase_of_get_none hm
  | some inner =>
      simp only [Option.getD_some, h k inner hm, Bool.false_eq_true, if_false]
      exact insert_get hm

end Nested

/-! ## Iteration

A `HashOrder` gives a listing for each map at each place of the program. It lists the entries, each of them
once, and that is all that may be relied on. -/

/-- The orders in which hash maps iterate: at each site, a listing of every entry exactly once. The
    site separates maps that may hold equal contents and still iterate differently. -/
structure HashOrder (Site : Type) where
  iter : Site → {K V : Type} → [Ord K] → [TransOrd K] → HashMap K V → List (K × V)
  iter_perm : ∀ (s : Site) {K V : Type} [Ord K] [TransOrd K] (m : HashMap K V),
    (iter s m).Perm m.toList

/-- The order that lists every map by ascending key. -/
def HashOrder.sorted (Site : Type) : HashOrder Site where
  iter _ := fun m => m.toList
  iter_perm _ := fun _ => List.Perm.refl _

variable {Site : Type}

/-- Every order of iteration lists the entries of the map. -/
theorem mem_iter (ω : HashOrder Site) (s : Site) {m : HashMap K V} {k : K} {v : V} :
    (k, v) ∈ ω.iter s m ↔ m[k]? = some v := by
  rw [(ω.iter_perm s m).mem_iff, ExtTreeMap.mem_toList_iff_getElem?_eq_some]

/-- No order of iteration repeats a key. -/
theorem nodup_map_fst_iter (ω : HashOrder Site) (s : Site) (m : HashMap K V) :
    ((ω.iter s m).map (·.1)).Nodup := by
  have hkeys : m.toList.map (·.1) = m.keys := ExtTreeMap.map_fst_toList_eq_keys
  rw [((ω.iter_perm s m).map _).nodup_iff, hkeys]
  exact ExtTreeMap.nodup_keys

/-- Entries listed key by key are distinct when each tells the key it is listed under. -/
theorem nodup_flatMap_iter (ω : HashOrder Site) (s : Site) {m : HashMap K V} {α : Type}
    {f : K × V → List α} (key : α → K)
    (hnodup : ∀ (k : K) (v : V), m[k]? = some v → (f (k, v)).Nodup)
    (hkey : ∀ (k : K) (v : V), m[k]? = some v → ∀ e ∈ f (k, v), key e = k) :
    ((ω.iter s m).flatMap f).Nodup := by
  rw [List.nodup_flatMap]
  constructor
  · rintro ⟨k, v⟩ hp
    exact hnodup k v ((mem_iter ω s).mp hp)
  · have hdistinct := List.pairwise_map.mp (nodup_map_fst_iter ω s m)
    refine hdistinct.imp_of_mem ?_
    rintro ⟨k, v⟩ ⟨k', v'⟩ hp hp' hne
    -- an entry listed under two keys would tell both
    intro e he he'
    exact hne ((hkey k v ((mem_iter ω s).mp hp) e he).symm.trans
      (hkey k' v' ((mem_iter ω s).mp hp') e he'))

/-- A search with exactly one possible answer finds it in every order. -/
theorem find?_of_unique {α : Type} {p : α → Bool} {l : List α} {a : α} (ha : a ∈ l) (hp : p a = true)
    (hu : ∀ b ∈ l, p b = true → b = a) : l.find? p = some a := by
  cases hf : l.find? p with
  | none => exact absurd hp (List.find?_eq_none.mp hf a ha)
  | some b => rw [hu b (List.mem_of_find?_eq_some hf) (List.find?_some hf)]

/-! ## Restoring a keyed store

A store is read through `get` and written through `put`. Replaying a listing of its entries into an
empty store gives back every lookup, in whatever order the listing is. -/

/-- Replaying `l` leaves the target's value at every key it writes, and every other key alone. -/
theorem get_foldl_put_aux {S E Key : Type} [DecidableEq Key] (get : S → Key → Option V)
    (put : S → E → S) (key : E → Key) (val : E → V)
    (hput : ∀ s e k, get (put s e) k = if key e = k then some (val e) else get s k)
    (target : Key → Option V) :
    ∀ (l : List E) (s : S), (∀ e ∈ l, target (key e) = some (val e)) → ∀ k,
      ((∃ e ∈ l, key e = k) → get (l.foldl put s) k = target k) ∧
      ((¬∃ e ∈ l, key e = k) → get (l.foldl put s) k = get s k) := by
  intro l
  induction l with
  | nil =>
      intro s _ k
      exact ⟨fun ⟨e, he, _⟩ => absurd he (by simp), fun _ => rfl⟩
  | cons e rest ih =>
      intro s hl k
      have hrest := ih (put s e) (fun e' he' => hl e' (List.mem_cons_of_mem _ he')) k
      rw [List.foldl_cons]
      -- a later entry of the same key decides; without one, this entry does
      by_cases hin : ∃ e' ∈ rest, key e' = k
      · refine ⟨fun _ => hrest.1 hin, fun hno => ?_⟩
        obtain ⟨e', he', hk⟩ := hin
        exact absurd ⟨e', List.mem_cons_of_mem _ he', hk⟩ hno
      · rw [hrest.2 hin, hput]
        constructor
        · rintro ⟨e', he', hk⟩
          rcases List.mem_cons.mp he' with rfl | he'
          · rw [if_pos hk, ← hk, hl e' List.mem_cons_self]
          · exact absurd ⟨e', he', hk⟩ hin
        · intro hno
          rw [if_neg (fun hk => hno ⟨e, List.mem_cons_self, hk⟩)]

/-- **Replaying a listing restores the store.** -/
theorem get_foldl_put {S E Key : Type} [DecidableEq Key] (get : S → Key → Option V)
    {put : S → E → S} (key : E → Key) (val : E → V) (target : Key → Option V)
    (hput : ∀ s e k, get (put s e) k = if key e = k then some (val e) else get s k)
    {l : List E} {s : S} (hs : ∀ k, get s k = none)
    (hsound : ∀ e ∈ l, target (key e) = some (val e))
    (hcomplete : ∀ k v, target k = some v → ∃ e ∈ l, key e = k) (k : Key) :
    get (l.foldl put s) k = target k := by
  have h := get_foldl_put_aux get put key val hput target l s hsound k
  by_cases hin : ∃ e ∈ l, key e = k
  · exact h.1 hin
  · rw [h.2 hin, hs k]
    cases ht : target k with
    | none => rfl
    | some v => exact absurd (hcomplete k v ht) hin

/-- Writing a listing without repeated keys over a map: the listing decides at its keys. -/
theorem get_foldl_insert [DecidableEq K] {ls : List (K × V)} (h : (ls.map (·.1)).Nodup)
    {m : BTreeMap K V} {k : K} {v : V} :
    (ls.foldl (fun m e => m.insert e.1 e.2) m)[k]? = some v ↔
      (k, v) ∈ ls ∨ k ∉ ls.map (·.1) ∧ m[k]? = some v := by
  induction ls generalizing m with
  | nil => simp
  | cons e rest ih =>
      rw [List.map_cons, List.nodup_cons] at h
      rw [List.foldl_cons, ih h.2, get_insert]
      by_cases hk : e.1 = k
      · subst hk
        rw [if_pos rfl]
        constructor
        · rintro (hmem | ⟨-, hv⟩)
          · exact absurd (List.mem_map_of_mem hmem) h.1
          · cases hv
            exact Or.inl List.mem_cons_self
        · rintro (hmem | ⟨hnot, -⟩)
          · rcases List.mem_cons.mp hmem with heq | hmem
            · exact Or.inr ⟨h.1, congrArg (fun e => some e.2) heq.symm⟩
            · exact Or.inl hmem
          · exact absurd List.mem_cons_self hnot
      · rw [if_neg hk, List.mem_cons, List.map_cons, List.mem_cons]
        have hne : (k, v) ≠ e := fun heq => hk (heq ▸ rfl)
        have hne' : k ≠ e.1 := fun heq => hk heq.symm
        simp only [hne, hne', false_or]

/-- Replaying any listing of a map whose entries tell their key and value rebuilds the map. -/
theorem foldl_insert_iter [DecidableEq K] (ω : HashOrder Site) (s : Site) {m : HashMap K V}
    {key : K × V → K} {val : K × V → V} (h : Forall m (fun k v => key (k, v) = k ∧ val (k, v) = v)) :
    (ω.iter s m).foldl (fun acc e => acc.insert (key e) (val e)) ∅ = m := by
  refine map_ext (fun k => ?_)
  refine get_foldl_put (fun m k => m[k]?) key val (fun k => m[k]?) ?_ ?_ ?_ ?_ k
  · intro acc e a
    exact get_insert acc (key e) a (val e)
  · intro k
    exact get_empty k
  · rintro ⟨k, v⟩ he
    have hget := (mem_iter ω s).mp he
    obtain ⟨hk, hv⟩ := h k v hget
    rw [hk, hv]
    exact hget
  · intro k v hget
    exact ⟨(k, v), (mem_iter ω s).mpr hget, (h k v hget).1⟩

/-! ### Listing a map of maps

The listing goes through the inner maps one after the other. Filtering it by an outer key leaves the listing
of that inner map. -/

/-- The entries of a map of maps: keys in the order of the hash map, indices ascending within a key. -/
def iter2 (ω : HashOrder Site) (s : Site) (m : HashMap K (BTreeMap I V)) : List (K × I × V) :=
  (ω.iter s m).flatMap (fun e => e.2.toList.map (fun c => (e.1, c.1, c.2)))

/-- Every order of iteration lists the entries of the inner maps. -/
theorem mem_iter2 (ω : HashOrder Site) (s : Site) {m : HashMap K (BTreeMap I V)} {k : K} {i : I}
    {v : V} : (k, i, v) ∈ iter2 ω s m ↔ lookup2 m k i = some v := by
  unfold iter2 lookup2
  rw [List.mem_flatMap, Option.bind_eq_some_iff]
  constructor
  · rintro ⟨⟨k', inner⟩, he, hc⟩
    obtain ⟨⟨i', v'⟩, hentry, heq⟩ := List.mem_map.mp hc
    cases heq
    exact ⟨inner, (mem_iter ω s).mp he, ExtTreeMap.mem_toList_iff_getElem?_eq_some.mp hentry⟩
  · rintro ⟨inner, hk, hi⟩
    exact ⟨(k, inner), (mem_iter ω s).mpr hk, List.mem_map.mpr
      ⟨(i, v), ExtTreeMap.mem_toList_iff_getElem?_eq_some.mpr hi, rfl⟩⟩

/-- The listing of a map finds what the map holds. -/
theorem find?_iter [DecidableEq K] (ω : HashOrder Site) (s : Site) (m : HashMap K V) (k : K) :
    (ω.iter s m).find? (fun e => e.1 = k) = m[k]?.map (fun v => (k, v)) := by
  cases hm : m[k]? with
  | some v =>
      refine find?_of_unique ((mem_iter ω s).mpr hm) (by simp) ?_
      rintro ⟨k', v'⟩ he hk
      rw [decide_eq_true_eq] at hk
      subst hk
      have hget := (mem_iter ω s).mp he
      rw [hm] at hget
      rw [Option.some.inj hget]
  | none =>
      rw [Option.map_none, List.find?_eq_none]
      rintro ⟨k', v'⟩ he hk
      rw [decide_eq_true_eq] at hk
      subst hk
      have hget := (mem_iter ω s).mp he
      rw [hm] at hget
      cases hget

/-- Of groups with distinct keys, one key keeps its own group. -/
theorem filter_flatMap_group [DecidableEq K] (k : K) :
    ∀ l : List (K × BTreeMap I V), (l.map (·.1)).Nodup →
      (l.flatMap (fun e => e.2.toList.map (fun c => (e.1, c.1, c.2)))).filter
          (fun e : K × I × V => e.1 = k) =
        (l.find? (fun e => e.1 = k)).elim [] (fun e => e.2.toList.map (fun c => (k, c.1, c.2))) := by
  -- a group survives the filter whole or not at all
  have hgroup : ∀ e : K × BTreeMap I V,
      (e.2.toList.map (fun c => (e.1, c.1, c.2))).filter (fun e : K × I × V => e.1 = k) =
        if e.1 = k then e.2.toList.map (fun c => (k, c.1, c.2)) else [] := by
    rintro ⟨k', inner⟩
    by_cases hk : k' = k
    · subst hk
      simp [List.filter_map, Function.comp_def]
    · simp [List.filter_map, Function.comp_def, hk]
  intro l
  induction l with
  | nil => intro _; rfl
  | cons e rest ih =>
      intro hnodup
      rw [List.map_cons, List.nodup_cons] at hnodup
      rw [List.flatMap_cons, List.filter_append, hgroup, ih hnodup.2]
      by_cases hk : e.1 = k
      · -- the group of the key: no later one has it
        have hrest : rest.find? (fun e => e.1 = k) = none := by
          rw [List.find?_eq_none]
          intro e' he' hk'
          rw [decide_eq_true_eq] at hk'
          exact hnodup.1 (List.mem_map.mpr ⟨e', he', hk'.trans hk.symm⟩)
        rw [if_pos hk, hrest, List.find?_cons_of_pos (by simpa using hk)]
        simp
      · rw [if_neg hk, List.find?_cons_of_neg (by simpa using hk), List.nil_append]

/-- The part of the listing under one key is its inner map, ascending. -/
theorem filter_iter2 [DecidableEq K] (ω : HashOrder Site) (s : Site) (m : HashMap K (BTreeMap I V))
    (k : K) :
    (iter2 ω s m).filter (fun e => e.1 = k) =
      (m[k]?.getD ∅).toList.map (fun c => (k, c.1, c.2)) := by
  unfold iter2
  rw [filter_flatMap_group k _ (nodup_map_fst_iter ω s m), find?_iter]
  cases m[k]? <;> rfl

/-- The listing visits every pair of key and index once. -/
theorem nodup_iter2 (ω : HashOrder Site) (s : Site) (m : HashMap K (BTreeMap I V)) :
    ((iter2 ω s m).map (fun e => (e.1, e.2.1))).Nodup := by
  have hmap : (iter2 ω s m).map (fun e => (e.1, e.2.1)) =
      (ω.iter s m).flatMap (fun e => e.2.keys.map (fun i => (e.1, i))) := by
    unfold iter2
    rw [List.map_flatMap]
    refine List.flatMap_congr (fun e _ => ?_)
    rw [← ExtTreeMap.map_fst_toList_eq_keys, List.map_map, List.map_map]
    rfl
  rw [hmap]
  refine nodup_flatMap_iter ω s (fun p => p.1) ?_ ?_
  · intro k inner _
    exact ExtTreeMap.nodup_keys.map (fun i i' h => (Prod.mk.inj h).2)
  · intro k inner _ p hp
    obtain ⟨i, _, rfl⟩ := List.mem_map.mp hp
    rfl

/-- Replaying any listing of a map of maps rebuilds it, without the empty inner maps. -/
theorem foldl_insert2_iter2 [DecidableEq K] [DecidableEq I] (ω : HashOrder Site) (s : Site)
    {m : HashMap K (BTreeMap I V)} {key : K × I × V → K} {idx : K × I × V → I} {val : K × I × V → V}
    (h : ForallInner m (fun k i v => key (k, i, v) = k ∧ idx (k, i, v) = i ∧ val (k, i, v) = v)) :
    (iter2 ω s m).foldl (fun acc e => insert2 acc (key e) (idx e) (val e)) ∅ = compact m := by
  -- the replay only inserts, so it leaves no inner map empty
  have hnonempty : ∀ (l : List (K × I × V)) (acc : HashMap K (BTreeMap I V)), NoEmptyInner acc →
      NoEmptyInner (l.foldl (fun acc e => insert2 acc (key e) (idx e) (val e)) acc) := by
    intro l
    induction l with
    | nil => intro acc hacc; exact hacc
    | cons e rest ih => intro acc hacc; exact ih _ (noEmptyInner_insert2 hacc _ _ _)
  refine map2_ext (hnonempty _ _ noEmptyInner_empty) (noEmptyInner_compact m) (fun k i => ?_)
  rw [lookup2_compact]
  refine get_foldl_put (fun m p => lookup2 m p.1 p.2) (fun e => (key e, idx e)) val
    (fun p : K × I => lookup2 m p.1 p.2) ?_ ?_ ?_ ?_ (k, i)
  · intro acc e p
    rw [lookup2_insert2]
    simp only [Prod.ext_iff]
  · intro p
    exact lookup2_empty p.1 p.2
  · rintro ⟨k, i, v⟩ he
    have hget := (mem_iter2 ω s).mp he
    obtain ⟨hk, hi, hv⟩ := h k i v hget
    simp only [hk, hi, hv]
    exact hget
  · rintro ⟨k, i⟩ v hget
    obtain ⟨hk, hi, _⟩ := h k i v hget
    exact ⟨(k, i, v), (mem_iter2 ω s).mpr hget, Prod.ext hk hi⟩

/-- A replay whose step writes the listed value at a pair not yet written is a replay of writes. -/
theorem foldl_eq_foldl_insert2 [DecidableEq K] [DecidableEq I]
    {step : HashMap K (BTreeMap I V) → K × I × V → HashMap K (BTreeMap I V)}
    (hstep : ∀ m e, lookup2 m e.1 e.2.1 = none → step m e = insert2 m e.1 e.2.1 e.2.2) :
    ∀ (l : List (K × I × V)), (l.map (fun e => (e.1, e.2.1))).Nodup →
      ∀ m : HashMap K (BTreeMap I V), (∀ e ∈ l, lookup2 m e.1 e.2.1 = none) →
        l.foldl step m = l.foldl (fun m e => insert2 m e.1 e.2.1 e.2.2) m := by
  intro l
  induction l with
  | nil => intro _ m _; rfl
  | cons e rest ih =>
      intro hnodup m hfresh
      rw [List.map_cons, List.nodup_cons] at hnodup
      rw [List.foldl_cons, List.foldl_cons, hstep m e (hfresh e List.mem_cons_self)]
      -- the pair just written is not listed again
      refine ih hnodup.2 _ (fun e' he' => ?_)
      rw [lookup2_insert2, if_neg]
      · exact hfresh e' (List.mem_cons_of_mem _ he')
      · rintro ⟨hk, hi⟩
        exact hnodup.1 (List.mem_map.mpr ⟨e', he', Prod.ext hk.symm hi.symm⟩)

/-- Where no inner map is empty, compacting does nothing. -/
theorem compact_of_noEmptyInner {m : HashMap K (BTreeMap I V)} [DecidableEq K] [DecidableEq I]
    (h : NoEmptyInner m) : compact m = m :=
  map2_ext (noEmptyInner_compact m) h (fun k i => lookup2_compact m k i)

/-! ## Deltas between two ordered maps

Two ordered maps are walked in step. What has to be set and what has to go, applied to the old map, make the
new one. -/

/-- One key's change: `some v` sets it, `none` removes it. -/
def applyDelta (m : BTreeMap K V) (d : K × Option V) : BTreeMap K V :=
  match d.2 with
  | some v => m.insert d.1 v
  | none => m.erase d.1

/-- A change to the inner map at `k`, which comes into being when absent and may be left empty. -/
def applyDelta2 (m : HashMap K (BTreeMap I V)) (k : K) (d : I × Option V) : HashMap K (BTreeMap I V) :=
  m.insert k (applyDelta (m[k]?.getD ∅) d)

/-- A change leaves no empty inner map unless it removes the last key of one, or a key of none. -/
theorem noEmptyInner_applyDelta2_iff [DecidableEq K] [DecidableEq I] {m : HashMap K (BTreeMap I V)}
    (h : NoEmptyInner m) (k : K) (d : I × Option V) :
    NoEmptyInner (applyDelta2 m k d) ↔ (d.2 = none → ∃ i, i ≠ d.1 ∧ (lookup2 m k i).isSome) := by
  have hlookup : ∀ i : I, (m[k]?.getD ∅)[i]? = lookup2 m k i := by
    intro i
    unfold lookup2
    cases m[k]? <;> simp
  have hinner : NoEmptyInner (applyDelta2 m k d) ↔ (applyDelta (m[k]?.getD ∅) d).isEmpty = false := by
    unfold applyDelta2
    constructor
    · intro hall
      refine hall k _ ?_
      rw [get_insert, if_pos rfl]
    · intro hne a inner ha
      rw [get_insert] at ha
      split at ha
      · cases ha
        exact hne
      · exact h a inner ha
  rw [hinner, Bool.eq_false_iff, ne_eq, isEmpty_iff_get]
  obtain ⟨name, value⟩ := d
  unfold applyDelta
  cases value with
  | some v =>
      refine iff_of_true (fun hall => ?_) (fun hnone => by cases hnone)
      have hname := hall name
      rw [get_insert, if_pos rfl] at hname
      cases hname
  | none =>
      simp only [get_erase, hlookup, forall_const]
      constructor
      · intro hnot
        by_contra hno
        refine hnot fun i => ?_
        split
        · rfl
        · rename_i hi
          exact Option.not_isSome_iff_eq_none.mp fun hsome => hno ⟨i, Ne.symm hi, hsome⟩
      · rintro ⟨i, hi, hsome⟩ hall
        have hnone := hall i
        rw [if_neg (Ne.symm hi)] at hnone
        rw [hnone] at hsome
        cases hsome

/-- A set for every key of `new`, then a removal for every key of `old` that `new` lacks. -/
def deltas (old new : BTreeMap K V) : List (K × Option V) :=
  new.toList.map (fun e => (e.1, some e.2)) ++
    (old.keys.filter (fun k => !new.contains k)).map (fun k => (k, none))

/-- What replaying a list of deltas leaves at `k`: the last delta of `k` decides. -/
theorem get_foldl_applyDelta_of_not_mem [DecidableEq K] :
    ∀ (ds : List (K × Option V)) (m : BTreeMap K V) (k : K), (∀ d ∈ ds, d.1 ≠ k) →
      (ds.foldl applyDelta m)[k]? = m[k]? := by
  intro ds
  induction ds with
  | nil => intro m k _; rfl
  | cons d rest ih =>
      intro m k h
      rw [List.foldl_cons, ih _ k (fun d' hd' => h d' (List.mem_cons_of_mem _ hd'))]
      have hd : d.1 ≠ k := h d List.mem_cons_self
      unfold applyDelta
      cases d.2 with
      | some v => rw [get_insert, if_neg hd]
      | none => rw [get_erase, if_neg hd]

/-- Where the deltas agree with a target, their keys end as the target has them. -/
theorem get_foldl_applyDelta_of_agree [DecidableEq K] {target : K → Option V} :
    ∀ (ds : List (K × Option V)) (m : BTreeMap K V) (k : K), (∀ d ∈ ds, d.2 = target d.1) →
      (∃ d ∈ ds, d.1 = k) → (ds.foldl applyDelta m)[k]? = target k := by
  intro ds
  induction ds with
  | nil => rintro m k _ ⟨d, hd, _⟩; cases hd
  | cons d rest ih =>
      intro m k h hk
      rw [List.foldl_cons]
      -- all deltas of a key agree, so it does not matter which comes last
      by_cases hin : ∃ d' ∈ rest, d'.1 = k
      · exact ih _ k (fun d' hd' => h d' (List.mem_cons_of_mem _ hd')) hin
      · have hd : d.1 = k := by
          obtain ⟨d', hd', hdk⟩ := hk
          rcases List.mem_cons.mp hd' with rfl | hd'
          · exact hdk
          · exact absurd ⟨d', hd', hdk⟩ hin
        rw [get_foldl_applyDelta_of_not_mem rest _ k (fun d' hd' hne => hin ⟨d', hd', hne⟩)]
        have ht := h d List.mem_cons_self
        rw [← hd, ← ht]
        unfold applyDelta
        cases d.2 with
        | some v => simp
        | none => simp

/-- **Replaying the deltas from `old` to `new` on `old` gives `new`.** -/
theorem foldl_applyDelta_deltas [DecidableEq K] (old new : BTreeMap K V) :
    (deltas old new).foldl applyDelta old = new := by
  -- every delta says what `new` holds at its key
  have hagree : ∀ d ∈ deltas old new, d.2 = new[d.1]? := by
    intro d hd
    rcases List.mem_append.mp hd with hd | hd
    · obtain ⟨⟨k, v⟩, he, rfl⟩ := List.mem_map.mp hd
      exact (ExtTreeMap.mem_toList_iff_getElem?_eq_some.mp he).symm
    · obtain ⟨k, hk, rfl⟩ := List.mem_map.mp hd
      have hc := (List.mem_filter.mp hk).2
      cases hn : new[k]? with
      | none => rfl
      | some v => simp [ExtTreeMap.contains_eq_isSome_getElem?, hn] at hc
  refine map_ext (fun k => ?_)
  by_cases hin : ∃ d ∈ deltas old new, d.1 = k
  · exact get_foldl_applyDelta_of_agree _ _ k hagree hin
  · rw [get_foldl_applyDelta_of_not_mem _ _ k (fun d hd hk => hin ⟨d, hd, hk⟩)]
    -- an untouched key is in neither map: both lookups are `none`
    have hnew : new[k]? = none := by
      cases hn : new[k]? with
      | none => rfl
      | some v =>
          refine absurd ⟨(k, some v), List.mem_append_left _ ?_, rfl⟩ hin
          exact List.mem_map.mpr ⟨(k, v), ExtTreeMap.mem_toList_iff_getElem?_eq_some.mpr hn, rfl⟩
    have hold : old[k]? = none := by
      cases ho : old[k]? with
      | none => rfl
      | some v =>
          refine absurd ⟨(k, none), List.mem_append_right _ ?_, rfl⟩ hin
          refine List.mem_map.mpr ⟨k, List.mem_filter.mpr ⟨?_, ?_⟩, rfl⟩
          · rw [ExtTreeMap.mem_keys, ExtTreeMap.mem_iff_isSome_getElem?, ho]
            rfl
          · simp [ExtTreeMap.contains_eq_isSome_getElem?, hnew]
    rw [hnew, hold]

end Collections
