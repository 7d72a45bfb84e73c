import Krabka.Lib.Collections

/-!
# `Lib.LastEntry` — the last entry of a key

A list of pairs that is written into a map, or folded into one slot, leaves the last value of each key. What
was written earlier under the same key is gone, so the size of the map counts keys and not pairs.
-/

namespace Collections

open Std

set_option linter.unusedSectionVars false

variable {K V : Type} [Ord K] [TransOrd K] [LawfulEqOrd K] [DecidableEq K]

/-- The last pair with key `k` holds `v`. -/
def LastEntry (pairs : List (K × V)) (k : K) (v : V) : Prop :=
  ∃ before after, pairs = before ++ (k, v) :: after ∧ ∀ p ∈ after, p.1 ≠ k

theorem not_lastEntry_nil {k : K} {v : V} : ¬LastEntry [] k v := by
  rintro ⟨before, after, h, _⟩
  exact List.append_ne_nil_of_right_ne_nil before (List.cons_ne_nil _ after) h.symm

/-- One more pair: it is the last of its key, and of no other. -/
theorem lastEntry_concat {pairs : List (K × V)} {p : K × V} {k : K} {v : V} :
    LastEntry (pairs ++ [p]) k v ↔ if p.1 = k then p.2 = v else LastEntry pairs k v := by
  constructor
  · rintro ⟨before, after, h, hafter⟩
    rcases List.eq_nil_or_concat' after with rfl | ⟨after, q, rfl⟩
    · obtain ⟨_, hp⟩ := List.append_inj' h rfl
      rw [(List.cons.inj hp).1, if_pos rfl]
    · rw [← List.cons_append, ← List.append_assoc] at h
      obtain ⟨rfl, hp⟩ := List.append_inj' h rfl
      rw [(List.cons.inj hp).1, if_neg (hafter q (List.mem_append_right after List.mem_cons_self))]
      exact ⟨before, after, rfl, fun r hr => hafter r (List.mem_append_left _ hr)⟩
  · intro h
    split at h
    · rename_i hk
      subst hk h
      exact ⟨pairs, [], rfl, fun q hq => absurd hq List.not_mem_nil⟩
    · rename_i hk
      obtain ⟨before, after, rfl, hafter⟩ := h
      refine ⟨before, after ++ [p], by rw [List.append_assoc, List.cons_append], ?_⟩
      intro q hq
      rcases List.mem_append.mp hq with hq | hq
      · exact hafter q hq
      · rw [List.mem_singleton.mp hq]
        exact hk

/-- **A slot that every pair of the key overwrites holds the last one.** -/
theorem foldl_overwrite_eq_some {pairs : List (K × V)} {k : K} {v : V} :
    pairs.foldl (fun slot p => if p.1 = k then some p.2 else slot) none = some v ↔ LastEntry pairs k v := by
  induction pairs using List.reverseRecOn with
  | nil => exact iff_of_false (Option.some_ne_none v).symm not_lastEntry_nil
  | append_singleton pairs p ih =>
      rw [List.foldl_append, List.foldl_cons, List.foldl_nil, lastEntry_concat]
      split
      · rw [Option.some.injEq]
      · exact ih

/-- The map that the pairs are written into. -/
def written (pairs : List (K × V)) : HashMap K V := pairs.foldl (fun m p => m.insert p.1 p.2) ∅

/-- **The map holds the last value of each key.** -/
theorem get_written {pairs : List (K × V)} {k : K} {v : V} :
    (written pairs)[k]? = some v ↔ LastEntry pairs k v := by
  induction pairs using List.reverseRecOn with
  | nil =>
      rw [written, List.foldl_nil, get_empty]
      exact iff_of_false (Option.some_ne_none v).symm not_lastEntry_nil
  | append_singleton pairs p ih =>
      rw [written, List.foldl_append, List.foldl_cons, List.foldl_nil, get_insert, lastEntry_concat]
      split
      · rw [Option.some.injEq]
      · exact ih

theorem LastEntry.unique {pairs : List (K × V)} {k : K} {v w : V} (hv : LastEntry pairs k v)
    (hw : LastEntry pairs k w) : v = w :=
  Option.some.inj ((get_written.mpr hv).symm.trans (get_written.mpr hw))

theorem LastEntry.mem {pairs : List (K × V)} {k : K} {v : V} (h : LastEntry pairs k v) : (k, v) ∈ pairs := by
  obtain ⟨before, after, rfl, _⟩ := h
  exact List.mem_append_right before List.mem_cons_self

/-- Values that are changed one by one keep their places. -/
theorem lastEntry_map {W : Type} {f : V → W} {pairs : List (K × V)} {k : K} {w : W} :
    LastEntry (pairs.map fun p => (p.1, f p.2)) k w ↔ ∃ v, LastEntry pairs k v ∧ f v = w := by
  induction pairs using List.reverseRecOn with
  | nil =>
      refine iff_of_false not_lastEntry_nil ?_
      rintro ⟨v, hv, _⟩
      exact not_lastEntry_nil hv
  | append_singleton pairs p ih =>
      rw [List.map_append, List.map_singleton, lastEntry_concat, ih]
      simp only [lastEntry_concat]
      split
      · constructor
        · intro h
          exact ⟨p.2, rfl, h⟩
        · rintro ⟨v, rfl, h⟩
          exact h
      · rfl

theorem mem_written {pairs : List (K × V)} {k : K} : k ∈ written pairs ↔ ∃ p ∈ pairs, p.1 = k := by
  induction pairs using List.reverseRecOn with
  | nil => simp [written]
  | append_singleton pairs p ih =>
      rw [written, List.foldl_append, List.foldl_cons, List.foldl_nil, mem_insert_iff]
      show p.1 = k ∨ k ∈ written pairs ↔ _
      rw [ih]
      simp [or_comm, or_and_right, exists_or]

/-- **The map holds one key exactly when all pairs have it.** -/
theorem size_written_eq_one_iff {pairs : List (K × V)} :
    (written pairs).size = 1 ↔ pairs ≠ [] ∧ ∀ p ∈ pairs, ∀ q ∈ pairs, p.1 = q.1 := by
  rw [← ExtTreeMap.length_keys]
  constructor
  · intro h
    obtain ⟨k, hk⟩ := List.length_eq_one_iff.mp h
    have hkey : ∀ p ∈ pairs, p.1 = k := by
      intro p hp
      have hmem := ExtTreeMap.mem_keys.mpr (mem_written.mpr ⟨p, hp, rfl⟩)
      rw [hk] at hmem
      exact List.mem_singleton.mp hmem
    refine ⟨?_, fun p hp q hq => (hkey p hp).trans (hkey q hq).symm⟩
    rintro rfl
    have hmem : k ∈ (written ([] : List (K × V))).keys := by
      rw [hk]
      exact List.mem_singleton_self k
    obtain ⟨p, hp, _⟩ := mem_written.mp (ExtTreeMap.mem_keys.mp hmem)
    exact absurd hp List.not_mem_nil
  · rintro ⟨hne, hsame⟩
    obtain ⟨p, rest, rfl⟩ := List.exists_cons_of_ne_nil hne
    have hperm : (written (p :: rest)).keys.Perm [p.1] := by
      rw [List.perm_ext_iff_of_nodup ExtTreeMap.nodup_keys (List.nodup_singleton _)]
      intro k
      rw [ExtTreeMap.mem_keys, mem_written, List.mem_singleton]
      constructor
      · rintro ⟨q, hq, rfl⟩
        exact hsame q hq p List.mem_cons_self
      · rintro rfl
        exact ⟨p, List.mem_cons_self, rfl⟩
    rw [hperm.length_eq, List.length_singleton]

end Collections
