import Mathlib.Data.List.MinMax

/-!
# `Lib.Greatest` — which of the greatest elements a scan keeps

A scan for the greatest element keeps the first or the last of the elements that tie. `List.argmax` keeps
the first: it is the first element of its value, and everything in front of it is smaller. `maxByKey` keeps
the last.
-/

namespace Greatest

variable {α β : Type} [LinearOrder β] {f : α → β} {l : List α} {m : α}

/-- The last of the elements with the greatest key. -/
def maxByKey (f : α → β) (l : List α) : Option α := l.reverse.argmax f

theorem argmax_eq_some (h : l.argmax f = some m) :
    ∃ before after, l = before ++ m :: after ∧ (∀ a ∈ before, f a < f m) ∧ ∀ a ∈ after, f a ≤ f m := by
  induction l using List.reverseRecOn with
  | nil => cases h
  | append_singleton l a ih =>
      have hle : ∀ b ∈ l ++ [a], f b ≤ f m := fun b hb => List.le_of_mem_argmax hb h
      rw [List.argmax_concat] at h
      cases hl : l.argmax f with
      | none =>
          rw [hl] at h
          cases h
          rw [List.argmax_eq_none.mp hl]
          exact ⟨[], [], rfl, by simp, by simp⟩
      | some c =>
          rw [hl] at h
          dsimp only at h
          split at h
          · rename_i hlt
            cases h
            exact ⟨l, [], rfl, fun b hb => (List.le_of_mem_argmax hb hl).trans_lt hlt, by simp⟩
          · cases h
            obtain ⟨before, after, rfl, hbefore, _⟩ := ih hl
            refine ⟨before, after ++ [a], by simp, hbefore, fun b hb => hle b ?_⟩
            simp only [List.mem_append, List.mem_cons] at hb ⊢
            tauto

/-- **The first of the greatest is the first of its value.** -/
theorem argmax_eq_find? {n : β} (hle : ∀ a ∈ l, f a ≤ n) (hm : m ∈ l) (hn : f m = n) :
    l.argmax f = l.find? fun a => f a = n := by
  cases h : l.argmax f with
  | none =>
      rw [List.argmax_eq_none.mp h] at hm
      cases hm
  | some x =>
      have hx : f x = n := le_antisymm (hle x (List.argmax_mem h)) (hn ▸ List.le_of_mem_argmax hm h)
      obtain ⟨before, after, rfl, hbefore, _⟩ := argmax_eq_some h
      have hnone : before.find? (fun a => f a = n) = none := by
        rw [List.find?_eq_none]
        intro a ha
        simpa [hx] using (hbefore a ha).ne
      rw [List.find?_append, hnone, Option.none_or, List.find?_cons_of_pos (by simpa using hx)]

/-! ## The last one

A fold that replaces at a tie. -/

theorem maxByKey_mem (h : maxByKey f l = some m) : m ∈ l := List.mem_reverse.mp (List.argmax_mem h)

theorem le_maxByKey {a : α} (ha : a ∈ l) (h : maxByKey f l = some m) : f a ≤ f m :=
  List.le_of_mem_argmax (List.mem_reverse.mpr ha) h

theorem maxByKey_eq_none : maxByKey f l = none ↔ l = [] := by
  rw [maxByKey, List.argmax_eq_none, List.reverse_eq_nil_iff]

/-- **Everything behind the last of the greatest is smaller**, and nothing in front of it is greater. -/
theorem maxByKey_eq_some_iff :
    maxByKey f l = some m ↔
      ∃ before after, l = before ++ m :: after ∧ (∀ a ∈ before, f a ≤ f m) ∧ ∀ a ∈ after, f a < f m := by
  constructor
  · intro h
    obtain ⟨after, before, hl, hafter, hbefore⟩ := argmax_eq_some h
    refine ⟨before.reverse, after.reverse, ?_, ?_, ?_⟩
    · rw [← l.reverse_reverse, hl, List.reverse_append, List.reverse_cons, List.append_assoc]
      rfl
    · intro a ha
      exact hbefore a (List.mem_reverse.mp ha)
    · intro a ha
      exact hafter a (List.mem_reverse.mp ha)
  · rintro ⟨before, after, rfl, hbefore, hafter⟩
    have hmem : m ∈ (before ++ m :: after).reverse := by simp
    have hle : ∀ a ∈ (before ++ m :: after).reverse, f a ≤ f m := by
      intro a ha
      rcases List.mem_append.mp (List.mem_reverse.mp ha) with ha | ha
      · exact hbefore a ha
      · rcases List.mem_cons.mp ha with rfl | ha
        · exact le_rfl
        · exact (hafter a ha).le
    have hnone : after.reverse.find? (fun a => f a = f m) = none := by
      rw [List.find?_eq_none]
      intro a ha
      simpa using (hafter a (List.mem_reverse.mp ha)).ne
    rw [maxByKey, argmax_eq_find? hle hmem rfl, List.reverse_append, List.reverse_cons, List.append_assoc,
      List.find?_append, hnone, Option.none_or, List.singleton_append, List.find?_cons_of_pos (by simp)]

end Greatest
