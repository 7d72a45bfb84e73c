import Mathlib

/-!
# `Lib.Tiling` — intervals handed out one behind the other

A counter that hands out ranges hands out each from where the last one ended. What that gives is here: the
ranges are disjoint and in order, and together they are everything from the start to the counter.
-/

namespace Tiling

variable {α : Type} [AddCommGroup α] [LinearOrder α]

/-- The values that a grant `(base, count)` gives out. -/
def range (g : α × α) : Set α := Set.Ico g.1 (g.1 + g.2)

/-- The grants take a counter from `a` to the last index: each starts at the counter and moves it on. -/
inductive Tiles (a : α) : List (α × α) → α → Prop where
  | nil : Tiles a [] a
  | grant {gs : List (α × α)} {b count : α} :
      Tiles a gs b → 0 < count → Tiles a (gs ++ [(b, count)]) (b + count)

variable [IsOrderedAddMonoid α] {a b : α} {gs : List (α × α)}

theorem Tiles.le (h : Tiles a gs b) : a ≤ b := by
  induction h with
  | nil => exact le_refl a
  | grant _ hpos ih => exact ih.trans (le_add_of_nonneg_right hpos.le)

theorem Tiles.stop_le (h : Tiles a gs b) : ∀ g ∈ gs, g.1 + g.2 ≤ b := by
  induction h with
  | nil => exact fun g hg => absurd hg List.not_mem_nil
  | grant _ hpos ih =>
      intro g hg
      rw [List.mem_append, List.mem_singleton] at hg
      obtain hg | rfl := hg
      · exact (ih g hg).trans (le_add_of_nonneg_right hpos.le)
      · exact le_refl _

/-- Every grant starts behind the end of each one before it. -/
theorem Tiles.ordered (h : Tiles a gs b) : gs.Pairwise fun g g' => g.1 + g.2 ≤ g'.1 := by
  induction h with
  | nil => exact List.Pairwise.nil
  | grant hgs _ ih =>
      rw [List.pairwise_append]
      refine ⟨ih, List.pairwise_singleton _ _, fun g hg g' hg' => ?_⟩
      rw [List.mem_singleton.mp hg']
      exact hgs.stop_le g hg

theorem Tiles.disjoint (h : Tiles a gs b) : gs.Pairwise fun g g' => Disjoint (range g) (range g') := by
  refine h.ordered.imp fun hle => Set.disjoint_left.mpr fun x hx hx' => ?_
  exact absurd (hx.2.trans_le hle) (not_lt_of_ge hx'.1)

/-- **No value is left out.** -/
theorem Tiles.iUnion (h : Tiles a gs b) : (⋃ g ∈ gs, range g) = Set.Ico a b := by
  induction h with
  | nil => simp
  | grant hgs hpos ih =>
      rw [← Set.Ico_union_Ico_eq_Ico hgs.le (le_add_of_nonneg_right hpos.le), ← ih]
      ext x
      simp only [Set.mem_iUnion, Set.mem_union, List.mem_append, List.mem_singleton, exists_prop,
        or_and_right, exists_or, exists_eq_left]
      exact Iff.rfl

end Tiling
