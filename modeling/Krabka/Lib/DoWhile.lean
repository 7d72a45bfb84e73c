import Mathlib

/-!
# `Lib.DoWhile` — a body that is run until it changes nothing

`doWhile` runs `body`, and runs it again as long as the state before the run was one that it changes. A
weight that falls whenever there is a change bounds the number of runs. The result is that of a number of runs,
the last of which found nothing to change (`exists_doWhile_eq`).
-/

namespace DoWhile

variable {S : Type*}

def doWhile (changes : S → Bool) (body : S → S) (weight : S → Nat)
    (hfalls : ∀ s, changes s = true → weight (body s) < weight s) (s : S) : S :=
  if _h : changes s = true then doWhile changes body weight hfalls (body s) else body s
termination_by weight s
decreasing_by exact hfalls s _h

section
variable {changes : S → Bool} {body : S → S} {weight : S → Nat}
  {hfalls : ∀ s, changes s = true → weight (body s) < weight s}

/-- The runs are finitely many, and the last one is on a state without a change. -/
theorem exists_doWhile_eq (s : S) :
    ∃ n, changes (body^[n] s) = false ∧ doWhile changes body weight hfalls s = body (body^[n] s) := by
  induction s using doWhile.induct changes body weight hfalls with
  | case1 s h ih =>
      obtain ⟨n, hn, heq⟩ := ih
      refine ⟨n + 1, hn, ?_⟩
      rw [doWhile, dif_pos h, heq, Function.iterate_succ_apply]
  | case2 s h =>
      refine ⟨0, Bool.eq_false_iff.mpr h, ?_⟩
      rw [doWhile, dif_neg h, Function.iterate_zero_apply]

end

end DoWhile
