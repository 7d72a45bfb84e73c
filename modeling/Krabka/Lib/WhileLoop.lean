import Mathlib

/-!
# `Lib.WhileLoop` — `while cond(s) { s = body(s)?; }`

A loop whose body may fail. `Ends` is what it means that the loop ends after a number of turns, and with which
result. A weight that falls with every turn makes the loop a function (`whileLoop`), and bounds the turns.
-/

namespace WhileLoop

variable {S ε : Type}

/-- The loop ends from `s` after `n` turns with the result `r`. -/
inductive Ends (cond : S → Bool) (body : S → Except ε S) : Nat → S → Except ε S → Prop where
  | stop {s : S} : cond s = false → Ends cond body 0 s (.ok s)
  | fail {s : S} {e : ε} : cond s = true → body s = .error e → Ends cond body 1 s (.error e)
  | turn {n : Nat} {s t : S} {r : Except ε S} :
      cond s = true → body s = .ok t → Ends cond body n t r → Ends cond body (n + 1) s r

/-- Every turn that does not fail makes the weight smaller. -/
def Falls (cond : S → Bool) (body : S → Except ε S) (weight : S → Nat) : Prop :=
  ∀ s t, cond s = true → body s = .ok t → weight t < weight s

def whileLoop (cond : S → Bool) (body : S → Except ε S) (weight : S → Nat)
    (hfalls : Falls cond body weight) (s : S) : Except ε S :=
  if _hcond : cond s = true then
    match _hbody : body s with
    | .error e => .error e
    | .ok t => whileLoop cond body weight hfalls t
  else .ok s
termination_by weight s
decreasing_by exact hfalls s t _hcond _hbody

section
variable {cond : S → Bool} {body : S → Except ε S} {weight : S → Nat} {hfalls : Falls cond body weight}
  {s t : S} {e : ε}

theorem whileLoop_stop (h : cond s = false) : whileLoop cond body weight hfalls s = .ok s := by
  rw [whileLoop, dif_neg (by rw [h]; exact Bool.false_ne_true)]

theorem whileLoop_fail (h : cond s = true) (hbody : body s = .error e) :
    whileLoop cond body weight hfalls s = .error e := by
  rw [whileLoop, dif_pos h]
  split
  · rename_i e' he
    exact hbody.symm.trans he ▸ rfl
  · rename_i t ht
    cases hbody.symm.trans ht

theorem whileLoop_turn (h : cond s = true) (hbody : body s = .ok t) :
    whileLoop cond body weight hfalls s = whileLoop cond body weight hfalls t := by
  conv_lhs => rw [whileLoop, dif_pos h]
  split
  · rename_i e he
    cases hbody.symm.trans he
  · rename_i t' ht
    rw [Except.ok.inj (ht.symm.trans hbody)]

/-- The function is the loop. -/
theorem whileLoop_ends (hfalls : Falls cond body weight) (s : S) :
    ∃ n, Ends cond body n s (whileLoop cond body weight hfalls s) := by
  induction hw : weight s using Nat.strong_induction_on generalizing s with
  | _ w ih =>
      by_cases hcond : cond s = true
      · cases hbody : body s with
        | error e =>
            rw [whileLoop_fail hcond hbody]
            exact ⟨1, .fail hcond hbody⟩
        | ok t =>
            obtain ⟨n, hn⟩ := ih _ (hw ▸ hfalls s t hcond hbody) t rfl
            rw [whileLoop_turn hcond hbody]
            exact ⟨n + 1, .turn hcond hbody hn⟩
      · rw [Bool.not_eq_true] at hcond
        rw [whileLoop_stop hcond]
        exact ⟨0, .stop hcond⟩

/-- The weight bounds the turns, where there is none left without weight. -/
theorem Ends.turns_le (hfalls : Falls cond body weight) (hpos : ∀ s, cond s = true → 0 < weight s)
    {n : Nat} {r : Except ε S} (h : Ends cond body n s r) : n ≤ weight s := by
  induction h with
  | stop _ => exact Nat.zero_le _
  | fail hcond _ => exact hpos _ hcond
  | turn hcond hbody _ ih => exact Nat.lt_of_le_of_lt ih (hfalls _ _ hcond hbody)

/-- **The invariant rule.** -/
theorem Ends.invariant (Inv : S → Prop)
    (hstep : ∀ s t, cond s = true → Inv s → body s = .ok t → Inv t)
    {n : Nat} {r : Except ε S} (h : Ends cond body n s r) (hs : Inv s) (hr : r = .ok t) : Inv t := by
  induction h with
  | stop _ => exact Except.ok.inj hr ▸ hs
  | fail _ _ => cases hr
  | turn hcond hbody _ ih => exact ih (hstep _ _ hcond hs hbody) hr

/-- **The function rule.** What the stop and the failures answer, and every turn keeps, is the loop's answer. -/
theorem Ends.out_eq {Out : Type} {out : Except ε S → Out} {f : S → Out}
    (hstop : ∀ s, cond s = false → out (.ok s) = f s)
    (hfail : ∀ s e, cond s = true → body s = .error e → out (.error e) = f s)
    (hturn : ∀ s t, cond s = true → body s = .ok t → f t = f s)
    {n : Nat} {r : Except ε S} (h : Ends cond body n s r) : out r = f s := by
  induction h with
  | stop hcond => exact hstop _ hcond
  | fail hcond hbody => exact hfail _ _ hcond hbody
  | turn hcond hbody _ ih => exact ih.trans (hturn _ _ hcond hbody)

end

/-- From every state the loop ends within as many turns as the state weighs, and it answers what `f` does. -/
def Computes {Out : Type} (cond : S → Bool) (body : S → Except ε S) (weight : S → Nat) (out : Except ε S → Out)
    (f : S → Out) : Prop :=
  ∀ s, ∃ n r, n ≤ weight s ∧ Ends cond body n s r ∧ out r = f s

/-- One turn from `s` ends the loop with what `f` answers, or goes on at a lighter state of the same answer. -/
def Meets {Out : Type} (body : S → Except ε S) (weight : S → Nat) (out : Except ε S → Out) (f : S → Out)
    (s : S) : Prop :=
  (∃ e, body s = .error e ∧ out (.error e) = f s) ∨ ∃ t, body s = .ok t ∧ weight t < weight s ∧ f t = f s

theorem computes {Out : Type} {cond : S → Bool} {body : S → Except ε S} {weight : S → Nat}
    {out : Except ε S → Out} {f : S → Out} (hpos : ∀ s, cond s = true → 0 < weight s)
    (hstop : ∀ s, cond s = false → out (.ok s) = f s)
    (hturn : ∀ s, cond s = true → Meets body weight out f s) : Computes cond body weight out f := by
  have hok {s t : S} (hcond : cond s = true) (hbody : body s = .ok t) : weight t < weight s ∧ f t = f s := by
    rcases hturn s hcond with ⟨e, he, -⟩ | ⟨t', ht, hmeets⟩
    · cases hbody.symm.trans he
    · cases hbody.symm.trans ht
      exact hmeets
  have hfail (s : S) (e : ε) (hcond : cond s = true) (hbody : body s = .error e) : out (.error e) = f s := by
    rcases hturn s hcond with ⟨e', he, hmeets⟩ | ⟨t, ht, -⟩
    · cases hbody.symm.trans he
      exact hmeets
    · cases hbody.symm.trans ht
  have hfalls : Falls cond body weight := fun s t hcond hbody => (hok hcond hbody).1
  intro s
  obtain ⟨n, hends⟩ := whileLoop_ends hfalls s
  exact ⟨n, _, hends.turns_le hfalls hpos, hends,
    hends.out_eq hstop hfail fun s t hcond hbody => (hok hcond hbody).2⟩

/-- A loop that returns from its middle fails with what it returns. -/
def returned {α : Type} : Except α S → Option α
  | .error r => some r
  | .ok _ => none

/-- A loop whose turns do not fail. -/
def finished : Except Empty S → S
  | .ok s => s

end WhileLoop
