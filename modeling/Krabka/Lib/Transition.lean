import Mathlib

/-!
# `Lib.Transition` — guarded runs, invariants and observation

A deterministic machine takes actions: `next s a` is the state after `a`, and `guard s a` says whether
`a` may be taken in `s`. A system of several parties takes labelled steps instead (`Steps`). The rules
every safety proof uses are here once: an invariant of the initial states that each guarded step keeps
holds at every point of every run (`Reach.invariant`), a property that the actions of a stretch keep
survives the stretch (`Steps.invariant`), a property that one action keeps under exactly one condition
holds throughout a run under exactly that condition on its actions (`always_iff_eachMeets`), an
observation that each action sets to one value or leaves alone does not depend on the order of the actions
(`observe_foldl_of_sets`), and two states related by a relation that each step keeps answer every
observation alike for ever (`observe_of_bisim`).
-/

namespace Transition

variable {S A : Type}

/-- The states a machine reaches from `init` by actions whose guard holds when they are taken. -/
inductive Reach (init : S → Prop) (guard : S → A → Prop) (next : S → A → S) : S → Prop where
  | init {s : S} : init s → Reach init guard next s
  | step {s : S} {a : A} : Reach init guard next s → guard s a → Reach init guard next (next s a)

variable {init : S → Prop} {guard : S → A → Prop} {next : S → A → S}

/-- **The invariant rule.** -/
theorem Reach.invariant {Inv : S → Prop} (hinit : ∀ s, init s → Inv s)
    (hstep : ∀ s a, Inv s → guard s a → Inv (next s a)) {s : S} (h : Reach init guard next s) :
    Inv s := by
  induction h with
  | init h => exact hinit _ h
  | step _ hg ih => exact hstep _ _ ih hg

/-- A run under a stronger guard is a run under a weaker one. -/
theorem Reach.mono {guard' : S → A → Prop} (hg : ∀ s a, guard s a → guard' s a) {s : S}
    (h : Reach init guard next s) : Reach init guard' next s := by
  induction h with
  | init h => exact .init h
  | step _ h ih => exact .step ih (hg _ _ h)

/-- The runs of a labelled step relation, with the actions they take in order. -/
inductive Steps (step : S → A → S → Prop) : S → List A → S → Prop where
  | refl (s : S) : Steps step s [] s
  | cons {s t u : S} {a : A} {as : List A} :
      step s a t → Steps step t as u → Steps step s (a :: as) u

/-- **The invariant rule for stretches of a run.** A property that every action satisfying `P` keeps
    holds after any run of such actions from a state where it holds. -/
theorem Steps.invariant {step : S → A → S → Prop} {Inv : S → Prop} {P : A → Prop}
    (hstep : ∀ s a t, P a → Inv s → step s a t → Inv t) {s t : S} {as : List A}
    (h : Steps step s as t) (hP : ∀ a ∈ as, P a) (hs : Inv s) : Inv t := by
  induction h with
  | refl s => exact hs
  | cons hst _ ih =>
      exact ih (fun a ha => hP a (List.mem_cons_of_mem _ ha))
        (hstep _ _ _ (hP _ List.mem_cons_self) hs hst)

/-- Every action of a run meets its condition in the state it is taken in. -/
def EachMeets (cond : S → A → Prop) (next : S → A → S) : S → List A → Prop
  | _, [] => True
  | s, a :: as => cond s a ∧ EachMeets cond next (next s a) as

/-- A run whose actions are allowed where they are taken reaches its end. -/
theorem Reach.foldl : ∀ (as : List A) {s : S}, Reach init guard next s → EachMeets guard next s as →
    Reach init guard next (as.foldl next s) := by
  intro as
  induction as with
  | nil => intro s h _; exact h
  | cons a rest ih => intro s h hrun; exact ih (h.step hrun.1) hrun.2

/-- **The rule of exact conditions.** Where `Base` always holds and one action keeps `Inv` exactly under
    its condition, a run keeps `Inv` throughout exactly when each of its actions meets the condition. -/
theorem always_iff_eachMeets {Base Inv : S → Prop} {cond : S → A → Prop}
    (hbase : ∀ s a, Base s → Base (next s a))
    (hstep : ∀ s a, Base s → Inv s → (Inv (next s a) ↔ cond s a)) :
    ∀ (as : List A) {s : S}, Base s → Inv s →
      ((∀ before, before <+: as → Inv (before.foldl next s)) ↔ EachMeets cond next s as) := by
  intro as
  induction as with
  | nil =>
      intro s _ hs
      refine ⟨fun _ => trivial, fun _ before hpre => ?_⟩
      rw [List.prefix_nil.mp hpre]
      exact hs
  | cons a rest ih =>
      intro s hb hs
      constructor
      · intro h
        have hnext : Inv (next s a) := h [a] ⟨rest, rfl⟩
        refine ⟨(hstep s a hb hs).mp hnext, (ih (hbase s a hb) hnext).mp fun before hpre => ?_⟩
        exact h (a :: before) ((List.prefix_cons_inj a).mpr hpre)
      · rintro ⟨ha, hrest⟩ before hpre
        obtain rfl | ⟨later, rfl, hlater⟩ := List.prefix_cons_iff.mp hpre
        · exact hs
        · exact (ih (hbase s a hb) ((hstep s a hb hs).mpr ha)).mpr hrest later hlater

/-- **The rule of one value.** Where every action of a run either sets an observation to `v` or leaves it
    alone, the run sets it when one of its actions does, wherever that stands. -/
theorem observe_foldl_of_sets {V : Type} {Inv : S → Prop} {observe : S → V} {sets : A → Prop} {v : V} :
    ∀ (as : List A), (∀ a ∈ as, ∀ s, Inv s → Inv (next s a)) →
      (∀ a ∈ as, ∀ s, Inv s → sets a → observe (next s a) = v) →
      (∀ a ∈ as, ∀ s, Inv s → ¬sets a → observe (next s a) = observe s) → ∀ s, Inv s →
        ((∃ a ∈ as, sets a) → observe (as.foldl next s) = v) ∧
          ((∀ a ∈ as, ¬sets a) → observe (as.foldl next s) = observe s) := by
  intro as
  induction as with
  | nil =>
      intro _ _ _ s _
      exact ⟨fun ⟨a, ha, _⟩ => absurd ha List.not_mem_nil, fun _ => rfl⟩
  | cons a rest ih =>
      intro hinv hset hkeep s hs
      obtain ⟨hsets, hkeeps⟩ := ih (fun b hb => hinv b (List.mem_cons_of_mem a hb))
        (fun b hb => hset b (List.mem_cons_of_mem a hb)) (fun b hb => hkeep b (List.mem_cons_of_mem a hb))
        (next s a) (hinv a List.mem_cons_self s hs)
      constructor
      · rintro ⟨b, hb, hsb⟩
        by_cases hrest : ∃ c ∈ rest, sets c
        · exact hsets hrest
        · -- the first action is the last that sets it
          have hnone : ∀ c ∈ rest, ¬sets c := fun c hc hsc => hrest ⟨c, hc, hsc⟩
          rcases List.mem_cons.mp hb with rfl | hb
          · exact (hkeeps hnone).trans (hset b List.mem_cons_self s hs hsb)
          · exact absurd hsb (hnone b hb)
      · intro hnone
        exact (hkeeps fun c hc => hnone c (List.mem_cons_of_mem a hc)).trans
          (hkeep a List.mem_cons_self s hs (hnone a List.mem_cons_self))

/-- **The bisimulation rule.** Related states answer every observation alike after every run. -/
theorem observe_of_bisim {O : Type} {R : S → S → Prop} {observe : S → O}
    (hstep : ∀ s t a, R s t → R (next s a) (next t a)) (hobs : ∀ s t, R s t → observe s = observe t) :
    ∀ (as : List A) {s t : S}, R s t → observe (as.foldl next s) = observe (as.foldl next t) := by
  intro as
  induction as with
  | nil => intro s t h; exact hobs s t h
  | cons a rest ih => intro s t h; exact ih (hstep s t a h)

end Transition
