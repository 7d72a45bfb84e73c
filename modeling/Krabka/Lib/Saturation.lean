import Krabka.Lib.WhileLoop

/-!
# `Lib.Saturation` — `while changed { for r in rules { … } }`

Rules add their conclusions to what is known, in rounds: a rule is tried in the order of the list, sees what the
rules before it have added, and is left out where its conclusion is known. The rounds go on until one adds
nothing.

A round only grows what is known, and there are no more conclusions than rules; so as many rounds as rules
suffice (`round_saturated`) and the loop ends there (`sweeps_end`). Where more knowledge never keeps a rule from
firing, what is known in the end is closed under the rules (`closed_saturated`). It lies inside every set that is
(`Closed.saturated`), so it is the least such set and does not depend on their order.
-/

namespace Saturation

variable {α ρ : Type} [DecidableEq α] (head : ρ → α) (fires : List α → ρ → Bool)

def add (known : List α) (r : ρ) : List α :=
  if head r ∈ known then known
  else if fires known r then head r :: known
  else known

def round (rules : List ρ) (known : List α) : List α := rules.foldl (add head fires) known

def saturated (rules : List ρ) : List α := (round head fires rules)^[rules.length] []

/-- The same turn, with the flag that something was added. -/
def addNoting (st : List α × Bool) (r : ρ) : List α × Bool :=
  if head r ∈ st.1 then st
  else if fires st.1 r then (head r :: st.1, true)
  else st

/-- The loop's body: the flag is cleared before the rules are tried. -/
def sweep (rules : List ρ) (st : List α × Bool) : Except Empty (List α × Bool) :=
  .ok (rules.foldl (addNoting head fires) (st.1, false))

/-- A set that every rule keeps which fires on some of its elements. -/
def Closed (rules : List ρ) (s : Set α) : Prop :=
  ∀ r ∈ rules, ∀ known : List α, (∀ a ∈ known, a ∈ s) → fires known r = true → head r ∈ s

/-- Every conclusion once, and conclusions only. -/
structure Derived (rules : List ρ) (known : List α) : Prop where
  nodup : known.Nodup
  heads : ∀ a ∈ known, a ∈ rules.map head

/-- No rule is lost when more is known. -/
def Monotone : Prop := ∀ known more r, known ⊆ more → fires known r = true → fires more r = true

variable {head fires} {rules : List ρ} {known : List α} {a : α} {r : ρ}

/-! ## One round

What a round adds are conclusions of rules, each once. -/

/-- What is known stays known. -/
theorem suffix_add : known <:+ add head fires known r := by
  unfold add
  split
  · exact List.suffix_rfl
  · split
    · exact List.suffix_cons (head r) known
    · exact List.suffix_rfl

/-- So it does through a round. -/
theorem suffix_round : known <:+ round head fires rules known := by
  induction rules generalizing known with
  | nil => exact List.suffix_rfl
  | cons r rules ih => exact suffix_add.trans ih

/-- Nothing is added twice. -/
theorem nodup_add (h : known.Nodup) : (add head fires known r).Nodup := by
  unfold add
  split
  · exact h
  · rename_i hnew
    split
    · exact List.nodup_cons.mpr ⟨hnew, h⟩
    · exact h

theorem nodup_round (h : known.Nodup) : (round head fires rules known).Nodup := by
  induction rules generalizing known with
  | nil => exact h
  | cons r rules ih => exact ih (nodup_add h)

/-- What is new is the conclusion of the rule that fired. -/
theorem mem_add (h : a ∈ add head fires known r) : a ∈ known ∨ a = head r ∧ fires known r = true := by
  unfold add at h
  split at h
  · exact .inl h
  · split at h
    · rename_i hfires
      rcases List.mem_cons.mp h with heq | hold
      · exact .inr ⟨heq, hfires⟩
      · exact .inl hold
    · exact .inl h

/-- What a closed set has of the known, it has of all that a round adds. -/
theorem Closed.round {s : Set α} (hs : Closed head fires rules s) {tried : List ρ} (htried : tried ⊆ rules)
    (hknown : ∀ a ∈ known, a ∈ s) : ∀ a ∈ Saturation.round head fires tried known, a ∈ s := by
  induction tried generalizing known with
  | nil => exact hknown
  | cons r tried ih =>
      refine ih (fun r' hr' => htried (List.mem_cons_of_mem r hr')) fun a ha => ?_
      rcases mem_add ha with hold | ⟨rfl, hfires⟩
      · exact hknown a hold
      · exact hs r (htried List.mem_cons_self) known hknown hfires

omit [DecidableEq α] in
/-- The conclusions of the rules are closed. -/
theorem closed_heads : Closed head fires rules {a | a ∈ rules.map head} :=
  fun _ hr _ _ _ => List.mem_map_of_mem hr

/-- Where a round adds nothing, no rule of it does. -/
theorem add_eq_of_round (h : round head fires (r :: rules) known = known) :
    add head fires known r = known ∧ round head fires rules known = known := by
  change round head fires rules (add head fires known r) = known at h
  have hle : add head fires known r <:+ round head fires rules (add head fires known r) := suffix_round
  rw [h] at hle
  have hadd : known = add head fires known r :=
    suffix_add.eq_of_length (Nat.le_antisymm suffix_add.length_le hle.length_le)
  rw [← hadd] at h
  exact ⟨hadd.symm, h⟩

/-- After a round that added nothing, no rule is left that fires. -/
theorem head_mem_of_round (h : round head fires rules known = known) (hr : r ∈ rules)
    (hfires : fires known r = true) : head r ∈ known := by
  induction rules with
  | nil => cases hr
  | cons r' rules ih =>
      obtain ⟨hadd, hround⟩ := add_eq_of_round h
      rcases List.mem_cons.mp hr with rfl | hr
      · by_contra hnew
        rw [add, if_neg hnew, if_pos hfires] at hadd
        exact List.cons_ne_self (head r) known hadd
      · exact ih hround hr

/-! ## Many rounds

As many rounds as there are rules reach a state that a further one leaves alone. -/

variable (fires) in
/-- A round derives from what was derived. -/
theorem Derived.round (h : Derived head rules known) :
    Derived head rules (Saturation.round head fires rules known) :=
  ⟨nodup_round h.nodup, closed_heads.round (List.Subset.refl rules) h.heads⟩

omit [DecidableEq α] in
/-- There are no more conclusions than rules. -/
theorem Derived.length_le (h : Derived head rules known) : known.length ≤ rules.length := by
  have hle := h.nodup.length_le_of_subset h.heads
  rwa [List.length_map] at hle

/-- A round that changes something adds something. -/
theorem length_lt_round (h : round head fires rules known ≠ known) :
    known.length < (round head fires rules known).length :=
  Nat.lt_of_le_of_ne suffix_round.length_le fun heq => h (suffix_round.eq_of_length heq).symm

/-- Rounds go on growing until one adds nothing. -/
theorem length_add_le (n : Nat) :
    known.length + n ≤ ((round head fires rules)^[n] known).length ∨
      round head fires rules ((round head fires rules)^[n] known) = (round head fires rules)^[n] known := by
  induction n generalizing known with
  | zero => exact .inl (Nat.le_refl _)
  | succ n ih =>
      rw [Function.iterate_succ_apply]
      by_cases hfix : round head fires rules known = known
      · right
        rw [hfix, Function.iterate_fixed hfix, hfix]
      · have hlt := length_lt_round hfix
        rcases @ih (round head fires rules known) with hle | hfixed
        · left
          omega
        · exact .inr hfixed

variable (fires) in
/-- So do any number of rounds. -/
theorem Derived.iterate (h : Derived head rules known) (n : Nat) :
    Derived head rules ((Saturation.round head fires rules)^[n] known) := by
  induction n generalizing known with
  | zero => exact h
  | succ n ih => exact ih (h.round fires)

/-- As many rounds as rules suffice. -/
theorem Derived.round_limit (h : Derived head rules known) :
    Saturation.round head fires rules ((Saturation.round head fires rules)^[rules.length] known) =
      (Saturation.round head fires rules)^[rules.length] known := by
  by_contra hne
  have hlt := length_lt_round hne
  have hle := ((h.iterate fires rules.length).round fires).length_le
  rcases @length_add_le _ _ _ head fires rules known rules.length with hgrown | hfixed
  · omega
  · exact hne hfixed

omit [DecidableEq α] in
theorem derived_nil : Derived head rules [] := ⟨List.nodup_nil, fun _ ha => nomatch ha⟩

/-- **As many rounds as rules suffice.** -/
theorem round_saturated : round head fires rules (saturated head fires rules) = saturated head fires rules :=
  derived_nil.round_limit

/-- Where no rule is lost, what is known in the end is closed under the rules. -/
theorem closed_saturated (hmono : Monotone fires) :
    Closed head fires rules {a | a ∈ saturated head fires rules} :=
  fun r hr known hknown hfires => head_mem_of_round round_saturated hr (hmono known _ r hknown hfires)

/-- What is known in the end lies in every closed set. -/
theorem Closed.saturated {s : Set α} (hs : Closed head fires rules s) :
    ∀ a ∈ Saturation.saturated head fires rules, a ∈ s := by
  have hrounds (n : Nat) : ∀ a ∈ (Saturation.round head fires rules)^[n] [], a ∈ s := by
    induction n with
    | zero => exact fun _ ha => nomatch ha
    | succ n ih =>
        rw [Function.iterate_succ_apply']
        exact hs.round (List.Subset.refl rules) ih
  exact hrounds rules.length

/-! ## The loop

The loop with its flag for a change stops at that state. -/

/-- The flag says whether something was added. -/
theorem foldl_addNoting (rules : List ρ) (known : List α) (b : Bool) :
    rules.foldl (addNoting head fires) (known, b) =
      (round head fires rules known, b || decide (round head fires rules known ≠ known)) := by
  induction rules generalizing known b with
  | nil => simp [round]
  | cons r rules ih =>
      have hstep : addNoting head fires (known, b) r =
          (add head fires known r, b || decide (add head fires known r ≠ known)) := by
        unfold addNoting add
        split
        · simp
        · split <;> simp
      rw [List.foldl_cons, hstep, ih]
      have hchanged : round head fires (r :: rules) known ≠ known ↔
          add head fires known r ≠ known ∨
            round head fires rules (add head fires known r) ≠ add head fires known r := by
        constructor
        · intro hne
          by_contra hsame
          rw [not_or, not_not, not_not] at hsame
          exact hne (hsame.2.trans hsame.1)
        · rintro (hne | hne) heq
          · exact hne (add_eq_of_round heq).1
          · obtain ⟨hadd, hround⟩ := add_eq_of_round heq
            rw [hadd] at hne
            exact hne hround
      rw [decide_eq_decide.mpr hchanged, Bool.decide_or, Bool.or_assoc]
      rfl

/-- A sweep is a round, with the flag that it changed something. -/
theorem sweep_eq (st : List α × Bool) :
    sweep head fires rules st =
      .ok (round head fires rules st.1, decide (round head fires rules st.1 ≠ st.1)) := by
  rw [sweep, foldl_addNoting, Bool.false_or]

/-- **The loop ends**, one round after the last that adds something. -/
theorem Derived.sweeps_end (h : Derived head rules known) :
    ∃ n ≤ rules.length + 1 - known.length,
      WhileLoop.Ends (·.2) (sweep head fires rules) n (known, true)
        (.ok ((Saturation.round head fires rules)^[rules.length] known, false)) := by
  induction hroom : rules.length - known.length using Nat.strong_induction_on generalizing known with
  | _ room ih =>
      have hle := h.length_le
      by_cases hfix : Saturation.round head fires rules known = known
      · have hstill : decide (Saturation.round head fires rules known ≠ known) = false := by simp [hfix]
        refine ⟨1, by omega, .turn rfl (sweep_eq _) ?_⟩
        rw [hstill, hfix, Function.iterate_fixed hfix]
        exact .stop rfl
      · have hlt := length_lt_round hfix
        have hle' := (h.round fires).length_le
        obtain ⟨n, hn, hends⟩ := ih _ (by omega) (h.round fires) rfl
        refine ⟨n + 1, by omega, .turn rfl (sweep_eq _) ?_⟩
        rw [decide_eq_true hfix]
        rw [← Function.iterate_succ_apply, Function.iterate_succ_apply', h.round_limit] at hends
        exact hends

/-- **The loop ends, one round after the last that added something.** -/
theorem sweeps_end :
    ∃ n ≤ rules.length + 1,
      WhileLoop.Ends (·.2) (sweep head fires rules) n ([], true) (.ok (saturated head fires rules, false)) :=
  derived_nil.sweeps_end

end Saturation
