import Mathlib

/-!
# `Lib.Causality` — happens-before and stamped events

Events happen at nodes, each with a stamp, and some on receipt of another event's stamp. A log holds the
events of all nodes in the order they happened, so it is one interleaving of them. `HappensBefore` is what
can have caused what: earlier at the same node, or the event whose stamp was received.

A clock that keeps two local rules, `ClockCondition`, orders causes before effects
(`lt_of_happensBefore`); if stamps also tell their node, no two are equal (`stamps_nodup`).
-/

namespace Causality

variable {ι σ κ : Type}

structure Event (ι σ : Type) where
  node : ι
  received : Option σ
  stamp : σ
deriving DecidableEq

/-- One event is a direct cause of another. -/
inductive Causes (log : List (Event ι σ)) : Event ι σ → Event ι σ → Prop where
  | sameNode {e f : Event ι σ} : [e, f].Sublist log → e.node = f.node → Causes log e f
  | received {e f : Event ι σ} : e ∈ log → f ∈ log → f.received = some e.stamp → Causes log e f

def HappensBefore (log : List (Event ι σ)) : Event ι σ → Event ι σ → Prop :=
  Relation.TransGen (Causes log)

/-- The local rules of a logical clock that reads the key of a stamp: each node's stamps go up, and an
event's stamp is above the one it received. -/
structure ClockCondition [LT κ] (key : σ → κ) (log : List (Event ι σ)) : Prop where
  sameNode : log.Pairwise fun e f => e.node = f.node → key e.stamp < key f.stamp
  received : ∀ e ∈ log, ∀ s, e.received = some s → key s < key e.stamp

theorem ClockCondition.nil [LT κ] {key : σ → κ} : ClockCondition (ι := ι) key [] :=
  ⟨List.Pairwise.nil, fun _ he => absurd he List.not_mem_nil⟩

/-- The condition is kept by an event above its own node's past and above what it received. -/
theorem ClockCondition.concat [LT κ] {key : σ → κ} {log : List (Event ι σ)} {f : Event ι σ}
    (h : ClockCondition key log) (hpast : ∀ e ∈ log, e.node = f.node → key e.stamp < key f.stamp)
    (hreceived : ∀ s, f.received = some s → key s < key f.stamp) :
    ClockCondition key (log ++ [f]) := by
  constructor
  · rw [List.pairwise_append]
    refine ⟨h.sameNode, List.pairwise_singleton _ _, ?_⟩
    intro e he g hg
    cases List.mem_singleton.mp hg
    exact hpast e he
  · intro e he s hs
    rcases List.mem_append.mp he with he | he
    · exact h.received e he s hs
    · cases List.mem_singleton.mp he
      exact hreceived s hs

theorem ClockCondition.lt_of_causes [LT κ] {key : σ → κ} {log : List (Event ι σ)} {e f : Event ι σ}
    (h : ClockCondition key log) (hef : Causes log e f) : key e.stamp < key f.stamp := by
  cases hef with
  | sameNode hsub hnode => exact List.pairwise_iff_forall_sublist.mp h.sameNode hsub hnode
  | received _ hf hrec => exact h.received f hf e.stamp hrec

/-- **Causes have smaller stamps than their effects.** -/
theorem ClockCondition.lt_of_happensBefore [Preorder κ] {key : σ → κ} {log : List (Event ι σ)}
    {e f : Event ι σ} (h : ClockCondition key log) (hef : HappensBefore log e f) :
    key e.stamp < key f.stamp := by
  induction hef with
  | single hc => exact h.lt_of_causes hc
  | tail _ hc ih => exact ih.trans (h.lt_of_causes hc)

/-- **No stamp is used twice**, if a stamp tells its node. -/
theorem ClockCondition.stamps_nodup [Preorder κ] {key : σ → κ} {log : List (Event ι σ)}
    (h : ClockCondition key log)
    (hnode : ∀ e ∈ log, ∀ f ∈ log, e.stamp = f.stamp → e.node = f.node) :
    (log.map Event.stamp).Nodup := by
  rw [List.Nodup, List.pairwise_map]
  refine h.sameNode.imp_of_mem ?_
  intro e f he hf hlt heq
  have hkey := hlt (hnode e he f hf heq)
  rw [heq] at hkey
  exact lt_irrefl _ hkey

end Causality
