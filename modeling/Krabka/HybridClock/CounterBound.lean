import Krabka.HybridClock.Causality

/-!
# `HybridClock.CounterBound` — counters are bounded by real work

A counter goes up by one only when a stamp is minted at the wall time it stands at, on any node. `work`
counts the stamps minted at one wall time; `System.Counted` says that no clock and no stamp is ahead of it,
and every call keeps that, since it takes its counter from the clock or from a stamp that was minted. So a
counter overflows only after `2 ^ 32 - 1` stamps at one and the same wall time.
-/

namespace Krabka.HybridClock

open Causality Transition

variable {ι : Type}

/-! ## Work

The number of stamps that were minted at one wall time, in the whole log. -/

/-- The stamps of a log at one wall time. -/
def stampsAt (log : List (Event ι Hlc)) (wall : Int64) : List Hlc :=
  (log.map Event.stamp).filter fun s => s.wall = wall

/-- How many stamps a log has at one wall time. -/
def work (log : List (Event ι Hlc)) (wall : Int64) : ℕ := (stampsAt log wall).length

theorem work_concat_self (log : List (Event ι Hlc)) (e : Event ι Hlc) :
    work (log ++ [e]) e.stamp.wall = work log e.stamp.wall + 1 := by
  simp [work, stampsAt]

theorem work_le_append (log more : List (Event ι Hlc)) (wall : Int64) :
    work log wall ≤ work (log ++ more) wall := by
  simp [work, stampsAt]

theorem work_mono {log log' : List (Event ι Hlc)} (h : log <+: log') (wall : Int64) :
    work log wall ≤ work log' wall := by
  obtain ⟨more, rfl⟩ := h
  exact work_le_append log more wall

/-! ## One call

A counter that goes up does so from a stamp at the same wall time. -/

/-- A counter is at most one above `n`, and overflows only when `n` has reached the largest counter. -/
def CounterWithin (n : ℕ) : Except HlcError UInt32 → Prop
  | .ok counter => counter.toNat ≤ n + 1
  | .error _ => 2 ^ 32 - 1 ≤ n

theorem nextCounter_within {counter : UInt32} {n : ℕ} (h : counter.toNat ≤ n) :
    CounterWithin n (nextCounter counter) := by
  cases hnext : nextCounter counter with
  | ok m =>
      show m.toNat ≤ n + 1
      have := nextCounter_eq_ok hnext
      omega
  | error e =>
      show 2 ^ 32 - 1 ≤ n
      unfold nextCounter at hnext
      split at hnext
      · cases hnext
      · omega

theorem State.localCounter_within {s : State} {wall : Int64} {n : ℕ}
    (h : s.wall = wall → s.counter.toNat ≤ n) : CounterWithin n (s.localCounter wall) := by
  unfold State.localCounter
  by_cases hwall : wall = s.wall
  · rw [if_pos hwall]
    exact nextCounter_within (h hwall.symm)
  · rw [if_neg hwall]
    exact Nat.zero_le _

theorem State.mergedCounter_within {s : State} {peer : Hlc} {wall : Int64} {n : ℕ}
    (hlocal : s.wall = wall → s.counter.toNat ≤ n) (hpeer : peer.wall = wall → peer.counter.toNat ≤ n) :
    CounterWithin n (s.mergedCounter peer wall) := by
  unfold State.mergedCounter
  by_cases hboth : wall = s.wall ∧ wall = peer.wall
  · rw [if_pos hboth]
    apply nextCounter_within
    have hs := hlocal hboth.1.symm
    have hp := hpeer hboth.2.symm
    rw [FixedWidth.toNat_maxU32]
    omega
  · rw [if_neg hboth]
    by_cases hs : wall = s.wall
    · rw [if_pos hs]
      exact nextCounter_within (hlocal hs.symm)
    · rw [if_neg hs]
      by_cases hp : wall = peer.wall
      · rw [if_pos hp]
        exact nextCounter_within (hpeer hp.symm)
      · rw [if_neg hp]
        exact Nat.zero_le _

/-- What a call answers where `done` stamps have been minted at each wall time. -/
def AnswerWithin (done : Int64 → ℕ) : Except HlcError Hlc → Prop
  | .ok stamp => stamp.counter.toNat ≤ done stamp.wall + 1
  | .error .counterOverflow => ∃ wall, 2 ^ 32 - 1 ≤ done wall
  | .error (.peerTooFarAhead _ _) => True

theorem HlcClock.now_within {c : HlcClock} {physical : Int64} {done : Int64 → ℕ}
    (hclock : c.state.counter.toNat ≤ done c.state.wall) : AnswerWithin done (c.now physical).1 := by
  have hwithin : CounterWithin (done (max c.state.wall physical))
      (c.state.localCounter (max c.state.wall physical)) :=
    State.localCounter_within fun hwall => by rw [← hwall]; exact hclock
  unfold HlcClock.now
  cases hcounter : c.state.localCounter (max c.state.wall physical) with
  | ok counter =>
      rw [hcounter] at hwithin
      simp only [hcounter]
      exact hwithin
  | error e =>
      rw [hcounter] at hwithin
      have herror := hcounter
      unfold State.localCounter at herror
      split at herror
      · cases nextCounter_eq_error herror
        simp only [hcounter]
        exact ⟨_, hwithin⟩
      · cases herror

theorem HlcClock.observe_within {c : HlcClock} {physical : Int64} {peer : Hlc} {done : Int64 → ℕ}
    (hclock : c.state.counter.toNat ≤ done c.state.wall) (hpeer : peer.counter.toNat ≤ done peer.wall) :
    AnswerWithin done (c.observe physical peer).1 := by
  unfold HlcClock.observe
  by_cases hfence : aheadMicros peer physical > c.maxOffsetMicros
  · rw [if_pos hfence]
    trivial
  · rw [if_neg hfence]
    unfold HlcClock.merge
    have hwithin : CounterWithin
        (done (max (max (c.state.measured (aheadMicros peer physical)).wall peer.wall) physical))
        ((c.state.measured (aheadMicros peer physical)).mergedCounter peer
          (max (max (c.state.measured (aheadMicros peer physical)).wall peer.wall) physical)) := by
      apply State.mergedCounter_within
      · intro hwall
        rw [← hwall]
        exact hclock
      · intro hwall
        rw [← hwall]
        exact hpeer
    cases hcounter : (c.state.measured (aheadMicros peer physical)).mergedCounter peer
        (max (max (c.state.measured (aheadMicros peer physical)).wall peer.wall) physical) with
    | ok counter =>
        rw [hcounter] at hwithin
        simp only [hcounter]
        exact hwithin
    | error e =>
        rw [hcounter] at hwithin
        cases State.mergedCounter_eq_error hcounter
        simp only [hcounter]
        exact ⟨_, hwithin⟩

/-- **A call counts from the clock or from the stamp it received.** -/
theorem HlcClock.call_within {c : HlcClock} {k : Call} {done : Int64 → ℕ}
    (hclock : c.state.counter.toNat ≤ done c.state.wall)
    (hpeer : ∀ peer, k.peer = some peer → peer.counter.toNat ≤ done peer.wall) :
    AnswerWithin done (c.call k).1 := by
  cases k with
  | now physical => exact HlcClock.now_within hclock
  | observe physical peer => exact HlcClock.observe_within hclock (hpeer peer rfl)

/-! ## Runs

The bound is kept by every step, since the log grows by the stamp that the step mints. -/

/-- No clock, and no stamp when it was minted, is ahead of the work done at its wall time. -/
structure System.Counted (s : System ι) : Prop where
  clocks : ∀ i, (s.clocks i).state.counter.toNat ≤ work s.log (s.clocks i).state.wall
  stamps : ∀ past e, past ++ [e] <+: s.log → e.stamp.counter.toNat ≤ work (past ++ [e]) e.stamp.wall

/-- A stamp in the log is not ahead of the work done since either. -/
theorem System.Counted.minted {s : System ι} (h : s.Counted) {e : Event ι Hlc} (he : e ∈ s.log) :
    e.stamp.counter.toNat ≤ work s.log e.stamp.wall := by
  obtain ⟨past, later, hlog⟩ := List.append_of_mem he
  have hpre : past ++ [e] <+: s.log := ⟨later, by rw [hlog, List.append_assoc]; rfl⟩
  exact (h.stamps past e hpre).trans (work_mono hpre _)

/-- What a call answers in such a state. -/
theorem System.Counted.answerWithin {s : System ι} (hs : s.Counted) {a : Action ι} (hminted : s.Minted a) :
    AnswerWithin (work s.log) ((s.clocks a.node).call a.call).1 := by
  refine HlcClock.call_within (hs.clocks a.node) ?_
  intro peer hpeer
  obtain ⟨e, he, rfl⟩ := hminted peer hpeer
  exact hs.minted he

theorem System.Initial.counted {s : System ι} (h : s.Initial) : s.Counted := by
  constructor
  · intro i
    obtain ⟨node, physical, maxOffset, hclock⟩ := h.fresh i
    rw [hclock]
    exact Nat.zero_le _
  · intro past e hpre
    rw [h.log] at hpre
    have := List.prefix_nil.mp hpre
    simp at this

/-- The stamps at one wall time are all different. -/
theorem System.Ordered.stampsAt_nodup {s : System ι} (h : s.Ordered) (wall : Int64) :
    (stampsAt s.log wall).Nodup := by
  refine List.Nodup.filter _ (h.clock.stamps_nodup ?_)
  intro e he f hf heq
  apply h.distinct
  show (s.clocks e.node).node = (s.clocks f.node).node
  rw [← h.origin e he, ← h.origin f hf, heq]

variable [DecidableEq ι]

/-- **One call keeps counters within the work done.** -/
theorem System.Counted.next {s : System ι} (hs : s.Counted) (a : Action ι) (hminted : s.Minted a) :
    (s.next a).Counted := by
  have hanswer := hs.answerWithin hminted
  cases h : (s.clocks a.node).call a.call with
  | mk result c' =>
      cases result with
      | error e =>
          have hlog := System.next_log_error h
          obtain ⟨-, hwall, hcounter⟩ := HlcClock.call_error h
          refine ⟨fun i => ?_, by rw [hlog]; exact hs.stamps⟩
          rw [hlog]
          by_cases hi : i = a.node
          · subst hi
            rw [System.next_clock_self h, hwall, hcounter]
            exact hs.clocks a.node
          · rw [System.next_clock_other s hi]
            exact hs.clocks i
      | ok stamp =>
          rw [h] at hanswer
          obtain ⟨hadv, -⟩ := HlcClock.call_ok h
          have hlog := System.next_log_ok h
          have hdone : stamp.counter.toNat ≤ work (s.next a).log stamp.wall := by
            rw [hlog, work_concat_self s.log ⟨a.node, a.call.peer, stamp⟩]
            exact hanswer
          constructor
          · intro i
            by_cases hi : i = a.node
            · -- the clock stands at the stamp it has just minted
              subst hi
              have hkey := Prod.mk.inj (toLex_inj.mp hadv.key)
              rw [System.next_clock_self h, hkey.2, Int64.toInt_inj.mp hkey.1]
              exact hdone
            · rw [System.next_clock_other s hi, hlog]
              exact (hs.clocks i).trans (work_le_append _ _ _)
          · intro past e hpre
            rw [hlog, List.prefix_concat_iff] at hpre
            rcases hpre with heq | hpre
            · obtain ⟨rfl, hlast⟩ := List.append_inj' heq rfl
              cases hlast
              rw [← hlog]
              exact hdone
            · exact hs.stamps past e hpre

theorem System.Counted.reach {s : System ι}
    (h : Reach System.Initial System.Minted System.next s) : s.Counted :=
  h.invariant (fun _ => System.Initial.counted) fun _ a hs hminted => hs.next a hminted

/-- **Counters are bounded by real work.** Every stamp's counter is at most the number of stamps with its
wall time that were minted up to and including it; so a call overflows its counter only when
`2 ^ 32 - 1` different stamps with one and the same wall time exist. -/
theorem run_counters_bounded {s : System ι}
    (h : Reach System.Initial System.Minted System.next s) :
    (∀ past e, past ++ [e] <+: s.log →
      e.stamp.counter.toNat ≤ work (past ++ [e]) e.stamp.wall) ∧
    ∀ a, s.Minted a → ((s.clocks a.node).call a.call).1 = .error .counterOverflow →
      ∃ wall, (stampsAt s.log wall).Nodup ∧ 2 ^ 32 - 1 ≤ (stampsAt s.log wall).length := by
  have hs := System.Counted.reach h
  refine ⟨hs.stamps, ?_⟩
  intro a hminted hoverflow
  have hanswer := hs.answerWithin hminted
  rw [hoverflow] at hanswer
  obtain ⟨wall, hwall⟩ := hanswer
  exact ⟨wall, (System.Ordered.reach h).stampsAt_nodup wall, hwall⟩

theorem run_counters_bounded_twoNodes :
    (2 : ℕ) ≤ work twoNodesRun.log 7 ∧ work twoNodesRun.log 7 = 3 := by
  have hbound := (run_counters_bounded twoNodesRun_reach).1
    [⟨true, none, ⟨7, 0, 1⟩⟩, ⟨false, some ⟨7, 0, 1⟩, ⟨7, 1, 2⟩⟩] ⟨false, none, ⟨7, 2, 2⟩⟩
    ⟨[], by decide⟩
  exact ⟨hbound, by decide⟩

end Krabka.HybridClock
