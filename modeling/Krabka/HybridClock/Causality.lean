import Krabka.HybridClock.Clock
import Krabka.Lib.Causality
import Krabka.Lib.Transition

/-!
# `HybridClock.Causality` — the order that the stamps give

Any number of nodes each run a clock. A node may call `now` at any moment, and may `observe` any stamp
that was ever minted: a stamp in the log can be received late, out of order, many times or never. Physical
readings are arbitrary, so a clock of the host may stand still or jump back. `Ordered` is what every run
keeps; that the stamps order causes before effects is then the rule for logical clocks.
-/

namespace Krabka.HybridClock

open Causality Transition

/-- Wall time, then counter. -/
def Hlc.key (s : Hlc) : ℤ ×ₗ ℕ := toLex (s.wall.toInt, s.counter.toNat)

def HlcClock.key (c : HlcClock) : ℤ ×ₗ ℕ := toLex (c.state.wall.toInt, c.state.counter.toNat)

/-! ## One call

Whatever a call mints is above the clock before it and above the stamp that it was given. -/

/-- A later wall time, or the same one with a higher counter. -/
theorem key_lt_of_le {w w' : Int64} {n n' : UInt32} (hle : w.toInt ≤ w'.toInt)
    (hsame : w' = w → n.toNat < n'.toNat) :
    (toLex (w.toInt, n.toNat) : ℤ ×ₗ ℕ) < toLex (w'.toInt, n'.toNat) := by
  rw [Prod.Lex.toLex_lt_toLex]
  by_cases h : w' = w
  · exact Or.inr ⟨by rw [h], hsame h⟩
  · have hne : w'.toInt ≠ w.toInt := fun hc => h (Int64.toInt_inj.mp hc)
    exact Or.inl (by show w.toInt < w'.toInt; omega)

/-- What a successful call did to the clock `c`. -/
structure HlcClock.Advanced (c c' : HlcClock) (stamp : Hlc) : Prop where
  node : c'.node = c.node
  stampNode : stamp.node = c.node
  key : c'.key = stamp.key
  lt : c.key < stamp.key

/-- **A successful call mints a stamp above the clock and above the stamp it received.** -/
theorem HlcClock.call_ok {c c' : HlcClock} {k : Call} {stamp : Hlc}
    (h : c.call k = (.ok stamp, c')) :
    c.Advanced c' stamp ∧ ∀ peer, k.peer = some peer → peer.key < stamp.key := by
  cases k with
  | now physical =>
      refine ⟨?_, fun peer hpeer => by cases hpeer⟩
      rcases c.now_cases physical with ⟨counter, heq, hcounter⟩ | heq
      · cases heq.symm.trans h
        refine ⟨rfl, rfl, rfl, key_lt_of_le ?_ hcounter⟩
        rw [FixedWidth.toInt_maxI64]
        omega
      · cases heq.symm.trans h
  | observe physical peer =>
      rcases c.observe_cases physical peer with ⟨-, heq⟩ | ⟨-, heq⟩ |
        ⟨-, counter, advances, heq, hlocal, hpeer⟩
      · cases heq.symm.trans h
      · cases heq.symm.trans h
      · cases heq.symm.trans h
        constructor
        · refine ⟨rfl, rfl, rfl, key_lt_of_le ?_ hlocal⟩
          rw [FixedWidth.toInt_maxI64, FixedWidth.toInt_maxI64]
          omega
        · rintro p ⟨⟩
          refine key_lt_of_le ?_ hpeer
          rw [FixedWidth.toInt_maxI64, FixedWidth.toInt_maxI64]
          omega

/-- **A failed call leaves wall time and counter alone.** -/
theorem HlcClock.call_error {c c' : HlcClock} {k : Call} {e : HlcError}
    (h : c.call k = (.error e, c')) :
    c'.node = c.node ∧ c'.state.wall = c.state.wall ∧ c'.state.counter = c.state.counter := by
  cases k with
  | now physical =>
      rcases c.now_cases physical with ⟨counter, heq, -⟩ | heq
      · cases heq.symm.trans h
      · cases heq.symm.trans h
        exact ⟨rfl, rfl, rfl⟩
  | observe physical peer =>
      rcases c.observe_cases physical peer with ⟨-, heq⟩ | ⟨-, heq⟩ | ⟨-, counter, advances, heq, -, -⟩
      · cases heq.symm.trans h
        exact ⟨rfl, rfl, rfl⟩
      · cases heq.symm.trans h
        exact ⟨rfl, rfl, rfl⟩
      · cases heq.symm.trans h

/-! ## The nodes together

The step lemma is about the node that acts; all other nodes stay as they are. -/

variable {ι : Type}

/-- The clocks of all nodes, and every stamp minted so far, in order. -/
structure System (ι : Type) where
  clocks : ι → HlcClock
  log : List (Event ι Hlc)

structure Action (ι : Type) where
  node : ι
  call : Call

/-- Fresh clocks with distinct node ids. -/
structure System.Initial (s : System ι) : Prop where
  fresh : ∀ i, ∃ node physical maxOffset, s.clocks i = .withMaxOffset node physical maxOffset
  distinct : Function.Injective fun i => (s.clocks i).node
  log : s.log = []

/-- A call receives a stamp that some node minted. -/
def System.Minted (s : System ι) (a : Action ι) : Prop :=
  ∀ peer, a.call.peer = some peer → ∃ e ∈ s.log, e.stamp = peer

def System.next [DecidableEq ι] (s : System ι) (a : Action ι) : System ι where
  clocks := Function.update s.clocks a.node ((s.clocks a.node).call a.call).2
  log :=
    match ((s.clocks a.node).call a.call).1 with
    | .ok stamp => s.log ++ [⟨a.node, a.call.peer, stamp⟩]
    | .error _ => s.log

/-- What every run keeps. -/
structure System.Ordered (s : System ι) : Prop where
  distinct : Function.Injective fun i => (s.clocks i).node
  clock : ClockCondition Hlc.key s.log
  /-- A stamp names the node that minted it. -/
  origin : ∀ e ∈ s.log, e.stamp.node = (s.clocks e.node).node
  /-- No clock falls behind a stamp it minted. -/
  past : ∀ e ∈ s.log, e.stamp.key ≤ (s.clocks e.node).key

/-- A system that did nothing is ordered. -/
theorem System.Initial.ordered {s : System ι} (h : s.Initial) : s.Ordered := by
  have hnil : ∀ e, e ∉ s.log := by
    intro e he
    rw [h.log] at he
    exact List.not_mem_nil he
  refine ⟨h.distinct, ?_, fun e he => absurd he (hnil e), fun e he => absurd he (hnil e)⟩
  rw [h.log]
  exact ClockCondition.nil

variable [DecidableEq ι]

section
variable {s : System ι} {a : Action ι} {c' : HlcClock}

/-- A call that succeeds is logged with its stamp. -/
theorem System.next_log_ok {stamp : Hlc} (h : (s.clocks a.node).call a.call = (.ok stamp, c')) :
    (s.next a).log = s.log ++ [⟨a.node, a.call.peer, stamp⟩] := by
  simp only [System.next, h]

/-- A call that fails is not logged. -/
theorem System.next_log_error {e : HlcError} (h : (s.clocks a.node).call a.call = (.error e, c')) :
    (s.next a).log = s.log := by
  simp only [System.next, h]

/-- The clock of the node that acts is the one that moves. -/
theorem System.next_clock_self {result : Except HlcError Hlc}
    (h : (s.clocks a.node).call a.call = (result, c')) : (s.next a).clocks a.node = c' := by
  cases result <;> simp only [System.next, h, Function.update_self]

/-- No other clock moves. -/
theorem System.next_clock_other (s : System ι) {i : ι} (hi : i ≠ a.node) :
    (s.next a).clocks i = s.clocks i := by
  simp only [System.next, Function.update_of_ne hi]

end

/-- A call changes neither the node id nor another clock, and no clock goes back. -/
theorem System.next_clocks (s : System ι) (a : Action ι) (i : ι) :
    ((s.next a).clocks i).node = (s.clocks i).node ∧
      (s.clocks i).key ≤ ((s.next a).clocks i).key := by
  by_cases hi : i = a.node
  · subst hi
    cases h : (s.clocks a.node).call a.call with
    | mk result c' =>
        rw [System.next_clock_self h]
        cases result with
        | ok stamp =>
            obtain ⟨hadv, -⟩ := HlcClock.call_ok h
            refine ⟨hadv.node, ?_⟩
            rw [hadv.key]
            exact hadv.lt.le
        | error e =>
            obtain ⟨hnode, hwall, hcounter⟩ := HlcClock.call_error h
            refine ⟨hnode, ?_⟩
            rw [HlcClock.key, HlcClock.key, hwall, hcounter]
  · rw [System.next_clock_other s hi]
    exact ⟨rfl, le_rfl⟩

/-- **One call keeps the order**, whether the stamp it receives was minted or forged. -/
theorem System.Ordered.next {s : System ι} (hs : s.Ordered) (a : Action ι) : (s.next a).Ordered := by
  have hnode : ∀ i, ((s.next a).clocks i).node = (s.clocks i).node := fun i => (s.next_clocks a i).1
  have hold : ∀ e ∈ s.log, e.stamp.node = ((s.next a).clocks e.node).node ∧
      e.stamp.key ≤ ((s.next a).clocks e.node).key := by
    intro e he
    rw [hnode]
    exact ⟨hs.origin e he, (hs.past e he).trans (s.next_clocks a e.node).2⟩
  have hdistinct : Function.Injective fun i => ((s.next a).clocks i).node := by
    simp only [hnode]
    exact hs.distinct
  cases h : (s.clocks a.node).call a.call with
  | mk result c' =>
      cases result with
      | error e =>
          have hlog := System.next_log_error h
          refine ⟨hdistinct, ?_, ?_, ?_⟩
          · rw [hlog]
            exact hs.clock
          · rw [hlog]
            exact fun e he => (hold e he).1
          · rw [hlog]
            exact fun e he => (hold e he).2
      | ok stamp =>
          obtain ⟨hadv, hpeer⟩ := HlcClock.call_ok h
          have hlog := System.next_log_ok h
          have hclock := System.next_clock_self h
          refine ⟨hdistinct, ?_, ?_, ?_⟩
          · rw [hlog]
            refine hs.clock.concat ?_ hpeer
            intro e he hsame
            have hle := hs.past e he
            rw [hsame] at hle
            exact hle.trans_lt hadv.lt
          · rw [hlog]
            intro e he
            rcases List.mem_append.mp he with he | he
            · exact (hold e he).1
            · cases List.mem_singleton.mp he
              rw [hnode]
              exact hadv.stampNode
          · rw [hlog]
            intro e he
            rcases List.mem_append.mp he with he | he
            · exact (hold e he).2
            · cases List.mem_singleton.mp he
              rw [hclock]
              exact hadv.key.ge

/-- **Every run is ordered.** -/
theorem System.Ordered.reach {s : System ι}
    (h : Reach System.Initial System.Minted System.next s) : s.Ordered :=
  h.invariant (fun _ => System.Initial.ordered) (fun _ a hs _ => hs.next a)

/-- **Hybrid clocks order every run.** Each node's stamps go up, causes have smaller stamps than their
effects, no stamp is minted twice, and a failed call does not move its clock. -/
theorem run_ordered {s : System ι} (h : Reach System.Initial System.Minted System.next s) :
    (s.log.Pairwise fun e f => e.node = f.node → e.stamp.key < f.stamp.key) ∧
    (∀ e f, HappensBefore s.log e f → e.stamp.key < f.stamp.key) ∧
    (s.log.map Event.stamp).Nodup ∧
    ∀ i k error, ((s.clocks i).call k).1 = .error error →
      ((s.clocks i).call k).2.state.wall = (s.clocks i).state.wall ∧
        ((s.clocks i).call k).2.state.counter = (s.clocks i).state.counter := by
  have hs := System.Ordered.reach h
  refine ⟨hs.clock.sameNode, fun e f => hs.clock.lt_of_happensBefore, ?_, ?_⟩
  · refine hs.clock.stamps_nodup ?_
    intro e he f hf heq
    apply hs.distinct
    show (s.clocks e.node).node = (s.clocks f.node).node
    rw [← hs.origin e he, ← hs.origin f hf, heq]
  · intro i k error herr
    exact (HlcClock.call_error (Prod.ext herr rfl)).2

/-- Two nodes; the second observes a stamp that is ahead of its own physical clock, then mints one. -/
def twoNodes : System Bool :=
  ⟨fun i => if i then .withMaxOffset 1 5 10 else .withMaxOffset 2 0 10, []⟩

def twoNodesRun : System Bool :=
  ((twoNodes.next ⟨true, .now 7⟩).next ⟨false, .observe 2 ⟨7, 0, 1⟩⟩).next ⟨false, .now 3⟩

/-- The stamp that the second node observes was minted by the first. -/
theorem twoNodesRun_reach : Reach System.Initial System.Minted System.next twoNodesRun := by
  have hinit : System.Initial twoNodes := by
    refine ⟨fun i => ?_, by decide, rfl⟩
    cases i with
    | true => exact ⟨1, 5, 10, rfl⟩
    | false => exact ⟨2, 0, 10, rfl⟩
  refine .step (.step (.step (.init hinit) ?_) ?_) ?_
  · rintro peer ⟨⟩
  · rintro peer ⟨⟩
    exact ⟨⟨true, none, ⟨7, 0, 1⟩⟩, by decide, rfl⟩
  · rintro peer ⟨⟩

theorem run_ordered_twoNodes :
    twoNodesRun.log.map Event.stamp = [⟨7, 0, 1⟩, ⟨7, 1, 2⟩, ⟨7, 2, 2⟩] ∧
      HappensBefore twoNodesRun.log ⟨true, none, ⟨7, 0, 1⟩⟩ ⟨false, none, ⟨7, 2, 2⟩⟩ ∧
      (⟨7, 0, 1⟩ : Hlc).key < (⟨7, 2, 2⟩ : Hlc).key := by
  have hlog : twoNodesRun.log = [⟨true, none, ⟨7, 0, 1⟩⟩, ⟨false, some ⟨7, 0, 1⟩, ⟨7, 1, 2⟩⟩,
      ⟨false, none, ⟨7, 2, 2⟩⟩] := by decide
  have hbefore : HappensBefore twoNodesRun.log ⟨true, none, ⟨7, 0, 1⟩⟩
      ⟨false, none, ⟨7, 2, 2⟩⟩ := by
    rw [hlog]
    refine .tail (.single (.received (f := ⟨false, some ⟨7, 0, 1⟩, ⟨7, 1, 2⟩⟩) ?_ ?_ rfl))
      (.sameNode ?_ rfl)
    · simp
    · simp
    · exact List.sublist_cons_self _ _
  exact ⟨by rw [hlog]; rfl, hbefore, (run_ordered twoNodesRun_reach).2.1 _ _ hbefore⟩

end Krabka.HybridClock
