import Krabka.Lib.FixedWidth

/-!
# `HybridClock.Clock` — the hybrid logical clock

`HlcClock` of the `krabka-hlc` crate. A clock reads its physical clock once per call, so a call takes that
reading as an argument; the mutex makes a call atomic, so it is a function from clock to clock.

## Contents
- **Model.** `HlcClock.now` and `HlcClock.observe`, each with the clock as it leaves it.
- **What a call can do.** `now_cases` and `observe_cases` list every outcome with the clock after it.
-/

namespace Krabka.HybridClock

open FixedWidth

abbrev NodeId := UInt64

/-- A stamp: wall time in microseconds, logical counter and the node that minted it. -/
structure Hlc where
  wall : Int64
  counter : UInt32
  node : NodeId
deriving DecidableEq, Repr

inductive HlcError where
  | peerTooFarAhead (aheadMicros maxMicros : Int64)
  | counterOverflow
deriving DecidableEq, Repr

/-- The mutable part of a clock. -/
structure State where
  wall : Int64
  counter : UInt32
  peerAdvances : UInt64
  refusals : UInt64
  maxPeerAheadMicros : Int64
deriving DecidableEq, Repr

structure HlcClock where
  node : NodeId
  maxOffsetMicros : Int64
  state : State
deriving DecidableEq, Repr

/-- A clock created at the reading `physical`; `maxOffset` is in microseconds. -/
def HlcClock.withMaxOffset (node : NodeId) (physical maxOffset : Int64) : HlcClock where
  node := node
  maxOffsetMicros := max maxOffset 0
  state :=
    { wall := physical
      counter := 0
      peerAdvances := 0
      refusals := 0
      maxPeerAheadMicros := 0 }

def nextCounter (counter : UInt32) : Except HlcError UInt32 :=
  if counter.toNat + 1 < 2 ^ 32 then .ok (counter + 1) else .error .counterOverflow

/-- The counter of a local event at the new wall time `wall`. -/
def State.localCounter (s : State) (wall : Int64) : Except HlcError UInt32 :=
  if wall = s.wall then nextCounter s.counter else .ok 0

/-- The counter of a receive event at the new wall time `wall`. -/
def State.mergedCounter (s : State) (peer : Hlc) (wall : Int64) : Except HlcError UInt32 :=
  if wall = s.wall ∧ wall = peer.wall then nextCounter (max s.counter peer.counter)
  else if wall = s.wall then nextCounter s.counter
  else if wall = peer.wall then nextCounter peer.counter
  else .ok 0

def HlcClock.now (c : HlcClock) (physical : Int64) : Except HlcError Hlc × HlcClock :=
  let wall := max c.state.wall physical
  match c.state.localCounter wall with
  | .error e => (.error e, c)
  | .ok counter =>
      (.ok ⟨wall, counter, c.node⟩, { c with state := { c.state with wall := wall, counter := counter } })

/-- The stamp a peer sent is so far ahead of the reading `physical`. -/
def aheadMicros (peer : Hlc) (physical : Int64) : Int64 := saturatingSubI64 peer.wall physical

/-- The state after a received stamp has been measured. -/
def State.measured (s : State) (ahead : Int64) : State :=
  { s with maxPeerAheadMicros := max s.maxPeerAheadMicros ahead }

/-- The merge of a stamp that passed the fence. -/
def HlcClock.merge (c : HlcClock) (physical : Int64) (peer : Hlc) : Except HlcError Hlc × HlcClock :=
  let localWall := c.state.wall
  let wall := max (max localWall peer.wall) physical
  match c.state.mergedCounter peer wall with
  | .error e => (.error e, c)
  | .ok counter =>
      let advances :=
        if peer.wall > localWall ∧ peer.wall > physical then saturatingAddU64 c.state.peerAdvances 1
        else c.state.peerAdvances
      (.ok ⟨wall, counter, c.node⟩,
        { c with
          state := { c.state with wall := wall, counter := counter, peerAdvances := advances } })

def HlcClock.observe (c : HlcClock) (physical : Int64) (peer : Hlc) : Except HlcError Hlc × HlcClock :=
  let ahead := aheadMicros peer physical
  let state := c.state.measured ahead
  if ahead > c.maxOffsetMicros then
    (.error (.peerTooFarAhead ahead c.maxOffsetMicros),
      { c with state := { state with refusals := saturatingAddU64 state.refusals 1 } })
  else HlcClock.merge { c with state := state } physical peer

/-- What a clock reports; `fromMicros` is the conversion to a time extent. -/
structure ClockObservation (τ : Type) where
  drift : τ
  peerAdvances : UInt64
  refusals : UInt64
  maxPeerAhead : τ

def HlcClock.observation {τ : Type} (fromMicros : Int64 → τ) (c : HlcClock) (physical : Int64) :
    ClockObservation τ where
  drift := fromMicros (saturatingSubI64 c.state.wall physical)
  peerAdvances := c.state.peerAdvances
  refusals := c.state.refusals
  maxPeerAhead := fromMicros c.state.maxPeerAheadMicros

/-! ## Calls

The two calls as one, with the reading and the peer that they take. -/

/-- A call to a clock, with the reading it takes. -/
inductive Call where
  | now (physical : Int64)
  | observe (physical : Int64) (peer : Hlc)
deriving DecidableEq, Repr

def Call.physical : Call → Int64
  | .now physical => physical
  | .observe physical _ => physical

/-- The stamp that the call hands in. -/
def Call.peer : Call → Option Hlc
  | .now _ => none
  | .observe _ peer => some peer

def HlcClock.call (c : HlcClock) : Call → Except HlcError Hlc × HlcClock
  | .now physical => c.now physical
  | .observe physical peer => c.observe physical peer

/-! ## What a call can do

A call takes the greatest of the wall times that it sees, and counts up where that is not the reading alone.
-/

/-- The next counter is one more. -/
theorem nextCounter_eq_ok {n m : UInt32} (h : nextCounter n = .ok m) : m.toNat = n.toNat + 1 := by
  unfold nextCounter at h
  split at h
  · rename_i hlt
    cases h
    rw [UInt32.toNat_add]
    exact Nat.mod_eq_of_lt hlt
  · cases h

/-- It fails for an overflow only. -/
theorem nextCounter_eq_error {n : UInt32} {e : HlcError} (h : nextCounter n = .error e) :
    e = .counterOverflow := by
  unfold nextCounter at h
  split at h
  · cases h
  · exact (Except.error.inj h).symm

/-- A local event stays at the wall time with a higher counter, or moves to a later wall time; or its
counter overflows. -/
theorem HlcClock.now_cases (c : HlcClock) (physical : Int64) :
    (∃ counter : UInt32,
      c.now physical = (.ok ⟨max c.state.wall physical, counter, c.node⟩,
        { c with state := { c.state with wall := max c.state.wall physical, counter := counter } }) ∧
      (max c.state.wall physical = c.state.wall → c.state.counter.toNat < counter.toNat)) ∨
    c.now physical = (.error .counterOverflow, c) := by
  unfold HlcClock.now
  cases hcounter : c.state.localCounter (max c.state.wall physical) with
  | error e =>
      have h := hcounter
      unfold State.localCounter at h
      split at h
      · cases nextCounter_eq_error h
        exact Or.inr (by simp only [hcounter])
      · cases h
  | ok counter =>
      refine Or.inl ⟨counter, by simp only [hcounter], fun hwall => ?_⟩
      unfold State.localCounter at hcounter
      rw [if_pos hwall] at hcounter
      have := nextCounter_eq_ok hcounter
      omega

/-- A merged counter is above those of the times it ties with. -/
theorem State.mergedCounter_eq_ok {s : State} {peer : Hlc} {wall : Int64} {counter : UInt32}
    (h : s.mergedCounter peer wall = .ok counter) :
    (wall = s.wall → s.counter.toNat < counter.toNat) ∧
    (wall = peer.wall → peer.counter.toNat < counter.toNat) := by
  unfold State.mergedCounter at h
  split at h
  · -- local clock and peer supply the wall time together
    have := nextCounter_eq_ok h
    rw [toNat_maxU32] at this
    exact ⟨fun _ => by omega, fun _ => by omega⟩
  · rename_i htie
    split at h
    · rename_i hlocal
      have := nextCounter_eq_ok h
      exact ⟨fun _ => by omega, fun hpeer => absurd ⟨hlocal, hpeer⟩ htie⟩
    · rename_i hlocal
      split at h
      · have := nextCounter_eq_ok h
        exact ⟨fun hl => absurd hl hlocal, fun _ => by omega⟩
      · rename_i hpeer
        exact ⟨fun hl => absurd hl hlocal, fun hp => absurd hp hpeer⟩

/-- It fails for an overflow only. -/
theorem State.mergedCounter_eq_error {s : State} {peer : Hlc} {wall : Int64} {e : HlcError}
    (h : s.mergedCounter peer wall = .error e) : e = .counterOverflow := by
  unfold State.mergedCounter at h
  split at h
  · exact nextCounter_eq_error h
  · split at h
    · exact nextCounter_eq_error h
    · split at h
      · exact nextCounter_eq_error h
      · cases h

/-- What a clock is after it has refused a stamp. -/
def HlcClock.refused (c : HlcClock) (ahead : Int64) : HlcClock :=
  { c with
    state := { c.state.measured ahead with refusals := saturatingAddU64 c.state.refusals 1 } }

/-- A received stamp is refused by the fence, overflows the counter, or is merged above both clocks. -/
theorem HlcClock.observe_cases (c : HlcClock) (physical : Int64) (peer : Hlc) :
    (c.maxOffsetMicros < aheadMicros peer physical ∧
      c.observe physical peer =
        (.error (.peerTooFarAhead (aheadMicros peer physical) c.maxOffsetMicros),
          c.refused (aheadMicros peer physical))) ∨
    (¬c.maxOffsetMicros < aheadMicros peer physical ∧
      c.observe physical peer =
        (.error .counterOverflow, { c with state := c.state.measured (aheadMicros peer physical) })) ∨
    (¬c.maxOffsetMicros < aheadMicros peer physical ∧ ∃ (counter : UInt32) (advances : UInt64),
      c.observe physical peer =
        (.ok ⟨max (max c.state.wall peer.wall) physical, counter, c.node⟩,
          { c with
            state :=
              { c.state.measured (aheadMicros peer physical) with
                wall := max (max c.state.wall peer.wall) physical
                counter := counter
                peerAdvances := advances } }) ∧
      (max (max c.state.wall peer.wall) physical = c.state.wall →
        c.state.counter.toNat < counter.toNat) ∧
      (max (max c.state.wall peer.wall) physical = peer.wall →
        peer.counter.toNat < counter.toNat)) := by
  unfold HlcClock.observe
  by_cases hfence : aheadMicros peer physical > c.maxOffsetMicros
  · rw [if_pos hfence]
    exact Or.inl ⟨hfence, rfl⟩
  · rw [if_neg hfence]
    refine Or.inr ?_
    unfold HlcClock.merge
    cases h : (c.state.measured (aheadMicros peer physical)).mergedCounter peer
        (max (max (c.state.measured (aheadMicros peer physical)).wall peer.wall) physical) with
    | error e =>
        cases State.mergedCounter_eq_error h
        exact Or.inl ⟨hfence, by simp only [h]⟩
    | ok counter =>
        refine Or.inr ⟨hfence, counter, _, by simp only [h]; rfl, ?_⟩
        exact State.mergedCounter_eq_ok h

end Krabka.HybridClock
