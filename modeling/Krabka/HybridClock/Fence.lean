import Krabka.HybridClock.Clock

/-!
# `HybridClock.Fence` — how far peers can push a clock

One clock over any sequence of calls, with peers that may send anything. The fence compares a saturated
lead, but no lead above an offset below `i64::MAX` is lost to saturation (`lt_aheadMicros_iff`), so an
accepted stamp is within the offset of a reading the node took itself. `Tracks` carries the bound and the
two counters from call to call.
-/

namespace Krabka.HybridClock

open FixedWidth

/-! ## Runs of one clock

What was asked, what was answered, and the highest reading so far. -/

/-- The clock after the calls `ks`. -/
def HlcClock.run (c : HlcClock) : List Call → HlcClock
  | [] => c
  | k :: ks => HlcClock.run (c.call k).2 ks

/-- What the calls `ks` returned, in order. -/
def HlcClock.results (c : HlcClock) : List Call → List (Except HlcError Hlc)
  | [] => []
  | k :: ks => (c.call k).1 :: HlcClock.results (c.call k).2 ks

/-- The fence refused the call. -/
def isRefusal : Except HlcError Hlc → Bool
  | .error (.peerTooFarAhead _ _) => true
  | _ => false

/-- The largest reading taken since the one at creation. -/
def highestReading (start : ℤ) (ks : List Call) : ℤ :=
  (ks.map fun k => k.physical.toInt).foldl max start

/-- The lead of the stamp that a call received, as far as an `i64` holds it. -/
def Call.lead (k : Call) : ℤ :=
  match k.peer with
  | none => 0
  | some peer => min (peer.wall.toInt - k.physical.toInt) (2 ^ 63 - 1)

/-- The largest positive lead of all received stamps. -/
def maxLead (start : ℤ) (ks : List Call) : ℤ := (ks.map Call.lead).foldl max start

/-! ## The fence

The bound is on the clock against the highest reading; a refused stamp leaves the clock alone. -/

/-- Saturation never carries a lead across an offset that is below `i64::MAX`. -/
theorem lt_aheadMicros_iff {offset physical : Int64} {peer : Hlc} (h0 : 0 ≤ offset.toInt)
    (hmax : offset.toInt < 2 ^ 63 - 1) :
    offset < aheadMicros peer physical ↔ offset.toInt < peer.wall.toInt - physical.toInt := by
  rw [Int64.lt_iff_toInt_lt, aheadMicros, toInt_saturatingSubI64]
  omega

/-- What a run has done to its clock: `highest` is the largest reading, `n` the number of refused stamps
and `lead` the largest lead so far. -/
structure HlcClock.Tracks (c : HlcClock) (offset highest : ℤ) (n : ℕ) (lead : ℤ) : Prop where
  maxOffset : c.maxOffsetMicros.toInt = offset
  nonneg : 0 ≤ offset
  lt_max : offset < 2 ^ 63 - 1
  wall : c.state.wall.toInt ≤ highest + offset
  refusals : c.state.refusals.toNat = min n (2 ^ 64 - 1)
  lead_nonneg : 0 ≤ lead
  maxPeerAhead : c.state.maxPeerAheadMicros.toInt = lead

theorem HlcClock.tracks_withMaxOffset (node : NodeId) (physical maxOffset : Int64)
    (h : maxOffset < Int64.maxValue) :
    (HlcClock.withMaxOffset node physical maxOffset).Tracks (max maxOffset.toInt 0) physical.toInt
      0 0 := by
  rw [Int64.lt_iff_toInt_lt, Int64.toInt_maxValue] at h
  refine ⟨toInt_maxI64 maxOffset 0, le_max_right _ _, max_lt h (by decide), ?_, rfl, le_refl 0, rfl⟩
  show physical.toInt ≤ physical.toInt + max maxOffset.toInt 0
  omega

theorem toInt_measured {s : State} {physical : Int64} {peer : Hlc} {lead : ℤ} (h0 : 0 ≤ lead)
    (h : s.maxPeerAheadMicros.toInt = lead) :
    (s.measured (aheadMicros peer physical)).maxPeerAheadMicros.toInt =
      max lead (Call.observe physical peer).lead := by
  show (max s.maxPeerAheadMicros (aheadMicros peer physical)).toInt =
    max lead (min (peer.wall.toInt - physical.toInt) (2 ^ 63 - 1))
  rw [toInt_maxI64, aheadMicros, toInt_saturatingSubI64, h]
  omega

/-- **One call keeps the bound and the counts.** -/
theorem HlcClock.Tracks.call {c : HlcClock} {offset highest lead : ℤ} {n : ℕ}
    (h : c.Tracks offset highest n lead) (k : Call) :
    (c.call k).2.Tracks offset (max highest k.physical.toInt)
      (n + if isRefusal (c.call k).1 then 1 else 0) (max lead k.lead) := by
  have hwall := h.wall
  have hnonneg := h.nonneg
  cases k with
  | now physical =>
      have hlead : max lead (Call.now physical).lead = lead := max_eq_left h.lead_nonneg
      rw [hlead]
      unfold HlcClock.call Call.physical
      rcases c.now_cases physical with ⟨counter, heq, -⟩ | heq
      · simp only [heq]
        refine ⟨h.maxOffset, h.nonneg, h.lt_max, ?_, h.refusals, h.lead_nonneg, h.maxPeerAhead⟩
        show (max c.state.wall physical).toInt ≤ max highest physical.toInt + offset
        rw [toInt_maxI64]
        omega
      · simp only [heq]
        refine ⟨h.maxOffset, h.nonneg, h.lt_max, ?_, h.refusals, h.lead_nonneg, h.maxPeerAhead⟩
        omega
  | observe physical peer =>
      have hmeasured : (c.state.measured (aheadMicros peer physical)).maxPeerAheadMicros.toInt =
          max lead (Call.observe physical peer).lead := toInt_measured h.lead_nonneg h.maxPeerAhead
      have hlead : 0 ≤ max lead (Call.observe physical peer).lead := le_max_of_le_left h.lead_nonneg
      unfold HlcClock.call Call.physical
      rcases c.observe_cases physical peer with ⟨hfence, heq⟩ | ⟨hfence, heq⟩ |
        ⟨hfence, counter, advances, heq, -, -⟩
      · simp only [heq]
        refine ⟨h.maxOffset, h.nonneg, h.lt_max, ?_, ?_, hlead, hmeasured⟩
        · show c.state.wall.toInt ≤ max highest physical.toInt + offset
          omega
        · show (saturatingAddU64 c.state.refusals 1).toNat = min (n + 1) (2 ^ 64 - 1)
          rw [toNat_saturatingAddU64, h.refusals]
          show min (min n (2 ^ 64 - 1) + 1) (2 ^ 64 - 1) = min (n + 1) (2 ^ 64 - 1)
          omega
      · simp only [heq]
        refine ⟨h.maxOffset, h.nonneg, h.lt_max, ?_, h.refusals, hlead, hmeasured⟩
        show c.state.wall.toInt ≤ max highest physical.toInt + offset
        omega
      · simp only [heq]
        refine ⟨h.maxOffset, h.nonneg, h.lt_max, ?_, h.refusals, hlead, hmeasured⟩
        -- the stamp passed the fence, so it is within the offset of this call's own reading
        rw [lt_aheadMicros_iff (by rw [h.maxOffset]; exact h.nonneg) (by rw [h.maxOffset]; exact h.lt_max),
          h.maxOffset] at hfence
        show (max (max c.state.wall peer.wall) physical).toInt ≤ max highest physical.toInt + offset
        rw [toInt_maxI64, toInt_maxI64]
        omega

/-- **Every run keeps them.** -/
theorem HlcClock.Tracks.run {c : HlcClock} {offset highest lead : ℤ} {n : ℕ}
    (h : c.Tracks offset highest n lead) (ks : List Call) :
    (c.run ks).Tracks offset (highestReading highest ks) (n + (c.results ks).countP isRefusal)
      (maxLead lead ks) := by
  induction ks generalizing c highest n lead with
  | nil => exact h
  | cons k ks ih =>
      have hstep := ih (h.call k)
      rw [Nat.add_assoc, Nat.add_comm (if isRefusal (c.call k).1 then 1 else 0)] at hstep
      rw [HlcClock.results, List.countP_cons]
      exact hstep

theorem HlcClock.refused_observe (c : HlcClock) (physical : Int64) (peer : Hlc) :
    isRefusal (c.observe physical peer).1 = true ↔ c.maxOffsetMicros < aheadMicros peer physical := by
  rcases c.observe_cases physical peer with ⟨hfence, heq⟩ | ⟨hfence, heq⟩ |
    ⟨hfence, counter, advances, heq, -, -⟩
  · rw [heq]
    exact ⟨fun _ => hfence, fun _ => rfl⟩
  · rw [heq]
    exact ⟨fun h => (nomatch h), fun h => absurd h hfence⟩
  · rw [heq]
    exact ⟨fun h => (nomatch h), fun h => absurd h hfence⟩

/-- **The fence contains every peer.** After any calls with any stamps, the wall time is within the offset
of a reading the node took itself; the next stamp is refused exactly when it leads the reading by more
than the offset; and the observation reports how many stamps were refused and the largest lead. -/
theorem fence_contains (node : NodeId) (start maxOffset : Int64) (h : maxOffset < Int64.maxValue)
    (ks : List Call) :
    ((HlcClock.withMaxOffset node start maxOffset).run ks).state.wall.toInt ≤
      highestReading start.toInt ks + max maxOffset.toInt 0 ∧
    (∀ physical peer,
      isRefusal (((HlcClock.withMaxOffset node start maxOffset).run ks).observe physical peer).1 = true ↔
        max maxOffset.toInt 0 < peer.wall.toInt - physical.toInt) ∧
    ∀ (τ : Type) (fromMicros : Int64 → τ) (physical : Int64),
      (((HlcClock.withMaxOffset node start maxOffset).run ks).observation fromMicros
          physical).refusals.toNat =
        min (((HlcClock.withMaxOffset node start maxOffset).results ks).countP isRefusal) (2 ^ 64 - 1) ∧
      ∃ lead : Int64, lead.toInt = maxLead 0 ks ∧
        (((HlcClock.withMaxOffset node start maxOffset).run ks).observation fromMicros
          physical).maxPeerAhead = fromMicros lead := by
  have htracks := (HlcClock.tracks_withMaxOffset node start maxOffset h).run ks
  rw [Nat.zero_add] at htracks
  refine ⟨htracks.wall, ?_, ?_⟩
  · intro physical peer
    have hoffset := htracks.maxOffset
    rw [HlcClock.refused_observe, lt_aheadMicros_iff (by rw [hoffset]; exact htracks.nonneg)
      (by rw [hoffset]; exact htracks.lt_max), hoffset]
  · intro τ fromMicros physical
    exact ⟨htracks.refusals, _, htracks.maxPeerAhead, rfl⟩

/-- A peer within the offset is merged, one at the end of the `i64` range is refused and counted. -/
theorem fence_contains_forged :
    ((HlcClock.withMaxOffset 1 100 50).run [.observe 100 ⟨140, 0, 2⟩,
        .observe 90 ⟨Int64.maxValue, 0, 3⟩]).state.wall.toInt ≤ 100 + 50 ∧
      ((HlcClock.withMaxOffset 1 100 50).run [.observe 100 ⟨140, 0, 2⟩,
        .observe 90 ⟨Int64.maxValue, 0, 3⟩]).state = ⟨140, 1, 1, 1, Int64.maxValue - 90⟩ := by
  refine ⟨?_, by decide⟩
  have h := (fence_contains 1 100 50 (by decide) [.observe 100 ⟨140, 0, 2⟩,
    .observe 90 ⟨Int64.maxValue, 0, 3⟩]).1
  exact h

end Krabka.HybridClock
