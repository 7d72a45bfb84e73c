import Krabka.Metadata.Frame

/-!
# `Metadata.BreakGlass` — concurrent approvals of a break-glass proposal

Any number of clients read a proposal from an image that may be long past, build a record from what they
read and submit it. `apply` replaces the whole stored record, so what keeps a stale submission from
erasing an approval is `validate`, which the controller runs against the image of the moment.

`System` is that protocol: the current image, the images a client may have read, and the submissions in
flight. `System.Step` is one event in any interleaving. The guarantees are about the stretches of a run
between two deletions of a proposal.
-/

namespace Krabka.Metadata

open Collections Transition

/-- The controller takes a submission: it applies the record if `validate` accepts it. -/
def MetadataImage.commitProposal (img : MetadataImage) (p : BreakGlassProposalRecord) :
    MetadataImage :=
  match img.validate (.v1BreakGlassProposal p) with
  | .ok () => img.apply (.v1BreakGlassProposal p)
  | .error _ => img

namespace BreakGlass

/-- A record on its way to the controller, with the image its client read. -/
structure Submission where
  read : MetadataImage
  proposal : BreakGlassProposalRecord

structure System where
  current : MetadataImage
  earlier : List MetadataImage
  inFlight : List Submission

inductive Event where
  | submit (sub : Submission)
  | deliver (sub : Submission)
  | record (r : MetadataRecord)

/-- One event. A submission may be any record built from any image so far, it may be delivered at any
    later time, and records of other kinds commit in between. -/
inductive System.Step : System → Event → System → Prop where
  -- the client may have read any image of the past; nothing ties the record to what it read
  | submit {s : System} {sub : Submission} :
      sub.read ∈ s.current :: s.earlier →
      Step s (.submit sub) { s with inFlight := sub :: s.inFlight }
  -- submissions arrive in any order
  | deliver {s : System} {sub : Submission} {before after : List Submission} :
      s.inFlight = before ++ sub :: after →
      Step s (.deliver sub)
        { current := s.current.commitProposal sub.proposal
          earlier := s.current :: s.earlier
          inFlight := before ++ after }
  | record {s : System} {r : MetadataRecord} :
      (∀ p, r ≠ .v1BreakGlassProposal p) →
      Step s (.record r) { s with current := s.current.apply r, earlier := s.current :: s.earlier }

/-- The controller accepts the submission in this state. -/
def System.Accepts (s : System) (sub : Submission) : Prop :=
  s.current.validate (.v1BreakGlassProposal sub.proposal) = .ok ()

/-- The event does not delete the proposal `id`. -/
def Event.Keeps (id : Uuid) (e : Event) : Prop :=
  e ≠ .record (.v1DeleteBreakGlassProposal id)

/-- A proposal that is consumed or withdrawn. -/
def Settled (r : BreakGlassProposalRecord) : Prop := r.consumedAtMs ≠ 0 ∨ r.withdrawn = true

/-! ## What one event does to one proposal

It leaves the proposal, extends its approvals or settles it. -/

theorem breakGlass_of_frame (img : MetadataImage) {r : MetadataRecord}
    (h : Table.breakGlass ∉ r.kind.writes) : (img.apply r).breakGlass = img.breakGlass :=
  MetadataImage.apply_frame img r h

/-- **Frame.** Only a proposal record and the deletion of `id` change what is stored for `id`. -/
theorem breakGlass_apply_of_other (img : MetadataImage) {id : Uuid} {r : MetadataRecord}
    (hp : ∀ p, r ≠ .v1BreakGlassProposal p) (hd : r ≠ .v1DeleteBreakGlassProposal id) :
    (img.apply r).breakGlass[id]? = img.breakGlass[id]? := by
  cases r with
  | v1BreakGlassProposal p => exact absurd rfl (hp p)
  | v1DeleteBreakGlassProposal id' =>
      have hne : id' ≠ id := fun h => hd (by rw [h])
      show (img.breakGlass.erase id')[id]? = _
      rw [get_erase, if_neg hne]
  -- no other record writes the proposals
  | _ =>
      rw [breakGlass_of_frame img (by simp [MetadataRecord.kind, RecordKind.writes])]

/-- A proposal that `validate` accepts over a stored one extends its approvals, and the stored one is
    open. -/
theorem extends_of_validate {img : MetadataImage} {p stored : BreakGlassProposalRecord}
    (h : img.validate (.v1BreakGlassProposal p) = .ok ())
    (hs : img.breakGlass[p.proposalId]? = some stored) :
    stored.approvals <+: p.approvals ∧ ¬Settled stored := by
  have h : img.validateBreakGlassProposal p = .ok () := h
  unfold MetadataImage.validateBreakGlassProposal at h
  rw [hs] at h
  simp only [] at h
  -- the three refusals of `validate`, in its order
  split at h
  · cases h
  · rename_i hconsumed
    split at h
    · cases h
    · rename_i hwithdrawn
      split at h
      · cases h
      · rename_i hext
        constructor
        · simpa [extendsApprovals] using hext
        · rintro (hc | hw)
          · exact hconsumed hc
          · exact hwithdrawn hw

/-- What a delivery leaves for `id`: the accepted record if it is for `id`, else what was there. -/
theorem breakGlass_commitProposal (img : MetadataImage) (p : BreakGlassProposalRecord) (id : Uuid) :
    (img.commitProposal p).breakGlass[id]? =
      if img.validate (.v1BreakGlassProposal p) = .ok () ∧ p.proposalId = id then some p
      else img.breakGlass[id]? := by
  unfold MetadataImage.commitProposal
  cases hv : img.validate (.v1BreakGlassProposal p) with
  -- a refused submission leaves the image as it is
  | error e => simp
  | ok u =>
      show (img.breakGlass.insert p.proposalId p)[id]? = _
      rw [get_insert]
      simp

/-- The stored approvals of `id` have the list `l` as a prefix. -/
def Holds (id : Uuid) (l : List BreakGlassApproval) (s : System) : Prop :=
  ∃ stored, s.current.breakGlass[id]? = some stored ∧ l <+: stored.approvals

/-- **Step.** An event that does not delete the proposal keeps every list it holds. -/
theorem Holds.step {id : Uuid} {l : List BreakGlassApproval} {s t : System} {e : Event}
    (he : e.Keeps id) (h : Holds id l s) (hst : System.Step s e t) : Holds id l t := by
  obtain ⟨stored, hs, hl⟩ := h
  cases hst with
  | submit _ => exact ⟨stored, hs, hl⟩
  | @deliver sub _ _ _ =>
      unfold Holds
      simp only [breakGlass_commitProposal]
      split
      · -- the accepted record replaces the stored one and extends its approvals
        rename_i hacc
        rw [← hacc.2] at hs
        exact ⟨sub.proposal, rfl, hl.trans (extends_of_validate hacc.1 hs).1⟩
      · exact ⟨stored, hs, hl⟩
  | @record r hr =>
      refine ⟨stored, ?_, hl⟩
      have hd : r ≠ .v1DeleteBreakGlassProposal id := by
        rintro rfl
        exact he rfl
      rw [← hs]
      exact breakGlass_apply_of_other s.current hr hd

/-- **Step.** An event that does not delete a settled proposal leaves it as it is. -/
theorem settled_step {id : Uuid} {stored : BreakGlassProposalRecord} (hset : Settled stored)
    {s t : System} {e : Event} (he : e.Keeps id) (hs : s.current.breakGlass[id]? = some stored)
    (hst : System.Step s e t) : t.current.breakGlass[id]? = some stored := by
  cases hst with
  | submit _ => exact hs
  | @deliver sub _ _ _ =>
      rw [breakGlass_commitProposal]
      split
      · -- `validate` refuses every record over a settled proposal
        rename_i hacc
        rw [← hacc.2] at hs
        exact absurd hset (extends_of_validate hacc.1 hs).2
      · exact hs
  | @record r hr =>
      have hd : r ≠ .v1DeleteBreakGlassProposal id := by
        rintro rfl
        exact he rfl
      rw [breakGlass_apply_of_other s.current hr hd]
      exact hs

/-! ## Stretches of a run

Between two deletions the approvals only grow. -/

theorem holds_of_steps {id : Uuid} {l : List BreakGlassApproval} {s t : System} {es : List Event}
    (hrun : Steps System.Step s es t) (hkeep : ∀ e ∈ es, e.Keeps id) (h : Holds id l s) :
    Holds id l t :=
  hrun.invariant (fun _ _ _ he hs hst => hs.step he hst) hkeep h

/-- The approvals of an accepted submission are the stored ones right after its delivery. -/
theorem holds_of_deliver {s t : System} {sub : Submission} (hst : System.Step s (.deliver sub) t)
    (hacc : s.Accepts sub) : Holds sub.proposal.proposalId sub.proposal.approvals t := by
  cases hst with
  | deliver _ =>
      refine ⟨sub.proposal, ?_, List.prefix_refl _⟩
      rw [breakGlass_commitProposal, if_pos ⟨hacc, rfl⟩]

/-- Two lists that part at one entry are prefixes of no common list. -/
theorem eq_of_prefix_append_cons {α : Type} {l : List α} {a b : α} {as bs m : List α}
    (ha : l ++ a :: as <+: m) (hb : l ++ b :: bs = m) : a = b := by
  rw [← hb, List.prefix_append_right_inj, List.cons_prefix_cons] at ha
  exact ha.1

/-- **No approval is lost.** Along any stretch of a run without a deletion of the proposal `id`: the
    stored approvals only grow by appending, and those of an accepted submission stay stored; of two
    submissions that append different entries to one list, the second to arrive is refused once the
    first is accepted; and a settled proposal never changes and accepts no submission. -/
theorem approvals_never_lost {id : Uuid} {s t : System} {es : List Event}
    (hrun : Steps System.Step s es t) (hkeep : ∀ e ∈ es, e.Keeps id) :
    (∀ stored, s.current.breakGlass[id]? = some stored →
      ∃ stored', t.current.breakGlass[id]? = some stored' ∧ stored.approvals <+: stored'.approvals) ∧
    (∀ s₀ sub, System.Step s₀ (.deliver sub) s → s₀.Accepts sub → sub.proposal.proposalId = id →
      ∃ stored', t.current.breakGlass[id]? = some stored' ∧
        sub.proposal.approvals <+: stored'.approvals) ∧
    (∀ s₀ sub sub' l a as b bs, System.Step s₀ (.deliver sub) s → s₀.Accepts sub →
      sub.proposal.proposalId = id → sub'.proposal.proposalId = id →
      sub.proposal.approvals = l ++ a :: as → sub'.proposal.approvals = l ++ b :: bs → a ≠ b →
      ¬t.Accepts sub') ∧
    (∀ stored, s.current.breakGlass[id]? = some stored → Settled stored →
      t.current.breakGlass[id]? = some stored ∧
        ∀ sub, sub.proposal.proposalId = id → ¬t.Accepts sub) := by
  refine ⟨?_, ?_, ?_, ?_⟩
  · intro stored hs
    exact holds_of_steps hrun hkeep ⟨stored, hs, List.prefix_refl _⟩
  · rintro s₀ sub hst hacc rfl
    exact holds_of_steps hrun hkeep (holds_of_deliver hst hacc)
  · rintro s₀ sub sub' l a as b bs hst hacc rfl hid' hl hl' hne hacc'
    -- what the first one appended is still stored when the second one arrives
    obtain ⟨stored, hs, hpre⟩ := holds_of_steps hrun hkeep (holds_of_deliver hst hacc)
    rw [← hid'] at hs
    have hext := hpre.trans (extends_of_validate hacc' hs).1
    rw [hl] at hext
    exact hne (eq_of_prefix_append_cons hext hl'.symm)
  · intro stored hs hset
    have hstays : t.current.breakGlass[id]? = some stored :=
      hrun.invariant (fun _ _ _ he hs hst => settled_step hset he hs hst) hkeep hs
    refine ⟨hstays, ?_⟩
    rintro sub rfl hacc
    exact (extends_of_validate hacc hstays).2 hset

/-! A proposal approved by one principal, and two stale clients that each approve it as they read it. -/

def proposal (approvals : List BreakGlassApproval) : BreakGlassProposalRecord :=
  ⟨7, .deleteTopic, "orders", "User:a", "cleanup", 0, 100, approvals, 0, false⟩

def approvalOf (principal : String) : BreakGlassApproval := ⟨principal, 1, "", []⟩

def storedImage : MetadataImage :=
  (MetadataImage.new 0).apply (.v1BreakGlassProposal (proposal [approvalOf "User:a"]))

/-- Both clients read the same image; the first approval commits and the second is refused. -/
theorem approvals_never_lost_two_clients :
    let first : Submission := ⟨storedImage, proposal [approvalOf "User:a", approvalOf "User:b"]⟩
    let second : Submission := ⟨storedImage, proposal [approvalOf "User:a", approvalOf "User:c"]⟩
    let s : System := ⟨storedImage, [], [first, second]⟩
    let t : System := ⟨storedImage.commitProposal first.proposal, [storedImage], [second]⟩
    System.Step s (.deliver first) t ∧ s.Accepts first ∧ s.Accepts second ∧ ¬t.Accepts second := by
  intro first second s t
  have hst : System.Step s (.deliver first) t := @System.Step.deliver s first [] [second] rfl
  have hacc : s.Accepts first := rfl
  refine ⟨hst, hacc, rfl, ?_⟩
  exact (approvals_never_lost (Steps.refl t) (by simp)).2.2.1 s first second
    [approvalOf "User:a"] (approvalOf "User:b") [] (approvalOf "User:c") [] hst hacc rfl rfl rfl rfl
    (by decide)

end BreakGlass

end Krabka.Metadata
