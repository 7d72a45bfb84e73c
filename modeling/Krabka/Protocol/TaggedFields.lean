import Krabka.Protocol.ExactPrimitives

/-!
# `Protocol.TaggedFields` — the trailer is an exact codec

A trailer lists entries by ascending tag. `absorb` is what a reader makes of such a list: an entry whose
tag it knows goes into its state, any other is kept as it is. The trailer is exact for every list that
`absorb` accepts (`exact_writeTaggedFields`); a reader that knows no tag keeps every entry
(`exact_unknownTaggedFields`).
-/

namespace Krabka.Protocol

open ByteStream Reader Output

/-- What one entry takes on the wire. -/
def taggedFieldLen (tag : UInt32) (len : Nat) : Nat := uvarintLen tag + usizeUvarintLen len + len

def taggedFieldsLen (known : List (UInt32 × Nat)) (unknown : UnknownTaggedFields) : Nat :=
  usizeUvarintLen (known.length + unknown.length) + (known.map fun e => taggedFieldLen e.1 e.2).sum +
    (unknown.map fun u => taggedFieldLen u.tag u.bytes.length).sum

/-- The fields that a value keeps for a schema it does not know: each once, by ascending tag, and of
    lengths that their prefixes hold. -/
structure UnknownTaggedFields.Fits (unknown : UnknownTaggedFields) : Prop where
  ascending : unknown.Pairwise (fun a b => a.tag < b.tag)
  count : unknown.length < 2 ^ 32
  lengths : ∀ u ∈ unknown, u.bytes.length < 2 ^ 32

theorem fits_noTags : UnknownTaggedFields.Fits [] :=
  ⟨List.Pairwise.nil, by decide, fun _ hu => absurd hu List.not_mem_nil⟩

variable {σ : Type} {known : UInt32 → σ → Decode (Option σ)}

/-- What one entry makes of the state and of the entries kept so far. -/
def absorbOne (known : UInt32 → σ → Decode (Option σ)) (s : σ × UnknownTaggedFields)
    (e : UInt32 × Bytes) : Option (σ × UnknownTaggedFields) :=
  match known e.1 s.1 e.2 with
  | .ok (some t, []) => some (t, s.2)
  | .ok (none, _) => some (s.1, s.2 ++ [⟨e.1, e.2⟩])
  | _ => none

theorem absorbOne_of_known {s : σ × UnknownTaggedFields} {e : UInt32 × Bytes} {t : σ}
    (h : known e.1 s.1 e.2 = .ok (some t, [])) : absorbOne known s e = some (t, s.2) := by
  unfold absorbOne
  rw [h]

theorem absorbOne_of_unknown {s : σ × UnknownTaggedFields} {e : UInt32 × Bytes} {left : Bytes}
    (h : known e.1 s.1 e.2 = .ok (none, left)) :
    absorbOne known s e = some (s.1, s.2 ++ [⟨e.1, e.2⟩]) := by
  unfold absorbOne
  rw [h]

/-- What a list of entries makes of them. -/
def absorb (known : UInt32 → σ → Decode (Option σ)) (s : σ × UnknownTaggedFields)
    (entries : List (UInt32 × Bytes)) : Option (σ × UnknownTaggedFields) :=
  entries.foldlM (absorbOne known) s

theorem exact_putVarintLength {len : Nat} (what : String) (h : len < 2 ^ 32) :
    ∃ n : UInt32, n.toNat = len ∧
      Exact (putVarintLength len what) (usizeUvarintLen len) getUvarint n := by
  have hsome : FixedWidth.u32OfLen len = some (UInt32.ofNat len) := if_pos h
  have hnat := FixedWidth.u32OfLen_eq_some.mp hsome
  refine ⟨UInt32.ofNat len, hnat, ?_⟩
  unfold putVarintLength
  rw [hsome, ← uvarintLen_eq hnat]
  exact exact_putUvarint _

/-- One entry is read as what `absorbOne` makes of it, when its tag lies above the one before. -/
theorem exact_putTaggedField {prev : Option UInt32} {s t : σ} {u u' : UnknownTaggedFields}
    {e : UInt32 × Bytes} (hlen : e.2.length < 2 ^ 32) (hprev : ∀ p ∈ prev, p < e.1)
    (h : absorbOne known (s, u) e = some (t, u')) :
    Exact (putTaggedField e) (taggedFieldLen e.1 e.2.length) (readTaggedFieldInto known (prev, s, u))
      (some e.1, t, u') := by
  have hascending : (prev.any fun p => decide (e.1 ≤ p)) = false := by
    cases prev with
    | none => rfl
    | some p => simpa using hprev p rfl
  obtain ⟨n, hn, hsize⟩ := exact_putVarintLength "tagged field" hlen
  have hpayload : Exact (put e.2) e.2.length (takeBytes n.toNat) e.2 := hn ▸ exact_takeBytes hn.symm
  refine Exact.len ((exact_putUvarint e.1).bind ?_) (Nat.add_assoc _ _ _).symm
  rw [if_neg (by rw [hascending]; exact Bool.false_ne_true)]
  refine hsize.bind (hpayload.bind_nil (fun rest => ?_))
  -- the payload is judged by the reader of its tag
  unfold absorbOne at h
  split at h
  · rename_i t' hread
    cases h
    rw [bind_of_ok (inside_eq_ok.mpr ⟨hread, rfl⟩)]
    rfl
  · rename_i left hread
    cases h
    rw [bind_of_ok (inside_eq_ok.mpr ⟨hread, rfl⟩)]
    rfl
  · cases h

theorem exact_taggedFieldsLoop {entries : List (UInt32 × Bytes)}
    (hlen : ∀ e ∈ entries, e.2.length < 2 ^ 32) (hsorted : entries.Pairwise (fun a b => a.1 < b.1))
    (prev : Option UInt32) (hprev : ∀ p ∈ prev, ∀ e ∈ entries, p < e.1) {s t : σ}
    {u u' : UnknownTaggedFields} (h : absorb known (s, u) entries = some (t, u')) (i : Nat) :
    ∃ last, Exact (each putTaggedField entries)
      (entries.map fun e => taggedFieldLen e.1 e.2.length).sum
      (loop (fun _ s => readTaggedFieldInto known s) entries.length i (prev, s, u)) (last, t, u') := by
  induction entries generalizing prev s u i with
  | nil =>
      cases h
      exact ⟨prev, Exact.pure _⟩
  | cons e rest ih =>
      rw [List.pairwise_cons] at hsorted
      unfold absorb at h
      rw [List.foldlM_cons] at h
      obtain ⟨⟨s₁, u₁⟩, hone, h⟩ := Option.bind_eq_some_iff.mp h
      have hfield := exact_putTaggedField (hlen e List.mem_cons_self)
        (fun p hp => hprev p hp e List.mem_cons_self) hone
      obtain ⟨last, hrest⟩ := ih (fun q hq => hlen q (List.mem_cons_of_mem e hq)) hsorted.2 (some e.1)
        (fun p hp q hq => by cases hp; exact hsorted.1 q hq) h (i + 1)
      exact ⟨last, hfield.bind hrest⟩

/-- The entries in the order in which they are written. -/
def sortedFields (entries : List (UInt32 × Bytes)) (unknown : UnknownTaggedFields) :
    List (UInt32 × Bytes) :=
  (entries ++ unknown.map fun u => (u.tag, u.bytes)).insertionSort fun a b => a.1 ≤ b.1

theorem sortedFields_perm (entries : List (UInt32 × Bytes)) (unknown : UnknownTaggedFields) :
    (sortedFields entries unknown).Perm (entries ++ unknown.map fun u => (u.tag, u.bytes)) :=
  List.perm_insertionSort _ _

/-- Entries of distinct tags are in strictly ascending order once they are sorted. -/
theorem sortedFields_ascending {entries : List (UInt32 × Bytes)} {unknown : UnknownTaggedFields}
    (h : ((entries ++ unknown.map fun u => (u.tag, u.bytes)).map Prod.fst).Nodup) :
    (sortedFields entries unknown).Pairwise (fun a b => a.1 < b.1) := by
  have hle : (sortedFields entries unknown).Pairwise (fun a b => a.1 ≤ b.1) :=
    haveI : Std.Total (fun a b : UInt32 × Bytes => a.1 ≤ b.1) := ⟨fun a b => UInt32.le_total a.1 b.1⟩
    haveI : IsTrans (UInt32 × Bytes) (fun a b => a.1 ≤ b.1) := ⟨fun _ _ _ => UInt32.le_trans⟩
    List.pairwise_insertionSort _ _
  have hne : (sortedFields entries unknown).Pairwise (fun a b => a.1 ≠ b.1) := by
    have hnodup := ((sortedFields_perm entries unknown).map Prod.fst).nodup_iff.mpr h
    exact List.pairwise_map.mp hnodup
  exact (hle.and hne).imp fun hab => UInt32.lt_of_le_of_ne hab.1 hab.2

theorem length_sortedFields (entries : List (UInt32 × Bytes)) (unknown : UnknownTaggedFields) :
    (sortedFields entries unknown).length = entries.length + unknown.length := by
  rw [(sortedFields_perm entries unknown).length_eq, List.length_append, List.length_map]

theorem sortedFields_lengths {entries : List (UInt32 × Bytes)} {unknown : UnknownTaggedFields}
    (hlen : ∀ e ∈ entries, e.2.length < 2 ^ 32) (hunknown : ∀ u ∈ unknown, u.bytes.length < 2 ^ 32) :
    ∀ e ∈ sortedFields entries unknown, e.2.length < 2 ^ 32 := by
  intro e he
  rcases List.mem_append.mp ((sortedFields_perm entries unknown).mem_iff.mp he) with he | he
  · exact hlen e he
  · obtain ⟨v, hv, rfl⟩ := List.mem_map.mp he
    exact hunknown v hv

/-- The predicted length does not depend on the order. -/
theorem taggedFieldsLen_sorted (entries : List (UInt32 × Bytes)) (unknown : UnknownTaggedFields) :
    taggedFieldsLen (entries.map fun e => (e.1, e.2.length)) unknown =
      usizeUvarintLen (sortedFields entries unknown).length +
        ((sortedFields entries unknown).map fun e => taggedFieldLen e.1 e.2.length).sum := by
  have hsum : ((sortedFields entries unknown).map fun e => taggedFieldLen e.1 e.2.length).sum =
      ((entries.map fun e => (e.1, e.2.length)).map fun e => taggedFieldLen e.1 e.2).sum +
        (unknown.map fun u => taggedFieldLen u.tag u.bytes.length).sum := by
    rw [((sortedFields_perm entries unknown).map _).sum_eq, List.map_append, List.sum_append,
      List.map_map, List.map_map]
    rfl
  unfold taggedFieldsLen
  rw [hsum, length_sortedFields, List.length_map, Nat.add_assoc]

/-- **The trailer.** The known fields and the unknown ones are read back as what the reader makes of them
in ascending order. -/
theorem exact_writeTaggedFields {entries : List (UInt32 × Bytes)} {unknown : UnknownTaggedFields}
    (hcount : entries.length + unknown.length < 2 ^ 32) (hlen : ∀ e ∈ entries, e.2.length < 2 ^ 32)
    (hunknown : ∀ u ∈ unknown, u.bytes.length < 2 ^ 32)
    (hsorted : (sortedFields entries unknown).Pairwise (fun a b => a.1 < b.1)) {s t : σ}
    {u : UnknownTaggedFields} (h : absorb known (s, []) (sortedFields entries unknown) = some (t, u)) :
    Exact (writeTaggedFields entries unknown)
      (taggedFieldsLen (entries.map fun e => (e.1, e.2.length)) unknown) (readTaggedFieldsInto known s)
      (t, u) := by
  have hfields := sortedFields_lengths hlen hunknown
  rw [← length_sortedFields] at hcount
  obtain ⟨n, hn, hhead⟩ := exact_putVarintLength "tagged-field count" hcount
  obtain ⟨last, hloop⟩ := exact_taggedFieldsLoop hfields hsorted none (by simp) h 0
  rw [← hn] at hloop
  exact Exact.len (hhead.bind (hloop.bind_nil (Reads.pure (t, u)))) (taggedFieldsLen_sorted entries unknown).symm

/-! ## A reader that knows no tag

It keeps every entry, and what it keeps is written back as it came. -/

/-- The Boolean reader of known tags, as one whose state is empty. -/
def recognized (known : UInt32 → Decode Bool) (tag : UInt32) (_ : Unit) : Decode (Option Unit) := do
  let b ← known tag
  return if b then some () else none

/-- The reader with an empty state is the reader without one. -/
theorem readTaggedField_eq (known : UInt32 → Decode Bool) (prev : Option UInt32)
    (u : UnknownTaggedFields) :
    readTaggedFieldInto (recognized known) (prev, (), u) =
      readTaggedField known (prev, u) >>= fun p => pure (p.1, (), p.2) := by
  unfold readTaggedFieldInto readTaggedField
  rw [bind_assoc]
  refine bind_congr (fun tag => ?_)
  split
  · rfl
  · rw [bind_assoc]
    refine bind_congr (fun size => ?_)
    rw [bind_assoc]
    refine bind_congr (fun payload => ?_)
    funext bs
    unfold recognized
    cases hread : known tag payload with
    | error e =>
        have hinside : inside payload (known tag) bs = .error e := by
          unfold inside
          rw [hread]
          rfl
        have hinside' : inside payload (known tag >>= fun b => pure (if b then some () else none)) bs =
            (.error e : Except ProtocolError ((Option Unit × Bytes) × Bytes)) := by
          unfold inside
          rw [bind_of_error hread]
          rfl
        rw [bind_of_error hinside', bind_assoc, bind_of_error hinside]
    | ok p =>
        obtain ⟨b, left⟩ := p
        have hread' : (known tag >>= fun b => pure (if b then some () else none)) payload =
            .ok ((if b then some () else none : Option Unit), left) := by
          rw [bind_of_ok hread]
          rfl
        rw [bind_of_ok (inside_eq_ok.mpr ⟨hread', rfl⟩), bind_assoc,
          bind_of_ok (inside_eq_ok.mpr ⟨hread, rfl⟩)]
        cases b with
        | false => rfl
        | true =>
            cases left with
            | nil => rfl
            | cons => rfl

theorem readTaggedFields_eq (known : UInt32 → Decode Bool) :
    readTaggedFields known =
      readTaggedFieldsInto (recognized known) () >>= fun p => pure p.2 := by
  have hloop : ∀ (n i : Nat) (prev : Option UInt32) (u : UnknownTaggedFields),
      loop (fun _ s => readTaggedFieldInto (recognized known) s) n i (prev, (), u) =
        loop (fun _ s => readTaggedField known s) n i (prev, u) >>= fun p => pure (p.1, (), p.2) := by
    intro n
    induction n with
    | zero => intro i prev u; rfl
    | succ n ih =>
        intro i prev u
        unfold loop
        rw [readTaggedField_eq, bind_assoc, bind_assoc]
        refine bind_congr (fun p => ?_)
        exact ih (i + 1) p.1 p.2
  unfold readTaggedFields readTaggedFieldsInto
  rw [bind_assoc]
  refine bind_congr (fun count => ?_)
  rw [hloop, bind_assoc, bind_assoc]
  rfl

theorem absorb_recognized_false {unknown : UnknownTaggedFields} (u : UnknownTaggedFields) :
    absorb (recognized fun _ => pure false) ((), u) (unknown.map fun e => (e.tag, e.bytes)) =
      some ((), u ++ unknown) := by
  induction unknown generalizing u with
  | nil => exact congrArg some (congrArg (Prod.mk ()) (List.append_nil u).symm)
  | cons e rest ih =>
      have hrest := ih (u ++ [e])
      rw [List.append_assoc] at hrest
      exact hrest

theorem sortedFields_unknown {unknown : UnknownTaggedFields} (h : unknown.Fits) :
    sortedFields [] unknown = unknown.map fun e => (e.tag, e.bytes) :=
  List.Pairwise.insertionSort_eq
    (List.pairwise_map.mpr (h.ascending.imp fun hab => UInt32.le_of_lt hab))

/-- **Unknown fields come back.** -/
theorem exact_unknownTaggedFields {unknown : UnknownTaggedFields} (h : unknown.Fits) :
    Exact (writeTaggedFields [] unknown) (taggedFieldsLen [] unknown)
      (readTaggedFields fun _ => pure false) unknown := by
  have hsorted : (sortedFields [] unknown).Pairwise (fun a b => a.1 < b.1) := by
    rw [sortedFields_unknown h]
    exact List.pairwise_map.mpr h.ascending
  have habsorb : absorb (recognized fun _ => pure false) ((), []) (sortedFields [] unknown) =
      some ((), unknown) := by
    rw [sortedFields_unknown h]
    exact absorb_recognized_false []
  rw [readTaggedFields_eq]
  have hcount : ([] : List (UInt32 × Bytes)).length + unknown.length < 2 ^ 32 := by
    rw [List.length_nil, Nat.zero_add]
    exact h.count
  exact (exact_writeTaggedFields hcount (by simp) h.lengths hsorted habsorb).map (·.2)

end Krabka.Protocol
