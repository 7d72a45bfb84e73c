import Krabka.Protocol.TaggedFields

/-!
# `Protocol.TaggedTrailer` — the trailer against its callback

`read_tagged_fields` hands every entry to a callback, an `FnMut`: `readTaggedFieldsWith` threads the
callback's own state, and the two readers of `Protocol.Primitives` are cases of it
(`readTaggedFields_eq_with`, `readTaggedFieldsInto_eq`).

## Contents
- **The wire.** `wireFields` is the list of entries that the bytes hold, whatever a reader makes of them.
- **One iff.** A run of the reader is a list on the wire that ascends and that the callback takes entry by
  entry (`readTaggedFieldsWith_eq_ok`); both halves of the result are read off it.
- **Calls.** `recorded` notes every call: what was handed out, whether the callback recognized it, and what
  it left of the payload.
-/

namespace Krabka.Protocol

open ByteStream Reader Output

/-! ## The reader and its callback

The callback is handed a payload and answers whether it knew the tag. The reader checks that it took all of
it. -/

/-- The callback: it reads a payload, and answers whether it recognized the tag. -/
abbrev TagReader (σ : Type) := UInt32 → σ → Decode (Bool × σ)

variable {σ : Type}

def readTaggedFieldWith (known : TagReader σ) (s : Option UInt32 × σ × UnknownTaggedFields) :
    Decode (Option UInt32 × σ × UnknownTaggedFields) := do
  let tag ← getUvarint
  if s.1.any (fun prev => tag ≤ prev) then
    throw (.invalidValue "tagged fields not strictly ascending")
  else
    let size ← getUvarint
    let payload ← takeBytes size.toNat
    let ((recognized, t), left) ← inside payload (known tag s.2.1)
    if !recognized then return (some tag, t, s.2.2 ++ [⟨tag, payload⟩])
    else if left.isEmpty then return (some tag, t, s.2.2)
    else throw (.invalidValue "tagged field decoder did not consume all bytes")

/-- `read_tagged_fields`. -/
def readTaggedFieldsWith (known : TagReader σ) (s : σ) : Decode (σ × UnknownTaggedFields) := do
  let count ← getUvarint
  let (_, s, unknown) ← loop (fun _ s => readTaggedFieldWith known s) count.toNat 0 (none, s, [])
  return (s, unknown)

/-- A reader of known tags, as a callback. -/
def asTagReader (known : UInt32 → σ → Decode (Option σ)) : TagReader σ := fun tag s => do
  let o ← known tag s
  return (o.isSome, o.getD s)

/-- The loop with a single table is that with a reader of tags. -/
theorem readTaggedFieldInto_eq (known : UInt32 → σ → Decode (Option σ))
    (s : Option UInt32 × σ × UnknownTaggedFields) :
    readTaggedFieldInto known s = readTaggedFieldWith (asTagReader known) s := by
  unfold readTaggedFieldInto readTaggedFieldWith
  refine bind_congr (fun tag => ?_)
  split
  · rfl
  · refine bind_congr (fun size => bind_congr (fun payload => ?_))
    unfold asTagReader
    rw [inside_map, bind_assoc]
    refine bind_congr (fun p => ?_)
    obtain ⟨o, left⟩ := p
    cases o with
    | none => rfl
    | some t => rfl

/-- The reader of a message's fields is the reader with its callback. -/
theorem readTaggedFieldsInto_eq (known : UInt32 → σ → Decode (Option σ)) (s : σ) :
    readTaggedFieldsInto known s = readTaggedFieldsWith (asTagReader known) s := by
  unfold readTaggedFieldsInto readTaggedFieldsWith
  simp only [readTaggedFieldInto_eq]

/-- So is the reader without a state. -/
theorem readTaggedFields_eq_with (known : UInt32 → Decode Bool) :
    readTaggedFields known =
      readTaggedFieldsWith (asTagReader (recognized known)) () >>= fun p => pure p.2 := by
  rw [readTaggedFields_eq, readTaggedFieldsInto_eq]

/-! ## The entries on the wire

A list of tags and payloads behind its length, with no condition on what they are. -/

def wireField : Decode (UInt32 × Bytes) := do
  let tag ← getUvarint
  let size ← getUvarint
  let payload ← takeBytes size.toNat
  return (tag, payload)

/-- The entries that the bytes hold. -/
def wireFields : Decode (List (UInt32 × Bytes)) := do
  let count ← getUvarint
  times (fun _ => wireField) count.toNat 0

/-- One field of the section, whole. -/
theorem exact_wireField {e : UInt32 × Bytes} (h : e.2.length < 2 ^ 32) :
    Exact (putTaggedField e) (taggedFieldLen e.1 e.2.length) wireField e := by
  obtain ⟨n, hn, hsize⟩ := exact_putVarintLength "tagged field" h
  have hpayload : Exact (put e.2) e.2.length (takeBytes n.toNat) e.2 := hn ▸ exact_takeBytes hn.symm
  exact Exact.len ((exact_putUvarint e.1).bind (hsize.bind (hpayload.map fun p => (e.1, p))))
    (Nat.add_assoc _ _ _).symm

/-- The writer, the length function and the wire agree on the entries in ascending order. -/
theorem exact_wireFields {entries : List (UInt32 × Bytes)} {unknown : UnknownTaggedFields}
    (hcount : entries.length + unknown.length < 2 ^ 32) (hlen : ∀ e ∈ entries, e.2.length < 2 ^ 32)
    (hunknown : ∀ u ∈ unknown, u.bytes.length < 2 ^ 32) :
    Exact (writeTaggedFields entries unknown)
      (taggedFieldsLen (entries.map fun e => (e.1, e.2.length)) unknown) wireFields
      (sortedFields entries unknown) := by
  have hfields := sortedFields_lengths hlen hunknown
  rw [← length_sortedFields] at hcount
  obtain ⟨n, hn, hhead⟩ := exact_putVarintLength "tagged-field count" hcount
  have hloop : Exact (each putTaggedField (sortedFields entries unknown)) _
      (times (fun _ => wireField) (sortedFields entries unknown).length 0)
      ((sortedFields entries unknown).map id) :=
    Exact.each (fun e he _ => exact_wireField (hfields e he)) 0
  rw [List.map_id, ← hn] at hloop
  exact Exact.len (hhead.bind hloop) (taggedFieldsLen_sorted entries unknown).symm

/-- The writer finishes exactly when the count and every length fit a `u32` varint. -/
theorem wrote_writeTaggedFields_iff (entries : List (UInt32 × Bytes)) (unknown : UnknownTaggedFields) :
    (∃ w, Wrote (writeTaggedFields entries unknown) w) ↔
      entries.length + unknown.length < 2 ^ 32 ∧ (∀ e ∈ entries, e.2.length < 2 ^ 32) ∧
        ∀ u ∈ unknown, u.bytes.length < 2 ^ 32 := by
  constructor
  · rintro ⟨w, h⟩
    obtain ⟨w₁, w₂, h₁, h₂, rfl⟩ := wrote_bind.mp h
    obtain ⟨n, -, hn⟩ := wrote_putVarintLength h₁
    have hfield : ∀ e ∈ sortedFields entries unknown, e.2.length < 2 ^ 32 := by
      intro e he
      obtain ⟨v, hv⟩ := exists_of_wrote_each h₂ e he
      obtain ⟨v₁, v₂, -, hv₂, rfl⟩ := wrote_bind.mp hv
      obtain ⟨v₃, v₄, hv₃, -, rfl⟩ := wrote_bind.mp hv₂
      obtain ⟨m, -, hm⟩ := wrote_putVarintLength hv₃
      exact hm ▸ m.toNat_lt
    have hmem : ∀ e, e ∈ sortedFields entries unknown ↔
        e ∈ entries ++ unknown.map fun u => (u.tag, u.bytes) :=
      fun e => (sortedFields_perm entries unknown).mem_iff
    refine ⟨?_, ?_, ?_⟩
    · rw [← length_sortedFields]
      exact hn ▸ n.toNat_lt
    · intro e he
      exact hfield e ((hmem e).mpr (List.mem_append_left _ he))
    · intro u hu
      exact hfield (u.tag, u.bytes) ((hmem _).mpr (List.mem_append_right _ (List.mem_map_of_mem hu)))
  · rintro ⟨hcount, hlen, hunknown⟩
    obtain ⟨w, h, -⟩ := exact_wireFields hcount hlen hunknown
    exact ⟨w, h⟩

/-! ## What the callback makes of the entries

A fold over the entries, with the check of the order of their tags. -/

/-- One entry handed to the callback. -/
def handOne (known : TagReader σ) (s : σ × UnknownTaggedFields) (e : UInt32 × Bytes) :
    Option (σ × UnknownTaggedFields) :=
  match known e.1 s.1 e.2 with
  | .ok ((false, t), _) => some (t, s.2 ++ [⟨e.1, e.2⟩])
  | .ok ((true, t), []) => some (t, s.2)
  | _ => none

/-- A tag is new where it is above the one before. -/
theorem any_le_eq_false {prev : Option UInt32} {tag : UInt32} :
    (prev.any fun p => decide (tag ≤ p)) = false ↔ ∀ p ∈ prev, p < tag := by
  cases prev with
  | none => simp
  | some p => simp

/-- A field is its tag, its size and as many bytes. -/
theorem wireField_eq_ok {bs rest : Bytes} {e : UInt32 × Bytes} :
    wireField bs = .ok (e, rest) ↔ ∃ mid size mid', getUvarint bs = .ok (e.1, mid) ∧
      getUvarint mid = .ok (size, mid') ∧ takeBytes size.toNat mid' = .ok (e.2, rest) := by
  constructor
  · intro h
    obtain ⟨tag, mid, htag, h⟩ := bind_eq_ok.mp h
    obtain ⟨size, mid', hsize, h⟩ := bind_eq_ok.mp h
    obtain ⟨payload, left, hpayload, h⟩ := bind_eq_ok.mp h
    cases h
    exact ⟨mid, size, mid', htag, hsize, hpayload⟩
  · rintro ⟨mid, size, mid', htag, hsize, hpayload⟩
    unfold wireField
    rw [bind_of_ok htag, bind_of_ok hsize, bind_of_ok hpayload]
    rfl

/-- One round of the loop takes one entry off the wire, checks its tag, and hands it out. -/
theorem readTaggedFieldWith_eq_ok {known : TagReader σ} {prev : Option UInt32} {s : σ}
    {u : UnknownTaggedFields} {bs rest : Bytes} {r : Option UInt32 × σ × UnknownTaggedFields} :
    readTaggedFieldWith known (prev, s, u) bs = .ok (r, rest) ↔
      ∃ e, wireField bs = .ok (e, rest) ∧ (∀ p ∈ prev, p < e.1) ∧
        ∃ t, handOne known (s, u) e = some t ∧ r = (some e.1, t) := by
  constructor
  · intro h
    obtain ⟨tag, mid, htag, h⟩ := bind_eq_ok.mp h
    split at h
    · cases h
    · rename_i hascending
      obtain ⟨size, mid', hsize, h⟩ := bind_eq_ok.mp h
      obtain ⟨payload, left, hpayload, h⟩ := bind_eq_ok.mp h
      obtain ⟨⟨⟨recognized, t⟩, unread⟩, left', hcall, h⟩ := bind_eq_ok.mp h
      obtain ⟨hread, rfl⟩ := inside_eq_ok.mp hcall
      refine ⟨(tag, payload), ?_, any_le_eq_false.mp (Bool.eq_false_iff.mpr hascending), ?_⟩
      · cases recognized with
        | false =>
            cases h
            exact wireField_eq_ok.mpr ⟨mid, size, mid', htag, hsize, hpayload⟩
        | true =>
            cases unread with
            | nil =>
                cases h
                exact wireField_eq_ok.mpr ⟨mid, size, mid', htag, hsize, hpayload⟩
            | cons b unread => cases h
      · unfold handOne
        simp only [hread]
        cases recognized with
        | false =>
            cases h
            exact ⟨_, rfl, rfl⟩
        | true =>
            cases unread with
            | nil =>
                cases h
                exact ⟨_, rfl, rfl⟩
            | cons b unread => cases h
  · rintro ⟨⟨tag, payload⟩, hwire, hascending, t, hone, rfl⟩
    obtain ⟨mid, size, mid', htag, hsize, hpayload⟩ := wireField_eq_ok.mp hwire
    have hnot : ¬(prev.any fun p => decide (tag ≤ p)) = true := by
      rw [any_le_eq_false.mpr hascending]
      exact Bool.false_ne_true
    unfold readTaggedFieldWith
    rw [bind_of_ok htag, if_neg hnot, bind_of_ok hsize, bind_of_ok hpayload]
    -- the payload is judged by the callback
    unfold handOne at hone
    split at hone
    · rename_i t' left hcall
      cases hone
      rw [bind_of_ok (inside_eq_ok.mpr ⟨hcall, rfl⟩)]
      rfl
    · rename_i t' hcall
      cases hone
      rw [bind_of_ok (inside_eq_ok.mpr ⟨hcall, rfl⟩)]
      rfl
    · cases hone

/-- The rounds of the loop: `prev` is the tag before the first of them. -/
theorem taggedFieldsLoop_eq_ok {known : TagReader σ} {n : Nat} :
    ∀ {i : Nat} {prev : Option UInt32} {s : σ × UnknownTaggedFields} {t : σ × UnknownTaggedFields}
      {bs rest : Bytes},
      (∃ last, loop (fun _ s => readTaggedFieldWith known s) n i (prev, s) bs = .ok ((last, t), rest)) ↔
        ∃ entries, times (fun _ => wireField) n i bs = .ok (entries, rest) ∧
          (∀ p ∈ prev, ∀ e ∈ entries, p < e.1) ∧ entries.Pairwise (fun a b => a.1 < b.1) ∧
          entries.foldlM (handOne known) s = some t := by
  induction n with
  | zero =>
      intro i prev s t bs rest
      constructor
      · rintro ⟨last, h⟩
        cases h
        exact ⟨[], rfl, fun p _ e he => absurd he List.not_mem_nil, List.Pairwise.nil, rfl⟩
      · rintro ⟨entries, h, -, -, hfold⟩
        cases h
        cases hfold
        exact ⟨prev, rfl⟩
  | succ n ih =>
      intro i prev s t bs rest
      constructor
      · rintro ⟨last, h⟩
        obtain ⟨r, mid, hone, h⟩ := bind_eq_ok.mp h
        obtain ⟨e, hwire, hprev, t₁, hhand, rfl⟩ := readTaggedFieldWith_eq_ok.mp hone
        obtain ⟨entries, htimes, hlow, hsorted, hfold⟩ := ih.mp ⟨last, h⟩
        have hlt : ∀ e' ∈ entries, e.1 < e'.1 := hlow e.1 rfl
        refine ⟨e :: entries, ?_, ?_, List.pairwise_cons.mpr ⟨hlt, hsorted⟩, ?_⟩
        · exact bind_eq_ok.mpr ⟨e, mid, hwire, bind_eq_ok.mpr ⟨entries, rest, htimes, rfl⟩⟩
        · intro p hp e' he'
          rcases List.mem_cons.mp he' with rfl | he'
          · exact hprev p hp
          · exact UInt32.lt_trans (hprev p hp) (hlt e' he')
        · rw [List.foldlM_cons, hhand]
          exact hfold
      · rintro ⟨entries, htimes, hlow, hsorted, hfold⟩
        obtain ⟨e, mid, hwire, htimes⟩ := bind_eq_ok.mp htimes
        obtain ⟨entries', left, htimes', h⟩ := bind_eq_ok.mp htimes
        cases h
        rw [List.pairwise_cons] at hsorted
        rw [List.foldlM_cons] at hfold
        obtain ⟨t₁, hhand, hfold⟩ := Option.bind_eq_some_iff.mp hfold
        have hone := readTaggedFieldWith_eq_ok.mpr
          ⟨e, hwire, fun p hp => hlow p hp e List.mem_cons_self, t₁, hhand, rfl⟩
        have habove : ∀ p ∈ some e.1, ∀ e' ∈ entries', p < e'.1 := by
          intro p hp
          cases hp
          exact hsorted.1
        obtain ⟨last, hloop⟩ := ih.mpr ⟨entries', htimes', habove, hsorted.2, hfold⟩
        exact ⟨last, bind_eq_ok.mpr ⟨_, mid, hone, hloop⟩⟩

/-- **A run of the reader** is a list of entries on the wire that ascends and that the callback takes. -/
theorem readTaggedFieldsWith_eq_ok {known : TagReader σ} {s t : σ} {u : UnknownTaggedFields}
    {bs rest : Bytes} :
    readTaggedFieldsWith known s bs = .ok ((t, u), rest) ↔
      ∃ entries, wireFields bs = .ok (entries, rest) ∧ entries.Pairwise (fun a b => a.1 < b.1) ∧
        entries.foldlM (handOne known) (s, []) = some (t, u) := by
  constructor
  · intro h
    obtain ⟨count, mid, hcount, h⟩ := bind_eq_ok.mp h
    obtain ⟨⟨last, s', u'⟩, left, hloop, h⟩ := bind_eq_ok.mp h
    cases h
    obtain ⟨entries, htimes, -, hsorted, hfold⟩ := taggedFieldsLoop_eq_ok.mp ⟨last, hloop⟩
    exact ⟨entries, bind_eq_ok.mpr ⟨count, mid, hcount, htimes⟩, hsorted, hfold⟩
  · rintro ⟨entries, hwire, hsorted, hfold⟩
    obtain ⟨count, mid, hcount, htimes⟩ := bind_eq_ok.mp hwire
    have hfirst : ∀ p ∈ (none : Option UInt32), ∀ e ∈ entries, p < e.1 := fun p hp => by cases hp
    obtain ⟨last, hloop⟩ := taggedFieldsLoop_eq_ok.mpr ⟨entries, htimes, hfirst, hsorted, hfold⟩
    exact bind_eq_ok.mpr ⟨count, mid, hcount, bind_eq_ok.mpr ⟨_, rest, hloop, rfl⟩⟩

/-! ## Calls

Which calls the callback got, in which order, is part of the result. -/

/-- One call of the callback. -/
structure TagCall where
  entry : UInt32 × Bytes
  recognized : Bool
  left : Bytes
deriving DecidableEq, Repr

/-- The callback that also notes its calls. -/
def recorded (known : TagReader σ) : TagReader (σ × List TagCall) := fun tag s payload =>
  (known tag s.1 payload).map fun p =>
    ((p.1.1, p.1.2, s.2 ++ [⟨(tag, payload), p.1.1, p.2⟩]), p.2)

/-- The entries that the callback recognized. -/
def recognizedEntries (calls : List TagCall) : List (UInt32 × Bytes) :=
  (calls.filter (·.recognized)).map (·.entry)

/-- The entries that it did not. -/
def refusedEntries (calls : List TagCall) : UnknownTaggedFields :=
  (calls.filter (!·.recognized)).map fun c => ⟨c.entry.1, c.entry.2⟩

/-- A recognized payload was read to its end. -/
def TagCall.Consumed (c : TagCall) : Prop := c.recognized = true → c.left = []

/-- The call is one of `known`, made in some state. -/
def TagCall.Made (known : TagReader σ) (c : TagCall) : Prop :=
  ∃ s t, known c.entry.1 s c.entry.2 = .ok ((c.recognized, t), c.left)

/-- One field is handed to the reader of tags, which takes or refuses it. -/
theorem handOne_eq_some {known : TagReader σ} {s : σ} {u : UnknownTaggedFields} {e : UInt32 × Bytes}
    {r : σ × UnknownTaggedFields} :
    handOne known (s, u) e = some r ↔
      ∃ c : TagCall, c.entry = e ∧ c.Consumed ∧ known e.1 s e.2 = .ok ((c.recognized, r.1), c.left) ∧
        r.2 = u ++ refusedEntries [c] := by
  constructor
  · intro h
    unfold handOne at h
    split at h
    · rename_i t left hread
      cases h
      exact ⟨⟨e, false, left⟩, rfl, (by intro h; cases h), hread, rfl⟩
    · rename_i t hread
      cases h
      exact ⟨⟨e, true, []⟩, rfl, fun _ => rfl, hread, (List.append_nil u).symm⟩
    · cases h
  · obtain ⟨t, u'⟩ := r
    rintro ⟨⟨e', recognized, left⟩, rfl, hconsumed, hread, hu⟩
    unfold handOne
    simp only at hread hu hconsumed ⊢
    cases recognized with
    | false =>
        simp only [hread, hu]
        rfl
    | true =>
        obtain rfl : left = [] := hconsumed rfl
        simp only [hread, hu]
        exact congrArg some (congrArg (Prod.mk t) (List.append_nil u).symm)

/-- The calls of the reader are recorded in order. -/
theorem recorded_eq_ok {known : TagReader σ} {tag : UInt32} {s : σ} {calls : List TagCall}
    {payload left : Bytes} {b : Bool} {r : σ × List TagCall} :
    recorded known tag (s, calls) payload = .ok ((b, r), left) ↔
      known tag s payload = .ok ((b, r.1), left) ∧ r.2 = calls ++ [⟨(tag, payload), b, left⟩] := by
  obtain ⟨t, calls'⟩ := r
  unfold recorded
  cases hread : known tag s payload with
  | error e =>
      constructor
      · intro h
        cases h
      · rintro ⟨h, -⟩
        cases h
  | ok p =>
      obtain ⟨⟨b', t'⟩, left'⟩ := p
      constructor
      · intro h
        cases h
        exact ⟨rfl, rfl⟩
      · rintro ⟨h, hcalls⟩
        cases h
        simp only at hcalls
        subst hcalls
        rfl

/-- One entry handed to the recording callback: one call is noted, and the callback itself sees no
difference. -/
theorem handOne_recorded {known : TagReader σ} {s : σ} {calls : List TagCall} {u : UnknownTaggedFields}
    {e : UInt32 × Bytes} {r : (σ × List TagCall) × UnknownTaggedFields} :
    handOne (recorded known) ((s, calls), u) e = some r ↔
      ∃ c : TagCall, c.entry = e ∧ c.Consumed ∧
        known e.1 s e.2 = .ok ((c.recognized, r.1.1), c.left) ∧ r.1.2 = calls ++ [c] ∧
        r.2 = u ++ refusedEntries [c] := by
  rw [handOne_eq_some]
  refine exists_congr fun c => ?_
  rw [recorded_eq_ok]
  constructor
  · rintro ⟨rfl, hconsumed, ⟨hread, hcalls⟩, hu⟩
    exact ⟨rfl, hconsumed, hread, hcalls, hu⟩
  · rintro ⟨rfl, hconsumed, hread, hcalls, hu⟩
    exact ⟨rfl, hconsumed, ⟨hread, hcalls⟩, hu⟩

/-- What is refused is refused call by call. -/
theorem refusedEntries_append (c d : List TagCall) :
    refusedEntries (c ++ d) = refusedEntries c ++ refusedEntries d := by
  unfold refusedEntries
  rw [List.filter_append, List.map_append]

/-- A run of the recording callback is a run of the callback: it notes each entry once and in order. -/
theorem foldlM_recorded {known : TagReader σ} {entries : List (UInt32 × Bytes)} :
    ∀ (calls : List TagCall) {s : σ} {u : UnknownTaggedFields} {t : σ} {u' : UnknownTaggedFields},
      entries.foldlM (handOne known) (s, u) = some (t, u') →
        ∃ noted : List TagCall, noted.map (·.entry) = entries ∧
          (∀ c ∈ noted, c.Consumed ∧ c.Made known) ∧ u' = u ++ refusedEntries noted ∧
          entries.foldlM (handOne (recorded known)) ((s, calls), u) = some ((t, calls ++ noted), u') := by
  induction entries with
  | nil =>
      intro calls s u t u' h
      cases h
      exact ⟨[], rfl, fun c hc => absurd hc List.not_mem_nil, (List.append_nil u).symm,
        by rw [List.append_nil]; rfl⟩
  | cons e entries ih =>
      intro calls s u t u' h
      rw [List.foldlM_cons] at h
      obtain ⟨⟨s₁, u₁⟩, hone, h⟩ := Option.bind_eq_some_iff.mp h
      obtain ⟨c, hentry, hconsumed, hread, hu₁⟩ := handOne_eq_some.mp hone
      obtain ⟨noted, hnoted, hall, hu', hfold⟩ := ih (calls ++ [c]) h
      have hrecorded : handOne (recorded known) ((s, calls), u) e = some ((s₁, calls ++ [c]), u₁) :=
        handOne_recorded.mpr ⟨c, hentry, hconsumed, hread, rfl, hu₁⟩
      refine ⟨c :: noted, ?_, ?_, ?_, ?_⟩
      · rw [List.map_cons, hentry, hnoted]
      · intro d hd
        rcases List.mem_cons.mp hd with rfl | hd
        · exact ⟨hconsumed, s, s₁, hentry ▸ hread⟩
        · exact hall d hd
      · simp only at hu₁
        rw [hu', hu₁, List.append_assoc, ← refusedEntries_append]
        rfl
      · rw [List.foldlM_cons, hrecorded]
        simp only [Option.bind_eq_bind, Option.bind_some]
        rw [hfold, List.append_assoc]
        rfl

/-- A callback that answers `verdict` and reads what it recognizes to its end takes every entry. -/
theorem foldlM_of_verdict {known : TagReader σ} {verdict : UInt32 → Bool}
    {entries : List (UInt32 × Bytes)}
    (h : ∀ e ∈ entries, ∀ s, ∃ t left, known e.1 s e.2 = .ok ((verdict e.1, t), left) ∧
      (verdict e.1 = true → left = [])) :
    ∀ (s : σ) (u : UnknownTaggedFields), ∃ t,
      entries.foldlM (handOne known) (s, u) =
        some (t, u ++ (entries.filter fun e => !verdict e.1).map fun e => ⟨e.1, e.2⟩) := by
  induction entries with
  | nil =>
      intro s u
      exact ⟨s, congrArg some (congrArg (Prod.mk s) (List.append_nil u).symm)⟩
  | cons e entries ih =>
      intro s u
      obtain ⟨t, left, hread, hleft⟩ := h e List.mem_cons_self s
      have hone : handOne known (s, u) e = some (t, u ++ refusedEntries [⟨e, verdict e.1, left⟩]) :=
        handOne_eq_some.mpr ⟨⟨e, verdict e.1, left⟩, rfl, hleft, hread, rfl⟩
      obtain ⟨t', hfold⟩ := ih (fun e' he' => h e' (List.mem_cons_of_mem e he')) t
        (u ++ refusedEntries [⟨e, verdict e.1, left⟩])
      refine ⟨t', ?_⟩
      rw [List.foldlM_cons, hone]
      simp only [Option.bind_eq_bind, Option.bind_some]
      rw [hfold, List.append_assoc]
      cases hverdict : verdict e.1 with
      | false => simp [refusedEntries, hverdict]
      | true => simp [refusedEntries, hverdict]

/-! ## Known and unknown entries apart

What was recognized and what was not are two parts of one list in the order of the tags. -/

section
variable {entries : List (UInt32 × Bytes)} {unknown : UnknownTaggedFields}

/-- Tags that are distinct stay so. -/
theorem pairs_nodup (h : (entries.map Prod.fst ++ unknown.map (·.tag)).Nodup) :
    ((entries ++ unknown.map fun u => (u.tag, u.bytes)).map Prod.fst).Nodup := by
  rw [List.map_append, List.map_map]
  exact h

/-- Lists of the same entries that both ascend are the same list. -/
theorem eq_of_perm_of_ascending {as bs : List (UInt32 × Bytes)} (h : as.Perm bs)
    (has : as.Pairwise (fun a b => a.1 < b.1)) (hbs : bs.Pairwise (fun a b => a.1 < b.1)) : as = bs :=
  h.eq_of_pairwise (fun _ _ _ _ hab hba => absurd hab (UInt32.lt_asymm hba)) has hbs

/-- A verdict that tells the known tags from the unknown ones takes the known entries out of the merge. -/
theorem filter_sortedFields_known {verdict : UInt32 → Bool}
    (h : (entries.map Prod.fst ++ unknown.map (·.tag)).Nodup)
    (hknown : ∀ e ∈ entries, verdict e.1 = true) (hunknown : ∀ u ∈ unknown, verdict u.tag = false) :
    (sortedFields entries unknown).filter (fun e => verdict e.1) = sortedFields entries [] := by
  have hnodup : (entries.map Prod.fst ++ ([] : UnknownTaggedFields).map (·.tag)).Nodup := by
    rw [List.map_nil, List.append_nil]
    exact (List.nodup_append.mp h).1
  refine eq_of_perm_of_ascending ?_ ((sortedFields_ascending (pairs_nodup h)).filter _)
    (sortedFields_ascending (pairs_nodup hnodup))
  have hall : entries.filter (fun e => verdict e.1) = entries := List.filter_eq_self.mpr hknown
  have hnone : (unknown.map fun u => (u.tag, u.bytes)).filter (fun e => verdict e.1) = [] := by
    refine List.filter_eq_nil_iff.mpr fun e he => ?_
    obtain ⟨u, hu, rfl⟩ := List.mem_map.mp he
    rw [hunknown u hu]
    exact Bool.false_ne_true
  have hperm := (sortedFields_perm entries unknown).filter fun e => verdict e.1
  rw [List.filter_append, hall, hnone] at hperm
  exact hperm.trans (sortedFields_perm entries []).symm

/-- The unknown fields are what the sorted section leaves. -/
theorem filter_sortedFields_unknown {verdict : UInt32 → Bool}
    (h : (entries.map Prod.fst ++ unknown.map (·.tag)).Nodup)
    (hascending : unknown.Pairwise (fun a b => a.tag < b.tag))
    (hknown : ∀ e ∈ entries, verdict e.1 = true) (hunknown : ∀ u ∈ unknown, verdict u.tag = false) :
    ((sortedFields entries unknown).filter fun e => !verdict e.1).map (fun e => ⟨e.1, e.2⟩) = unknown := by
  have hall : (unknown.map fun u => (u.tag, u.bytes)).filter (fun e => !verdict e.1) =
      unknown.map fun u => (u.tag, u.bytes) := by
    refine List.filter_eq_self.mpr fun e he => ?_
    obtain ⟨u, hu, rfl⟩ := List.mem_map.mp he
    rw [hunknown u hu]
    rfl
  have hnone : entries.filter (fun e => !verdict e.1) = [] := by
    refine List.filter_eq_nil_iff.mpr fun e he => ?_
    rw [hknown e he]
    exact Bool.false_ne_true
  have hperm := (sortedFields_perm entries unknown).filter fun e => !verdict e.1
  rw [List.filter_append, hall, hnone, List.nil_append] at hperm
  have heq := eq_of_perm_of_ascending hperm ((sortedFields_ascending (pairs_nodup h)).filter _)
    (List.pairwise_map.mpr hascending)
  rw [heq, List.map_map]
  exact List.map_id unknown

end

/-- What the callback recognized is what its verdict says of the entries. -/
theorem recognizedEntries_of_verdict {verdict : UInt32 → Bool} {calls : List TagCall}
    (h : ∀ c ∈ calls, c.recognized = verdict c.entry.1) :
    recognizedEntries calls = (calls.map (·.entry)).filter fun e => verdict e.1 := by
  unfold recognizedEntries
  rw [List.filter_map, List.filter_congr h]
  rfl

/-- Every call is recognized or refused. -/
theorem recognized_append_refused_perm (calls : List TagCall) :
    (recognizedEntries calls ++ (refusedEntries calls).map fun u => (u.tag, u.bytes)).Perm
      (calls.map (·.entry)) := by
  have hrefused : (refusedEntries calls).map (fun u => (u.tag, u.bytes)) =
      (calls.filter (!·.recognized)).map (·.entry) := by
    unfold refusedEntries
    rw [List.map_map]
    rfl
  unfold recognizedEntries
  rw [hrefused, ← List.map_append]
  exact (List.filter_append_perm _ calls).map _

/-! ## What the writer refuses

The writer stops at a payload whose length does not fit, and at nothing else. -/

/-- A writer that stops early has met a count or a length that does not fit. -/
def StopsAtOverflow (x : Encode) : Prop :=
  x.result = .ok () ∨ ∃ what len, x.result = .error (.lengthOverflow what len)

theorem stopsAtOverflow_bind {x : Encode} {f : Unit → Encode} (hx : StopsAtOverflow x)
    (hf : StopsAtOverflow (f ())) : StopsAtOverflow (x >>= f) := by
  obtain ⟨out, result⟩ := x
  rcases hx with hok | ⟨what, len, herr⟩
  · cases hok
    exact hf
  · cases herr
    exact Or.inr ⟨what, len, rfl⟩

theorem stopsAtOverflow_putVarintLength (len : Nat) (what : String) :
    StopsAtOverflow (putVarintLength len what) := by
  unfold putVarintLength
  split
  · exact Or.inl rfl
  · exact Or.inr ⟨what, len, rfl⟩

/-- The section is written up to the first length that does not fit. -/
theorem stopsAtOverflow_writeTaggedFields (entries : List (UInt32 × Bytes))
    (unknown : UnknownTaggedFields) : StopsAtOverflow (writeTaggedFields entries unknown) := by
  have hfield : ∀ e, StopsAtOverflow (putTaggedField e) := fun e =>
    stopsAtOverflow_bind (Or.inl rfl)
      (stopsAtOverflow_bind (stopsAtOverflow_putVarintLength _ _) (Or.inl rfl))
  have heach : ∀ es, StopsAtOverflow (each putTaggedField es) := by
    intro es
    induction es with
    | nil => exact Or.inl rfl
    | cons e es ih => exact stopsAtOverflow_bind (hfield e) ih
  exact stopsAtOverflow_bind (stopsAtOverflow_putVarintLength _ _) (heach _)

/-! ## The trailer

Both directions: what is written is read back, and what is read was written. -/

/-- Known and unknown fields of distinct tags, the unknown ones by ascending tag. -/
structure TrailerFields (entries : List (UInt32 × Bytes)) (unknown : UnknownTaggedFields) : Prop where
  distinct : (entries.map Prod.fst ++ unknown.map (·.tag)).Nodup
  ascending : unknown.Pairwise (fun a b => a.tag < b.tag)

/-- The callback recognizes the known tags, whose payloads it reads to their end, and no unknown one. -/
structure TrailerReader (known : TagReader σ) (entries : List (UInt32 × Bytes))
    (unknown : UnknownTaggedFields) : Prop where
  reads : ∀ e ∈ entries, ∀ s, ∃ t, known e.1 s e.2 = .ok ((true, t), [])
  refuses : ∀ u ∈ unknown, ∀ s, ∃ t left, known u.tag s u.bytes = .ok ((false, t), left)

/-- The count and every length fit a `u32` varint. -/
def TrailerFits (entries : List (UInt32 × Bytes)) (unknown : UnknownTaggedFields) : Prop :=
  entries.length + unknown.length < 2 ^ 32 ∧ (∀ e ∈ entries, e.2.length < 2 ^ 32) ∧
    ∀ u ∈ unknown, u.bytes.length < 2 ^ 32

/-- A trailer that was written is read back, with one call for each entry. -/
theorem reads_trailer {known : TagReader σ} {entries : List (UInt32 × Bytes)}
    {unknown : UnknownTaggedFields} (hfields : TrailerFields entries unknown)
    (hreader : TrailerReader known entries unknown) (s : σ) {bs rest : Bytes}
    (hwire : wireFields bs = .ok (sortedFields entries unknown, rest)) :
    ∃ t calls, readTaggedFieldsWith known s bs = .ok ((t, unknown), rest) ∧
      readTaggedFieldsWith (recorded known) (s, []) bs = .ok (((t, calls), unknown), rest) ∧
      calls.map (·.entry) = sortedFields entries unknown ∧
      recognizedEntries calls = sortedFields entries [] ∧ ∀ c ∈ calls, c.Consumed := by
  -- the verdict of the callback, by tag
  let verdict : UInt32 → Bool := fun tag => decide (tag ∈ entries.map Prod.fst)
  have hknown : ∀ e ∈ entries, verdict e.1 = true := fun e he =>
    decide_eq_true (List.mem_map_of_mem he)
  have hunknown : ∀ u ∈ unknown, verdict u.tag = false := by
    intro u hu
    refine decide_eq_false fun hmem => ?_
    exact (List.nodup_append.mp hfields.distinct).2.2 _ hmem _ (List.mem_map_of_mem hu) rfl
  have hverdict : ∀ e ∈ sortedFields entries unknown, ∀ s, ∃ t left,
      known e.1 s e.2 = .ok ((verdict e.1, t), left) ∧ (verdict e.1 = true → left = []) := by
    intro e he s
    rcases List.mem_append.mp ((sortedFields_perm entries unknown).mem_iff.mp he) with he | he
    · obtain ⟨t, hread⟩ := hreader.reads e he s
      exact ⟨t, [], by rw [hknown e he]; exact hread, fun _ => rfl⟩
    · obtain ⟨u, hu, rfl⟩ := List.mem_map.mp he
      obtain ⟨t, left, hread⟩ := hreader.refuses u hu s
      refine ⟨t, left, by rw [hunknown u hu]; exact hread, fun h => ?_⟩
      rw [hunknown u hu] at h
      cases h
  have hsorted := sortedFields_ascending (pairs_nodup hfields.distinct)
  obtain ⟨t, hfold⟩ := foldlM_of_verdict hverdict s []
  rw [List.nil_append, filter_sortedFields_unknown hfields.distinct hfields.ascending hknown hunknown]
    at hfold
  obtain ⟨calls, hentries, hcalls, -, hrecorded⟩ := foldlM_recorded [] hfold
  rw [List.nil_append] at hrecorded
  refine ⟨t, calls, readTaggedFieldsWith_eq_ok.mpr ⟨_, hwire, hsorted, hfold⟩,
    readTaggedFieldsWith_eq_ok.mpr ⟨_, hwire, hsorted, hrecorded⟩, hentries, ?_,
    fun c hc => (hcalls c hc).1⟩
  have hrecognized : ∀ c ∈ calls, c.recognized = verdict c.entry.1 := by
    intro c hc
    obtain ⟨s₁, t₁, hmade⟩ := (hcalls c hc).2
    obtain ⟨t₂, left, hread, -⟩ := hverdict c.entry (hentries ▸ List.mem_map_of_mem hc) s₁
    rw [hmade] at hread
    simp only [Except.ok.injEq, Prod.mk.injEq] at hread
    exact hread.1.1
  rw [recognizedEntries_of_verdict hrecognized, hentries,
    filter_sortedFields_known hfields.distinct hknown hunknown]

/-- What the reader accepts is a trailer whose tags ascend, handed out entry by entry. -/
theorem trailer_of_reads {known : TagReader σ} {s t : σ} {unknown : UnknownTaggedFields} {bs rest : Bytes}
    (h : readTaggedFieldsWith known s bs = .ok ((t, unknown), rest)) :
    ∃ entries calls, wireFields bs = .ok (entries, rest) ∧ entries.Pairwise (fun a b => a.1 < b.1) ∧
      readTaggedFieldsWith (recorded known) (s, []) bs = .ok (((t, calls), unknown), rest) ∧
      calls.map (·.entry) = entries ∧ (∀ c ∈ calls, c.Consumed) ∧ unknown = refusedEntries calls ∧
      (recognizedEntries calls ++ unknown.map fun u => (u.tag, u.bytes)).Perm entries := by
  obtain ⟨entries, hwire, hsorted, hfold⟩ := readTaggedFieldsWith_eq_ok.mp h
  obtain ⟨calls, hentries, hcalls, hunknown, hrecorded⟩ := foldlM_recorded [] hfold
  rw [List.nil_append] at hrecorded hunknown
  refine ⟨entries, calls, hwire, hsorted, readTaggedFieldsWith_eq_ok.mpr ⟨_, hwire, hsorted, hrecorded⟩,
    hentries, fun c hc => (hcalls c hc).1, hunknown, ?_⟩
  rw [← hentries, hunknown]
  exact recognized_append_refused_perm calls

/-- **Trailers.** What is written has the predicted length and is read back in ascending order, one call
for each entry, in front of any suffix; and whatever is read was an ascending trailer, each of whose
entries was handed out once and kept or read to its end. The writer refuses lengths that do not fit. -/
theorem taggedTrailer_exact :
    (∀ (σ : Type) (known : TagReader σ) (s : σ) (entries : List (UInt32 × Bytes))
      (unknown : UnknownTaggedFields), TrailerFields entries unknown →
      TrailerReader known entries unknown →
      ((∃ w, Wrote (writeTaggedFields entries unknown) w) ↔ TrailerFits entries unknown) ∧
      (¬TrailerFits entries unknown → ∃ what len,
        (writeTaggedFields entries unknown).result = .error (.lengthOverflow what len)) ∧
      ∀ w, Wrote (writeTaggedFields entries unknown) w →
        w.length = taggedFieldsLen (entries.map fun e => (e.1, e.2.length)) unknown ∧
        ∀ rest, ∃ t calls, readTaggedFieldsWith known s (w ++ rest) = .ok ((t, unknown), rest) ∧
          readTaggedFieldsWith (recorded known) (s, []) (w ++ rest) =
            .ok (((t, calls), unknown), rest) ∧
          (calls.map (·.entry)).Pairwise (fun a b => a.1 < b.1) ∧
          recognizedEntries calls = sortedFields entries [] ∧ ∀ c ∈ calls, c.Consumed) ∧
    ∀ (σ : Type) (known : TagReader σ) (s t : σ) (unknown : UnknownTaggedFields) (bs rest : Bytes),
      readTaggedFieldsWith known s bs = .ok ((t, unknown), rest) →
      ∃ entries calls, wireFields bs = .ok (entries, rest) ∧ entries.Pairwise (fun a b => a.1 < b.1) ∧
        readTaggedFieldsWith (recorded known) (s, []) bs = .ok (((t, calls), unknown), rest) ∧
        calls.map (·.entry) = entries ∧ (∀ c ∈ calls, c.Consumed) ∧ unknown = refusedEntries calls ∧
        (recognizedEntries calls ++ unknown.map fun u => (u.tag, u.bytes)).Perm entries := by
  refine ⟨?_, fun σ known s t unknown bs rest h => trailer_of_reads h⟩
  intro σ known s entries unknown hfields hreader
  have hiff := wrote_writeTaggedFields_iff entries unknown
  refine ⟨hiff, ?_, ?_⟩
  · intro hnot
    rcases stopsAtOverflow_writeTaggedFields entries unknown with hok | herr
    · exact absurd (hiff.mp ⟨_, by unfold Wrote; rw [← hok]⟩) hnot
    · exact herr
  · intro w hw
    obtain ⟨hcount, hlen, hunknown⟩ := hiff.mp ⟨w, hw⟩
    obtain ⟨w', hw', hlength, hwire, -⟩ := exact_wireFields hcount hlen hunknown
    obtain rfl : w = w' := congrArg Output.out (hw.symm.trans hw')
    refine ⟨hlength, fun rest => ?_⟩
    obtain ⟨t, calls, hread, hrecorded, hentries, hknown, hconsumed⟩ :=
      reads_trailer hfields hreader s (hwire rest)
    refine ⟨t, calls, hread, hrecorded, ?_, hknown, hconsumed⟩
    rw [hentries]
    exact sortedFields_ascending (pairs_nodup hfields.distinct)

/-- A payload that no `u32` counts is refused. -/
theorem writeTaggedFields_refuses :
    TrailerFields [(0, List.replicate (2 ^ 32) 0)] [] ∧
      ¬∃ w, Wrote (writeTaggedFields [(0, List.replicate (2 ^ 32) 0)] []) w := by
  refine ⟨⟨List.nodup_singleton 0, List.Pairwise.nil⟩, fun h => ?_⟩
  have hfits := ((wrote_writeTaggedFields_iff _ _).mp h).2.1 _ List.mem_cons_self
  rw [List.length_replicate] at hfits
  exact absurd hfits (Nat.lt_irrefl _)

/-- A callback that takes whole payloads of one tag. -/
def takesTag (tag : UInt32) : TagReader Unit := fun t _ payload =>
  if t = tag then .ok ((true, ()), []) else .ok ((false, ()), payload)

/-- A known field above an unknown one, and the bytes they are written to. -/
theorem taggedTrailer_exact_pair :
    (∃ w, Wrote (writeTaggedFields [(10, [0xAA])] [⟨5, [0xBB]⟩]) w ∧ w.length = 7 ∧
      ∃ t calls, readTaggedFieldsWith (recorded (takesTag 10)) ((), []) (w ++ [1]) =
        .ok (((t, calls), [⟨5, [0xBB]⟩]), [1]) ∧ recognizedEntries calls = [(10, [0xAA])]) ∧
      ∃ entries calls, wireFields [2, 5, 1, 0xBB, 10, 1, 0xAA] = .ok (entries, []) ∧
        entries.Pairwise (fun a b => a.1 < b.1) ∧ calls.map (·.entry) = entries ∧
        [⟨5, [0xBB]⟩] = refusedEntries calls := by
  have hfields : TrailerFields [(10, [0xAA])] [⟨5, [0xBB]⟩] := ⟨by decide, List.pairwise_singleton _ _⟩
  have hreader : TrailerReader (takesTag 10) [(10, [0xAA])] [⟨5, [0xBB]⟩] := by
    constructor
    · intro e he s
      cases List.mem_singleton.mp he
      exact ⟨(), rfl⟩
    · intro u hu s
      cases List.mem_singleton.mp hu
      exact ⟨(), [0xBB], rfl⟩
  obtain ⟨hiff, -, hread⟩ := taggedTrailer_exact.1 Unit (takesTag 10) () _ _ hfields hreader
  obtain ⟨w, hw⟩ := hiff.mpr ⟨by decide, by decide, by decide⟩
  obtain ⟨hlen, hrest⟩ := hread w hw
  obtain ⟨t, calls, -, hcalls, -, hknown, -⟩ := hrest [1]
  obtain ⟨entries, calls', hwire, hsorted, -, hentries, -, hrefused, -⟩ :=
    taggedTrailer_exact.2 Unit (takesTag 10) () () [⟨5, [0xBB]⟩] [2, 5, 1, 0xBB, 10, 1, 0xAA] []
      (by decide +kernel)
  exact ⟨⟨w, hw, hlen.trans (by decide +kernel), t, calls, hcalls, hknown⟩, entries, calls', hwire,
    hsorted, hentries, hrefused⟩

end Krabka.Protocol
