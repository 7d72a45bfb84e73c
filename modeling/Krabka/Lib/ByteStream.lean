import Mathlib

/-!
# `Lib.ByteStream` — reading values off a byte string and appending them to one

A `Reader` takes a value off the front of a byte string and hands on the rest, or fails. An `Output` is
the bytes a fallible encoder has appended when it stops, with how it stopped.

## Contents
- **Readers.** `byte`, `take`, `mapErr`, `inside` and the two counted loops `times` and `loop`; one
  inversion lemma (`bind_eq_ok`) peels a `do` block apart.
- **Round trips.** `Reads d w a`: in front of any suffix, `d` reads exactly `w` and answers `a`. The
  rules compose along `>>=`, so a codec's round trip follows its own fields.
- **Outputs.** `put`, `fail` and `each`; `Wrote x w` says that `x` finished and appended exactly `w`.
-/

namespace ByteStream

abbrev Bytes := List UInt8

/-- A reader takes a value off the front of a byte string. -/
abbrev Reader (ε α : Type) := StateT Bytes (Except ε) α

variable {ε ε' α β σ : Type}

namespace Reader

/-! ## Running a `do` block

A sequence succeeds if its first step does and the rest does behind it. -/

/-- Behind a reader that succeeds, the next reads on. -/
theorem bind_of_ok {d : Reader ε α} {f : α → Reader ε β} {bs mid : Bytes} {a : α}
    (h : d bs = .ok (a, mid)) : (d >>= f) bs = f a mid := by
  change (d bs >>= fun p => f p.1 p.2) = f a mid
  rw [h]
  rfl

theorem bind_of_error {d : Reader ε α} {f : α → Reader ε β} {bs : Bytes} {e : ε}
    (h : d bs = .error e) : (d >>= f) bs = .error e := by
  change (d bs >>= fun p => f p.1 p.2) = .error e
  rw [h]
  rfl

/-- **The rule of sequence.** Both readers succeed, the second on what is left. -/
theorem bind_eq_ok {d : Reader ε α} {f : α → Reader ε β} {bs r : Bytes} {b : β} :
    (d >>= f) bs = .ok (b, r) ↔ ∃ a mid, d bs = .ok (a, mid) ∧ f a mid = .ok (b, r) := by
  cases h : d bs with
  | error e =>
      rw [bind_of_error h]
      constructor
      · intro hn; cases hn
      · rintro ⟨a, mid, hd, -⟩; cases hd
  | ok p =>
      obtain ⟨a, mid⟩ := p
      rw [bind_of_ok h]
      constructor
      · intro hf; exact ⟨a, mid, rfl, hf⟩
      · rintro ⟨a', mid', hd, hf⟩
        cases hd
        exact hf

/-- A sequence fails in one of its readers. -/
theorem bind_eq_error {d : Reader ε α} {f : α → Reader ε β} {bs : Bytes} {e : ε} :
    (d >>= f) bs = .error e ↔ d bs = .error e ∨ ∃ a mid, d bs = .ok (a, mid) ∧ f a mid = .error e := by
  cases h : d bs with
  | error e' =>
      rw [bind_of_error h]
      constructor
      · intro he
        cases he
        exact Or.inl rfl
      · rintro (he | ⟨a, mid, hd, -⟩)
        · cases he
          rfl
        · cases hd
  | ok p =>
      obtain ⟨a, mid⟩ := p
      rw [bind_of_ok h]
      constructor
      · intro he; exact Or.inr ⟨a, mid, rfl, he⟩
      · rintro (he | ⟨a', mid', hd, he⟩)
        · cases he
        · cases hd
          exact he

@[simp] theorem pure_apply (a : α) (bs : Bytes) : (pure a : Reader ε α) bs = .ok (a, bs) := rfl

@[simp] theorem throw_apply (e : ε) (bs : Bytes) : (throw e : Reader ε α) bs = .error e := rfl

/-! ## Primitive readers

What the combinators do, with an equation for each of them. -/

/-- The bytes that are left, which stay where they are. -/
def remaining : Reader ε Nat := fun bs => .ok (bs.length, bs)

/-- One byte, or `eof`. -/
def byte (eof : ε) : Reader ε UInt8
  | [] => .error eof
  | b :: bs => .ok (b, bs)

/-- `n` bytes; a shorter input fails with the number of bytes it lacks. -/
def take (n : Nat) (short : Nat → ε) : Reader ε Bytes := fun bs =>
  if bs.length < n then .error (short (n - bs.length)) else .ok (bs.take n, bs.drop n)

/-- A reader whose failures are renamed. -/
def mapErr (g : ε → ε') (d : Reader ε α) : Reader ε' α := fun bs => (d bs).mapError g

/-- Runs `d` on `body` alone and answers what it left of it; the input itself is not touched. -/
def inside (body : Bytes) (d : Reader ε α) : Reader ε (α × Bytes) := fun bs =>
  (d body).map (fun p => (p, bs))

/-- `n` values in order, the first with index `i`. -/
def times (d : Nat → Reader ε α) : Nat → Nat → Reader ε (List α)
  | 0, _ => pure []
  | n + 1, i => do
      let a ← d i
      let as ← times d n (i + 1)
      return a :: as

/-- A counted loop over a state, the first round with index `i`. -/
def loop (step : Nat → σ → Reader ε σ) : Nat → Nat → σ → Reader ε σ
  | 0, _, s => pure s
  | n + 1, i, s => do
      let s' ← step i s
      loop step n (i + 1) s'

/-- Taking bytes splits the input. -/
theorem take_eq_ok {n : Nat} {short : Nat → ε} {bs w r : Bytes} :
    take n short bs = .ok (w, r) ↔ bs = w ++ r ∧ w.length = n := by
  unfold take
  split
  · rename_i h
    constructor
    · intro hn; cases hn
    · rintro ⟨rfl, rfl⟩
      simp only [List.length_append] at h
      omega
  · rename_i h
    constructor
    · intro hok
      cases hok
      exact ⟨(List.take_append_drop n bs).symm, List.length_take_of_le (by omega)⟩
    · rintro ⟨rfl, rfl⟩
      simp

/-- Translating errors changes no success. -/
theorem mapErr_eq_ok {g : ε → ε'} {d : Reader ε α} {bs r : Bytes} {a : α} :
    mapErr g d bs = .ok (a, r) ↔ d bs = .ok (a, r) := by
  unfold mapErr
  cases h : d bs with
  | error e =>
      constructor
      · intro hn; cases hn
      · intro hn; cases hn
  | ok p => simp [Except.mapError]

theorem mapErr_eq_error {g : ε → ε'} {d : Reader ε α} {bs : Bytes} {e : ε'} :
    mapErr g d bs = .error e ↔ ∃ e', d bs = .error e' ∧ g e' = e := by
  unfold mapErr
  cases d bs with
  | error e' => simp [Except.mapError]
  | ok p => simp [Except.mapError]

/-- Reading inside a body leaves the input alone. -/
theorem inside_eq_ok {body bs r left : Bytes} {d : Reader ε α} {a : α} :
    inside body d bs = .ok ((a, left), r) ↔ d body = .ok (a, left) ∧ r = bs := by
  unfold inside
  cases h : d body with
  | error e =>
      constructor
      · intro hn; cases hn
      · rintro ⟨hn, -⟩; cases hn
  | ok p =>
      obtain ⟨a', left'⟩ := p
      simp only [Except.map, Except.ok.injEq, Prod.mk.injEq]
      tauto

/-- Repackaging what is read inside a body is repackaging it outside. -/
theorem inside_map {body : Bytes} {d : Reader ε α} {f : α → β} :
    inside body (d >>= fun a => pure (f a)) = inside body d >>= fun p => pure (f p.1, p.2) := by
  funext bs
  cases h : d body with
  | error e =>
      have hinside : inside body d bs = .error e := by
        unfold inside
        rw [h]
        rfl
      rw [bind_of_error hinside]
      unfold inside
      rw [bind_of_error h]
      rfl
  | ok p =>
      rw [bind_of_ok (inside_eq_ok.mpr ⟨h, rfl⟩)]
      unfold inside
      rw [bind_of_ok h]
      rfl

/-- A counted run fails where one of its rounds does. -/
theorem exists_of_times_eq_error {d : Nat → Reader ε α} {e : ε} :
    ∀ {n i : Nat} {bs : Bytes}, times d n i bs = .error e → ∃ j mid, d j mid = .error e := by
  intro n
  induction n with
  | zero =>
      intro i bs h
      cases h
  | succ n ih =>
      intro i bs h
      rcases bind_eq_error.mp h with hd | ⟨a, mid, -, h⟩
      · exact ⟨i, bs, hd⟩
      · rcases bind_eq_error.mp h with hrest | ⟨as, mid', -, h⟩
        · exact ih hrest
        · cases h

/-- A counted loop yields its count. -/
theorem length_of_times {d : Nat → Reader ε α} :
    ∀ {n i : Nat} {bs left : Bytes} {as : List α}, times d n i bs = .ok (as, left) →
      as.length = n := by
  intro n
  induction n with
  | zero =>
      intro i bs left as h
      cases h
      rfl
  | succ n ih =>
      intro i bs left as h
      obtain ⟨a, mid, -, h⟩ := bind_eq_ok.mp h
      obtain ⟨as', mid', hrest, h⟩ := bind_eq_ok.mp h
      cases h
      rw [List.length_cons, ih hrest]

/-- A loop whose rounds repackage what another's read, by their place in the loop, repackages its list. -/
theorem times_mapIdx {d : Nat → Reader ε β} {d' : Nat → Reader ε' α} {g : Nat → α → β}
    (h : ∀ i bs b mid, d i bs = .ok (b, mid) ↔ ∃ a, d' i bs = .ok (a, mid) ∧ b = g i a) :
    ∀ {n i : Nat} {bs left : Bytes} {ys : List β},
      times d n i bs = .ok (ys, left) ↔
        ∃ as, times d' n i bs = .ok (as, left) ∧ ys = (as.zipIdx i).map (fun p => g p.2 p.1) := by
  intro n
  induction n with
  | zero =>
      intro i bs left ys
      constructor
      · intro ht
        cases ht
        exact ⟨[], rfl, rfl⟩
      · rintro ⟨as, ht, rfl⟩
        cases ht
        rfl
  | succ n ih =>
      intro i bs left ys
      simp only [times, bind_eq_ok, h, ih, pure_apply, Except.ok.injEq, Prod.mk.injEq]
      constructor
      · rintro ⟨b, mid, ⟨a, ha, rfl⟩, ys', left', ⟨as, has, rfl⟩, rfl, rfl⟩
        exact ⟨a :: as, ⟨a, mid, ha, as, left', has, rfl, rfl⟩, rfl⟩
      · rintro ⟨as, ⟨a, mid, ha, as', left', has, rfl, rfl⟩, rfl⟩
        exact ⟨g i a, mid, ⟨a, ha, rfl⟩, _, left', ⟨as', has, rfl⟩, rfl, rfl⟩

/-- A loop whose rounds repackage what another's read repackages its list. -/
theorem times_map {d : Nat → Reader ε β} {d' : Nat → Reader ε' α} {g : α → β}
    (h : ∀ i bs b mid, d i bs = .ok (b, mid) ↔ ∃ a, d' i bs = .ok (a, mid) ∧ b = g a)
    {n i : Nat} {bs left : Bytes} {ys : List β} :
    times d n i bs = .ok (ys, left) ↔ ∃ as, times d' n i bs = .ok (as, left) ∧ ys = as.map g := by
  have hfst : ∀ (as : List α) (i : Nat), (as.zipIdx i).map (fun p => g p.1) = as.map g := by
    intro as i
    change (as.zipIdx i).map (g ∘ Prod.fst) = as.map g
    rw [← List.map_map, List.zipIdx_map_fst]
  rw [times_mapIdx (g := fun _ => g) h]
  simp only [hfst]

/-- A loop whose rounds read what another's read under a wrapper reads its list under that wrapper. -/
theorem times_comap {d : Nat → Reader ε β} {d' : Nat → Reader ε' α} {g : β → α}
    (h : ∀ i bs b mid, d i bs = .ok (b, mid) ↔ d' i bs = .ok (g b, mid))
    {n i : Nat} {bs left : Bytes} {ys : List β} :
    times d n i bs = .ok (ys, left) ↔ times d' n i bs = .ok (ys.map g, left) := by
  induction n generalizing i bs left ys with
  | zero =>
      constructor
      · intro ht
        cases ht
        rfl
      · intro ht
        cases ys with
        | nil => cases ht; rfl
        | cons y ys => cases ht
  | succ n ih =>
      simp only [times, bind_eq_ok, h, pure_apply, Except.ok.injEq, Prod.mk.injEq]
      constructor
      · rintro ⟨b, mid, hb, ys', left', hys, rfl, rfl⟩
        exact ⟨g b, mid, hb, ys'.map g, left', ih.mp hys, rfl, rfl⟩
      · rintro ⟨a, mid, ha, as, left', has, hcons, rfl⟩
        cases ys with
        | nil => cases hcons
        | cons y ys =>
            cases hcons
            exact ⟨y, mid, ha, ys, left', ih.mpr has, rfl, rfl⟩

/-- Loops whose rounds succeed alike succeed alike. -/
theorem times_congr {d : Nat → Reader ε α} {d' : Nat → Reader ε' α}
    (h : ∀ i bs a mid, d i bs = .ok (a, mid) ↔ d' i bs = .ok (a, mid))
    {n i : Nat} {bs left : Bytes} {as : List α} :
    times d n i bs = .ok (as, left) ↔ times d' n i bs = .ok (as, left) := by
  rw [times_comap (g := id) h, List.map_id]

/-- What every turn yields, all of them do. -/
theorem forall_of_times {d : Nat → Reader ε α} {P : α → Prop}
    (h : ∀ i bs a mid, d i bs = .ok (a, mid) → P a) :
    ∀ {n i : Nat} {bs left : Bytes} {as : List α}, times d n i bs = .ok (as, left) →
      ∀ a ∈ as, P a := by
  intro n
  induction n with
  | zero =>
      intro i bs left as ht a ha
      cases ht
      exact absurd ha List.not_mem_nil
  | succ n ih =>
      intro i bs left as ht a ha
      obtain ⟨b, mid, hb, ht⟩ := bind_eq_ok.mp ht
      obtain ⟨as', mid', hrest, ht⟩ := bind_eq_ok.mp ht
      cases ht
      rcases List.mem_cons.mp ha with rfl | ha
      · exact h i bs a mid hb
      · exact ih hrest a ha

/-- A loop that folds in what another's rounds read folds in its list, failing where it fails. -/
theorem loop_eq_map_times {step : Nat → σ → Reader ε σ} {d : Nat → Reader ε α}
    {g : σ → α → σ} (h : ∀ i s, step i s = (fun a => g s a) <$> d i) (n i : Nat) (s : σ) :
    loop step n i s = (fun as => as.foldl g s) <$> times d n i := by
  induction n generalizing i s with
  | zero => rfl
  | succ n ih =>
    simp only [loop, times, h, ih, map_eq_pure_bind, bind_assoc, pure_bind, List.foldl_cons]

/-- A loop over a state whose rounds read one value each and fold it in reads a list of values. -/
theorem loop_eq_ok {step : Nat → σ → Reader ε σ} {d : Nat → Reader ε α} {g : σ → α → σ}
    (h : ∀ i s bs s' mid, step i s bs = .ok (s', mid) ↔ ∃ a, d i bs = .ok (a, mid) ∧ s' = g s a) :
    ∀ {n i : Nat} {s s' : σ} {bs left : Bytes},
      loop step n i s bs = .ok (s', left) ↔
        ∃ as, times d n i bs = .ok (as, left) ∧ s' = as.foldl g s := by
  intro n
  induction n with
  | zero =>
      intro i s s' bs left
      constructor
      · intro h
        cases h
        exact ⟨[], rfl, rfl⟩
      · rintro ⟨as, h, rfl⟩
        cases h
        rfl
  | succ n ih =>
      intro i s s' bs left
      simp only [loop, times, bind_eq_ok, h, ih]
      constructor
      · rintro ⟨s₁, mid, ⟨a, ha, rfl⟩, as, has, rfl⟩
        exact ⟨a :: as, ⟨a, mid, ha, as, left, has, rfl⟩, rfl⟩
      · rintro ⟨as, ⟨a, mid, ha, as', mid', has, hcons⟩, rfl⟩
        cases hcons
        exact ⟨g s a, mid, ⟨a, ha, rfl⟩, as', has, rfl⟩

/-! ## Round trips

The rules follow the reader; what is read is a concatenation in the same order. -/

/-- In front of any suffix, `d` reads exactly `w` and answers `a`. -/
def Reads (d : Reader ε α) (w : Bytes) (a : α) : Prop :=
  ∀ rest, d (w ++ rest) = .ok (a, rest)

theorem Reads.pure (a : α) : Reads (Pure.pure a : Reader ε α) [] a := fun _ => rfl

/-- **Readers compose.** What each reads, both read one behind the other. -/
theorem Reads.bind {d : Reader ε α} {f : α → Reader ε β} {w₁ w₂ : Bytes} {a : α} {b : β}
    (hd : Reads d w₁ a) (hf : Reads (f a) w₂ b) : Reads (d >>= f) (w₁ ++ w₂) b := by
  intro rest
  rw [List.append_assoc, bind_of_ok (hd (w₂ ++ rest))]
  exact hf rest

/-- A block whose first reader takes all of `w`. -/
theorem Reads.bind_nil {d : Reader ε α} {f : α → Reader ε β} {w : Bytes} {a : α} {b : β}
    (hd : Reads d w a) (hf : Reads (f a) [] b) : Reads (d >>= f) w b := by
  have h := hd.bind hf
  rwa [List.append_nil] at h

/-- The last reader of a block, whose value only needs repackaging. -/
theorem Reads.map {d : Reader ε α} {w : Bytes} {a : α} (g : α → β) (hd : Reads d w a) :
    Reads (d >>= fun x => Pure.pure (g x)) w (g a) := hd.bind_nil (Reads.pure (g a))

/-- Translating errors changes nothing that is read. -/
theorem Reads.mapErr {g : ε → ε'} {d : Reader ε α} {w : Bytes} {a : α} (h : Reads d w a) :
    Reads (mapErr g d) w a := fun rest => mapErr_eq_ok.mpr (h rest)

/-- Bytes of a known length are taken as they are. -/
theorem Reads.take {w : Bytes} {n : Nat} {short : Nat → ε} (h : w.length = n) :
    Reads (take n short) w w := fun _ => take_eq_ok.mpr ⟨rfl, h⟩

/-- On a whole input: nothing is left. -/
theorem Reads.all {d : Reader ε α} {w : Bytes} {a : α} (h : Reads d w a) :
    d w = .ok (a, []) := by
  have := h []
  rwa [List.append_nil] at this

/-- A counted loop reads the encodings of its values one after the other. -/
theorem Reads.times {d : Nat → Reader ε α} {enc : α → Bytes} :
    ∀ (as : List α) (i : Nat), (∀ a ∈ as, ∀ j, Reads (d j) (enc a) a) →
      Reads (times d as.length i) (as.flatMap enc) as := by
  intro as
  induction as with
  | nil => intro i _; exact Reads.pure []
  | cons a as ih =>
      intro i h
      rw [List.flatMap_cons]
      refine (h a List.mem_cons_self i).bind ?_
      exact (ih (i + 1) (fun b hb => h b (List.mem_cons_of_mem a hb))).map (a :: ·)

end Reader

/-! ## Outputs

An output that fails has appended what was written before. -/

/-- The bytes that an encoder appended before it stopped, and how it stopped. -/
structure Output (ε α : Type) where
  out : Bytes
  result : Except ε α

namespace Output

instance : Monad (Output ε) where
  pure a := ⟨[], .ok a⟩
  bind x f :=
    match x.result with
    | .error e => ⟨x.out, .error e⟩
    | .ok a => ⟨x.out ++ (f a).out, (f a).result⟩

/-- Appends `bs`. -/
def put (bs : Bytes) : Output ε Unit := ⟨bs, .ok ()⟩

def fail (e : ε) : Output ε α := ⟨[], .error e⟩

/-- Encodes the elements of a list in order. -/
def each (f : α → Output ε Unit) : List α → Output ε Unit
  | [] => pure ()
  | a :: as => do
      f a
      each f as

/-- `x` finished, and appended exactly `w`. -/
def Wrote (x : Output ε Unit) (w : Bytes) : Prop := x = ⟨w, .ok ()⟩

/-- A plain write writes just its bytes. -/
theorem wrote_put {bs w : Bytes} : Wrote (put bs : Output ε Unit) w ↔ w = bs := by
  unfold Wrote put
  simp [eq_comm]

theorem wrote_pure {w : Bytes} : Wrote (pure () : Output ε Unit) w ↔ w = [] := by
  change (⟨[], .ok ()⟩ : Output ε Unit) = ⟨w, .ok ()⟩ ↔ w = []
  simp [eq_comm]

/-- A writer that fails has written nothing. -/
theorem not_wrote_fail {e : ε} {w : Bytes} : ¬Wrote (fail e : Output ε Unit) w := by
  unfold Wrote fail
  simp

/-- What a block appended is what its first step appended and then what the rest did. -/
theorem wrote_bind {x : Output ε Unit} {f : Unit → Output ε Unit} {w : Bytes} :
    Wrote (x >>= f) w ↔ ∃ w₁ w₂, Wrote x w₁ ∧ Wrote (f ()) w₂ ∧ w = w₁ ++ w₂ := by
  obtain ⟨out, result⟩ := x
  cases result with
  | error e =>
      constructor
      · intro h
        cases congrArg Output.result h
      · rintro ⟨w₁, w₂, h, -⟩
        cases congrArg Output.result h
  | ok a =>
      constructor
      · intro h
        have hr : (f ()).result = .ok () := congrArg Output.result h
        have ho : out ++ (f ()).out = w := congrArg Output.out h
        refine ⟨out, (f ()).out, rfl, ?_, ho.symm⟩
        unfold Wrote
        rw [← hr]
      · rintro ⟨w₁, w₂, h₁, h₂, rfl⟩
        cases congrArg Output.out h₁
        change (⟨out ++ (f ()).out, (f ()).result⟩ : Output ε Unit) = ⟨out ++ w₂, .ok ()⟩
        rw [h₂]

/-- A list is written element by element. -/
theorem wrote_each {f : α → Output ε Unit} {enc : α → Bytes} :
    ∀ {as : List α} {w : Bytes}, (∀ a ∈ as, ∀ v, Wrote (f a) v → v = enc a) →
      Wrote (each f as) w → w = as.flatMap enc ∧ ∀ a ∈ as, Wrote (f a) (enc a) := by
  intro as
  induction as with
  | nil =>
      intro w _ h
      exact ⟨wrote_pure.mp h, fun a ha => absurd ha (List.not_mem_nil)⟩
  | cons a as ih =>
      intro w henc h
      obtain ⟨w₁, w₂, h₁, h₂, rfl⟩ := wrote_bind.mp h
      obtain rfl := henc a List.mem_cons_self w₁ h₁
      obtain ⟨rfl, hall⟩ := ih (fun b hb => henc b (List.mem_cons_of_mem a hb)) h₂
      refine ⟨by rw [List.flatMap_cons], ?_⟩
      intro b hb
      rcases List.mem_cons.mp hb with rfl | hb
      · exact h₁
      · exact hall b hb

/-- Each element was written. -/
theorem exists_of_wrote_each {f : α → Output ε Unit} :
    ∀ {as : List α} {w : Bytes}, Wrote (each f as) w → ∀ a ∈ as, ∃ v, Wrote (f a) v := by
  intro as
  induction as with
  | nil => exact fun _ a ha => absurd ha List.not_mem_nil
  | cons a as ih =>
      intro w h b hb
      obtain ⟨w₁, w₂, h₁, h₂, rfl⟩ := wrote_bind.mp h
      rcases List.mem_cons.mp hb with rfl | hb
      · exact ⟨w₁, h₁⟩
      · exact ih h₂ b hb

end Output

end ByteStream
