import Krabka.Lib.ExactCodec

/-!
# `Lib.GuardedCodec` — writers that refuse what does not fit

A writer can fail: a length that its prefix cannot hold is refused. `Guarded fits x d a` says of one value all
that a caller asks: the writer `x` finishes exactly when `fits` holds, and what it then wrote, the reader `d`
reads back as `a`, in front of any rest. As with `Exact`, the rules follow the steps of a codec (`Guarded.bind`
for one field after another, `Guarded.each` for counted elements), and the conditions of the steps are
joined on the way.

`Writes` is the half of it without a reader.
-/

namespace ByteStream

open Reader Output

variable {ε α β γ : Type}

/-- The writer finishes. -/
def Writes (x : Output ε Unit) : Prop := ∃ w, Wrote x w

@[simp] theorem writes_put (w : Bytes) : Writes (put w : Output ε Unit) := ⟨w, wrote_put.mpr rfl⟩

@[simp] theorem writes_pure : Writes (pure () : Output ε Unit) := ⟨[], wrote_pure.mpr rfl⟩

@[simp] theorem not_writes_fail (e : ε) : ¬Writes (fail e : Output ε Unit) := fun ⟨_, h⟩ => not_wrote_fail h

@[simp] theorem writes_bind {x y : Output ε Unit} : Writes (x >>= fun _ => y) ↔ Writes x ∧ Writes y := by
  constructor
  · rintro ⟨w, h⟩
    obtain ⟨w₁, w₂, h₁, h₂, -⟩ := wrote_bind.mp h
    exact ⟨⟨w₁, h₁⟩, ⟨w₂, h₂⟩⟩
  · rintro ⟨⟨w₁, h₁⟩, ⟨w₂, h₂⟩⟩
    exact ⟨_, wrote_bind.mpr ⟨w₁, w₂, h₁, h₂, rfl⟩⟩

@[simp] theorem writes_each {f : α → Output ε Unit} {as : List α} :
    Writes (each f as) ↔ ∀ a ∈ as, Writes (f a) := by
  induction as with
  | nil => simp [each]
  | cons a as ih => rw [List.forall_mem_cons, ← ih, each, writes_bind]

/-- A writer that finishes has written one thing. -/
theorem wrote_unique {x : Output ε Unit} {w w' : Bytes} (h : Wrote x w) (h' : Wrote x w') : w = w' :=
  congrArg Output.out (h.symm.trans h')

/-- The writer finishes exactly when `fits`, and the reader answers `a` for what it wrote. -/
structure Guarded (fits : Prop) (x : Output ε Unit) (d : Reader ε α) (a : α) : Prop where
  writes : Writes x ↔ fits
  reads : ∀ {w}, Wrote x w → Reads d w a

namespace Guarded

variable {fits fits' : Prop} {x y : Output ε Unit} {n : Nat} {d : Reader ε α} {f : α → Reader ε β} {a : α}
  {b : β}

/-- An exact codec whose writer refuses everything else. -/
theorem of_exact (h : fits → Exact x n d a) (hfits : Writes x → fits) : Guarded fits x d a where
  writes := ⟨hfits, fun hf => by
    obtain ⟨w, hw, -⟩ := h hf
    exact ⟨w, hw⟩⟩
  reads := by
    intro w hw
    obtain ⟨w', hw', -, hreads, -⟩ := h (hfits ⟨w, hw⟩)
    rwa [wrote_unique hw hw']

/-- A writer that never refuses. -/
theorem always (h : Exact x n d a) : Guarded True x d a :=
  .of_exact (fun _ => h) fun _ => trivial

theorem iff (h : Guarded fits x d a) (hiff : fits ↔ fits') : Guarded fits' x d a :=
  ⟨h.writes.trans hiff, h.reads⟩

theorem pure (a : α) : Guarded True (Pure.pure () : Output ε Unit) (Pure.pure a) a :=
  .always (Exact.pure a)

/-- One field after another. -/
theorem bind (hx : Guarded fits x d a) (hy : Guarded fits' y (f a) b) :
    Guarded (fits ∧ fits') (x >>= fun _ => y) (d >>= f) b where
  writes := writes_bind.trans (and_congr hx.writes hy.writes)
  reads := by
    intro w hw
    obtain ⟨w₁, w₂, h₁, h₂, rfl⟩ := wrote_bind.mp hw
    exact (hx.reads h₁).bind (hy.reads h₂)

/-- A field that is always written. -/
theorem cons (hx : Exact x n d a) (hy : Guarded fits y (f a) b) :
    Guarded fits (x >>= fun _ => y) (d >>= f) b :=
  ((Guarded.always hx).bind hy).iff (iff_of_eq (true_and fits))

/-- The last field, whose value is judged or repackaged. -/
theorem bind_nil (hx : Guarded fits x d a) (hf : Reads (f a) [] b) : Guarded fits x (d >>= f) b where
  writes := hx.writes
  reads := fun hw => (hx.reads hw).bind_nil hf

theorem map (hx : Guarded fits x d a) (g : α → β) :
    Guarded fits x (d >>= fun v => Pure.pure (g v)) (g a) :=
  hx.bind_nil (Reads.pure (g a))

/-- A field that a version may not have: without it nothing is written and the default is read. -/
theorem ite {c : Prop} [Decidable c] {default : α} (hx : Guarded fits x d a) :
    Guarded (c → fits) (if c then x else Pure.pure ()) (if c then d else Pure.pure default)
      (if c then a else default) := by
  by_cases hc : c
  · simp only [hc, if_true, forall_const]
    exact hx
  · simp only [hc, if_false, false_implies]
    exact .pure default

/-- Counted elements, one after another. -/
theorem each {wr : γ → Output ε Unit} {g : γ → α} {d : Nat → Reader ε α} {cs : List γ} {p : γ → Prop}
    (h : ∀ c ∈ cs, ∀ i, Guarded (p c) (wr c) (d i) (g c)) (i : Nat) :
    Guarded (∀ c ∈ cs, p c) (Output.each wr cs) (times d cs.length i) (cs.map g) := by
  induction cs generalizing i with
  | nil => exact (Guarded.pure []).iff (by simp)
  | cons c cs ih =>
      have hrest := ih (fun c' hc' => h c' (List.mem_cons_of_mem c hc')) (i + 1)
      exact ((h c List.mem_cons_self i).bind (hrest.map (g c :: ·))).iff List.forall_mem_cons.symm

/-- A count that is checked against what is left of the input, where the field takes that much of it. -/
theorem checked {c : Nat} {e : ε} (hx : Guarded fits x d a) (hle : ∀ w, Wrote x w → c ≤ w.length) :
    Guarded fits x (remaining >>= fun left => if c > left then throw e else d) a where
  writes := hx.writes
  reads := by
    intro w hw rest
    have hlen := hle w hw
    rw [bind_of_ok (show remaining _ = _ from rfl), if_neg (by rw [List.length_append]; omega)]
    exact hx.reads hw rest

end Guarded

/-- Elements that take a byte each are no more than the bytes they take. -/
theorem length_le_of_wrote_each {f : γ → Output ε Unit} (hf : ∀ c w, Wrote (f c) w → 1 ≤ w.length) :
    ∀ {cs : List γ} {w : Bytes}, Wrote (each f cs) w → cs.length ≤ w.length := by
  intro cs
  induction cs with
  | nil => intro w _; exact Nat.zero_le _
  | cons c cs ih =>
      intro w h
      obtain ⟨w₁, w₂, h₁, h₂, rfl⟩ := wrote_bind.mp h
      have hfirst := hf c w₁ h₁
      have hrest := ih h₂
      rw [List.length_cons, List.length_append]
      omega

end ByteStream
