import Krabka.Lib.GuardedCodec

/-!
# `Lib.ApartOutputs` — writers whose outputs can be told apart

`Apart x y R` says when two writers write the same: whatever follows, their outputs are the same exactly when
`R` holds, and then what follows is the same too. So no output of the two is the start of another one, and
the comparison of two long outputs comes apart along the steps of the writers: `Apart.bind` for one field after
another, `Apart.each` for the elements of an array. A writer that is read back tells its values apart
(`Apart.of_reads`).
-/

namespace ByteStream

open Reader Output

variable {ε α β : Type}

/-- Whatever follows, the two writers wrote the same exactly when `R` holds. -/
def Apart (x y : Output ε Unit) (R : Prop) : Prop :=
  ∀ w w', Wrote x w → Wrote y w' → ∀ s s', w ++ s = w' ++ s' ↔ R ∧ s = s'

namespace Apart

variable {x x' y y' : Output ε Unit} {R S : Prop}

/-- With nothing behind them. -/
theorem eq_iff (h : Apart x y R) {w w' : Bytes} (hx : Wrote x w) (hy : Wrote y w') : w = w' ↔ R := by
  have heq := h w w' hx hy [] []
  rwa [List.append_nil, List.append_nil, and_iff_left rfl] at heq

theorem congr (h : Apart x y R) (hiff : R ↔ S) : Apart x y S :=
  fun w w' hx hy s s' => (h w w' hx hy s s').trans (and_congr_left' hiff)

theorem same (x : Output ε Unit) : Apart x x True := by
  intro w w' hx hy s s'
  obtain rfl := wrote_unique hx hy
  rw [List.append_cancel_left_eq, true_and]

theorem symm (h : Apart x y R) : Apart y x R := by
  intro w w' hy hx s s'
  rw [eq_comm, h w' w hx hy s' s, @eq_comm _ s']

/-- A writer that stops is compared with nothing. -/
theorem of_not_writes (h : ¬Writes x) : Apart x y R := fun w _ hx => absurd ⟨w, hx⟩ h

theorem fail_left {e : ε} : Apart (fail e) y R := of_not_writes (not_writes_fail e)

theorem fail_right {e : ε} : Apart x (fail e) R := fail_left.symm

/-- One field after another. The second ones are compared where the first ones are the same. -/
theorem bind (hx : Apart x x' R) (hy : R → Apart y y' S) :
    Apart (x >>= fun _ => y) (x' >>= fun _ => y') (R ∧ S) := by
  intro w w' hw hw' s s'
  obtain ⟨w₁, w₂, h₁, h₂, rfl⟩ := wrote_bind.mp hw
  obtain ⟨v₁, v₂, k₁, k₂, rfl⟩ := wrote_bind.mp hw'
  rw [List.append_assoc, List.append_assoc, hx w₁ v₁ h₁ k₁, and_assoc]
  exact and_congr_right fun hR => hy hR w₂ v₂ h₂ k₂ s s'

/-- Bytes behind their number. -/
theorem put_of_length {v v' : Bytes} (hlen : v.length = v'.length) :
    Apart (put v : Output ε Unit) (put v') (v = v') := by
  intro w w' hw hw' s s'
  rw [wrote_put.mp hw, wrote_put.mp hw']
  exact ⟨fun h => List.append_inj h hlen, fun h => by rw [h.1, h.2]⟩

/-- A first field that is never the same decides. -/
theorem bind_of_ne (h : Apart x y False) : Apart x (y >>= fun _ => y') False := by
  intro w w' hw hw' s s'
  obtain ⟨w₁, w₂, h₁, -, rfl⟩ := wrote_bind.mp hw'
  rw [List.append_assoc, h w w₁ hw h₁, false_and, false_and]

/-- A writer that is read back. -/
theorem of_reads {write : α → Output ε Unit} {read : Reader ε β} {seen : α → β}
    (h : ∀ a w, Wrote (write a) w → Reads read w (seen a))
    (hseen : ∀ a b, seen a = seen b → write a = write b) (a b : α) : Apart (write a) (write b) (seen a = seen b) := by
  intro w w' hw hw' s s'
  constructor
  · intro heq
    have hread := h a w hw s
    rw [heq, h b w' hw' s', Except.ok.injEq, Prod.mk.injEq] at hread
    exact ⟨hread.1.symm, hread.2.symm⟩
  · rintro ⟨hab, rfl⟩
    rw [hseen a b hab] at hw
    rw [wrote_unique hw hw']

theorem of_guarded {write : α → Output ε Unit} {read : Reader ε α} {fits : α → Prop}
    (h : ∀ a, Guarded (fits a) (write a) read a) (a b : α) : Apart (write a) (write b) (a = b) :=
  of_reads (fun a _ hw => (h a).reads hw) (fun _ _ hab => congrArg write hab) a b

theorem ite {c : Prop} [Decidable c] (hx : c → Apart x x' R) :
    Apart (if c then x else Pure.pure ()) (if c then x' else Pure.pure ()) (c → R) := by
  by_cases hc : c
  · rw [if_pos hc, if_pos hc]
    exact (hx hc).congr ⟨fun hR _ => hR, fun hR => hR hc⟩
  · rw [if_neg hc, if_neg hc]
    exact (same _).congr (iff_of_true trivial fun h => absurd h hc)

/-- The elements of two lists of one length. -/
theorem each {f : α → Output ε Unit} {g : β → Output ε Unit} {R : α → β → Prop} {as : List α} {bs : List β}
    (hlen : as.length = bs.length) (h : ∀ p ∈ as.zip bs, Apart (f p.1) (g p.2) (R p.1 p.2)) :
    Apart (Output.each f as) (Output.each g bs) (List.Forall₂ R as bs) := by
  induction as generalizing bs with
  | nil =>
      obtain rfl := List.length_eq_zero_iff.mp hlen.symm
      exact (same _).congr (iff_of_true trivial .nil)
  | cons a as ih =>
      obtain ⟨b, bs, rfl⟩ := List.exists_cons_of_length_eq_add_one hlen.symm
      have hrest := ih (Nat.add_right_cancel hlen) fun p hp => h p (List.mem_cons_of_mem _ hp)
      exact ((h (a, b) List.mem_cons_self).bind fun _ => hrest).congr List.forall₂_cons.symm

/-- Lists behind their lengths. -/
theorem counted {count : Nat → Output ε Unit} (hcount : ∀ n m, Apart (count n) (count m) (n = m))
    {f : α → Output ε Unit} {g : β → Output ε Unit} {R : α → β → Prop} {as : List α} {bs : List β}
    (h : ∀ p ∈ as.zip bs, Apart (f p.1) (g p.2) (R p.1 p.2)) :
    Apart (count as.length >>= fun _ => Output.each f as) (count bs.length >>= fun _ => Output.each g bs)
      (List.Forall₂ R as bs) :=
  ((hcount as.length bs.length).bind fun hlen => each hlen h).congr
    (and_iff_right_of_imp List.Forall₂.length_eq)

end Apart

end ByteStream
