import Krabka.Lib.AlikeReaders

/-!
# `Lib.LocalReader` — readers that see only what they take

A reader is local when every run of it is a round trip: what it took off the front is read with the same
answer in front of anything else. It neither counts nor looks at what is behind.
-/

namespace ByteStream

open Reader

variable {ε α β : Type}

/-- What `d` takes, it reads in front of any suffix. -/
def Local (d : Reader ε α) : Prop :=
  ∀ bs a rest, d bs = .ok (a, rest) → ∃ w, bs = w ++ rest ∧ Reads d w a

namespace Local

variable {d : Reader ε α} {f : α → Reader ε β}

theorem pure (a : α) : Local (Pure.pure a : Reader ε α) := by
  intro bs b rest h
  cases h
  exact ⟨[], rfl, Reads.pure a⟩

theorem bind (hd : Local d) (hf : ∀ a, Local (f a)) : Local (d >>= f) := by
  intro bs b rest h
  obtain ⟨a, mid, ha, hb⟩ := bind_eq_ok.mp h
  obtain ⟨w₁, rfl, hw₁⟩ := hd bs a mid ha
  obtain ⟨w₂, rfl, hw₂⟩ := hf a mid b rest hb
  exact ⟨w₁ ++ w₂, (List.append_assoc _ _ _).symm, hw₁.bind hw₂⟩

theorem take (n : Nat) (short : Nat → ε) : Local (take n short) := by
  intro bs w rest h
  obtain ⟨rfl, hlen⟩ := take_eq_ok.mp h
  exact ⟨w, rfl, Reads.take hlen⟩

theorem times {d : Nat → Reader ε α} (hd : ∀ i, Local (d i)) (n i : Nat) : Local (times d n i) := by
  induction n generalizing i with
  | zero => exact pure []
  | succ n ih => exact (hd i).bind fun a => (ih (i + 1)).bind fun as => pure (a :: as)

/-- A run on a part of the input is the run on all of it. -/
theorem append (hd : Local d) {bs rest : Bytes} {a : α} (h : d bs = .ok (a, rest)) (tail : Bytes) :
    d (bs ++ tail) = .ok (a, rest ++ tail) := by
  obtain ⟨w, rfl, hw⟩ := hd bs a rest h
  rw [List.append_assoc]
  exact hw (rest ++ tail)

end Local

end ByteStream
