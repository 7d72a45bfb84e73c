import Krabka.Lib.WireInt

/-!
# `Lib.AlikeReaders` — readers that accept alike, and inputs that tell them apart

Two readers accept alike when each accepts what the other does, with the same value and the same rest. Their
errors may differ.

A probe is an input on which the first of two readers answers, whatever follows. The second one, if it accepts,
takes as much off the front, and its value is another one where a given proposition holds. So where that holds
the readers do not accept alike (`Probe.not_alike`). A reader that counts what is left, to refuse a length that
cannot be, asks for a longer rest.

Both notions compose along `>>=`. A probe of a sequence needs a difference in one place only.
-/

namespace ByteStream

variable {ε α β σ : Type}

/-! ## Renamed failures

Renaming the failures of a sequence renames those of its steps. -/

namespace Reader

variable {ε' : Type} (g : ε → ε')

/-- Errors are translated reader by reader. -/
theorem mapErr_bind (d : Reader ε α) (f : α → Reader ε β) :
    mapErr g (d >>= f) = mapErr g d >>= fun a => mapErr g (f a) := by
  funext bs
  cases h : d bs with
  | error e =>
    have hd : mapErr g d bs = .error (g e) := mapErr_eq_error.mpr ⟨e, h, rfl⟩
    rw [bind_of_error hd]
    exact mapErr_eq_error.mpr ⟨e, bind_of_error h, rfl⟩
  | ok p =>
    obtain ⟨a, mid⟩ := p
    rw [bind_of_ok (mapErr_eq_ok.mpr h)]
    unfold mapErr
    rw [bind_of_ok h]

theorem mapErr_take (n : Nat) (short : Nat → ε) : mapErr g (take n short) = take n fun m => g (short m) := by
  funext bs
  unfold mapErr take
  split
  · rfl
  · rfl

end Reader

/-! ## Readers that accept alike

The rules for sequences, for branches and for loops. -/

def Alike (d e : Reader ε α) : Prop := ∀ bs p, d bs = .ok p ↔ e bs = .ok p

namespace Alike

open Reader

variable {d e : Reader ε α} {f g : α → Reader ε β}

theorem refl (d : Reader ε α) : Alike d d := fun _ _ => Iff.rfl

/-- Readers that are alike step by step are alike. -/
theorem bind (hd : Alike d e) (hf : ∀ a, Alike (f a) (g a)) : Alike (d >>= f) (e >>= g) := by
  intro bs p
  rw [bind_eq_ok, bind_eq_ok]
  exact exists₂_congr fun a mid => and_congr (hd bs (a, mid)) (hf a mid p)

/-- Two failures are alike. -/
theorem throw (e e' : ε) :
    Alike (MonadExcept.throw e : Reader ε α) (MonadExcept.throw e' : Reader ε α) := by
  intro bs p
  constructor
  · intro h
    cases h
  · intro h
    cases h

/-- Taking bytes is alike, however it fails. -/
theorem take (n : Nat) (short short' : Nat → ε) : Alike (take n short) (take n short') := by
  rintro bs ⟨w, rest⟩
  rw [take_eq_ok, take_eq_ok]

/-- One reader, its failures renamed in two ways. -/
theorem mapErr {ε' : Type} (g g' : ε' → ε) (d : Reader ε' α) : Alike (mapErr g d) (mapErr g' d) := by
  rintro bs ⟨a, rest⟩
  rw [mapErr_eq_ok, mapErr_eq_ok]

/-- Choosing alike is alike. -/
theorem ite {c : Prop} [Decidable c] {d' e' : Reader ε α} (hd : Alike d e) (he : Alike d' e') :
    Alike (if c then d else d') (if c then e else e') := by
  split
  · exact hd
  · exact he

/-- So is reading inside a body. -/
theorem inside (body : Bytes) (h : Alike d e) : Alike (inside body d) (inside body e) := by
  rintro bs ⟨⟨a, left⟩, r⟩
  rw [inside_eq_ok, inside_eq_ok, h body (a, left)]

/-- So is a counted loop. -/
theorem times {d e : Nat → Reader ε α} (h : ∀ i, Alike (d i) (e i)) (n i : Nat) :
    Alike (times d n i) (times e n i) := by
  induction n generalizing i with
  | zero => exact refl _
  | succ n ih => exact (h i).bind fun a => (ih (i + 1)).bind fun as => refl _

/-- So is a traversal. -/
theorem mapM {γ : Type} {d e : γ → Reader ε α} {cs : List γ} (h : ∀ c ∈ cs, Alike (d c) (e c)) :
    Alike (cs.mapM d) (cs.mapM e) := by
  induction cs with
  | nil => exact refl _
  | cons c cs ih =>
      rw [List.mapM_cons, List.mapM_cons]
      exact (h c List.mem_cons_self).bind fun a =>
        (ih fun c hc => h c (List.mem_cons_of_mem _ hc)).bind fun as => refl _

/-- So is a loop with a state. -/
theorem loop {step step' : Nat → σ → Reader ε σ} (h : ∀ i s, Alike (step i s) (step' i s)) (n i : Nat)
    (s : σ) : Alike (loop step n i s) (loop step' n i s) := by
  induction n generalizing i s with
  | zero => exact refl _
  | succ n ih => exact (h i s).bind fun s' => ih (i + 1) s'

end Alike

/-- Each value that a list of readers answers is one reader's. -/
theorem forall₂_of_mapM {γ : Type} {d : γ → Reader ε α} {cs : List γ} {bs rest : Bytes} {as : List α}
    (h : cs.mapM d bs = .ok (as, rest)) :
    List.Forall₂ (fun c a => ∃ bs rest, d c bs = .ok (a, rest)) cs as := by
  induction cs generalizing bs as with
  | nil =>
      cases h
      exact .nil
  | cons c cs ih =>
      rw [List.mapM_cons] at h
      obtain ⟨a, mid, ha, h⟩ := Reader.bind_eq_ok.mp h
      obtain ⟨as', mid', has, h⟩ := Reader.bind_eq_ok.mp h
      cases h
      exact .cons ⟨bs, mid, ha⟩ (ih has)

/-! ## Inputs that tell two readers apart

A probe is extended at either end by what both readers read alike. -/

def Probe (d e : Reader ε α) (D : Prop) : Prop :=
  ∃ w a least, ∀ r : Bytes, least ≤ r.length →
    d (w ++ r) = .ok (a, r) ∧ ∀ p, e (w ++ r) = .ok p → p.2 = r ∧ (D → p.1 ≠ a)

namespace Probe

open Reader

variable {d e : Reader ε α} {D D' : Prop}

/-- A probe tells two readers apart. -/
theorem not_alike (h : Probe d e D) (hD : D) : ¬Alike e d := by
  obtain ⟨w, a, least, hall⟩ := h
  intro halike
  obtain ⟨hd, he⟩ := hall (List.replicate least 0) (List.length_replicate).ge
  exact (he _ ((halike _ _).mpr hd)).2 hD rfl

theorem mono (h : Probe d e D) (hD : D' → D) : Probe d e D' := by
  obtain ⟨w, a, least, hall⟩ := h
  exact ⟨w, a, least, fun r hr => ⟨(hall r hr).1, fun p hp => ((hall r hr).2 p hp).imp_right (· ∘ hD)⟩⟩

/-- Both readers answer. -/
theorem of_reads {w : Bytes} {a b : α} (hd : Reads d w a) (he : Reads e w b) (h : D → b ≠ a) : Probe d e D := by
  refine ⟨w, a, 0, fun r _ => ⟨hd r, fun p hp => ?_⟩⟩
  rw [he r, Except.ok.injEq] at hp
  subst hp
  exact ⟨rfl, h⟩

/-- Readers that are alike have no difference to probe. -/
theorem of_alike {w : Bytes} {a : α} (hd : Reads d w a) (he : Alike e d) : Probe d e False :=
  of_reads hd (fun r => (he _ _).mpr (hd r)) False.elim

/-- A step that both readers take first. -/
theorem behind {p : Reader ε β} {w : Bytes} {b : β} {f g : β → Reader ε α} (hp : Reads p w b)
    (h : Probe (f b) (g b) D) : Probe (p >>= f) (p >>= g) D := by
  obtain ⟨w', a, least, hall⟩ := h
  refine ⟨w ++ w', a, least, fun r hr => ?_⟩
  rw [List.append_assoc, bind_of_ok (hp _), bind_of_ok (hp _)]
  exact hall r hr

/-- A step that both readers take last. -/
theorem map (h : Probe d e D) {f g : α → β} (hfg : ∀ a a', a' ≠ a → g a' ≠ f a) :
    Probe (d >>= fun a => Pure.pure (f a)) (e >>= fun a => Pure.pure (g a)) D := by
  obtain ⟨w, a, least, hall⟩ := h
  refine ⟨w, f a, least, fun r hr => ?_⟩
  obtain ⟨hd, he⟩ := hall r hr
  refine ⟨by rw [bind_of_ok hd]; rfl, ?_⟩
  rintro ⟨b, rest⟩ hp
  obtain ⟨a', mid, ha', hp⟩ := bind_eq_ok.mp hp
  cases hp
  exact ⟨(he _ ha').1, fun hD => hfg a a' ((he _ ha').2 hD)⟩

/-- One element of a list, and the others. -/
theorem cons {ds es : Reader ε (List α)} (h : Probe d e D) (hs : Probe ds es D') :
    Probe (do let a ← d; let as ← ds; return a :: as) (do let a ← e; let as ← es; return a :: as) (D ∨ D') := by
  obtain ⟨w, a, least, hall⟩ := h
  obtain ⟨w', as, least', hall'⟩ := hs
  refine ⟨w ++ w', a :: as, max least least', fun r hr => ?_⟩
  rw [List.append_assoc]
  obtain ⟨hd, he⟩ := hall (w' ++ r) (by rw [List.length_append]; omega)
  obtain ⟨hds, hes⟩ := hall' r (by omega)
  refine ⟨by rw [bind_of_ok hd, bind_of_ok hds]; rfl, ?_⟩
  rintro ⟨bs, rest⟩ hp
  obtain ⟨a', mid, ha', hp⟩ := bind_eq_ok.mp hp
  obtain ⟨hmid, hne⟩ := he _ ha'
  dsimp only at hmid
  subst hmid
  obtain ⟨as', rest', has', hp⟩ := bind_eq_ok.mp hp
  cases hp
  obtain ⟨hrest, hnes⟩ := hes _ has'
  refine ⟨hrest, fun hD heq => ?_⟩
  rw [List.cons.injEq] at heq
  exact hD.elim (fun hD => hne hD heq.1) fun hD' => hnes hD' heq.2

end Probe

end ByteStream
