import Mathlib

/-!
# `Lib.Results` — inversion of fallible computations

What is known when a computation in `Except` succeeds: of a sequence, that each step did; of a
traversal, that each element did, in order. When it fails, one of the steps or elements did, with that
error (`FailsAs`). Two traversals that undo each other element by element undo each other as a whole.
-/

namespace Results

variable {α β ε ε' : Type}

/-- `opt.ok_or(e)`. -/
def okOr (e : ε) : Option α → Except ε α
  | some a => .ok a
  | none => .error e

@[simp] theorem okOr_some (e : ε) (a : α) : okOr e (some a) = .ok a := rfl

theorem okOr_eq_ok {e : ε} {o : Option α} {a : α} : okOr e o = .ok a ↔ o = some a := by
  cases o <;> simp [okOr]

/-- **The rule of sequence.** Both steps succeed, the second on what the first gives. -/
theorem bind_eq_ok {x : Except ε α} {f : α → Except ε β} {b : β} :
    (x >>= f) = .ok b ↔ ∃ a, x = .ok a ∧ f a = .ok b := by
  cases x <;> simp [bind, Except.bind]

@[simp] theorem ok_bind (a : α) (f : α → Except ε β) : ((.ok a : Except ε α) >>= f) = f a := rfl

/-- A value is missed where there is none. -/
theorem okOr_eq_error {e e' : ε} {o : Option α} : okOr e o = .error e' ↔ o = none ∧ e = e' := by
  cases o <;> simp [okOr]

/-- A sequence fails in its first step or, behind that, in its second. -/
theorem bind_eq_error {x : Except ε α} {f : α → Except ε β} {e : ε} :
    (x >>= f) = .error e ↔ x = .error e ∨ ∃ a, x = .ok a ∧ f a = .error e := by
  cases x <;> simp [bind, Except.bind]

theorem pure_eq_ok {a b : α} : (pure a : Except ε α) = .ok b ↔ a = b := by
  simp [pure, Except.pure]

/-- Translating errors changes no success. -/
theorem mapError_eq_ok {g : ε → ε'} {x : Except ε α} {a : α} :
    x.mapError g = .ok a ↔ x = .ok a := by
  cases x <;> simp [Except.mapError]

/-- A result is translated where there is one. -/
theorem map_eq_ok {g : α → β} {x : Except ε α} {b : β} :
    g <$> x = .ok b ↔ ∃ a, x = .ok a ∧ g a = b := by
  cases x <;> simp [Functor.map, Except.map]

/-- A traversal succeeds exactly when it succeeds on every element. -/
theorem mapM_eq_ok {f : α → Except ε β} {xs : List α} {ys : List β} :
    xs.mapM f = .ok ys ↔ List.Forall₂ (fun x y => f x = .ok y) xs ys := by
  induction xs generalizing ys with
  | nil =>
      rw [List.mapM_nil, pure_eq_ok, List.forall₂_nil_left_iff]
      exact eq_comm
  | cons x xs ih =>
      rw [List.mapM_cons, bind_eq_ok]
      constructor
      · rintro ⟨y, hy, h⟩
        obtain ⟨rest, hrest, h⟩ := bind_eq_ok.mp h
        rw [pure_eq_ok] at h
        rw [← h]
        exact .cons hy (ih.mp hrest)
      · intro h
        cases h with
        | cons hy hrest =>
            exact ⟨_, hy, bind_eq_ok.mpr ⟨_, ih.mpr hrest, rfl⟩⟩

section Pairwise
variable {γ : Type} {R : α → β → Prop} {as : List α} {bs : List β}

/-- Lists that are related are mapped alike where related elements are. -/
theorem map_eq_map_of_forall₂ {f : α → γ} {g : β → γ} (h : List.Forall₂ R as bs)
    (hR : ∀ a b, R a b → f a = g b) : as.map f = bs.map g := by
  induction h with
  | nil => rfl
  | cons hone _ ih => exact congrArg₂ List.cons (hR _ _ hone) ih

/-- Each element of the second list has a partner in the first. -/
theorem exists_of_forall₂_right (h : List.Forall₂ R as bs) {b : β} (hb : b ∈ bs) :
    ∃ a ∈ as, R a b := by
  induction h with
  | nil => cases hb
  | cons hone _ ih =>
      rcases List.mem_cons.mp hb with rfl | hb
      · exact ⟨_, List.mem_cons_self, hone⟩
      · obtain ⟨a, ha, hab⟩ := ih hb
        exact ⟨a, List.mem_cons_of_mem _ ha, hab⟩

/-- Each element of the first list has a partner in the second. -/
theorem exists_of_forall₂_left (h : List.Forall₂ R as bs) {a : α} (ha : a ∈ as) :
    ∃ b ∈ bs, R a b :=
  exists_of_forall₂_right h.flip ha

/-- Elements that each have a partner have a list of partners. -/
theorem exists_forall₂ (h : ∀ a ∈ as, ∃ b, R a b) : ∃ bs, List.Forall₂ R as bs := by
  induction as with
  | nil => exact ⟨[], .nil⟩
  | cons a rest ih =>
      obtain ⟨b, hb⟩ := h a List.mem_cons_self
      obtain ⟨bs, hbs⟩ := ih (fun a' ha' => h a' (List.mem_cons_of_mem a ha'))
      exact ⟨b :: bs, .cons hb hbs⟩

end Pairwise

/-- Every result of a traversal is that of an element. -/
theorem exists_of_mem_mapM {f : α → Except ε β} {xs : List α} {ys : List β} (h : xs.mapM f = .ok ys)
    {y : β} (hy : y ∈ ys) : ∃ x ∈ xs, f x = .ok y :=
  exists_of_forall₂_right (mapM_eq_ok.mp h) hy

/-- Every element of a traversal has its result. -/
theorem mapM_ok_of_mem {f : α → Except ε β} {xs : List α} {ys : List β} (h : xs.mapM f = .ok ys)
    {x : α} (hx : x ∈ xs) : ∃ y ∈ ys, f x = .ok y :=
  exists_of_forall₂_left (mapM_eq_ok.mp h) hx

/-- A traversal whose elements all succeed succeeds. -/
theorem mapM_of_forall {f : α → Except ε β} {xs : List α} (h : ∀ x ∈ xs, ∃ y, f x = .ok y) :
    ∃ ys, xs.mapM f = .ok ys := by
  obtain ⟨ys, hys⟩ := exists_forall₂ h
  exact ⟨ys, mapM_eq_ok.mpr hys⟩

/-- A traversal fails as one of its elements does. -/
theorem exists_of_mapM_eq_error {f : α → Except ε β} {xs : List α} {e : ε}
    (h : xs.mapM f = .error e) : ∃ x ∈ xs, f x = .error e := by
  induction xs with
  | nil => cases h
  | cons x rest ih =>
      rw [List.mapM_cons, bind_eq_error] at h
      rcases h with hx | ⟨y, -, h⟩
      · exact ⟨x, List.mem_cons_self, hx⟩
      · rcases bind_eq_error.mp h with hrest | ⟨ys, -, h⟩
        · obtain ⟨x', hx', he⟩ := ih hrest
          exact ⟨x', List.mem_cons_of_mem x hx', he⟩
        · cases h

/-- A loop without results succeeds where every turn does. -/
theorem forM_eq_ok {f : α → Except ε Unit} {xs : List α} :
    xs.forM f = .ok () ↔ ∀ x ∈ xs, f x = .ok () := by
  induction xs with
  | nil => exact iff_of_true rfl fun x hx => absurd hx List.not_mem_nil
  | cons x xs ih =>
      show (f x >>= fun _ => xs.forM f) = .ok () ↔ _
      rw [bind_eq_ok, List.forall_mem_cons, ← ih]
      exact ⟨fun ⟨_, hx, hxs⟩ => ⟨hx, hxs⟩, fun ⟨hx, hxs⟩ => ⟨(), hx, hxs⟩⟩

/-- A traversal of two lists is that of the one and then of the other. -/
theorem mapM_append_eq_ok {f : α → Except ε β} {xs ys : List α} {zs : List β} :
    (xs ++ ys).mapM f = .ok zs ↔
      ∃ us vs, xs.mapM f = .ok us ∧ ys.mapM f = .ok vs ∧ zs = us ++ vs := by
  rw [List.mapM_append, bind_eq_ok]
  constructor
  · rintro ⟨us, hus, h⟩
    obtain ⟨vs, hvs, h⟩ := bind_eq_ok.mp h
    exact ⟨us, vs, hus, hvs, (pure_eq_ok.mp h).symm⟩
  · rintro ⟨us, vs, hus, hvs, rfl⟩
    exact ⟨us, hus, bind_eq_ok.mpr ⟨vs, hvs, rfl⟩⟩

/-- **Traversals compose.** What `f` writes, `g` reads back, element by element and as a list. -/
theorem mapM_roundTrip {f : α → Except ε β} {g : β → Except ε' α}
    (hfg : ∀ a b, f a = .ok b → g b = .ok a) {xs : List α} {ys : List β}
    (h : xs.mapM f = .ok ys) : ys.mapM g = .ok xs := by
  refine mapM_eq_ok.mpr (List.Forall₂.flip ?_)
  exact (mapM_eq_ok.mp h).imp hfg

/-- `Option.mapM` in `Except`, as the bind it is. -/
theorem mapM_some {f : α → Except ε β} {a : α} : (some a).mapM f = (f a >>= fun b => .ok (some b)) := by
  cases hf : f a <;> simp [Option.mapM, hf, Functor.map, Except.map, bind, Except.bind]

/-- The same for a value that may be absent. -/
theorem optionMapM_eq_ok {f : α → Except ε β} {o : Option α} {o' : Option β} :
    o.mapM f = .ok o' ↔ Option.Rel (fun a b => f a = .ok b) o o' := by
  cases o with
  | none =>
      refine pure_eq_ok.trans ⟨fun h => h ▸ .none, fun h => ?_⟩
      cases h
      rfl
  | some a =>
      rw [mapM_some, bind_eq_ok]
      constructor
      · rintro ⟨b, hb, h⟩
        injection h with h
        exact h ▸ .some hb
      · intro h
        cases h with
        | some hb => exact ⟨_, hb, rfl⟩

theorem isSome_of_optionMapM {f : α → Except ε β} {o : Option α} {o' : Option β}
    (h : o.mapM f = .ok o') : o'.isSome = o.isSome := by
  cases optionMapM_eq_ok.mp h with
  | some hb => rfl
  | none => rfl

theorem optionMapM_roundTrip {f : α → Except ε β} {g : β → Except ε' α}
    (hfg : ∀ a b, f a = .ok b → g b = .ok a) {o : Option α} {o' : Option β}
    (h : o.mapM f = .ok o') : o'.mapM g = .ok o := by
  refine optionMapM_eq_ok.mpr ?_
  cases optionMapM_eq_ok.mp h with
  | some hb => exact .some (hfg _ _ hb)
  | none => exact .none

/-! ## How a computation fails

A failure of a sequence is a failure of one of its steps. -/

/-- Every error of the computation satisfies `P`. -/
def FailsAs (P : ε → Prop) (x : Except ε α) : Prop := ∀ e, x = .error e → P e

section
variable {P : ε → Prop}

theorem FailsAs.ok (a : α) : FailsAs P (.ok a) := by
  intro e h
  cases h

theorem FailsAs.of_eq_ok {x : Except ε α} {a : α} (h : x = .ok a) : FailsAs P x := h ▸ FailsAs.ok a

theorem FailsAs.error {e : ε} (h : P e) : FailsAs P (.error e : Except ε α) := by
  intro e' he
  exact Except.error.inj he ▸ h

/-- A value that is missed fails as it was told to. -/
theorem FailsAs.okOr {e : ε} (h : P e) (o : Option α) : FailsAs P (okOr e o) := by
  intro e' he
  exact (okOr_eq_error.mp he).2 ▸ h

/-- **The rule of sequence.** A later step is reached only with what the step before it gives. -/
theorem FailsAs.bind {x : Except ε α} {f : α → Except ε β} (hx : FailsAs P x)
    (hf : ∀ a, x = .ok a → FailsAs P (f a)) : FailsAs P (x >>= f) := by
  intro e h
  rcases bind_eq_error.mp h with he | ⟨a, ha, he⟩
  · exact hx e he
  · exact hf a ha e he

/-- Translating the result changes no failure. -/
theorem FailsAs.map {g : α → β} {x : Except ε α} (hx : FailsAs P x) : FailsAs P (g <$> x) := by
  intro e h
  cases x with
  | ok a => cases h
  | error e' =>
      obtain rfl := Except.error.inj h
      exact hx e' rfl

/-- Translated errors satisfy what the translation gives. -/
theorem FailsAs.mapError {g : ε' → ε} (h : ∀ e, P (g e)) (x : Except ε' α) :
    FailsAs P (x.mapError g) := by
  intro e he
  cases x with
  | ok a => cases he
  | error e' => exact Except.error.inj he ▸ h e'

/-- A traversal fails as its elements do. -/
theorem FailsAs.mapM {f : α → Except ε β} {xs : List α} (h : ∀ x ∈ xs, FailsAs P (f x)) :
    FailsAs P (xs.mapM f) := by
  intro e he
  obtain ⟨x, hx, hfx⟩ := exists_of_mapM_eq_error he
  exact h x hx e hfx

/-- So does a value that may be absent. -/
theorem FailsAs.optionMapM {f : α → Except ε β} {o : Option α} (h : ∀ a, FailsAs P (f a)) :
    FailsAs P (o.mapM f) := by
  cases o with
  | none => exact FailsAs.ok none
  | some a =>
      rw [mapM_some]
      exact (h a).bind fun b _ => FailsAs.ok (some b)

end

end Results
