import Mathlib

/-!
# `Lib.PairedLists` — lists that are compared element by element

Lists that are zipped, and `List.Forall₂` of lists that are mapped, sorted, appended or differ in one place.
-/

namespace PairedLists

variable {α β γ δ ε κ : Type}

/-! ## Zipped lists

Membership in a zip, and in a zip of zips. -/

theorem eq_of_mem_zip_self {as : List α} {p : α × α} (h : p ∈ as.zip as) : p.1 = p.2 := by
  obtain ⟨i, hi⟩ := List.mem_iff_getElem?.mp h
  obtain ⟨hleft, hright⟩ := List.getElem?_zip_eq_some.mp hi
  exact Option.some.inj (hleft.symm.trans hright)

theorem mem_zip_zip {as : List α} {bs : List β} {cs : List γ} {p : α × β × γ} (h : p ∈ as.zip (bs.zip cs)) :
    (p.1, p.2.1) ∈ as.zip bs ∧ (p.1, p.2.2) ∈ as.zip cs := by
  obtain ⟨i, hi⟩ := List.mem_iff_getElem?.mp h
  obtain ⟨ha, hbc⟩ := List.getElem?_zip_eq_some.mp hi
  obtain ⟨hb, hc⟩ := List.getElem?_zip_eq_some.mp hbc
  exact ⟨List.mem_iff_getElem?.mpr ⟨i, List.getElem?_zip_eq_some.mpr ⟨ha, hb⟩⟩,
    List.mem_iff_getElem?.mpr ⟨i, List.getElem?_zip_eq_some.mpr ⟨ha, hc⟩⟩⟩

theorem map_fst_zip_eq_take (as : List α) (bs : List β) : (as.zip bs).map Prod.fst = as.take bs.length := by
  induction as generalizing bs with
  | nil => rw [List.zip_nil_left, List.map_nil, List.take_nil]
  | cons a as ih =>
      cases bs with
      | nil => rfl
      | cons b bs => exact congrArg (a :: ·) (ih bs)

theorem map_fst_zip_sublist (as : List α) (bs : List β) : ((as.zip bs).map Prod.fst).Sublist as := by
  rw [map_fst_zip_eq_take]
  exact List.take_sublist bs.length as

/-! ## Lists that are related element by element

A relation of two lists is kept by what treats their elements alike. -/

section
variable [LE κ] [DecidableLE κ]

/-- Two lists of entries with the same keys are sorted alike. -/
theorem forall₂_insertionSort_iff {R : κ × α → κ × β → Prop} {l : List (κ × α)}
    {l' : List (κ × β)} (hkeys : l.map Prod.fst = l'.map Prod.fst) :
    List.Forall₂ R (l.insertionSort fun a b => a.1 ≤ b.1) (l'.insertionSort fun a b => a.1 ≤ b.1) ↔
      List.Forall₂ R l l' := by
  have hlen : l.length = l'.length := by
    have := congrArg List.length hkeys
    rwa [List.length_map, List.length_map] at this
  have hkey : ∀ p ∈ l.zip l', p.1.1 = p.2.1 := by
    have h : List.Forall₂ (fun a b => a.1 = b.1) l l' := by
      rw [← List.forall₂_eq_eq_eq, List.forall₂_map_left_iff, List.forall₂_map_right_iff] at hkeys
      exact hkeys
    intro p hp
    exact (List.forall₂_iff_zip.mp h).2 hp
  have hfst : (l.zip l').map Prod.fst = l := List.map_fst_zip hlen.le
  have hsnd : (l.zip l').map Prod.snd = l' := List.map_snd_zip hlen.ge
  have hsort := List.map_insertionSort (fun p q : (κ × α) × (κ × β) => p.1.1 ≤ q.1.1)
    (fun a b => a.1 ≤ b.1) Prod.fst (l.zip l') fun _ _ _ _ => Iff.rfl
  have hsort' := List.map_insertionSort (fun p q : (κ × α) × (κ × β) => p.1.1 ≤ q.1.1)
    (fun a b => a.1 ≤ b.1) Prod.snd (l.zip l') fun p hp q hq => by rw [hkey p hp, hkey q hq]
  rw [hfst] at hsort
  rw [hsnd] at hsort'
  have hzip : List.Forall₂ R l l' ↔
      List.Forall₂ R ((l.zip l').map Prod.fst) ((l.zip l').map Prod.snd) := by rw [hfst, hsnd]
  rw [← hsort, ← hsort', hzip]
  simp only [List.forall₂_map_left_iff, List.forall₂_map_right_iff, List.forall₂_same]
  refine forall_congr' fun p => imp_congr_left ?_
  rw [List.mem_insertionSort]

end

/-- Two lists made of two others, whose elements determine when two of theirs are the same. -/
theorem eq_iff_forall₂ {P : γ → ε → Prop} {P' : δ → ε → Prop} {Q : γ → δ → Prop} {as : List γ}
    {bs : List δ} {xs ys : List ε} (hx : List.Forall₂ P as xs) (hy : List.Forall₂ P' bs ys)
    (h : ∀ a ∈ as, ∀ b ∈ bs, ∀ x y, P a x → P' b y → (x = y ↔ Q a b)) : xs = ys ↔ List.Forall₂ Q as bs := by
  induction hx generalizing bs ys with
  | nil =>
      cases hy with
      | nil => exact iff_of_true rfl .nil
      | cons _ _ => exact iff_of_false nofun nofun
  | @cons a x as xs ha _ ih =>
      cases hy with
      | nil => exact iff_of_false nofun nofun
      | @cons b y bs ys hb hrest =>
          rw [List.cons.injEq, List.forall₂_cons, h a List.mem_cons_self b List.mem_cons_self x y ha hb]
          exact and_congr_right fun _ => ih hrest fun a' ha' b' hb' =>
            h a' (List.mem_cons_of_mem a ha') b' (List.mem_cons_of_mem b hb')

/-- Two lists that are mapped from one, with the same rest behind them. -/
theorem forall₂_map_append_iff {R : β → β → Prop} (hrefl : ∀ b, R b b) (as : List α) (f g : α → β)
    (bs : List β) : List.Forall₂ R (as.map f ++ bs) (as.map g ++ bs) ↔ ∀ a ∈ as, R (f a) (g a) := by
  induction as with
  | nil => exact iff_of_true (List.forall₂_same.mpr fun b _ => hrefl b) fun a ha => absurd ha List.not_mem_nil
  | cons a as ih =>
      rw [List.map_cons, List.map_cons, List.cons_append, List.cons_append, List.forall₂_cons, ih,
        List.forall_mem_cons]

/-! ## Lists that differ in one place

They are related by what relates the two elements there. -/

def DifferAt (a b : α) (as bs : List α) : Prop :=
  ∃ before after, as = before ++ a :: after ∧ bs = before ++ b :: after

/-- The place decides, where everything is related to itself. -/
theorem DifferAt.forall₂_iff {R : α → α → Prop} {a b : α} {as bs : List α} (h : DifferAt a b as bs)
    (hrefl : ∀ c, R c c) : List.Forall₂ R as bs ↔ R a b := by
  obtain ⟨before, after, rfl, rfl⟩ := h
  induction before with
  | nil =>
      rw [List.nil_append, List.nil_append, List.forall₂_cons, List.forall₂_same]
      exact and_iff_left fun c _ => hrefl c
  | cons c before ih =>
      rw [List.cons_append, List.cons_append, List.forall₂_cons, ih]
      exact and_iff_right (hrefl c)

end PairedLists
