import Krabka.Lib.Collections

/-!
# `Lib.LongestPrefix` — the longest stored prefix of a text

An ordered map with text keys finds the longest key that a text starts with by walking down from the text:
in lexicographic order a prefix sorts below its extensions, so the keys that are prefixes of one text
ascend by length, and the first one met on the way down is the longest (`find?_rangeToRev_eq_some_iff`).
-/

namespace Text

open Collections

/-! ## Prefixes

A prefix sorts below the text, and two prefixes of a text sort by length. -/

/-- `s.starts_with(p)`. -/
def startsWith (s p : String) : Bool := p.toList.isPrefixOf s.toList

theorem startsWith_iff {s p : String} : startsWith s p = true ↔ p.toList <+: s.toList :=
  List.isPrefixOf_iff_prefix

theorem not_lt_of_prefix {p t : List Char} (h : p <+: t) : ¬t < p := by
  induction p generalizing t with
  | nil => exact List.not_lt_nil t
  | cons c p ih =>
      obtain ⟨s, rfl, hs⟩ := List.cons_prefix_iff.mp h
      intro hlt
      rcases List.cons_lt_cons_iff.mp hlt with hc | ⟨-, hlt⟩
      · exact lt_irrefl c hc
      · exact ih hs hlt

/-- A prefix sorts at or below what it begins. -/
theorem le_of_isPrefix {p s : String} (h : p.toList <+: s.toList) : p ≤ s :=
  not_lt.mp fun hlt => not_lt_of_prefix h (String.lt_iff_toList_lt.mp hlt)

/-- Two prefixes of one text are in order when their lengths are. -/
theorem le_iff_length_le_of_isPrefix {p q s : String} (hp : p.toList <+: s.toList)
    (hq : q.toList <+: s.toList) : p ≤ q ↔ p.toList.length ≤ q.toList.length := by
  constructor
  · intro hle
    rcases Nat.le_total p.toList.length q.toList.length with h | h
    · exact h
    · have hqp := le_of_isPrefix (List.prefix_of_prefix_length_le hq hp h)
      rw [le_antisymm hle hqp]
  · intro h
    exact le_of_isPrefix (List.prefix_of_prefix_length_le hp hq h)

/-! ## Walking down an ordered map

The listing of a range is in order, so its reverse meets the greatest key first. -/

/-- The last element of an ascending list with a property. -/
theorem find?_reverse_eq_some_iff {α : Type} {lt : α → α → Prop} (hasymm : ∀ a b, lt a b → ¬lt b a)
    {p : α → Bool} {l : List α} (hl : l.Pairwise lt) {a : α} :
    l.reverse.find? p = some a ↔ a ∈ l ∧ p a = true ∧ ∀ b ∈ l, p b = true → b = a ∨ lt b a := by
  have hdesc : l.reverse.Pairwise (fun a b => lt b a) := List.pairwise_reverse.mpr hl
  constructor
  · intro h
    obtain ⟨hp, before, after, heq, hbefore⟩ := List.find?_eq_some_iff_append.mp h
    refine ⟨List.mem_reverse.mp (List.mem_of_find?_eq_some h), hp, fun b hb hpb => ?_⟩
    rw [heq] at hdesc
    have hb := heq ▸ List.mem_reverse.mpr hb
    rcases List.mem_append.mp hb with hb | hb
    · have hnot := hbefore b hb
      rw [hpb] at hnot
      cases hnot
    · rcases List.mem_cons.mp hb with rfl | hb
      · exact Or.inl rfl
      · exact Or.inr ((List.pairwise_cons.mp (List.pairwise_append.mp hdesc).2.1).1 b hb)
  · rintro ⟨ha, hp, hmax⟩
    cases hfind : l.reverse.find? p with
    | none => exact absurd hp (List.find?_eq_none.mp hfind a (List.mem_reverse.mpr ha))
    | some b =>
        obtain ⟨hpb, before, after, heq, hbefore⟩ := List.find?_eq_some_iff_append.mp hfind
        have hb : b ∈ l := List.mem_reverse.mp (List.mem_of_find?_eq_some hfind)
        rcases hmax b hb hpb with rfl | hlt
        · rfl
        · -- `a` stands above `b`, so the walk would have met it first
          rw [heq] at hdesc
          have hmem := heq ▸ List.mem_reverse.mpr ha
          rcases List.mem_append.mp hmem with hmem | hmem
          · have hnot := hbefore a hmem
            rw [hp] at hnot
            cases hnot
          · rcases List.mem_cons.mp hmem with rfl | hmem
            · rfl
            · have hgt := (List.pairwise_cons.mp (List.pairwise_append.mp hdesc).2.1).1 a hmem
              exact absurd hgt (hasymm b a hlt)

variable {V : Type}

/-- `m.range(..=s).rev()`: the entries whose keys sort at or below `s`, from the highest down. -/
def rangeToRev (m : BTreeMap String V) (s : String) : List (String × V) :=
  (m.toList.filter (fun e => e.1 ≤ s)).reverse

theorem pairwise_toList (m : BTreeMap String V) : m.toList.Pairwise (fun a b => a.1 < b.1) :=
  m.ordered_keys_toList.imp fun h => compare_lt_iff_lt.mp h

/-- **The walk finds the longest key that is a prefix.** -/
theorem find?_rangeToRev_eq_some_iff {m : BTreeMap String V} {s k : String} {v : V} :
    (rangeToRev m s).find? (fun e => startsWith s e.1) = some (k, v) ↔
      m[k]? = some v ∧ k.toList <+: s.toList ∧
        ∀ k', k' ∈ m → k'.toList <+: s.toList → k'.toList.length ≤ k.toList.length := by
  have hsorted := (pairwise_toList m).filter (fun e => decide (e.1 ≤ s))
  have hmem : ∀ {k : String} {v : V}, (k, v) ∈ m.toList.filter (fun e => decide (e.1 ≤ s)) ↔
      m[k]? = some v ∧ k ≤ s := by
    intro k v
    rw [List.mem_filter, Std.ExtTreeMap.mem_toList_iff_getElem?_eq_some, decide_eq_true_iff]
  unfold rangeToRev
  rw [find?_reverse_eq_some_iff (fun a b hab hba => absurd hab (lt_asymm hba)) hsorted, hmem,
    startsWith_iff]
  constructor
  · rintro ⟨⟨hv, -⟩, hk, hmax⟩
    refine ⟨hv, hk, fun k' hk' hpre => ?_⟩
    obtain ⟨v', hv'⟩ := mem_iff_get.mp hk'
    rcases hmax (k', v') (hmem.mpr ⟨hv', le_of_isPrefix hpre⟩) (startsWith_iff.mpr hpre) with heq | hlt
    · cases heq
      exact Nat.le_refl _
    · exact (le_iff_length_le_of_isPrefix hpre hk).mp (le_of_lt hlt)
  · rintro ⟨hv, hk, hmax⟩
    refine ⟨⟨hv, le_of_isPrefix hk⟩, hk, ?_⟩
    rintro ⟨k', v'⟩ he hpre
    have hpre := startsWith_iff.mp hpre
    have hv' := (hmem.mp he).1
    have hle := (le_iff_length_le_of_isPrefix hpre hk).mpr (hmax k' (mem_iff_get.mpr ⟨v', hv'⟩) hpre)
    rcases lt_or_eq_of_le hle with hlt | heq
    · exact Or.inr hlt
    · simp only at heq
      subst heq
      rw [hv] at hv'
      cases hv'
      exact Or.inl rfl

theorem find?_rangeToRev_eq_none_iff {m : BTreeMap String V} {s : String} :
    (rangeToRev m s).find? (fun e => startsWith s e.1) = none ↔
      ∀ k, k ∈ m → ¬k.toList <+: s.toList := by
  unfold rangeToRev
  rw [List.find?_eq_none]
  constructor
  · intro h k hk hpre
    obtain ⟨v, hv⟩ := mem_iff_get.mp hk
    refine h (k, v) (List.mem_reverse.mpr (List.mem_filter.mpr ⟨?_, ?_⟩)) (startsWith_iff.mpr hpre)
    · exact Std.ExtTreeMap.mem_toList_iff_getElem?_eq_some.mpr hv
    · exact decide_eq_true (le_of_isPrefix hpre)
  · rintro h ⟨k, v⟩ he hpre
    have hv := Std.ExtTreeMap.mem_toList_iff_getElem?_eq_some.mp
      (List.mem_filter.mp (List.mem_reverse.mp he)).1
    exact h k (mem_iff_get.mpr ⟨v, hv⟩) (startsWith_iff.mp hpre)

end Text
