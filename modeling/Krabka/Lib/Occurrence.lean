import Krabka.Lib.Text

/-!
# `Lib.Occurrence` — the first occurrence of a pattern

`find` answers where a pattern stands first: it stands there (`find_eq_some_iff`), and nowhere before. What comes
behind an occurrence does not matter to it, and a pattern that stands somewhere is found.
-/

namespace Text

variable {pat s t : List Char}

theorem find_eq_some_iff {n : Nat} :
    find pat s = some n ↔ n ≤ s.length ∧ pat <+: s.drop n ∧ ∀ m < n, ¬pat <+: s.drop m := by
  induction s generalizing n with
  | nil =>
      unfold find
      rw [List.drop_nil, List.prefix_nil]
      constructor
      · intro h
        split at h
        · rename_i hnil
          cases h
          exact ⟨Nat.le_refl 0, List.isEmpty_iff.mp hnil, fun m hm => absurd hm (Nat.not_lt_zero m)⟩
        · cases h
      · rintro ⟨hn, hnil, -⟩
        rw [if_pos (List.isEmpty_iff.mpr hnil), Nat.le_zero.mp hn]
  | cons c s ih =>
      unfold find
      by_cases hpre : pat <+: c :: s
      · rw [if_pos (List.isPrefixOf_iff_prefix.mpr hpre), Option.some.injEq]
        constructor
        · rintro rfl
          exact ⟨Nat.zero_le _, hpre, fun m hm => absurd hm (Nat.not_lt_zero m)⟩
        · rintro ⟨-, -, hfirst⟩
          by_contra hne
          exact hfirst 0 (Nat.pos_of_ne_zero (Ne.symm hne)) hpre
      · rw [if_neg (fun h => hpre (List.isPrefixOf_iff_prefix.mp h)), Option.map_eq_some_iff]
        constructor
        · rintro ⟨n, hn, rfl⟩
          obtain ⟨hle, hat, hfirst⟩ := ih.mp hn
          refine ⟨Nat.succ_le_succ hle, hat, fun m hm => ?_⟩
          cases m with
          | zero => exact hpre
          | succ m => exact hfirst m (Nat.lt_of_succ_lt_succ hm)
        · rintro ⟨hle, hat, hfirst⟩
          cases n with
          | zero => exact absurd hat hpre
          | succ n =>
              refine ⟨n, ih.mpr ⟨Nat.le_of_succ_le_succ hle, hat, fun m hm => ?_⟩, rfl⟩
              exact hfirst (m + 1) (Nat.succ_lt_succ hm)

/-- What stands behind the first occurrence does not change where it is. -/
theorem find_append {n : Nat} (h : find pat s = some n) (t : List Char) : find pat (s ++ t) = some n := by
  have hfit := add_le_of_find h
  obtain ⟨hle, hat, hfirst⟩ := find_eq_some_iff.mp h
  refine find_eq_some_iff.mpr ⟨?_, ?_, fun m hm => ?_⟩
  · rw [List.length_append]
    omega
  · rw [List.drop_append_of_le_length hle]
    exact hat.trans (List.prefix_append _ _)
  · rw [List.drop_append_of_le_length (by omega)]
    intro hpre
    refine hfirst m hm (List.prefix_of_prefix_length_le hpre (List.prefix_append _ _) ?_)
    rw [List.length_drop]
    omega

theorem exists_find_of_infix (h : pat <:+: s) : ∃ n, find pat s = some n := by
  obtain ⟨before, after, rfl⟩ := h
  have hat : pat <+: (before ++ pat ++ after).drop before.length := by
    rw [List.append_assoc, List.drop_left]
    exact List.prefix_append _ _
  have hex : ∃ n, pat <+: (before ++ pat ++ after).drop n := ⟨before.length, hat⟩
  have hle := Nat.find_min' hex hat
  refine ⟨Nat.find hex, find_eq_some_iff.mpr ⟨?_, Nat.find_spec hex, fun m hm => Nat.find_min hex hm⟩⟩
  simp only [List.length_append]
  omega

/-- A character is found behind the characters that are none of it. -/
theorem find_singleton {c : Char} (h : c ∉ s) (t : List Char) : find [c] (s ++ c :: t) = some s.length := by
  refine find_eq_some_iff.mpr ⟨?_, ?_, fun m hm hpre => ?_⟩
  · rw [List.length_append]
    omega
  · rw [List.drop_left]
    exact ⟨t, rfl⟩
  · rw [List.drop_append_of_le_length (Nat.le_of_lt hm), List.drop_eq_getElem_cons hm, List.cons_append] at hpre
    exact h ((List.cons_prefix_cons.mp hpre).1 ▸ List.getElem_mem hm)

end Text
