import Krabka.Lib.Text

/-!
# `Lib.TextRange` — slices of a text by byte offsets

`text.get(a..b)` and `text.get(a..)`, on the characters of the text. A slice is there exactly when its ends fall
between two characters, in order.
-/

namespace Text

def getFrom (s : List Char) (a : Nat) : Option (List Char) := (charsTo s a).map fun p => s.drop p.length

def getRange (s : List Char) (a b : Nat) : Option (List Char) :=
  if a ≤ b then (charsTo s a).bind fun p => (charsTo s b).map fun q => q.drop p.length else none

/-- `s.is_char_boundary(a)`. -/
def IsBoundary (s : List Char) (a : Nat) : Prop := ∃ p t, s = p ++ t ∧ String.utf8Len p = a

variable {s t p m : List Char} {a b : Nat}

theorem charsTo_append (p t : List Char) : charsTo (p ++ t) (String.utf8Len p) = some p :=
  charsTo_eq_some_iff.mpr ⟨List.prefix_append p t, rfl⟩

theorem getFrom_append (p t : List Char) : getFrom (p ++ t) (String.utf8Len p) = some t := by
  unfold getFrom
  rw [charsTo_append, Option.map_some, List.drop_left]

theorem getRange_append (p m t : List Char) :
    getRange (p ++ (m ++ t)) (String.utf8Len p) (String.utf8Len p + String.utf8Len m) = some m := by
  have hupto : charsTo (p ++ (m ++ t)) (String.utf8Len p + String.utf8Len m) = some (p ++ m) := by
    rw [← List.append_assoc, ← String.utf8Len_append, charsTo_append]
  unfold getRange
  rw [if_pos (Nat.le_add_right _ _), charsTo_append, Option.bind_some, hupto, Option.map_some, List.drop_left]

theorem isBoundary_zero (s : List Char) : IsBoundary s 0 := ⟨[], s, rfl, rfl⟩

/-- Two boundaries in order cut a text in three. -/
theorem exists_cut (ha : IsBoundary s a) (hb : IsBoundary s b) (h : a ≤ b) :
    ∃ p m t, s = p ++ (m ++ t) ∧ String.utf8Len p = a ∧ String.utf8Len p + String.utf8Len m = b := by
  obtain ⟨p, t, rfl, rfl⟩ := ha
  obtain ⟨q, u, hq, rfl⟩ := hb
  rcases List.append_eq_append_iff.mp hq with ⟨m, rfl, rfl⟩ | ⟨m, rfl, rfl⟩
  · exact ⟨p, m, u, rfl, rfl, (String.utf8Len_append p m).symm⟩
  · rw [String.utf8Len_append] at h
    have hm : m = [] := String.utf8Len_eq_zero.mp (by omega)
    subst hm
    exact ⟨q, [], t, by simp, by simp, by simp⟩

theorem getFrom_of_boundary (h : IsBoundary s a) :
    ∃ t, getFrom s a = some t ∧ (t = [] → a = String.utf8Len s) := by
  obtain ⟨p, t, rfl, rfl⟩ := h
  refine ⟨t, getFrom_append p t, ?_⟩
  rintro rfl
  rw [List.append_nil]

/-- What is behind one boundary is what stands before the next, and what is behind that. -/
theorem getFrom_eq_append (ha : IsBoundary s a) (hb : IsBoundary s b) (h : a ≤ b) :
    ∃ m t, getRange s a b = some m ∧ getFrom s b = some t ∧ getFrom s a = some (m ++ t) := by
  obtain ⟨p, m, t, rfl, rfl, rfl⟩ := exists_cut ha hb h
  refine ⟨m, t, getRange_append p m t, ?_, getFrom_append p (m ++ t)⟩
  rw [← List.append_assoc, ← String.utf8Len_append]
  exact getFrom_append (p ++ m) t

end Text
