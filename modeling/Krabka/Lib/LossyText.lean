import Krabka.Lib.Cutting

/-!
# `Lib.LossyText` — a lossy decoding of UTF-8

Every sequence of bytes that is no character becomes one replacement character: a bad sequence as long as
`str::from_utf8` says it is, and an unfinished one at the end as a whole. Text comes back as it is.
-/

namespace Text

/-- A bad sequence has at least one byte. -/
theorem errorLen_pos {i n : Nat} {bs : List UInt8} (h : (utf8ErrorFrom i bs).errorLen = some n) : 0 < n := by
  fun_induction utf8ErrorFrom i bs <;> simp_all
  all_goals omega

theorem charsOf_eq_error {bs : List UInt8} {e : Utf8Error} (h : charsOf bs = .error e) :
    e = utf8ErrorFrom 0 bs ∧ bs ≠ [] := by
  constructor
  · unfold charsOf fromUtf8 at h
    split at h
    · cases h
    · cases h
      rfl
  · rintro rfl
    rw [← bytesOf_nil, charsOf_bytesOf] at h
    cases h

/-- What is behind a bad sequence is shorter. -/
theorem length_drop_lt {bs : List UInt8} {e : Utf8Error} (h : charsOf bs = .error e) {n : Nat}
    (hn : e.errorLen = some n) : (bs.drop (e.validUpTo + n)).length < bs.length := by
  obtain ⟨rfl, hne⟩ := charsOf_eq_error h
  have hpos := errorLen_pos hn
  have hlen := List.length_pos_iff.mpr hne
  rw [List.length_drop]
  omega

/-- `String::from_utf8_lossy(bs)`. -/
def fromUtf8Lossy (bs : List UInt8) : List Char :=
  match _ : charsOf bs with
  | .ok cs => cs
  | .error e =>
      (charsOf (bs.take e.validUpTo)).toOption.getD [] ++ '\uFFFD' ::
        match _ : e.errorLen with
        | none => []
        | some n => fromUtf8Lossy (bs.drop (e.validUpTo + n))
termination_by bs.length
decreasing_by exact length_drop_lt ‹_› ‹_›

/-- **Text comes back.** -/
theorem fromUtf8Lossy_bytesOf (cs : List Char) : fromUtf8Lossy (bytesOf cs) = cs := by
  rw [fromUtf8Lossy]
  split
  · rename_i h
    rw [charsOf_bytesOf] at h
    cases h
    rfl
  · rename_i h
    rw [charsOf_bytesOf] at h
    cases h

example : fromUtf8Lossy [0x61, 0xE2, 0x82, 0x62, 0xF0] = ['a', '\uFFFD', 'b', '\uFFFD'] := by
  decide +kernel

end Text
