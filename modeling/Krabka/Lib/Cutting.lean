import Krabka.Lib.Results
import Krabka.Lib.Text

/-!
# `Lib.Cutting` — what a cut says about the text

Each way of cutting a text as an equation: it succeeds with these parts exactly when the text is put together
from them. A grammar over texts is then read off a parser line by line.
-/

namespace Text

theorem stripPrefix_eq_some {p s rest : List Char} : stripPrefix p s = some rest ↔ s = p ++ rest := by
  constructor
  · intro h
    unfold stripPrefix at h
    split at h
    · rename_i hp
      obtain ⟨t, rfl⟩ := List.isPrefixOf_iff_prefix.mp hp
      rw [List.drop_left] at h
      rw [Option.some.inj h]
    · cases h
  · rintro rfl
    exact stripPrefix_append p rest

theorem stripPrefix_eq_none {p s : List Char} : stripPrefix p s = none ↔ ∀ rest, s ≠ p ++ rest := by
  rw [Option.eq_none_iff_forall_ne_some]
  exact forall_congr' fun rest => not_congr stripPrefix_eq_some

theorem stripSuffix_eq_some {p s rest : List Char} : stripSuffix p s = some rest ↔ s = rest ++ p := by
  constructor
  · intro h
    unfold stripSuffix at h
    split at h
    · rename_i hp
      obtain ⟨t, rfl⟩ := List.isSuffixOf_iff_suffix.mp hp
      rw [List.length_append, Nat.add_sub_cancel, List.take_left] at h
      rw [Option.some.inj h]
    · cases h
  · rintro rfl
    exact stripSuffix_append p rest

/-- The first separator. -/
theorem splitOnceAt_eq_some {sep : Char} {s a b : List Char} :
    splitOnceAt sep s = some (a, b) ↔ sep ∉ a ∧ s = a ++ sep :: b := by
  constructor
  · intro h
    unfold splitOnceAt at h
    split at h
    · cases h
    · rename_i c rest hdrop
      cases h
      have hc : c = sep := by
        have hhead := List.dropWhile_get_zero_not (· != sep) s (by rw [hdrop]; exact Nat.succ_pos _)
        simpa [hdrop] using hhead
      refine ⟨fun hmem => ?_, ?_⟩
      · have hkeep := List.mem_takeWhile_imp hmem
        simp at hkeep
      · rw [hc] at hdrop
        rw [← hdrop, List.takeWhile_append_dropWhile]
  · rintro ⟨ha, rfl⟩
    exact splitOnceAt_append ha

/-! ## Terminated segments

Segments that each end in a separator, against segments between separators. -/

theorem intercalate_append (sep : Char) {segs : List (List Char)} (hne : segs ≠ []) :
    [sep].intercalate segs ++ [sep] = segs.flatMap (· ++ [sep]) := by
  induction segs with
  | nil => exact absurd rfl hne
  | cons seg segs ih =>
      cases segs with
      | nil => simp
      | cons seg' segs =>
          show _ = seg ++ [sep] ++ (seg' :: segs).flatMap (· ++ [sep])
          rw [← ih (List.cons_ne_nil seg' segs), List.intercalate_cons_cons, List.append_assoc,
            List.append_assoc]

/-- A text and a last separator are the segments, each with its separator. -/
theorem append_eq_flatMap_splitOn (sep : Char) (s : List Char) :
    s ++ [sep] = (s.splitOn sep).flatMap (· ++ [sep]) := by
  rw [← intercalate_append sep (List.splitOn_ne_nil sep s), List.intercalate_splitOn]

/-! ## The end of a text

A run of one character at the end. -/

theorem rdropWhile_append_replicate {c : Char} {s : List Char} (h : c ∉ s) (n : Nat) :
    (s ++ List.replicate n c).rdropWhile (· == c) = s := by
  induction n with
  | zero =>
      rw [List.replicate_zero, List.append_nil, List.rdropWhile_eq_self_iff]
      intro hne hlast
      rw [beq_iff_eq] at hlast
      exact h (hlast ▸ List.getLast_mem hne)
  | succ n ih =>
      rw [List.replicate_succ', ← List.append_assoc,
        List.rdropWhile_concat_pos (· == c) _ c (beq_self_eq_true c), ih]

/-- What is trimmed from the end is the character, over and over. -/
theorem exists_replicate_of_rdropWhile (c : Char) (s : List Char) :
    ∃ n, s = s.rdropWhile (· == c) ++ List.replicate n c := by
  refine ⟨(s.rtakeWhile (· == c)).length, ?_⟩
  have hall : s.rtakeWhile (· == c) = List.replicate (s.rtakeWhile (· == c)).length c :=
    List.eq_replicate_of_mem fun d hd => eq_of_beq (List.mem_rtakeWhile_imp (p := (· == c)) hd)
  rw [← hall, List.rdropWhile_append_rtakeWhile]

/-- A text is not trimmed when nothing of it is trimmed at its ends. -/
theorem trimMatches_of_ends {p : Char → Bool} {s : List Char} (hhead : ∀ c ∈ s.head?, p c = false)
    (hlast : ∀ c ∈ s.getLast?, p c = false) : trimMatches p s = s := by
  have hdrop : s.dropWhile p = s := by
    rw [List.dropWhile_eq_self_iff]
    intro hs
    rw [hhead _ (List.head?_eq_getElem? ▸ List.getElem?_eq_getElem hs)]
    exact Bool.false_ne_true
  unfold trimMatches
  rw [hdrop, List.rdropWhile_eq_self_iff]
  intro hs
  rw [hlast _ (List.getLast?_eq_some_getLast hs)]
  exact Bool.false_ne_true

/-! ## Bytes of a text

A test on bytes below 0x80 is a test on characters. -/

/-- A test that no byte from `0x80` on passes is a test of ASCII characters. -/
theorem all_bytesOf {p : UInt8 → Bool} (hp : ∀ b, 0x80 ≤ b → p b = false) (cs : List Char) :
    (bytesOf cs).all p = cs.all fun c => c.toNat < 0x80 && p (UInt8.ofNat c.toNat) := by
  induction cs with
  | nil => rfl
  | cons c cs ih =>
      rw [List.all_cons]
      by_cases hc : c.toNat < 0x80
      · rw [bytesOf_ascii hc, List.all_cons, ih]
        simp [hc]
      · obtain ⟨b, bs, hb, hle⟩ := bytesOf_nonAscii (Nat.le_of_not_lt hc) cs
        rw [hb, List.all_cons, hp b hle]
        simp [hc]

/-- Bytes that decode are those of the text. -/
theorem charsOf_eq_ok {bs : List UInt8} {cs : List Char} : charsOf bs = .ok cs ↔ bs = bytesOf cs := by
  constructor
  · intro h
    obtain ⟨s, hs, rfl⟩ := Results.map_eq_ok.mp h
    rw [bytesOf, String.ofList_toList]
    exact (utf8Bytes_of_fromUtf8 hs).symm
  · rintro rfl
    exact charsOf_bytesOf cs

end Text
