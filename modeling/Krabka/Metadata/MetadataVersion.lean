import Krabka.Lib.Text
import Krabka.Metadata.Downgrade

/-!
# `Metadata.MetadataVersion` — the levels of `metadata.version`

`metadata_version.rs`: the supported levels, how a version string names one, and whether the way from one
level to another crosses a change of the record format. A way that crosses none passes no level that changed
the format (`le_iff_of_unchanged`).
-/

namespace Krabka.Metadata

open Text

/-- A level, its `X.Y-IVn` name and `X.Y` release, and whether it changed the record format. -/
structure MetadataVersion where
  level : Int16
  ivn : String
  short : String
  didMetadataChange : Bool
deriving DecidableEq, Repr

namespace VersionTable

def table : List MetadataVersion := [
  ⟨7, "3.3-IV3", "3.3", true⟩,
  ⟨8, "3.4-IV0", "3.4", true⟩,
  ⟨9, "3.5-IV0", "3.5", false⟩,
  ⟨10, "3.5-IV1", "3.5", false⟩,
  ⟨11, "3.5-IV2", "3.5", true⟩,
  ⟨12, "3.6-IV0", "3.6", false⟩,
  ⟨13, "3.6-IV1", "3.6", true⟩,
  ⟨14, "3.6-IV2", "3.6", true⟩,
  ⟨15, "3.7-IV0", "3.7", true⟩,
  ⟨16, "3.7-IV1", "3.7", false⟩,
  ⟨17, "3.7-IV2", "3.7", true⟩,
  ⟨18, "3.7-IV3", "3.7", false⟩,
  ⟨19, "3.7-IV4", "3.7", false⟩,
  ⟨20, "3.8-IV0", "3.8", false⟩,
  ⟨21, "3.9-IV0", "3.9", false⟩,
  ⟨22, "4.0-IV0", "4.0", false⟩,
  ⟨23, "4.0-IV1", "4.0", true⟩,
  ⟨24, "4.0-IV2", "4.0", false⟩,
  ⟨25, "4.0-IV3", "4.0", false⟩,
  ⟨26, "4.1-IV0", "4.1", false⟩,
  ⟨27, "4.1-IV1", "4.1", false⟩,
  ⟨28, "4.2-IV0", "4.2", false⟩,
  ⟨29, "4.2-IV1", "4.2", false⟩,
  ⟨30, "4.3-IV0", "4.3", true⟩,
  ⟨31, "4.4-IV0", "4.4", false⟩,
  ⟨32, "4.4-IV1", "4.4", true⟩,
  ⟨33, "4.4-IV2", "4.4", true⟩,
  ⟨34, "4.5-IV0", "4.5", false⟩]

def fromFeatureLevel (level : Int16) : Option MetadataVersion := table.find? (fun m => m.level == level)

/-- `max_by_key(|m| m.level)`: of equal levels, the last. -/
def maxByLevel : List MetadataVersion → Option MetadataVersion
  | [] => none
  | m :: ms => some (ms.foldl (fun best m => if best.level ≤ m.level then m else best) m)

/-- An `X.Y-IVn` string names its level, and an `X.Y` string the highest level of the release. -/
def fromVersionString (s : List Char) : Option MetadataVersion :=
  let s := trimMatches isWhitespace s
  if s.contains '-' then table.find? (fun m => m.ivn.toList == s)
  else maxByLevel (table.filter (fun m => m.short.toList == s))

def didMetadataChange (level : Int16) : Option Bool := (fromFeatureLevel level).map (·.didMetadataChange)

/-- The range `a..=b`. -/
def rangeInclusive (a b : Int16) : List Int16 :=
  (List.range (b.toInt + 1 - a.toInt).toNat).map fun (i : Nat) => Int16.ofInt (a.toInt + i)

/-- `low + 1` wraps above the highest `i16`, as in a release build. -/
def metadataChangedBetween (fromLevel toLevel : Int16) : Bool :=
  let (low, high) := if fromLevel ≤ toLevel then (fromLevel, toLevel) else (toLevel, fromLevel)
  (rangeInclusive (low + 1) high).any fun level => (didMetadataChange level).getD true

/-! ## Version strings

A full name is looked up; a short one is the newest level of its release. -/

/-- The strings of the table: only the name of a level has a dash, no level stands twice, and no name does. -/
theorem table_distinct : (∀ m ∈ table, m.ivn.toList.contains '-' = true ∧ m.short.toList.contains '-' = false) ∧
    (table.map (·.level)).Nodup ∧ (table.map (·.ivn)).Nodup := by
  decide

theorem fromFeatureLevel_eq_some {level : Int16} {m : MetadataVersion} :
    fromFeatureLevel level = some m ↔ m ∈ table ∧ m.level = level := by
  constructor
  · intro h
    exact ⟨List.mem_of_find?_eq_some h, by simpa using List.find?_some h⟩
  · rintro ⟨hm, rfl⟩
    refine Collections.find?_of_unique hm (by simp) fun m' hm' heq => ?_
    exact List.inj_on_of_nodup_map table_distinct.2.1 hm' hm (by simpa using heq)

/-- The fold ends at one of its levels, and at none below the others. -/
theorem foldl_max_spec {ms : List MetadataVersion} {best : MetadataVersion} {m : MetadataVersion}
    (h : ms.foldl (fun best m => if best.level ≤ m.level then m else best) best = m) :
    m ∈ best :: ms ∧ ∀ m' ∈ best :: ms, m'.level ≤ m.level := by
  induction ms generalizing best with
  | nil =>
      cases h
      refine ⟨List.mem_cons_self, fun m' hm' => ?_⟩
      rw [List.mem_singleton.mp hm']
      exact Int16.le_refl _
  | cons next rest ih =>
      rw [List.foldl_cons] at h
      by_cases hle : best.level ≤ next.level
      · rw [if_pos hle] at h
        obtain ⟨hmem, hmax⟩ := ih h
        have hbest := Int16.le_trans hle (hmax next List.mem_cons_self)
        exact ⟨List.mem_cons_of_mem _ hmem, List.forall_mem_cons.mpr ⟨hbest, hmax⟩⟩
      · rw [if_neg hle] at h
        obtain ⟨hmem, hmax⟩ := ih h
        obtain ⟨hbest, hrest⟩ := List.forall_mem_cons.mp hmax
        have hnext := Int16.le_trans (Int16.le_of_lt (Int16.not_le.mp hle)) hbest
        refine ⟨?_, List.forall_mem_cons.mpr ⟨hbest, List.forall_mem_cons.mpr ⟨hnext, hrest⟩⟩⟩
        rcases List.mem_cons.mp hmem with rfl | hmem
        · exact List.mem_cons_self
        · exact List.mem_cons_of_mem _ (List.mem_cons_of_mem _ hmem)

theorem maxByLevel_eq_some {ms : List MetadataVersion} (hms : (ms.map (·.level)).Nodup) {m : MetadataVersion} :
    maxByLevel ms = some m ↔ m ∈ ms ∧ ∀ m' ∈ ms, m'.level ≤ m.level := by
  cases ms with
  | nil => exact iff_of_false (fun h => nomatch h) fun h => absurd h.1 List.not_mem_nil
  | cons first rest =>
      constructor
      · intro h
        exact foldl_max_spec (Option.some.inj h)
      · rintro ⟨hm, hmax⟩
        obtain ⟨hm', hmax'⟩ := @foldl_max_spec rest first _ rfl
        refine congrArg some ?_
        exact List.inj_on_of_nodup_map hms hm' hm (Int16.le_antisymm (hmax _ hm') (hmax' _ hm))

/-- **What a version string names.** It is a level of the table when, without the blanks around it, it is the
    name of the level, or the release of the level and no later level has that release. -/
theorem fromVersionString_eq_some {s : List Char} {m : MetadataVersion} : fromVersionString s = some m ↔
    m ∈ table ∧ (trimMatches isWhitespace s = m.ivn.toList ∨
      trimMatches isWhitespace s = m.short.toList ∧ ∀ m' ∈ table, m'.short = m.short → m'.level ≤ m.level) := by
  obtain ⟨hdash, hlevels, hnames⟩ := table_distinct
  unfold fromVersionString
  generalize trimMatches isWhitespace s = t
  by_cases ht : t.contains '-' = true
  · rw [if_pos ht]
    constructor
    · intro h
      exact ⟨List.mem_of_find?_eq_some h, Or.inl (Eq.symm (by simpa using List.find?_some h))⟩
    · rintro ⟨hm, rfl | ⟨rfl, -⟩⟩
      · refine Collections.find?_of_unique hm (by simp) fun m' hm' heq => ?_
        exact List.inj_on_of_nodup_map hnames hm' hm (String.toList_injective (by simpa using heq))
      · rw [(hdash m hm).2] at ht
        cases ht
  · rw [if_neg ht, maxByLevel_eq_some (List.Nodup.sublist (List.filter_sublist.map _) hlevels)]
    constructor
    · rintro ⟨hm, hmax⟩
      obtain ⟨hm, hshort⟩ := List.mem_filter.mp hm
      have hshort : m.short.toList = t := by simpa using hshort
      refine ⟨hm, Or.inr ⟨hshort.symm, fun m' hm' heq => hmax m' (List.mem_filter.mpr ⟨hm', ?_⟩)⟩⟩
      simpa [heq] using hshort
    · rintro ⟨hm, rfl | ⟨rfl, hmax⟩⟩
      · exact absurd (hdash m hm).1 ht
      · refine ⟨List.mem_filter.mpr ⟨hm, by simp⟩, fun m' hm' => ?_⟩
        obtain ⟨hm', hshort⟩ := List.mem_filter.mp hm'
        exact hmax m' hm' (String.toList_injective (by simpa using hshort))

/-! ## Changes between levels

The check looks at every level on the way, the lower end left out. -/

theorem mem_rangeInclusive {a b level : Int16} : level ∈ rangeInclusive a b ↔ a ≤ level ∧ level ≤ b := by
  unfold rangeInclusive
  rw [List.mem_map, Int16.le_iff_toInt_le, Int16.le_iff_toInt_le]
  constructor
  · rintro ⟨i, hi, rfl⟩
    rw [List.mem_range] at hi
    have ha := a.le_toInt
    have hb := b.toInt_lt
    rw [Int16.toInt_ofInt_of_le (by omega) (by omega)]
    omega
  · rintro ⟨ha, hb⟩
    refine ⟨(level.toInt - a.toInt).toNat, List.mem_range.mpr (by omega), ?_⟩
    rw [show a.toInt + ((level.toInt - a.toInt).toNat : Int) = level.toInt by omega, Int16.ofInt_toInt]

theorem metadataChangedBetween_comm (a b : Int16) :
    metadataChangedBetween a b = metadataChangedBetween b a := by
  unfold metadataChangedBetween
  by_cases hab : a ≤ b
  · by_cases hba : b ≤ a
    · rw [Int16.le_antisymm hab hba]
    · rw [if_pos hab, if_neg hba]
  · rw [if_neg hab, if_pos (Int16.le_of_lt (Int16.not_le.mp hab))]

theorem add_one_le_iff {low level : Int16} (h : low ≠ Int16.maxValue) : low + 1 ≤ level ↔ low < level := by
  have hlt := low.toInt_lt
  have hle := low.le_toInt
  have hne : low.toInt ≠ 2 ^ 15 - 1 := fun heq => h (Int16.toInt_inj.mp heq)
  have hone : (low + 1).toInt = low.toInt + 1 := by
    rw [Int16.toInt_add]
    show Int.bmod (low.toInt + 1) (2 ^ 16) = low.toInt + 1
    exact Int.bmod_eq_of_le (by omega) (by omega)
  rw [Int16.le_iff_toInt_le, Int16.lt_iff_toInt_lt, hone]
  omega

/-- Between two levels the format changed when it changed at one of them but the lower. Above the highest
    `i16` the range wraps, and covers every level. -/
theorem metadataChangedBetween_eq_true {a b : Int16} (h : a ≤ b) : metadataChangedBetween a b = true ↔
    a = Int16.maxValue ∨ ∃ level, a < level ∧ level ≤ b ∧ didMetadataChange level ≠ some false := by
  unfold metadataChangedBetween
  simp only [if_pos h, List.any_eq_true, mem_rangeInclusive]
  have hchange : ∀ level, (didMetadataChange level).getD true = true ↔
      didMetadataChange level ≠ some false := by
    intro level
    cases didMetadataChange level with
    | none => simp
    | some changed => cases changed <;> simp
  by_cases hmax : a = Int16.maxValue
  · subst hmax
    obtain rfl := Int16.le_antisymm h b.le_maxValue
    refine iff_of_true ⟨0, ⟨by decide, by decide⟩, by decide⟩ (Or.inl rfl)
  · rw [or_iff_right hmax]
    simp only [hchange, add_one_le_iff hmax, and_assoc]

/-- A level that changed the format is not passed on a way that crosses no change. -/
theorem le_iff_of_unchanged {a b g : Int16} (h : metadataChangedBetween a b = false)
    (hg : didMetadataChange g = some true) : g ≤ a ↔ g ≤ b := by
  have hpassed : ∀ {a b : Int16}, metadataChangedBetween a b = false → a ≤ b → g ≤ b → g ≤ a := by
    intro a b h hab hgb
    by_contra hga
    have hchanged : metadataChangedBetween a b = true :=
      (metadataChangedBetween_eq_true hab).mpr (Or.inr ⟨g, Int16.not_le.mp hga, hgb, by rw [hg]; decide⟩)
    rw [h] at hchanged
    cases hchanged
  rcases Int16.le_total a b with hab | hba
  · exact ⟨fun hga => Int16.le_trans hga hab, hpassed h hab⟩
  · exact ⟨hpassed (metadataChangedBetween_comm b a ▸ h) hba, fun hgb => Int16.le_trans hgb hba⟩

end VersionTable

end Krabka.Metadata
