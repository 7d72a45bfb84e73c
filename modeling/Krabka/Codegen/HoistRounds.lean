import Krabka.Codegen.HoistMeaning

/-!
# `Codegen.HoistRounds` — the import that a path settles at

Which levels are chosen depends on all paths of a file at once: two that would import one name fall together, and
a third may have the name afterwards. `StandsAt` says round by round where a path stands, with no list of
levels and no test of the code, and `Settles` where it stays. The loop of the code runs these rounds
(`mem_iterate_round`), so the levels that it chooses are those where the paths settle
(`mem_chooseLevels_iff`).
-/

namespace Krabka.Codegen.Hoist

/-! ## Where a path settles

A path is blocked at a level if the name there is taken: by the file, by the prelude, or by another path that
would import something else under it. It settles where it is not blocked. -/

/-- The import of `path` at `level` finds its name taken: by a name of the file, by a `use` item or a prelude
name for something else, or by the import of another path, where `stands` says at which level each path is. -/
def Blocked (scope : Scope) (stands : PathKey → ℕ → Prop) (path : PathKey) (level : ℕ) : Prop :=
  ∃ p name, importAt path level = some (p, name) ∧
    (scope.bindsType name = true ∨ (path.segs.length ≤ level + 1 ∧ name ∈ scope.values) ∨
      (∃ q, scope.imported.lookup name = some q ∧ q ≠ p) ∨
      ((preludePath name).isSome = true ∧ isPrelude p = false) ∨
      ∃ path' level' q, stands path' level' ∧ importAt path' level' = some (q, name) ∧ q ≠ p)

/-- After `n` rounds the path stands at the level. It starts at its deepest level, and a round moves it one up
where its name is taken, and drops it at level 1. -/
def StandsAt (scope : Scope) (paths : List PathKey) : ℕ → PathKey → ℕ → Prop
  | 0, path, level => path ∈ paths ∧ level = deepestLevel path.segs
  | n + 1, path, level =>
      StandsAt scope paths n path level ∧ ¬Blocked scope (StandsAt scope paths n) path level ∨
        1 ≤ level ∧ StandsAt scope paths n path (level + 1) ∧
          Blocked scope (StandsAt scope paths n) path (level + 1)

/-- From some round on, the path stands at the level. -/
def Settles (scope : Scope) (paths : List PathKey) (path : PathKey) (level : ℕ) : Prop :=
  ∃ n, ∀ m, n ≤ m → StandsAt scope paths m path level

/-! ## Rounds

The list that the loop keeps holds each path at its level. One round of the loop is one round of `StandsAt`.
-/

section
variable {scope : Scope} {paths : List PathKey} {levels : Levels} {path : PathKey} {level : ℕ}

/-- Without repetition, a second element is another one. -/
theorem one_lt_length_iff {α : Type} [DecidableEq α] {l : List α} (hl : l.Nodup) {a : α} (ha : a ∈ l) :
    1 < l.length ↔ ∃ b ∈ l, b ≠ a := by
  have hone : 1 < l.length ↔ l ≠ [a] := by
    constructor
    · rintro hlen rfl
      exact absurd hlen (lt_irrefl 1)
    · intro hne
      refine lt_of_le_of_ne (List.length_pos_of_mem ha) fun hlen => hne ?_
      obtain ⟨b, rfl⟩ := List.length_eq_one_iff.mp hlen.symm
      rw [List.mem_singleton.mp ha]
  rw [hone, hl.ne_singleton_iff]
  exact or_iff_right (List.ne_nil_of_mem ha)

/-- The test of the code, for a path that is at the level. -/
theorem clashesAt_iff (h : (path, level) ∈ levels) :
    clashesAt scope levels path level = true ↔ Blocked scope (fun p l => (p, l) ∈ levels) path level := by
  unfold clashesAt Blocked
  cases hat : importAt path level with
  | none => simp
  | some c =>
      obtain ⟨p, name⟩ := c
      have hmine : p ∈ claims levels name := mem_claims.mpr ⟨(path, level), h, hat⟩
      have hclaims : 1 < (claims levels name).length ↔
          ∃ path' level' q, (path', level') ∈ levels ∧ importAt path' level' = some (q, name) ∧ q ≠ p := by
        have hnodup : (claims levels name).Nodup := List.nodup_dedup _
        rw [one_lt_length_iff hnodup hmine]
        constructor
        · rintro ⟨q, hq, hne⟩
          obtain ⟨e, he, hq⟩ := mem_claims.mp hq
          exact ⟨e.1, e.2, q, he, hq, hne⟩
        · rintro ⟨path', level', q, he, hq, hne⟩
          exact ⟨q, mem_claims.mpr ⟨(path', level'), he, hq⟩, hne⟩
      have himport : ∀ {P : PathKey → String → Prop},
          (∃ p' name', some (p, name) = some (p', name') ∧ P p' name') ↔ P p name := by
        intro P
        constructor
        · rintro ⟨_, _, ⟨⟩, h⟩
          exact h
        · intro h
          exact ⟨p, name, rfl, h⟩
      rw [himport, ← hclaims, Option.any_some]
      simp [clashes, Option.any_eq_true, or_assoc]

/-- What a round leaves, as long as every level is inside its path. -/
theorem mem_round (hlevels : ∀ e ∈ levels, e.2 < e.1.segs.length) :
    (path, level) ∈ round scope levels ↔
      (path, level) ∈ levels ∧ ¬Blocked scope (fun p l => (p, l) ∈ levels) path level ∨
        1 ≤ level ∧ (path, level + 1) ∈ levels ∧
          Blocked scope (fun p l => (p, l) ∈ levels) path (level + 1) := by
  have hat : ∀ e ∈ levels, (importAt e.1 e.2).isNone = false := by
    intro e he
    rw [importAt_eq (hlevels e he), Option.isNone_some]
  unfold round
  rw [List.mem_filterMap]
  constructor
  · rintro ⟨⟨path', level'⟩, hmem, hlower⟩
    unfold lowered at hlower
    rw [hat _ hmem, if_neg Bool.false_ne_true] at hlower
    split at hlower
    · rename_i hclash
      split at hlower
      · rename_i hgt
        cases hlower
        have hback : level' - 1 + 1 = level' := Nat.sub_add_cancel (Nat.le_of_lt hgt)
        refine Or.inr ⟨Nat.le_sub_one_of_lt hgt, ?_⟩
        rw [hback]
        exact ⟨hmem, (clashesAt_iff hmem).mp hclash⟩
      · cases hlower
    · rename_i hclash
      cases hlower
      exact Or.inl ⟨hmem, fun hblocked => hclash ((clashesAt_iff hmem).mpr hblocked)⟩
  · rintro (⟨hmem, hfree⟩ | ⟨hpos, hmem, hblocked⟩)
    · refine ⟨(path, level), hmem, ?_⟩
      unfold lowered
      rw [hat _ hmem, if_neg Bool.false_ne_true, if_neg fun hclash => hfree ((clashesAt_iff hmem).mp hclash)]
    · refine ⟨(path, level + 1), hmem, ?_⟩
      rw [lowered_of_clash ((clashesAt_iff hmem).mpr hblocked), if_pos (Nat.lt_add_of_pos_left hpos)]
      rfl

/-- **The rounds of the code are those of the definition.** -/
theorem mem_iterate_round (hpaths : ∀ p ∈ paths, 1 < p.segs.length) (n : ℕ) :
    (path, level) ∈ (round scope)^[n] (paths.map fun path => (path, deepestLevel path.segs)) ↔
      StandsAt scope paths n path level := by
  induction n generalizing path level with
  | zero =>
      show (path, level) ∈ paths.map _ ↔ path ∈ paths ∧ level = deepestLevel path.segs
      rw [List.mem_map]
      constructor
      · rintro ⟨_, hmem, ⟨⟩⟩
        exact ⟨hmem, rfl⟩
      · rintro ⟨hmem, rfl⟩
        exact ⟨path, hmem, rfl⟩
  | succ n ih =>
      have hwithin := Function.Iterate.rec (WithinPath paths) (withinPath_start hpaths)
        (fun _ hlevels => @withinPath_round scope _ _ hlevels) n
      have hinside : ∀ e ∈ (round scope)^[n] (paths.map fun path => (path, deepestLevel path.segs)),
          e.2 < e.1.segs.length := by
        intro e he
        obtain ⟨hmem, -, hle⟩ := hwithin e he
        exact Nat.lt_of_le_of_lt hle (deepestLevel_lt (hpaths _ hmem)).2
      have hstands : (fun p l => (p, l) ∈ (round scope)^[n] (paths.map fun path =>
          (path, deepestLevel path.segs))) = StandsAt scope paths n :=
        funext fun p => funext fun l => propext ih
      rw [Function.iterate_succ_apply', mem_round hinside, hstands, ih, ih]
      rfl

/-- The chosen levels are those where the paths settle. -/
theorem mem_chooseLevels_iff (hpaths : ∀ p ∈ paths, 1 < p.segs.length) :
    (path, level) ∈ chooseLevels scope paths ↔ Settles scope paths path level := by
  obtain ⟨⟨n, hn⟩, hwithin, hstable⟩ := @chooseLevels_stable scope paths hpaths
  have hfixed : ∀ m, n ≤ m → (round scope)^[m] (paths.map fun path => (path, deepestLevel path.segs)) =
      chooseLevels scope paths := by
    intro m hm
    obtain ⟨k, rfl⟩ := Nat.exists_eq_add_of_le hm
    rw [Nat.add_comm, Function.iterate_add_apply, ← hn]
    exact Function.iterate_fixed (round_eq_self hpaths hwithin hstable) k
  constructor
  · intro h
    refine ⟨n, fun m hm => (mem_iterate_round hpaths m).mp ?_⟩
    rw [hfixed m hm]
    exact h
  · rintro ⟨n', h⟩
    rw [← hfixed (max n n') (le_max_left n n')]
    exact (mem_iterate_round hpaths _).mpr (h _ (le_max_right n n'))

end

end Krabka.Codegen.Hoist
