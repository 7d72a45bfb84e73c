import Krabka.Codegen.Hoist

/-!
# `Codegen.HoistMeaning` — a cut path means what it meant

The levels are chosen by rounds in which paths fall together. What the last round finds unchanged is free of
clashes as a whole: the names that are imported are told apart from each other and from every binding of the
file. So the first name of a cut path leads to its own import.
-/

namespace Krabka.Codegen.Hoist

/-! ## Resolution

A path is resolved through the imports of the file: its first segment is looked up, and the rest is appended.
-/

/-- What a path stands for: something of the file's own, an imported path, something of the prelude, by its
path below the root of `std`, or something of the crate that its first name names. -/
inductive Item where
  | own (segs : List String)
  | path (p : PathKey)
  | prelude (below : List String)
  | external (segs : List String)
deriving DecidableEq, Repr

/-- The item is what a path from a crate root names. The roots of `std` are facades of one library. -/
def Item.Names (item : Item) (path : PathKey) : Prop :=
  match item with
  | .path p => p = path
  | .prelude below => ∃ root ∈ stdRoots, path.segs = root :: below
  | .own _ => False
  | .external _ => False

/-- The first name is looked up among the file's own names, then in its `use` items, then in the prelude. A
path of one name may also be a value. -/
def Scope.resolve (scope : Scope) (prelude : String → Option (List String)) (path : PathKey) : Item :=
  match path.segs with
  | [] => .external []
  | name :: rest =>
      if path.colon then .external (name :: rest)
      else if scope.bindsType name || (rest.isEmpty && name ∈ scope.values) then .own (name :: rest)
      else
        match scope.imported.lookup name with
        | some p => .path ⟨p.colon, p.segs ++ rest⟩
        | none =>
            match prelude name with
            | some below => .prelude (below ++ rest)
            | none => .external (name :: rest)

/-- The name is one of the file's own, where `rest` follows it. -/
def Scope.owns (scope : Scope) (name : String) (rest : List String) : Bool :=
  scope.bindsType name || (rest.isEmpty && name ∈ scope.values)

theorem resolve_of_lookup {scope : Scope} {prelude : String → Option (List String)} {name : String}
    {rest : List String} (hown : scope.owns name rest = false) {p : PathKey}
    (h : scope.imported.lookup name = some p) :
    scope.resolve prelude ⟨false, name :: rest⟩ = .path ⟨p.colon, p.segs ++ rest⟩ := by
  unfold Scope.resolve
  rw [Scope.owns] at hown
  simp only [Bool.false_eq_true, if_false, hown, h]

theorem resolve_of_prelude {scope : Scope} {prelude : String → Option (List String)} {name : String}
    {rest below : List String} (hown : scope.owns name rest = false)
    (h : scope.imported.lookup name = none) (hbelow : prelude name = some below) :
    scope.resolve prelude ⟨false, name :: rest⟩ = .prelude (below ++ rest) := by
  unfold Scope.resolve
  rw [Scope.owns] at hown
  simp only [Bool.false_eq_true, if_false, hown, h, hbelow]

/-- The name that a `use` item of a path binds, with the path. -/
def binding (path : PathKey) : Option (String × PathKey) := path.segs.getLast?.map (·, path)

/-- The scope with `use` items added behind those that it has. -/
def Scope.withImports (scope : Scope) (added : List PathKey) : Scope :=
  { scope with imported := (added.filterMap binding).reverse ++ scope.imported }

/-- A `use` item, old or added, binds a name to a path. -/
def Binds (scope : Scope) (added : List PathKey) (name : String) (path : PathKey) : Prop :=
  scope.imported.lookup name = some path ∨ path ∈ added ∧ path.segs.getLast? = some name

/-! ## The last round

The loop stops at a round that changes nothing. What that round has tested holds of the levels that it
returns. -/

theorem deepestLevel_lt {segs : List String} (h : 1 < segs.length) :
    1 ≤ deepestLevel segs ∧ deepestLevel segs < segs.length := by
  unfold deepestLevel
  split
  · rename_i i hi
    have hlt := (List.findIdx?_eq_some_iff_getElem.mp hi).1
    rw [List.length_drop] at hlt
    omega
  · omega

/-- What a level is between, in every round. -/
def WithinPath (paths : List PathKey) (levels : Levels) : Prop :=
  ∀ e ∈ levels, e.1 ∈ paths ∧ 1 ≤ e.2 ∧ e.2 ≤ deepestLevel e.1.segs

theorem withinPath_start {paths : List PathKey} (hpaths : ∀ p ∈ paths, 1 < p.segs.length) :
    WithinPath paths (paths.map fun path => (path, deepestLevel path.segs)) := by
  intro e he
  obtain ⟨p, hp, rfl⟩ := List.mem_map.mp he
  exact ⟨hp, (deepestLevel_lt (hpaths p hp)).1, le_rfl⟩

theorem withinPath_round {scope : Scope} {paths : List PathKey} {levels : Levels}
    (h : WithinPath paths levels) : WithinPath paths (round scope levels) := by
  intro e' he'
  obtain ⟨e, he, hlower⟩ := List.mem_filterMap.mp he'
  obtain ⟨hmem, hlow, hhigh⟩ := h e he
  unfold lowered at hlower
  split at hlower
  · cases hlower
  · split at hlower
    · split at hlower
      · rename_i hlevel
        cases hlower
        exact ⟨hmem, Nat.le_sub_one_of_lt hlevel, (Nat.sub_le _ _).trans hhigh⟩
      · cases hlower
    · cases hlower
      exact ⟨hmem, hlow, hhigh⟩

/-- Inside a path every level has an import. -/
theorem importAt_eq {path : PathKey} {level : Nat} (h : level < path.segs.length) :
    importAt path level = some (⟨path.colon, path.segs.take (level + 1)⟩, path.segs[level]) := by
  unfold importAt
  rw [List.getElem?_eq_getElem h, Option.map_some]

/-- A round that finds no clash leaves the levels as they are. -/
theorem round_eq_self {scope : Scope} {paths : List PathKey} {levels : Levels}
    (hpaths : ∀ p ∈ paths, 1 < p.segs.length) (h : WithinPath paths levels)
    (hstable : changed scope levels = false) : round scope levels = levels := by
  have hlowered : ∀ e ∈ levels, lowered scope levels e = some e := by
    intro e he
    obtain ⟨hmem, _, hhigh⟩ := h e he
    have hlt := (deepestLevel_lt (hpaths e.1 hmem)).2
    have hclash : clashesAt scope levels e.1 e.2 = false :=
      Bool.eq_false_iff.mpr fun hclash =>
        Bool.eq_false_iff.mp hstable (List.any_eq_true.mpr ⟨e, he, hclash⟩)
    unfold lowered
    rw [importAt_eq (by omega), hclash]
    rfl
  rw [round, List.filterMap_congr hlowered, List.filterMap_some]

/-- The loop ends at levels that no round changes. -/
theorem chooseLevels_stable {scope : Scope} {paths : List PathKey} (hpaths : ∀ p ∈ paths, 1 < p.segs.length) :
    (∃ n, chooseLevels scope paths =
        (round scope)^[n] (paths.map fun path => (path, deepestLevel path.segs))) ∧
      WithinPath paths (chooseLevels scope paths) ∧ changed scope (chooseLevels scope paths) = false := by
  obtain ⟨n, hn, heq⟩ := @DoWhile.exists_doWhile_eq _ _ _ _ (height_round_lt scope)
    (paths.map fun path => (path, deepestLevel path.segs))
  have hwithin := Function.Iterate.rec (WithinPath paths) (withinPath_start hpaths)
    (fun _ hlevels => @withinPath_round scope _ _ hlevels) n
  rw [round_eq_self hpaths hwithin hn] at heq
  have hlevels : chooseLevels scope paths = _ := heq
  rw [hlevels]
  exact ⟨⟨n, rfl⟩, hwithin, hn⟩

/-! ## Free of clashes

Where the last round finds no clash, the name of an import is bound by nothing else. So a lookup in the new
imports finds the one that was added for the path. -/

/-- What a chosen level is free of. -/
structure IsFree (scope : Scope) (levels : Levels) (path : PathKey) (level : Nat)
    (hlevel : level < path.segs.length) : Prop where
  types : scope.bindsType path.segs[level] = false
  values : level + 1 = path.segs.length → path.segs[level] ∉ scope.values
  imported : ∀ p, scope.imported.lookup path.segs[level] = some p →
    p = ⟨path.colon, path.segs.take (level + 1)⟩
  prelude : ∀ below, preludePath path.segs[level] = some below →
    isPrelude ⟨path.colon, path.segs.take (level + 1)⟩ = true
  claims : ∀ e ∈ levels, ∀ p, importAt e.1 e.2 = some (p, path.segs[level]) →
    p = ⟨path.colon, path.segs.take (level + 1)⟩

theorem mem_claims {levels : Levels} {name : String} {p : PathKey} :
    p ∈ claims levels name ↔ ∃ e ∈ levels, importAt e.1 e.2 = some (p, name) := by
  unfold claims
  simp only [List.mem_dedup, List.mem_map, List.mem_filter, List.mem_filterMap, beq_iff_eq, Prod.exists,
    exists_and_right, exists_eq_right]

/-- Without a clash at its level a path has its name to itself. -/
theorem isFree_of_not_clash {scope : Scope} {levels : Levels} {path : PathKey} {level : Nat}
    (hmem : (path, level) ∈ levels) (hlevel : level < path.segs.length)
    (h : clashesAt scope levels path level = false) : IsFree scope levels path level hlevel := by
  unfold clashesAt at h
  rw [importAt_eq hlevel, Option.any_some] at h
  unfold clashes at h
  simp only [Bool.or_eq_false_iff] at h
  obtain ⟨⟨⟨⟨htypes, hvalues⟩, himported⟩, hprelude⟩, hclaims⟩ := h
  refine ⟨htypes, fun hlast hvalue => ?_, fun p hp => ?_, fun below hbelow => ?_, fun e he p hp => ?_⟩
  · rw [hlast, decide_eq_true hvalue] at hvalues
    simp at hvalues
  · rw [hp, Option.any_some, decide_eq_false_iff_not, not_not] at himported
    exact himported
  · rw [hbelow, Option.isSome_some, Bool.true_and, Bool.not_eq_false'] at hprelude
    exact hprelude
  · -- both imports are claims of the name
    have hmine := mem_claims.mpr ⟨(path, level), hmem, importAt_eq hlevel⟩
    have hother := mem_claims.mpr ⟨e, he, hp⟩
    have hlen : (claims levels path.segs[level]).length ≤ 1 := by simpa using hclaims
    obtain ⟨q, hq⟩ : ∃ q, claims levels path.segs[level] = [q] := by
      rw [← List.length_eq_one_iff]
      exact Nat.le_antisymm hlen (List.length_pos_of_mem hmine)
    rw [hq, List.mem_singleton] at hother hmine
    rw [hother, hmine]

theorem isFree_of_mem {scope : Scope} {paths : List PathKey} (hpaths : ∀ p ∈ paths, 1 < p.segs.length)
    {path : PathKey} {level : Nat} (h : (path, level) ∈ chooseLevels scope paths) :
    ∃ hlevel : level < path.segs.length, IsFree scope (chooseLevels scope paths) path level hlevel := by
  obtain ⟨_, hwithin, hstable⟩ := @chooseLevels_stable scope paths hpaths
  obtain ⟨hmem, _, hhigh⟩ := hwithin _ h
  have hlevel : level < path.segs.length := hhigh.trans_lt (deepestLevel_lt (hpaths _ hmem)).2
  refine ⟨hlevel, isFree_of_not_clash h hlevel (Bool.eq_false_iff.mpr fun hclash => ?_)⟩
  exact Bool.eq_false_iff.mp hstable (List.any_eq_true.mpr ⟨_, h, hclash⟩)

/-- A prelude item has the last name of its path, below a root of `std`. -/
theorem exists_of_isPrelude {path : PathKey} (h : isPrelude path = true) {name : String}
    (hname : path.segs.getLast? = some name) :
    ∃ root ∈ stdRoots, ∃ below, path.segs = root :: below ∧ preludePath name = some below := by
  unfold isPrelude at h
  split at h
  · cases h
  · rename_i root below hsegs
    rw [Bool.and_eq_true, decide_eq_true_eq, beq_iff_eq] at h
    refine ⟨root, h.1, below, hsegs, ?_⟩
    cases below with
    | nil => cases h.2
    | cons first below =>
        rw [hsegs, List.getLast?_cons_cons] at hname
        rw [hname, Option.bind_some] at h
        exact h.2

/-! ## Added imports

An import is added for the segments that are cut off, so the first name of what is left leads back to them. -/

/-- An added import is the import of a chosen level, and not there already. -/
theorem mem_imports {scope : Scope} {levels : Levels} {p : PathKey} :
    p ∈ imports scope levels ↔
      (∃ e ∈ levels, p = ⟨e.1.colon, e.1.segs.take (e.2 + 1)⟩) ∧ scope.alreadyImports p = false ∧
        isPrelude p = false := by
  unfold imports
  simp only [List.mem_dedup, List.mem_filter, List.mem_map, Bool.and_eq_true, Bool.not_eq_true']
  constructor
  · rintro ⟨⟨e, he, rfl⟩, h⟩
    exact ⟨⟨e, he, rfl⟩, h⟩
  · rintro ⟨⟨e, he, rfl⟩, h⟩
    exact ⟨⟨e, he, rfl⟩, h⟩

theorem getLast?_take {segs : List String} {level : Nat} (h : level < segs.length) :
    (segs.take (level + 1)).getLast? = some segs[level] := by
  rw [List.getLast?_take, if_neg (by omega), Nat.add_sub_cancel, List.getElem?_eq_getElem h, Option.some_or]

section
variable {scope : Scope} {paths : List PathKey} (hpaths : ∀ p ∈ paths, 1 < p.segs.length)
include hpaths

/-- Under the name of a chosen level nothing else is added. -/
theorem eq_of_mem_imports {path : PathKey} {level : Nat} (h : (path, level) ∈ chooseLevels scope paths)
    (hlevel : level < path.segs.length) {p : PathKey} (hp : p ∈ imports scope (chooseLevels scope paths))
    (hname : p.segs.getLast? = some path.segs[level]) : p = ⟨path.colon, path.segs.take (level + 1)⟩ := by
  obtain ⟨_, hfree⟩ := isFree_of_mem hpaths h
  obtain ⟨⟨e, he, rfl⟩, _⟩ := mem_imports.mp hp
  obtain ⟨helevel, _⟩ := isFree_of_mem hpaths he
  refine hfree.claims e he _ ?_
  have hsame : e.1.segs[e.2] = path.segs[level] := by
    rw [← Option.some.injEq, ← hname]
    exact (getLast?_take helevel).symm
  rw [importAt_eq helevel, hsame]

end

theorem binding_eq_some {p q : PathKey} {name : String} :
    binding p = some (name, q) ↔ p = q ∧ p.segs.getLast? = some name := by
  unfold binding
  rw [Option.map_eq_some_iff]
  constructor
  · rintro ⟨name', hname, heq⟩
    cases heq
    exact ⟨rfl, hname⟩
  · rintro ⟨rfl, hname⟩
    exact ⟨name, hname, rfl⟩

/-- A name that no added item binds is looked up as before. -/
theorem lookup_withImports_of_not {scope : Scope} {added : List PathKey} {name : String}
    (h : ∀ p ∈ added, p.segs.getLast? ≠ some name) :
    (scope.withImports added).imported.lookup name = scope.imported.lookup name := by
  unfold Scope.withImports
  rw [List.lookup_append, List.lookup_eq_none_iff.mpr, Option.none_or]
  rintro ⟨name', q⟩ hmem
  obtain ⟨p, hp, hbinding⟩ := List.mem_filterMap.mp (List.mem_reverse.mp hmem)
  obtain ⟨rfl, hlast⟩ := binding_eq_some.mp hbinding
  rw [bne_iff_ne]
  rintro rfl
  exact h p hp hlast

/-- A name that some added item binds leads to an added path. -/
theorem lookup_withImports_of_mem {scope : Scope} {added : List PathKey} {name : String} {p : PathKey}
    (hp : p ∈ added) (hname : p.segs.getLast? = some name) :
    ∃ q ∈ added, q.segs.getLast? = some name ∧ (scope.withImports added).imported.lookup name = some q := by
  have hsome : (((added.filterMap binding).reverse).lookup name).isSome := by
    rw [List.lookup_isSome_iff]
    refine ⟨(name, p), List.mem_reverse.mpr (List.mem_filterMap.mpr ⟨p, hp, ?_⟩), BEq.rfl⟩
    exact binding_eq_some.mpr ⟨rfl, hname⟩
  obtain ⟨q, hq⟩ := Option.isSome_iff_exists.mp hsome
  obtain ⟨before, after, hsplit, _⟩ := List.lookup_eq_some_iff.mp hq
  have hmem : (name, q) ∈ (added.filterMap binding).reverse := by
    rw [hsplit]
    exact List.mem_append_right _ List.mem_cons_self
  obtain ⟨q', hq', hbinding⟩ := List.mem_filterMap.mp (List.mem_reverse.mp hmem)
  obtain ⟨rfl, hlast⟩ := binding_eq_some.mp hbinding
  refine ⟨q', hq', hlast, ?_⟩
  unfold Scope.withImports
  rw [List.lookup_append, hq, Option.some_or]

section
variable {scope : Scope} {paths : List PathKey} (hpaths : ∀ p ∈ paths, 1 < p.segs.length)
include hpaths

/-- The name of a chosen level leads to its import, or is that of a prelude item which is not imported. -/
theorem lookup_chosen {path : PathKey} {level : Nat} (h : (path, level) ∈ chooseLevels scope paths)
    (hlevel : level < path.segs.length) :
    let imported := (scope.withImports (imports scope (chooseLevels scope paths))).imported
    imported.lookup path.segs[level] = some ⟨path.colon, path.segs.take (level + 1)⟩ ∨
      imported.lookup path.segs[level] = none ∧
        isPrelude ⟨path.colon, path.segs.take (level + 1)⟩ = true := by
  intro imported
  obtain ⟨_, hfree⟩ := isFree_of_mem hpaths h
  by_cases hadded : ∃ p ∈ imports scope (chooseLevels scope paths), p.segs.getLast? = some path.segs[level]
  · obtain ⟨p, hp, hname⟩ := hadded
    obtain ⟨q, hq, hqname, hlookup⟩ := @lookup_withImports_of_mem scope _ _ _ hp hname
    left
    rw [← eq_of_mem_imports hpaths h hlevel hq hqname]
    exact hlookup
  · have hnot : ∀ p ∈ imports scope (chooseLevels scope paths), p.segs.getLast? ≠ some path.segs[level] :=
      fun p hp hname => hadded ⟨p, hp, hname⟩
    have hold : imported.lookup path.segs[level] = scope.imported.lookup path.segs[level] :=
      lookup_withImports_of_not hnot
    rw [hold]
    cases hlookup : scope.imported.lookup path.segs[level] with
    | some p => exact .inl (congrArg some (hfree.imported p hlookup))
    | none =>
        refine .inr ⟨rfl, ?_⟩
        -- it is not added, and not imported already
        by_contra hprelude
        refine hnot _ (mem_imports.mpr ⟨⟨_, h, rfl⟩, ?_, Bool.eq_false_iff.mpr hprelude⟩) (getLast?_take hlevel)
        unfold Scope.alreadyImports
        rw [getLast?_take hlevel, Option.bind_some, hlookup]
        rfl

/-- **A cut path resolves to the path it was.** -/
theorem names_of_mem {prelude : String → Option (List String)}
    (hprelude : ∀ name below, preludePath name = some below → prelude name = some below)
    {path : PathKey} {level : Nat} (h : (path, level) ∈ chooseLevels scope paths) :
    ((scope.withImports (imports scope (chooseLevels scope paths))).resolve prelude
      ⟨false, path.segs.drop level⟩).Names path := by
  obtain ⟨hlevel, hfree⟩ := isFree_of_mem hpaths h
  have hdrop : path.segs.drop level = path.segs[level] :: path.segs.drop (level + 1) :=
    List.drop_eq_getElem_cons hlevel
  have hsegs : path.segs.take (level + 1) ++ path.segs.drop (level + 1) = path.segs := List.take_append_drop _ _
  have hown : (scope.withImports (imports scope (chooseLevels scope paths))).owns path.segs[level]
      (path.segs.drop (level + 1)) = false := by
    refine Bool.or_eq_false_iff.mpr ⟨hfree.types, Bool.eq_false_iff.mpr fun hvalue => ?_⟩
    rw [Bool.and_eq_true, List.isEmpty_iff, List.drop_eq_nil_iff, decide_eq_true_eq] at hvalue
    exact hfree.values (Nat.le_antisymm hlevel hvalue.1) hvalue.2
  rw [hdrop]
  rcases lookup_chosen hpaths h hlevel with hlookup | ⟨hlookup, hisPrelude⟩
  · rw [resolve_of_lookup hown hlookup]
    show PathKey.mk path.colon (path.segs.take (level + 1) ++ path.segs.drop (level + 1)) = path
    rw [hsegs]
  · obtain ⟨root, hroot, below, htake, hbelow⟩ := exists_of_isPrelude hisPrelude (getLast?_take hlevel)
    rw [resolve_of_prelude hown hlookup (hprelude _ _ hbelow)]
    refine ⟨root, hroot, ?_⟩
    calc path.segs = path.segs.take (level + 1) ++ path.segs.drop (level + 1) := hsegs.symm
      _ = root :: (below ++ path.segs.drop (level + 1)) := by rw [show path.segs.take (level + 1) = _ from htake]; rfl

/-- No name has two `use` items, old or added, for different paths. -/
theorem eq_of_binds {name : String} {p q : PathKey}
    (hp : Binds scope (imports scope (chooseLevels scope paths)) name p)
    (hq : Binds scope (imports scope (chooseLevels scope paths)) name q) : p = q := by
  -- an added item has the name of a chosen level, where nothing else is bound
  have hadded : ∀ r ∈ imports scope (chooseLevels scope paths), r.segs.getLast? = some name →
      ∀ r', Binds scope (imports scope (chooseLevels scope paths)) name r' → r' = r := by
    intro r hr hrname r' hr'
    obtain ⟨⟨e, he, rfl⟩, _⟩ := mem_imports.mp hr
    obtain ⟨hlevel, hfree⟩ := isFree_of_mem hpaths he
    have hname : e.1.segs[e.2] = name := by
      rw [← Option.some.injEq, ← hrname]
      exact (getLast?_take hlevel).symm
    rcases hr' with hold | ⟨hmem, hlast⟩
    · exact hfree.imported r' (hname ▸ hold)
    · exact eq_of_mem_imports hpaths he hlevel hmem (hname ▸ hlast)
  rcases hp with hold | ⟨hmem, hlast⟩
  · rcases hq with hold' | ⟨hmem', hlast'⟩
    · exact Option.some.inj (hold.symm.trans hold')
    · exact hadded q hmem' hlast' p (.inl hold)
  · exact (hadded p hmem hlast q hq).symm

end

theorem mem_of_lookup {levels : Levels} {path : PathKey} {level : Nat} (h : levels.lookup path = some level) :
    (path, level) ∈ levels := by
  obtain ⟨before, after, hsplit, _⟩ := List.lookup_eq_some_iff.mp h
  rw [hsplit]
  exact List.mem_append_right _ List.mem_cons_self

/-- **Hoisting keeps the meaning of what it cuts.** -/
theorem hoisting_keeps_meaning {scope : Scope} {paths : List PathKey}
    (hpaths : ∀ p ∈ paths, 1 < p.segs.length) {prelude : String → Option (List String)}
    (hprelude : ∀ name below, preludePath name = some below → prelude name = some below) :
    let levels := chooseLevels scope paths
    let added := imports scope levels
    (∃ n, levels = (round scope)^[n] (paths.map fun path => (path, deepestLevel path.segs)) ∧
      changed scope levels = false) ∧
    (∀ path level, levels.lookup path = some level → path ∈ paths ∧ 1 ≤ level ∧
      ((scope.withImports added).resolve prelude (shorten levels path)).Names path) ∧
    (∀ name p q, Binds scope added name p → Binds scope added name q → p = q) ∧
    (∀ path ∈ paths, (∀ level, 1 ≤ level → level ≤ deepestLevel path.segs →
      clashesAt scope levels path level = true) → levels.lookup path = none ∧ shorten levels path = path) := by
  intro levels added
  obtain ⟨⟨n, hn⟩, hwithin, hstable⟩ := @chooseLevels_stable scope paths hpaths
  refine ⟨⟨n, hn, hstable⟩, fun path level hlookup => ?_, fun name p q => eq_of_binds hpaths,
    fun path _ hclash => ?_⟩
  · have hmem := mem_of_lookup hlookup
    have hcut : shorten levels path = ⟨false, path.segs.drop level⟩ := by
      unfold shorten
      rw [hlookup]
    rw [hcut]
    exact ⟨(hwithin _ hmem).1, (hwithin _ hmem).2.1, names_of_mem hpaths hprelude hmem⟩
  · have hnone : levels.lookup path = none := by
      rw [Option.eq_none_iff_forall_ne_some]
      intro level hlookup
      obtain ⟨_, hlow, hhigh⟩ := hwithin _ (mem_of_lookup hlookup)
      have hchanged : changed scope levels = true :=
        List.any_eq_true.mpr ⟨_, mem_of_lookup hlookup, hclash level hlow hhigh⟩
      exact Bool.eq_false_iff.mp hstable hchanged
    refine ⟨hnone, ?_⟩
    unfold shorten
    rw [hnone]

/-- A path to a type whose name the file has for a type of its own. -/
def dataPath : PathKey := ⟨false, ["crate", "owned", "m", "Data"]⟩

/-- It is cut in front of its module. -/
theorem hoisting_keeps_meaning_data :
    shorten (chooseLevels ⟨[], ["Data"], []⟩ [dataPath]) dataPath = ⟨false, ["m", "Data"]⟩ ∧
      ((Scope.withImports ⟨[], ["Data"], []⟩ (imports ⟨[], ["Data"], []⟩
        (chooseLevels ⟨[], ["Data"], []⟩ [dataPath]))).resolve preludePath
          (shorten (chooseLevels ⟨[], ["Data"], []⟩ [dataPath]) dataPath)).Names dataPath :=
  ⟨by decide +kernel, ((@hoisting_keeps_meaning ⟨[], ["Data"], []⟩ [dataPath] (by decide) preludePath
    fun _ _ h => h).2.1 dataPath 2 (by decide +kernel)).2.2⟩

end Krabka.Codegen.Hoist
