import Krabka.Lib.DoWhile

/-!
# `Codegen.Hoist` — absolute paths become imports

What `hoist_absolute_paths` does to a generated file: every path that starts at a crate root and names an item
through three or more segments is cut off in front of one of them, and a `use` item imports that one.

## Contents
- **Paths.** A path by its leading `::` and the names of its segments, and the levels it can be cut at.
- **Levels.** A path starts at its deepest level and falls while the name there clashes.
- **Files.** The syntax tree, as far as the walks tell its nodes apart: what a file binds, which paths it has,
  and the file with its paths cut off.

The sets and maps of the source are lists here. Their order, which decides in which order `use` items are
added, is left out.
-/

namespace Krabka.Codegen.Hoist

/-! ## Paths

The first segment that starts with an upper-case letter names the item; what stands in front of it is modules.
-/

/-- A path without its generic arguments. -/
structure PathKey where
  colon : Bool
  segs : List String
deriving DecidableEq, Repr

def maxSegments : Nat := 2

def stdRoots : List String := ["std", "core", "alloc"]

/-- Names of the standard prelude, each with its path below the root of `std`. -/
def preludeTable : List (String × List String) := [
  ("Box", ["boxed", "Box"]),
  ("Clone", ["clone", "Clone"]),
  ("Default", ["default", "Default"]),
  ("Err", ["result", "Result", "Err"]),
  ("From", ["convert", "From"]),
  ("Into", ["convert", "Into"]),
  ("None", ["option", "Option", "None"]),
  ("Ok", ["result", "Result", "Ok"]),
  ("Option", ["option", "Option"]),
  ("Result", ["result", "Result"]),
  ("Some", ["option", "Option", "Some"]),
  ("String", ["string", "String"]),
  ("ToString", ["string", "ToString"]),
  ("Vec", ["vec", "Vec"])]

def preludePath (name : String) : Option (List String) := preludeTable.lookup name

/-- The path names a prelude item through the standard library. -/
def isPrelude (path : PathKey) : Bool :=
  match path.segs with
  | [] => false
  | root :: rest => root ∈ stdRoots && (rest.getLast?.bind preludePath) == some rest

/-- A type, by the convention for names. -/
def startsUppercase (name : String) : Bool := name.toList.head?.any Char.isUpper

def startsLowercase (name : String) : Bool := name.toList.head?.any Char.isLower

/-- The deepest segment that a path may import at: the first type behind the root, else the last segment. The
members of a type cannot be imported on their own. -/
def deepestLevel (segs : List String) : Nat :=
  match (segs.drop 1).findIdx? startsUppercase with
  | some i => i + 1
  | none => segs.length - 1

/-- The import that a path takes at a level, and the name that it binds. -/
def importAt (path : PathKey) (level : Nat) : Option (PathKey × String) :=
  path.segs[level]?.map fun name => (⟨path.colon, path.segs.take (level + 1)⟩, name)

/-! ## Scopes

What a file binds: its imports, its types and items, and its values. A path can be hoisted if it starts at the
root of a crate and leads to an item through enough segments. -/

/-- The names that a file binds: what its module-scope `use` items import, the latest first, the names of
types and items, and the names of patterns. -/
structure Scope where
  imported : List (String × PathKey)
  types : List String
  values : List String
deriving Repr

namespace Scope

variable (scope : Scope)

def bindsType (name : String) : Bool := name ∈ scope.types

/-- The path starts at the root of a crate and at no name of the file. -/
def isCrateRooted (path : PathKey) : Bool :=
  match path.segs with
  | [] => false
  | name :: _ =>
      if path.colon || name == "crate" || name ∈ stdRoots then true
      else
        startsLowercase name && name != "self" && name != "super" && (scope.imported.lookup name).isNone &&
          !scope.bindsType name

def alreadyImports (path : PathKey) : Bool :=
  (path.segs.getLast?.bind fun name => scope.imported.lookup name) == some path

/-- Only the path to the item counts, and a member of a type counts as the type. -/
def isHoistable (path : PathKey) : Bool :=
  deepestLevel path.segs ≥ maxSegments && scope.isCrateRooted path

end Scope

/-! ## Levels

A name is taken if the file, the prelude or the import of another path has it. Every path whose name is taken
moves one level up in the same round, or is dropped. -/

/-- The segment that each path imports at. -/
abbrev Levels := List (PathKey × Nat)

/-- The imports that the current levels ask for under a name. -/
def claims (levels : Levels) (name : String) : List PathKey :=
  (((levels.filterMap fun e => importAt e.1 e.2).filter fun c => c.2 == name).map Prod.fst).dedup

/-- Another binding is in the way of an import. A name that opens a longer path (`prefixOnly`) is looked up
among the types only. -/
def clashes (scope : Scope) (levels : Levels) (path : PathKey) (name : String) (prefixOnly : Bool) : Bool :=
  scope.bindsType name || (!prefixOnly && name ∈ scope.values) ||
    (scope.imported.lookup name).any (· ≠ path) || ((preludePath name).isSome && !isPrelude path) ||
    (claims levels name).length > 1

/-- The import of a path at its level clashes. -/
def clashesAt (scope : Scope) (levels : Levels) (path : PathKey) (level : Nat) : Bool :=
  (importAt path level).any fun c => clashes scope levels c.1 c.2 (level + 1 < path.segs.length)

/-- A path with a clash moves one level up, and from level 1 it is dropped. -/
def lowered (scope : Scope) (levels : Levels) (e : PathKey × Nat) : Option (PathKey × Nat) :=
  if (importAt e.1 e.2).isNone then none
  else if clashesAt scope levels e.1 e.2 then if e.2 > 1 then some (e.1, e.2 - 1) else none
  else some e

/-- One round over all paths, against the levels at its start. -/
def round (scope : Scope) (levels : Levels) : Levels := levels.filterMap (lowered scope levels)

def changed (scope : Scope) (levels : Levels) : Bool :=
  levels.any fun e => clashesAt scope levels e.1 e.2

/-- How far the levels can fall. -/
def height (levels : Levels) : Nat := (levels.map fun e => e.2 + 1).sum

theorem height_cons (e : PathKey × Nat) (levels : Levels) : height (e :: levels) = e.2 + 1 + height levels := by
  unfold height
  rw [List.map_cons, List.sum_cons]

theorem lowered_of_clash {scope : Scope} {levels : Levels} {e : PathKey × Nat}
    (h : clashesAt scope levels e.1 e.2 = true) :
    lowered scope levels e = if e.2 > 1 then some (e.1, e.2 - 1) else none := by
  unfold lowered
  unfold clashesAt at h
  cases hat : importAt e.1 e.2 with
  | none =>
      rw [hat] at h
      cases h
  | some c =>
      rw [hat] at h
      simp only [Option.isNone_some, Bool.false_eq_true, if_false, clashesAt, hat, h, if_true]

theorem lowered_le {scope : Scope} {levels : Levels} {e e' : PathKey × Nat}
    (h : lowered scope levels e = some e') : e'.1 = e.1 ∧ e'.2 ≤ e.2 := by
  unfold lowered at h
  split at h
  · cases h
  · split at h
    · split at h
      · cases h
        exact ⟨rfl, Nat.sub_le _ _⟩
      · cases h
    · cases h
      exact ⟨rfl, le_rfl⟩

theorem height_filterMap_le (scope : Scope) (levels entries : Levels) :
    height (entries.filterMap (lowered scope levels)) ≤ height entries := by
  induction entries with
  | nil => exact le_rfl
  | cons e entries ih =>
      rw [List.filterMap_cons, height_cons]
      split
      · omega
      · rename_i e' he
        have hle := (lowered_le he).2
        rw [height_cons]
        omega

/-- Levels only fall. -/
theorem height_round_lt (scope : Scope) (levels : Levels) (h : changed scope levels = true) :
    height (round scope levels) < height levels := by
  obtain ⟨e, he, hclash⟩ := List.any_eq_true.mp h
  obtain ⟨before, after, hsplit⟩ := List.append_of_mem he
  have hbefore := height_filterMap_le scope levels before
  have hafter := height_filterMap_le scope levels after
  have hround : round scope levels = before.filterMap (lowered scope levels) ++
      (e :: after).filterMap (lowered scope levels) := by
    conv_lhs => rw [round, hsplit]
    rw [List.filterMap_append, ← hsplit]
  have happend : ∀ xs ys : Levels, height (xs ++ ys) = height xs + height ys := by
    intro xs ys
    unfold height
    rw [List.map_append, List.sum_append]
  rw [hround, hsplit, happend, happend, height_cons, List.filterMap_cons, ← hsplit, lowered_of_clash hclash]
  split_ifs with hlevel
  · rw [height_cons]
    show _ + (e.2 - 1 + 1 + _) < _
    omega
  · show _ + height (after.filterMap (lowered scope levels)) < _
    omega

def chooseLevels (scope : Scope) (paths : List PathKey) : Levels :=
  DoWhile.doWhile (changed scope) (round scope) height (height_round_lt scope)
    (paths.map fun path => (path, deepestLevel path.segs))

/-- The paths that `use` items are added for. -/
def imports (scope : Scope) (levels : Levels) : List PathKey :=
  ((levels.map fun e => ⟨e.1.colon, e.1.segs.take (e.2 + 1)⟩).filter fun path =>
    !scope.alreadyImports path && !isPrelude path).dedup

/-- A path behind its cut. -/
def shorten (levels : Levels) (path : PathKey) : PathKey :=
  match levels.lookup path with
  | some level => ⟨false, path.segs.drop level⟩
  | none => path

/-! ## Files

A node keeps what the walks look at: paths in types, paths in values, `use` trees, macros and whatever is
below them. -/

/-- The tree of a `use` item. -/
inductive UseTree where
  | path (name : String) (tree : UseTree)
  | name (name : String)
  | rename (name rename : String)
  | group (trees : List UseTree)
  | glob

mutual

/-- `use_bindings`: each name that a tree binds, with the path that it imports. A glob binds no single name. -/
def UseTree.bindings (colon : Bool) (parents : List String) : UseTree → List (String × PathKey)
  | .path name tree => tree.bindings colon (parents ++ [name])
  | .name name => [(name, ⟨colon, parents ++ [name]⟩)]
  | .rename name rename => [(rename, ⟨colon, parents ++ [name]⟩)]
  | .group trees => groupBindings colon parents trees
  | .glob => []

def groupBindings (colon : Bool) (parents : List String) : List UseTree → List (String × PathKey)
  | [] => []
  | tree :: trees => tree.bindings colon parents ++ groupBindings colon parents trees

end

/-- A node of the syntax tree. The generic arguments of a path stand behind the item that it names and not
behind a module, so no cut takes them off. -/
inductive Node where
  | path (path : PathKey) (args : List Node)
  /-- `<T as Trait>::member`, or without a trait. -/
  | qualified (type : List Node) (trait : Option PathKey) (args : List Node)
  | visibility (path : PathKey)
  /-- A macro whose body is a list of expressions. -/
  | macroCall (path : PathKey) (args : List Node)
  /-- A macro with any other body. No walk reads it, but the paths in it are paths of the file. -/
  | rawMacro (path : PathKey) (body : List Node)
  | useItem (colon : Bool) (tree : UseTree)
  /-- Any other item, with the name that it binds. -/
  | item (name : Option String) (children : List Node)
  | patIdent (name : String) (children : List Node)
  | typeParam (name : String) (children : List Node)
  | node (children : List Node)

structure File where
  attrs : List Node
  items : List Node

/-- Induction over a tree, with the hypothesis for every node of a list. -/
theorem Node.induction {P : Node → Prop} (path : ∀ p args, (∀ n ∈ args, P n) → P (.path p args))
    (qualified : ∀ type trait args, (∀ n ∈ type, P n) → (∀ n ∈ args, P n) → P (.qualified type trait args))
    (visibility : ∀ p, P (.visibility p)) (macroCall : ∀ p args, (∀ n ∈ args, P n) → P (.macroCall p args))
    (rawMacro : ∀ p body, (∀ n ∈ body, P n) → P (.rawMacro p body))
    (useItem : ∀ colon tree, P (.useItem colon tree))
    (item : ∀ name ns, (∀ n ∈ ns, P n) → P (.item name ns))
    (patIdent : ∀ name ns, (∀ n ∈ ns, P n) → P (.patIdent name ns))
    (typeParam : ∀ name ns, (∀ n ∈ ns, P n) → P (.typeParam name ns))
    (node : ∀ ns, (∀ n ∈ ns, P n) → P (.node ns)) (n : Node) : P n :=
  @Node.rec P (fun ns => ∀ n ∈ ns, P n) path qualified visibility macroCall rawMacro useItem item patIdent
    typeParam node (fun _ h => nomatch h) (fun _ _ hn hns => List.forall_mem_cons.mpr ⟨hn, hns⟩) n

mutual

/-- The names of types and items in a node; `nested` says that it is inside an item, and `macros` that the
bodies of macros are read. `Binder` does not read them. -/
def Node.types (macros nested : Bool) : Node → List String
  | .path _ args => typesOf macros nested args
  | .qualified type _ args => typesOf macros nested type ++ typesOf macros nested args
  | .visibility _ => []
  | .macroCall _ args => if macros then typesOf macros nested args else []
  | .rawMacro _ body => if macros then typesOf macros nested body else []
  | .useItem colon tree => if nested then (tree.bindings colon []).map Prod.fst else []
  | .item name children => name.toList ++ typesOf macros true children
  | .patIdent _ children => typesOf macros nested children
  | .typeParam name children => name :: typesOf macros nested children
  | .node children => typesOf macros nested children

def typesOf (macros nested : Bool) : List Node → List String
  | [] => []
  | n :: ns => n.types macros nested ++ typesOf macros nested ns

end

mutual

/-- The names of patterns. -/
def Node.values (macros : Bool) : Node → List String
  | .path _ args => valuesOf macros args
  | .qualified type _ args => valuesOf macros type ++ valuesOf macros args
  | .visibility _ => []
  | .macroCall _ args => if macros then valuesOf macros args else []
  | .rawMacro _ body => if macros then valuesOf macros body else []
  | .useItem _ _ => []
  | .item _ children => valuesOf macros children
  | .patIdent name children => name :: valuesOf macros children
  | .typeParam _ children => valuesOf macros children
  | .node children => valuesOf macros children

def valuesOf (macros : Bool) : List Node → List String
  | [] => []
  | n :: ns => n.values macros ++ valuesOf macros ns

end

/-- What a module-scope item imports. -/
def Node.useBindings : Node → List (String × PathKey)
  | .useItem colon tree => tree.bindings colon []
  | _ => []

def Scope.of (file : File) : Scope where
  imported := (file.items.flatMap Node.useBindings).reverse
  types := typesOf false false file.attrs ++ typesOf false false file.items
  values := valuesOf false file.attrs ++ valuesOf false file.items

mutual

/-- The paths that `Collector` finds. It reads the type of a qualified path and no other part of it. -/
def Node.hoistable (scope : Scope) : Node → List PathKey
  | .path path args => (if scope.isHoistable path then [path] else []) ++ hoistableOf scope args
  | .qualified type _ _ => hoistableOf scope type
  | .visibility _ => []
  | .macroCall _ args => hoistableOf scope args
  | .rawMacro _ _ => []
  | .useItem _ _ => []
  | .item _ children => hoistableOf scope children
  | .patIdent _ children => hoistableOf scope children
  | .typeParam _ children => hoistableOf scope children
  | .node children => hoistableOf scope children

def hoistableOf (scope : Scope) : List Node → List PathKey
  | [] => []
  | n :: ns => n.hoistable scope ++ hoistableOf scope ns

end

mutual

/-- `Rewriter`. A macro in which nothing was cut keeps its tokens, which are those of its expressions. -/
def Node.rewrite (scope : Scope) (levels : Levels) : Node → Node
  | .path path args =>
      .path (if scope.isHoistable path then shorten levels path else path) (rewriteAll scope levels args)
  | .qualified type trait args => .qualified (rewriteAll scope levels type) trait args
  | .visibility path => .visibility path
  | .macroCall path args => .macroCall path (rewriteAll scope levels args)
  | .rawMacro path body => .rawMacro path body
  | .useItem colon tree => .useItem colon tree
  | .item name children => .item name (rewriteAll scope levels children)
  | .patIdent name children => .patIdent name (rewriteAll scope levels children)
  | .typeParam name children => .typeParam name (rewriteAll scope levels children)
  | .node children => .node (rewriteAll scope levels children)

def rewriteAll (scope : Scope) (levels : Levels) : List Node → List Node
  | [] => []
  | n :: ns => n.rewrite scope levels :: rewriteAll scope levels ns

end

def useTree : List String → Option UseTree
  | [] => none
  | [name] => some (.name name)
  | parent :: rest => (useTree rest).map (.path parent)

/-- `use_item`. -/
def useItem (path : PathKey) : Option Node := (useTree path.segs).map (.useItem path.colon)

def Node.isUse : Node → Bool
  | .useItem _ _ => true
  | _ => false

/-- Behind the last `use` item, or at the top. -/
def insertUses (new items : List Node) : List Node :=
  items.rdropWhile (fun n => !n.isUse) ++ new ++ items.rtakeWhile fun n => !n.isUse

namespace File

variable (file : File)

/-- The paths that may be cut. -/
def paths : List PathKey :=
  (hoistableOf (Scope.of file) file.attrs ++ hoistableOf (Scope.of file) file.items).dedup

def levels : Levels := chooseLevels (Scope.of file) file.paths

def added : List PathKey := imports (Scope.of file) file.levels

def hoistAbsolutePaths : File :=
  if file.levels.isEmpty then file
  else
    { attrs := rewriteAll (Scope.of file) file.levels file.attrs
      items := insertUses (file.added.filterMap useItem) (rewriteAll (Scope.of file) file.levels file.items) }

end File

end Krabka.Codegen.Hoist
