import Krabka.Codegen.HoistRounds

/-!
# `Codegen.HoistCapture` — what an added import does to the other paths

A `use` item that is added binds its name in the whole file. The test for clashes looks at the names that the
file binds and at the other paths that are cut. It does not look at the paths that stay: one that starts with
the name of a crate is captured by an import of that name, and nothing else is. `Captured` says so of the file
as it was, with the imports that its paths settle at (`Settles`).

The paths that stay are all paths that the rewriter does not cut: `use` trees, visibilities, traits and generic
arguments of qualified paths, the names of macros, and whatever stands in the body of a macro that is no
list of expressions.
-/

namespace Krabka.Codegen.Hoist

/-! ## The paths that stay

`uncut` lists every path that the rewriter does not reach, with those of macro bodies that it cannot read. -/

mutual

/-- The paths in a `use` tree; a glob has that of its module. -/
def UseTree.paths (colon : Bool) (parents : List String) : UseTree → List PathKey
  | .path name tree => tree.paths colon (parents ++ [name])
  | .name name => [⟨colon, parents ++ [name]⟩]
  | .rename name _ => [⟨colon, parents ++ [name]⟩]
  | .group trees => groupPaths colon parents trees
  | .glob => [⟨colon, parents⟩]

def groupPaths (colon : Bool) (parents : List String) : List UseTree → List PathKey
  | [] => []
  | tree :: trees => tree.paths colon parents ++ groupPaths colon parents trees

end

mutual

/-- The paths of a node that `isCut` does not select or the rewriter does not come to (`reached` is false). -/
def Node.uncut (isCut : PathKey → Bool) (reached : Bool) : Node → List PathKey
  | .path path args => (if reached && isCut path then [] else [path]) ++ uncutOf isCut reached args
  | .qualified type trait args => uncutOf isCut reached type ++ trait.toList ++ uncutOf isCut false args
  | .visibility path => [path]
  | .macroCall path args => path :: uncutOf isCut reached args
  | .rawMacro path body => path :: uncutOf isCut false body
  | .useItem colon tree => tree.paths colon []
  | .item _ children => uncutOf isCut reached children
  | .patIdent _ children => uncutOf isCut reached children
  | .typeParam _ children => uncutOf isCut reached children
  | .node children => uncutOf isCut reached children

def uncutOf (isCut : PathKey → Bool) (reached : Bool) : List Node → List PathKey
  | [] => []
  | n :: ns => n.uncut isCut reached ++ uncutOf isCut reached ns

end

namespace File

variable (file : File)

/-- The rewriter cuts this path. -/
def isCut (path : PathKey) : Bool :=
  (Scope.of file).isHoistable path && (file.levels.lookup path).isSome

/-- The paths that hoisting leaves alone. -/
def uncut : List PathKey := uncutOf file.isCut true file.attrs ++ uncutOf file.isCut true file.items

/-- All paths. -/
def allPaths : List PathKey :=
  uncutOf (fun _ => false) true file.attrs ++ uncutOf (fun _ => false) true file.items

end File

/-! ## The names of a file

What a `use` tree binds, and to what. A path is resolved by its first name: the file's own names first, then
its imports, then the crates. -/

mutual

/-- What a `use` tree binds for the language: `self` in a group is the module itself. -/
def UseTree.names (colon : Bool) (parents : List String) (inGroup : Bool) :
    UseTree → List (String × PathKey)
  | .path name tree => tree.names colon (parents ++ [name]) false
  | .name name =>
      if inGroup && name == "self" then (parents.getLast?.map (·, ⟨colon, parents⟩)).toList
      else [(name, ⟨colon, parents ++ [name]⟩)]
  | .rename name rename =>
      if inGroup && name == "self" then [(rename, ⟨colon, parents⟩)]
      else [(rename, ⟨colon, parents ++ [name]⟩)]
  | .group trees => groupNames colon parents trees
  | .glob => []

def groupNames (colon : Bool) (parents : List String) : List UseTree → List (String × PathKey)
  | [] => []
  | tree :: trees => tree.names colon parents true ++ groupNames colon parents trees

end

def Node.useNames : Node → List (String × PathKey)
  | .useItem colon tree => tree.names colon [] false
  | _ => []

/-- What the names of a file mean. A macro binds names in its body, too. -/
def File.env (file : File) : Scope where
  imported := (file.items.flatMap Node.useNames).reverse
  types := typesOf true false file.attrs ++ typesOf true false file.items
  values := valuesOf true file.attrs ++ valuesOf true file.items

/-- Two ways to name one item. An item of the prelude has its path below a root of `std`, too. -/
inductive Item.Same : Item → Item → Prop
  | refl (item : Item) : Same item item
  | prelude {p : PathKey} {root : String} {below : List String} (hroot : root ∈ stdRoots)
      (h : p.segs = root :: below) : Same (.path p) (.prelude below)

/-- A name stands for this path: a `use` item of the file says so, or the prelude. -/
def StandsFor (scope : Scope) (prelude : String → Option (List String)) (name : String) (p : PathKey) : Prop :=
  match scope.imported.lookup name with
  | some q => q = p
  | none => ∃ below, prelude name = some below ∧ ∃ root ∈ stdRoots, p.segs = root :: below

/-! ## Captured paths

The condition is on the file as it was given. It speaks of where paths settle and not of what the function
adds. -/

/-- A path of the file settles where its import is `p`, which is neither imported already nor in the prelude. -/
def TakesImport (file : File) (p : PathKey) : Prop :=
  (∃ path level, Settles (Scope.of file) file.paths path level ∧
      p = ⟨path.colon, path.segs.take (level + 1)⟩) ∧
    (Scope.of file).alreadyImports p = false ∧ isPrelude p = false

/-- The path starts with a name that the file does not have for itself, some path of the file settles at
an import of that name, and the name does not stand for the imported item. -/
def Captured (file : File) (prelude : String → Option (List String)) (path : PathKey) : Prop :=
  ∃ name rest, path = ⟨false, name :: rest⟩ ∧ file.env.owns name rest = false ∧
    ∃ p, TakesImport file p ∧ p.segs.getLast? = some name ∧ ¬StandsFor file.env prelude name p

/-! ## What hoisting leaves alone

The names that a file binds and the `use` items it has are the same before and after, since the rewriter only
replaces paths. -/

section
variable {scope : Scope} {levels : Levels}

theorem typesOf_eq (macros nested : Bool) (ns : List Node) :
    typesOf macros nested ns = ns.flatMap (Node.types macros nested) := by
  induction ns with
  | nil => rw [typesOf, List.flatMap_nil]
  | cons n ns ih => rw [typesOf, ih, List.flatMap_cons]

theorem valuesOf_eq (macros : Bool) (ns : List Node) : valuesOf macros ns = ns.flatMap (Node.values macros) := by
  induction ns with
  | nil => rw [valuesOf, List.flatMap_nil]
  | cons n ns ih => rw [valuesOf, ih, List.flatMap_cons]

theorem rewriteAll_eq (ns : List Node) : rewriteAll scope levels ns = ns.map (Node.rewrite scope levels) := by
  induction ns with
  | nil => rw [rewriteAll, List.map_nil]
  | cons n ns ih => rw [rewriteAll, ih, List.map_cons]

/-- What is the same for every node of a list is the same for the list. -/
theorem flatMap_rewriteAll {α : Type} {f : Node → List α} {ns : List Node}
    (h : ∀ n ∈ ns, f (n.rewrite scope levels) = f n) : (rewriteAll scope levels ns).flatMap f = ns.flatMap f := by
  rw [rewriteAll_eq, List.flatMap_map]
  exact List.flatMap_congr h

/-- Rewriting the paths changes no type that is defined. -/
theorem typesOf_rewriteAll {macros nested : Bool} {ns : List Node}
    (h : ∀ n ∈ ns, ∀ nested, (n.rewrite scope levels).types macros nested = n.types macros nested) :
    typesOf macros nested (rewriteAll scope levels ns) = typesOf macros nested ns := by
  rw [typesOf_eq, typesOf_eq]
  exact flatMap_rewriteAll fun n hn => h n hn nested

/-- Nor any value. -/
theorem valuesOf_rewriteAll {macros : Bool} {ns : List Node}
    (h : ∀ n ∈ ns, (n.rewrite scope levels).values macros = n.values macros) :
    valuesOf macros (rewriteAll scope levels ns) = valuesOf macros ns := by
  rw [valuesOf_eq, valuesOf_eq]
  exact flatMap_rewriteAll h

/-- A cut binds and unbinds no type. -/
theorem types_rewrite (macros : Bool) (n : Node) (nested : Bool) :
    (n.rewrite scope levels).types macros nested = n.types macros nested := by
  induction n using Node.induction generalizing nested with
  | path p args ih => rw [Node.rewrite, Node.types, Node.types, typesOf_rewriteAll ih]
  | qualified type trait args ih _ => rw [Node.rewrite, Node.types, Node.types, typesOf_rewriteAll ih]
  | visibility p => rw [Node.rewrite]
  | macroCall p args ih => rw [Node.rewrite, Node.types, Node.types, typesOf_rewriteAll ih]
  | rawMacro p body _ => rw [Node.rewrite]
  | useItem colon tree => rw [Node.rewrite]
  | item name ns ih => rw [Node.rewrite, Node.types, Node.types, typesOf_rewriteAll ih]
  | patIdent name ns ih => rw [Node.rewrite, Node.types, Node.types, typesOf_rewriteAll ih]
  | typeParam name ns ih => rw [Node.rewrite, Node.types, Node.types, typesOf_rewriteAll ih]
  | node ns ih => rw [Node.rewrite, Node.types, Node.types, typesOf_rewriteAll ih]

/-- Nor a value. -/
theorem values_rewrite (macros : Bool) (n : Node) : (n.rewrite scope levels).values macros = n.values macros := by
  induction n using Node.induction with
  | path p args ih => rw [Node.rewrite, Node.values, Node.values, valuesOf_rewriteAll ih]
  | qualified type trait args ih _ => rw [Node.rewrite, Node.values, Node.values, valuesOf_rewriteAll ih]
  | visibility p => rw [Node.rewrite]
  | macroCall p args ih => rw [Node.rewrite, Node.values, Node.values, valuesOf_rewriteAll ih]
  | rawMacro p body _ => rw [Node.rewrite]
  | useItem colon tree => rw [Node.rewrite]
  | item name ns ih => rw [Node.rewrite, Node.values, Node.values, valuesOf_rewriteAll ih]
  | patIdent name ns ih => rw [Node.rewrite, Node.values, Node.values, valuesOf_rewriteAll ih]
  | typeParam name ns ih => rw [Node.rewrite, Node.values, Node.values, valuesOf_rewriteAll ih]
  | node ns ih => rw [Node.rewrite, Node.values, Node.values, valuesOf_rewriteAll ih]

/-- Nor an import. -/
theorem useNames_rewrite (n : Node) : (n.rewrite scope levels).useNames = n.useNames := by
  cases n <;> rw [Node.rewrite] <;> rfl

end

/-! ## The paths that stay are paths of the new file

A path that was not cut is still there, in the file with the items added. -/

theorem uncutOf_eq (isCut : PathKey → Bool) (reached : Bool) (ns : List Node) :
    uncutOf isCut reached ns = ns.flatMap (Node.uncut isCut reached) := by
  induction ns with
  | nil => rw [uncutOf, List.flatMap_nil]
  | cons n ns ih => rw [uncutOf, ih, List.flatMap_cons]

/-- What is left alone depends on the cut paths and on whether the code is reached. -/
theorem uncutOf_congr {isCut isCut' : PathKey → Bool} {reached reached' : Bool} {ns : List Node}
    (h : ∀ n ∈ ns, n.uncut isCut reached = n.uncut isCut' reached') :
    uncutOf isCut reached ns = uncutOf isCut' reached' ns := by
  rw [uncutOf_eq, uncutOf_eq]
  exact List.flatMap_congr h

/-- Where the rewriter does not come, all paths stay. -/
theorem uncut_not_reached (isCut : PathKey → Bool) (n : Node) (reached : Bool) :
    n.uncut isCut false = n.uncut (fun _ => false) reached := by
  induction n using Node.induction generalizing reached with
  | path p args ih =>
      rw [Node.uncut, Node.uncut, uncutOf_congr fun n hn => ih n hn reached, Bool.false_and, Bool.and_false]
  | qualified type trait args ih ih' =>
      rw [Node.uncut, Node.uncut, uncutOf_congr fun n hn => ih n hn reached,
        uncutOf_congr fun n hn => ih' n hn false]
  | visibility p => rw [Node.uncut, Node.uncut]
  | macroCall p args ih => rw [Node.uncut, Node.uncut, uncutOf_congr fun n hn => ih n hn reached]
  | rawMacro p body ih => rw [Node.uncut, Node.uncut, uncutOf_congr fun n hn => ih n hn false]
  | useItem colon tree => rw [Node.uncut, Node.uncut]
  | item name ns ih => rw [Node.uncut, Node.uncut, uncutOf_congr fun n hn => ih n hn reached]
  | patIdent name ns ih => rw [Node.uncut, Node.uncut, uncutOf_congr fun n hn => ih n hn reached]
  | typeParam name ns ih => rw [Node.uncut, Node.uncut, uncutOf_congr fun n hn => ih n hn reached]
  | node ns ih => rw [Node.uncut, Node.uncut, uncutOf_congr fun n hn => ih n hn reached]

/-- A path that is not cut is not rewritten. -/
theorem rewritten_of_not_isCut {file : File} {p : PathKey} (h : file.isCut p = false) :
    (if (Scope.of file).isHoistable p then shorten file.levels p else p) = p := by
  split
  · rename_i hhoistable
    rw [File.isCut, hhoistable, Bool.true_and, Option.isSome_eq_false_iff, Option.isNone_iff_eq_none] at h
    rw [shorten, h]
  · rfl

/-- What is left alone is still there after the rewriting. -/
theorem uncutOf_subset_rewriteAll {file : File} {ns : List Node}
    (h : ∀ n ∈ ns,
      n.uncut file.isCut true ⊆ (n.rewrite (Scope.of file) file.levels).uncut (fun _ => false) true) :
    uncutOf file.isCut true ns ⊆ uncutOf (fun _ => false) true (rewriteAll (Scope.of file) file.levels ns) := by
  intro p hp
  rw [uncutOf_eq] at hp
  obtain ⟨n, hn, hp⟩ := List.mem_flatMap.mp hp
  rw [uncutOf_eq, rewriteAll_eq, List.flatMap_map]
  exact List.mem_flatMap.mpr ⟨n, hn, h n hn hp⟩

/-- A path that is not cut is a path of the node that the rewriter leaves. -/
theorem uncut_subset_rewrite {file : File} (n : Node) :
    n.uncut file.isCut true ⊆ (n.rewrite (Scope.of file) file.levels).uncut (fun _ => false) true := by
  induction n using Node.induction with
  | path p args ih =>
      rw [Node.rewrite, Node.uncut, Node.uncut, Bool.and_false, if_neg Bool.false_ne_true]
      refine List.append_subset.mpr ⟨fun q hq => List.mem_append_left _ ?_, fun q hq => ?_⟩
      · split at hq
        · cases hq
        · rename_i hcut
          rw [Bool.true_and, Bool.not_eq_true] at hcut
          rw [rewritten_of_not_isCut hcut]
          exact hq
      · exact List.mem_append_right _ (uncutOf_subset_rewriteAll ih hq)
  | qualified type trait args ih _ =>
      rw [Node.rewrite, Node.uncut, Node.uncut,
        uncutOf_congr fun n _ => uncut_not_reached file.isCut n false]
      refine List.append_subset.mpr ⟨List.append_subset.mpr ⟨fun p hp => ?_, fun p hp => ?_⟩, fun p hp => ?_⟩
      · exact List.mem_append_left _ (List.mem_append_left _ (uncutOf_subset_rewriteAll ih hp))
      · exact List.mem_append_left _ (List.mem_append_right _ hp)
      · exact List.mem_append_right _ hp
  | visibility p => rw [Node.rewrite, Node.uncut, Node.uncut]; exact List.Subset.refl _
  | macroCall p args ih =>
      rw [Node.rewrite, Node.uncut, Node.uncut]
      exact List.cons_subset_cons _ (uncutOf_subset_rewriteAll ih)
  | rawMacro p body _ =>
      rw [Node.rewrite, Node.uncut, Node.uncut,
        uncutOf_congr fun n _ => uncut_not_reached file.isCut n false]
      exact List.Subset.refl _
  | useItem colon tree => rw [Node.rewrite, Node.uncut, Node.uncut]; exact List.Subset.refl _
  | item name ns ih => rw [Node.rewrite, Node.uncut, Node.uncut]; exact uncutOf_subset_rewriteAll ih
  | patIdent name ns ih => rw [Node.rewrite, Node.uncut, Node.uncut]; exact uncutOf_subset_rewriteAll ih
  | typeParam name ns ih => rw [Node.rewrite, Node.uncut, Node.uncut]; exact uncutOf_subset_rewriteAll ih
  | node ns ih => rw [Node.rewrite, Node.uncut, Node.uncut]; exact uncutOf_subset_rewriteAll ih

/-! ## The added items

They stand in one place of the file, one for each import, and each binds the last name of its path. -/

/-- The new imports stand behind the last import of the file. -/
theorem insertUses_split (items : List Node) :
    items.rdropWhile (fun n => !n.isUse) ++ items.rtakeWhile (fun n => !n.isUse) = items :=
  List.rdropWhile_append_rtakeWhile

/-- Where added items count for nothing, the file has what it had. -/
theorem flatMap_insertUses_of_new {α : Type} {f : Node → List α} {new : List Node} (items : List Node)
    (h : ∀ n ∈ new, f n = []) : (insertUses new items).flatMap f = items.flatMap f := by
  have hnew : new.flatMap f = [] := List.flatMap_eq_nil_iff.mpr h
  rw [insertUses, List.flatMap_append, List.flatMap_append, hnew, List.append_nil, ← List.flatMap_append,
    insertUses_split]

/-- Where only `use` items count, what is added counts last. -/
theorem flatMap_insertUses_of_use {α : Type} {f : Node → List α} (new items : List Node)
    (h : ∀ n : Node, n.isUse = false → f n = []) :
    (insertUses new items).flatMap f = items.flatMap f ++ new.flatMap f := by
  have hbehind : (items.rtakeWhile fun n => !n.isUse).flatMap f = [] := by
    rw [List.flatMap_eq_nil_iff]
    intro n hn
    have hnot : (!n.isUse) = true := List.mem_rtakeWhile_imp (p := fun n : Node => !n.isUse) hn
    exact h n ((Bool.not_eq_true' _).mp hnot)
  have hitems : items.flatMap f = (items.rdropWhile fun n => !n.isUse).flatMap f := by
    conv_lhs => rw [← insertUses_split items]
    rw [List.flatMap_append, hbehind, List.append_nil]
  rw [insertUses, List.flatMap_append, List.flatMap_append, hbehind, List.append_nil, hitems]

theorem useTree_eq_none {segs : List String} : useTree segs = none ↔ segs = [] := by
  induction segs with
  | nil => exact iff_of_true rfl rfl
  | cons first rest ih =>
      cases rest with
      | nil => exact iff_of_false nofun nofun
      | cons second rest =>
          rw [useTree, Option.map_eq_none_iff, ih]
          · exact iff_of_false nofun nofun
          · exact nofun

/-- The tree of an added item binds the last name of its path. -/
theorem names_useTree {colon : Bool} {segs parents : List String} {tree : UseTree}
    (h : useTree segs = some tree) :
    ∃ name, segs.getLast? = some name ∧
      tree.names colon parents false = [(name, ⟨colon, parents ++ segs⟩)] := by
  induction segs generalizing parents tree with
  | nil => cases h
  | cons first rest ih =>
      cases rest with
      | nil =>
          cases h
          refine ⟨first, rfl, ?_⟩
          rw [UseTree.names, Bool.false_and, if_neg Bool.false_ne_true]
      | cons second rest =>
          rw [useTree] at h
          obtain ⟨tree', htree', rfl⟩ := Option.map_eq_some_iff.mp h
          obtain ⟨name, hname, hnames⟩ := @ih (parents ++ [first]) _ htree'
          refine ⟨name, ?_, ?_⟩
          · rw [List.getLast?_cons_cons]
            exact hname
          · rw [UseTree.names, hnames, List.append_assoc]
            rfl
          · exact fun h => nomatch h

/-- What an added item binds. -/
theorem useNames_useItem (p : PathKey) : (useItem p).toList.flatMap Node.useNames = (binding p).toList := by
  unfold useItem binding
  cases htree : useTree p.segs with
  | none => rw [useTree_eq_none.mp htree]; rfl
  | some tree =>
      obtain ⟨name, hname, hnames⟩ := @names_useTree p.colon p.segs [] tree htree
      rw [hname, Option.map_some, Option.map_some, Option.toList_some, List.flatMap_singleton, Node.useNames,
        hnames]
      rfl

/-- The imports that are added bring in the names of their paths. -/
theorem useNames_added (added : List PathKey) :
    (added.filterMap useItem).flatMap Node.useNames = added.filterMap binding := by
  rw [List.filterMap_eq_flatMap_toList, List.filterMap_eq_flatMap_toList, List.flatMap_assoc]
  exact List.flatMap_congr fun p _ => useNames_useItem p

/-- An import defines no type and no value. -/
theorem types_useItem {p : PathKey} {n : Node} (h : useItem p = some n) (macros : Bool) :
    n.types macros false = [] ∧ n.values macros = [] ∧ n.isUse = true := by
  obtain ⟨tree, _, rfl⟩ := Option.map_eq_some_iff.mp h
  exact ⟨by rw [Node.types, if_neg Bool.false_ne_true], by rw [Node.values], rfl⟩

/-- What is no import brings no name. -/
theorem useNames_of_not_isUse {n : Node} (h : n.isUse = false) : n.useNames = [] := by
  cases n with
  | useItem colon tree => cases h
  | _ => rfl

/-- **Hoisting adds its imports to what the names of the file mean, and changes nothing else of it.** -/
theorem env_hoistAbsolutePaths (file : File) :
    file.hoistAbsolutePaths.env = file.env.withImports file.added := by
  unfold File.hoistAbsolutePaths
  split
  · rename_i hlevels
    have hadded : file.added = [] := by
      rw [File.added, List.isEmpty_iff.mp hlevels]
      rfl
    rw [hadded]
    rfl
  · have himported : ((insertUses (file.added.filterMap useItem)
        (rewriteAll (Scope.of file) file.levels file.items)).flatMap Node.useNames).reverse =
          (file.added.filterMap binding).reverse ++ (file.items.flatMap Node.useNames).reverse := by
      rw [flatMap_insertUses_of_use _ _ fun n => useNames_of_not_isUse, useNames_added,
        flatMap_rewriteAll fun n _ => useNames_rewrite n, List.reverse_append]
    have htypes : typesOf true false (insertUses (file.added.filterMap useItem)
        (rewriteAll (Scope.of file) file.levels file.items)) = typesOf true false file.items := by
      rw [typesOf_eq, flatMap_insertUses_of_new, ← typesOf_eq, typesOf_rewriteAll fun n _ => types_rewrite true n]
      intro n hn
      obtain ⟨p, _, hp⟩ := List.mem_filterMap.mp hn
      exact (types_useItem hp true).1
    have hvalues : valuesOf true (insertUses (file.added.filterMap useItem)
        (rewriteAll (Scope.of file) file.levels file.items)) = valuesOf true file.items := by
      rw [valuesOf_eq, flatMap_insertUses_of_new, ← valuesOf_eq, valuesOf_rewriteAll fun n _ => values_rewrite true n]
      intro n hn
      obtain ⟨p, _, hp⟩ := List.mem_filterMap.mp hn
      exact (types_useItem hp true).2.1
    unfold File.env Scope.withImports
    simp only [himported, htypes, hvalues, typesOf_rewriteAll fun n _ => types_rewrite true n,
      valuesOf_rewriteAll fun n _ => values_rewrite true n]

/-- The items that are added take no place of another. -/
theorem subset_insertUses (new items : List Node) : items ⊆ insertUses new items := by
  intro n hn
  rw [← insertUses_split items, List.mem_append] at hn
  rw [insertUses]
  rcases hn with hn | hn
  · exact List.mem_append_left _ (List.mem_append_left _ hn)
  · exact List.mem_append_right _ hn

/-- Every path that hoisting leaves alone is a path of the file that it leaves. -/
theorem uncut_subset_allPaths (file : File) : file.uncut ⊆ file.hoistAbsolutePaths.allPaths := by
  unfold File.hoistAbsolutePaths
  split
  · rename_i hlevels
    have hnone : file.isCut = fun _ => false := by
      funext path
      rw [File.isCut, List.isEmpty_iff.mp hlevels, List.lookup_nil, Option.isSome_none, Bool.and_false]
    rw [File.uncut, hnone, File.allPaths]
    exact List.Subset.refl _
  · rw [File.uncut, File.allPaths]
    refine List.append_subset.mpr ⟨fun p hp => ?_, fun p hp => ?_⟩
    · exact List.mem_append_left _ (uncutOf_subset_rewriteAll (fun n _ => uncut_subset_rewrite n) hp)
    · have hrewritten := uncutOf_subset_rewriteAll (fun n _ => uncut_subset_rewrite n) hp
      rw [uncutOf_eq] at hrewritten
      obtain ⟨n, hn, hp⟩ := List.mem_flatMap.mp hrewritten
      apply List.mem_append_right
      rw [uncutOf_eq]
      exact List.mem_flatMap.mpr ⟨n, subset_insertUses _ _ hn, hp⟩

/-! ## Capture

With the added items a path is resolved to something else exactly if one of them takes its first name and
stands for another item. -/

/-- A path that can be hoisted has more than one segment. -/
theorem length_of_isHoistable {scope : Scope} {path : PathKey} (h : scope.isHoistable path = true) :
    1 < path.segs.length := by
  unfold Scope.isHoistable at h
  rw [Bool.and_eq_true, decide_eq_true_eq] at h
  have hdeep : 2 ≤ deepestLevel path.segs := h.1
  by_contra hshort
  have hdrop : path.segs.drop 1 = [] := List.drop_eq_nil_iff.mpr (not_lt.mp hshort)
  unfold deepestLevel at hdeep
  rw [hdrop, List.findIdx?_nil] at hdeep
  have hlast : 2 ≤ path.segs.length - 1 := hdeep
  omega

theorem hoistableOf_eq (scope : Scope) (ns : List Node) :
    hoistableOf scope ns = ns.flatMap (Node.hoistable scope) := by
  induction ns with
  | nil => rw [hoistableOf, List.flatMap_nil]
  | cons n ns ih => rw [hoistableOf, ih, List.flatMap_cons]

/-- What the collector finds is hoistable. -/
theorem isHoistable_of_mem {scope : Scope} {n : Node} : ∀ p ∈ n.hoistable scope, scope.isHoistable p = true := by
  have hlist : ∀ {ns : List Node}, (∀ n ∈ ns, ∀ p ∈ n.hoistable scope, scope.isHoistable p = true) →
      ∀ p ∈ hoistableOf scope ns, scope.isHoistable p = true := by
    intro ns ih p hp
    rw [hoistableOf_eq] at hp
    obtain ⟨n, hn, hp⟩ := List.mem_flatMap.mp hp
    exact ih n hn p hp
  induction n using Node.induction with
  | path path args ih =>
      intro p hp
      rw [Node.hoistable, List.mem_append] at hp
      rcases hp with hp | hp
      · split at hp
        · rename_i hpath
          rw [List.mem_singleton.mp hp]
          exact hpath
        · cases hp
      · exact hlist ih p hp
  | qualified type trait args ih _ => rw [Node.hoistable]; exact hlist ih
  | visibility p => rw [Node.hoistable]; exact fun _ h => nomatch h
  | macroCall p args ih => rw [Node.hoistable]; exact hlist ih
  | rawMacro p body _ => rw [Node.hoistable]; exact fun _ h => nomatch h
  | useItem colon tree => rw [Node.hoistable]; exact fun _ h => nomatch h
  | item name ns ih => rw [Node.hoistable]; exact hlist ih
  | patIdent name ns ih => rw [Node.hoistable]; exact hlist ih
  | typeParam name ns ih => rw [Node.hoistable]; exact hlist ih
  | node ns ih => rw [Node.hoistable]; exact hlist ih

/-- So has every path that is collected. -/
theorem length_of_mem_paths {file : File} : ∀ path ∈ file.paths, 1 < path.segs.length := by
  intro path h
  rw [File.paths, List.mem_dedup, hoistableOf_eq, hoistableOf_eq, ← List.flatMap_append] at h
  obtain ⟨n, _, hpath⟩ := List.mem_flatMap.mp h
  exact length_of_isHoistable (isHoistable_of_mem path hpath)

/-- Two paths mean the same item where they are the same path. -/
theorem same_path_iff {p q : PathKey} : Item.Same (.path p) (.path q) ↔ p = q := by
  constructor
  · rintro ⟨⟩
    rfl
  · rintro rfl
    exact .refl _

/-- A path means an item of the prelude where it is that item in the standard library. -/
theorem same_prelude_iff {p : PathKey} {below : List String} :
    Item.Same (.path p) (.prelude below) ↔ ∃ root ∈ stdRoots, p.segs = root :: below := by
  constructor
  · rintro (_ | ⟨hroot, h⟩)
    exact ⟨_, hroot, h⟩
  · rintro ⟨root, hroot, h⟩
    exact .prelude hroot h

/-- A name that the scope owns is that one. -/
theorem resolve_of_owns {scope : Scope} {prelude : String → Option (List String)} {name : String}
    {rest : List String} (hown : scope.owns name rest = true) :
    scope.resolve prelude ⟨false, name :: rest⟩ = .own (name :: rest) := by
  unfold Scope.resolve
  rw [Scope.owns] at hown
  simp only [Bool.false_eq_true, if_false, hown, if_true]

/-- Only the lookup of its first name matters for a path. -/
theorem resolve_withImports {scope : Scope} {added : List PathKey} {prelude : String → Option (List String)}
    {colon : Bool} {name : String} {rest : List String}
    (h : (scope.withImports added).imported.lookup name = scope.imported.lookup name) :
    (scope.withImports added).resolve prelude ⟨colon, name :: rest⟩ =
      scope.resolve prelude ⟨colon, name :: rest⟩ := by
  unfold Scope.resolve
  simp only [h]
  rfl

/-- A path whose first name is imported means what it meant if the name did. -/
theorem same_resolve_iff {scope : Scope} {prelude : String → Option (List String)} {name : String}
    {rest : List String} (hown : scope.owns name rest = false) {p : PathKey} :
    Item.Same (.path ⟨p.colon, p.segs ++ rest⟩) (scope.resolve prelude ⟨false, name :: rest⟩) ↔
      StandsFor scope prelude name p := by
  unfold StandsFor
  cases hlookup : scope.imported.lookup name with
  | some q =>
      rw [resolve_of_lookup hown hlookup, same_path_iff, PathKey.mk.injEq, List.append_cancel_right_eq]
      constructor
      · rintro ⟨hcolon, hsegs⟩
        cases p
        cases q
        exact (congr (congrArg PathKey.mk hcolon) hsegs).symm
      · rintro rfl
        exact ⟨rfl, rfl⟩
  | none =>
      cases hprelude : prelude name with
      | some below =>
          rw [resolve_of_prelude hown hlookup hprelude, same_prelude_iff]
          constructor
          · rintro ⟨root, hroot, h⟩
            rw [← List.cons_append, List.append_cancel_right_eq] at h
            exact ⟨below, rfl, root, hroot, h⟩
          · rintro ⟨_, ⟨⟩, root, hroot, h⟩
            exact ⟨root, hroot, by rw [h]; rfl⟩
      | none =>
          have hexternal : scope.resolve prelude ⟨false, name :: rest⟩ = .external (name :: rest) := by
            unfold Scope.resolve
            rw [Scope.owns] at hown
            simp only [Bool.false_eq_true, if_false, hown, hlookup, hprelude]
          rw [hexternal]
          constructor
          · intro h
            cases h
          · rintro ⟨_, ⟨⟩, _⟩

/-- The imports that are added are those of the cut paths. -/
theorem mem_added_iff {file : File} {p : PathKey} : p ∈ file.added ↔ TakesImport file p := by
  unfold File.added TakesImport
  rw [mem_imports]
  refine and_congr_left fun _ => ⟨?_, ?_⟩
  · rintro ⟨e, he, rfl⟩
    exact ⟨e.1, e.2, (mem_chooseLevels_iff length_of_mem_paths).mp he, rfl⟩
  · rintro ⟨path, level, hsettles, rfl⟩
    exact ⟨(path, level), (mem_chooseLevels_iff length_of_mem_paths).mpr hsettles, rfl⟩

/-- The name of an added item leads to the path of the item. -/
theorem resolve_of_added {file : File} {prelude : String → Option (List String)} {name : String}
    {rest : List String} (hown : file.env.owns name rest = false) {p : PathKey} (hp : p ∈ file.added)
    (hname : p.segs.getLast? = some name) :
    (file.env.withImports file.added).resolve prelude ⟨false, name :: rest⟩ =
      .path ⟨p.colon, p.segs ++ rest⟩ := by
  obtain ⟨q, hq, hqname, hlookup⟩ := @lookup_withImports_of_mem file.env _ _ _ hp hname
  have hqp : q = p := eq_of_binds length_of_mem_paths (.inr ⟨hq, hqname⟩) (.inr ⟨hp, hname⟩)
  have hown' : (file.env.withImports file.added).owns name rest = false := hown
  rw [hqp] at hlookup
  exact resolve_of_lookup hown' hlookup

/-- **One path of the file**: read in the new file, it means what it meant exactly where it is not captured. -/
theorem same_resolve_hoisted_iff (file : File) (prelude : String → Option (List String)) (path : PathKey) :
    ((file.hoistAbsolutePaths).env.resolve prelude path).Same (file.env.resolve prelude path) ↔
      ¬Captured file prelude path := by
  rw [env_hoistAbsolutePaths]
  constructor
  · rintro hsame ⟨name, rest, rfl, hown, p, hp, hname, hother⟩
    rw [resolve_of_added hown (mem_added_iff.mpr hp) hname] at hsame
    exact hother ((same_resolve_iff hown).mp hsame)
  · intro h
    obtain ⟨colon, segs⟩ := path
    cases segs with
    | nil => exact .refl _
    | cons name rest =>
        cases colon with
        | true => exact .refl _
        | false =>
            cases hown : file.env.owns name rest with
            | true =>
                have hown' : (file.env.withImports file.added).owns name rest = true := hown
                rw [resolve_of_owns hown, resolve_of_owns hown']
                exact .refl _
            | false =>
                by_cases hbinds : ∃ p ∈ file.added, p.segs.getLast? = some name
                · obtain ⟨p, hp, hname⟩ := hbinds
                  rw [resolve_of_added hown hp hname]
                  refine (same_resolve_iff hown).mpr (not_not.mp fun hother => h ?_)
                  exact ⟨name, rest, rfl, hown, p, mem_added_iff.mp hp, hname, hother⟩
                · have hlookup : (file.env.withImports file.added).imported.lookup name =
                      file.env.imported.lookup name :=
                    lookup_withImports_of_not fun p hp hname => hbinds ⟨p, hp, hname⟩
                  rw [resolve_withImports hlookup]
                  exact .refl _

/-- **Hoisting leaves the meaning of the other paths alone exactly where no import captures one.** -/
theorem resolve_uncut_iff (file : File) (prelude : String → Option (List String)) :
    (∀ path ∈ file.uncut,
      ((file.hoistAbsolutePaths).env.resolve prelude path).Same (file.env.resolve prelude path)) ↔
      ∀ path ∈ file.uncut, ¬Captured file prelude path :=
  forall₂_congr fun path _ => same_resolve_hoisted_iff file prelude path

/-- A file with a function `put_bytes` of its own, which calls another of that name by its path and uses the
crate `bytes`. -/
def capturing : File where
  attrs := []
  items := [
    .item (some "put_bytes") [],
    .item (some "f") [
      .patIdent "b" [],
      .path ⟨false, ["bytes", "Bytes"]⟩ [],
      .path ⟨false, ["crate", "primitives", "bytes", "put_bytes"]⟩ []]]

/-- The call is cut in front of its module `bytes`, and the import takes the place of the crate. -/
theorem not_resolve_uncut_capturing :
    capturing.uncut = [⟨false, ["bytes", "Bytes"]⟩] ∧
    capturing.env.resolve preludePath ⟨false, ["bytes", "Bytes"]⟩ = .external ["bytes", "Bytes"] ∧
    capturing.hoistAbsolutePaths.env.resolve preludePath ⟨false, ["bytes", "Bytes"]⟩ =
      .path ⟨false, ["crate", "primitives", "bytes", "Bytes"]⟩ ∧
    ¬∀ path ∈ capturing.uncut,
      ((capturing.hoistAbsolutePaths).env.resolve preludePath path).Same (capturing.env.resolve preludePath path) := by
  have huncut : capturing.uncut = [⟨false, ["bytes", "Bytes"]⟩] := by decide +kernel
  have hbefore : capturing.env.resolve preludePath ⟨false, ["bytes", "Bytes"]⟩ = .external ["bytes", "Bytes"] := by
    decide +kernel
  have hafter : capturing.hoistAbsolutePaths.env.resolve preludePath ⟨false, ["bytes", "Bytes"]⟩ =
      .path ⟨false, ["crate", "primitives", "bytes", "Bytes"]⟩ := by decide +kernel
  refine ⟨huncut, hbefore, hafter, fun h => ?_⟩
  have hsame := h ⟨false, ["bytes", "Bytes"]⟩ (huncut ▸ List.mem_cons_self)
  rw [hbefore, hafter] at hsame
  cases hsame

end Krabka.Codegen.Hoist
