import Mathlib

/-!
# `Lib.FileTree` — directories and files

A directory with what is below it, to any depth. A path is read from the directory down. `write` and
`createDirs` are what the system calls of these names do to the tree, where they succeed: a file can be written
where its directory is there, and a directory is made where no file is in the way. Each is given by what a
reader finds at every path afterwards (`contentsAt_write`, `contentsAt_createDirs`).
-/

namespace FileTree

abbrev Path := List String

inductive Node (β : Type) where
  | file (name : String) (contents : β)
  | dir (name : String) (entries : List (Node β))

variable {β : Type}

namespace Node

/-- By induction on the tree, over a node and over the entries of a directory. -/
theorem induct {motive_1 : Node β → Prop} {motive_2 : List (Node β) → Prop}
    (file : ∀ name contents, motive_1 (file name contents))
    (dir : ∀ name entries, motive_2 entries → motive_1 (dir name entries)) (nil : motive_2 [])
    (cons : ∀ e entries, motive_1 e → motive_2 entries → motive_2 (e :: entries)) :
    (∀ node, motive_1 node) ∧ ∀ entries, motive_2 entries :=
  ⟨fun node => @Node.rec β motive_1 motive_2 file dir nil cons node,
    fun entries => @Node.rec_1 β motive_1 motive_2 file dir nil cons entries⟩

def name : Node β → String
  | file name _ => name
  | dir name _ => name

/-- The names in a directory are distinct, at every depth. -/
inductive WellNamed : Node β → Prop where
  | file {name : String} {contents : β} : WellNamed (.file name contents)
  | dir {name : String} {entries : List (Node β)} :
      (entries.map Node.name).Nodup → (∀ e ∈ entries, WellNamed e) → WellNamed (.dir name entries)

end Node

/-- The entry of a name. -/
def find (name : String) (entries : List (Node β)) : Option (Node β) := entries.find? (·.name = name)

/-- The node replaces the entry of its name, or is a new one. -/
def put (node : Node β) : List (Node β) → List (Node β)
  | [] => [node]
  | e :: entries => if e.name = node.name then node :: entries else e :: put node entries

namespace Node

/-- The contents of the file at a path. -/
def contentsAt : Path → Node β → Option β
  | [], file _ contents => some contents
  | [], dir _ _ => none
  | _ :: _, file _ _ => none
  | name :: rest, dir _ entries => (find name entries).bind (contentsAt rest)

/-- `fs::create_dir_all`. -/
def createDirs : Path → Node β → Option (Node β)
  | [], dir name entries => some (dir name entries)
  | _, file _ _ => none
  | child :: rest, dir name entries =>
      (createDirs rest ((find child entries).getD (dir child []))).map fun node => dir name (put node entries)

/-- `fs::write`. -/
def write (contents : β) : Path → Node β → Option (Node β)
  | [], file name _ => some (file name contents)
  | [], dir _ _ => none
  | _ :: _, file _ _ => none
  | child :: rest, dir name entries =>
      match find child entries with
      | some node => (write contents rest node).map fun node => dir name (put node entries)
      | none => if rest = [] then some (dir name (put (file child contents) entries)) else none

/-- What is at a path. -/
def nodeAt : Path → Node β → Option (Node β)
  | [], node => some node
  | _ :: _, file _ _ => none
  | name :: rest, dir _ entries => (find name entries).bind (nodeAt rest)

/-- What is at a path is replaced; the answer is that of the replacement. -/
def alter {r : Type} (f : Node β → Node β × r) (otherwise : r) : Path → Node β → Node β × r
  | [], node => f node
  | _ :: _, file name contents => (file name contents, otherwise)
  | child :: rest, dir name entries =>
      match find child entries with
      | some node => (dir name (put (alter f otherwise rest node).1 entries), (alter f otherwise rest node).2)
      | none => (dir name entries, otherwise)

end Node

/-! ## Entries

A directory has each name once. -/

theorem name_of_find {name : String} {entries : List (Node β)} {node : Node β}
    (h : find name entries = some node) : node.name = name := by
  have hname := List.find?_some h
  simpa using hname

theorem find_cons (name : String) (e : Node β) (entries : List (Node β)) :
    find name (e :: entries) = if e.name = name then some e else find name entries := by
  unfold find
  rw [List.find?_cons]
  split <;> simp_all

theorem mem_of_find {name : String} {entries : List (Node β)} {node : Node β}
    (h : find name entries = some node) : node ∈ entries :=
  List.mem_of_find?_eq_some h

/-- What was put is found under its name, and nothing else changes. -/
theorem find_put (node : Node β) (entries : List (Node β)) (name : String) :
    find name (put node entries) = if node.name = name then some node else find name entries := by
  induction entries with
  | nil => rw [put, find_cons]
  | cons e entries ih =>
      rw [put, find_cons]
      split
      · rename_i he
        rw [find_cons, he]
        split <;> rfl
      · rename_i he
        rw [find_cons, ih]
        split
        · rename_i hname
          rw [if_neg fun hnode => he (hname.trans hnode.symm)]
        · rfl

/-- Putting adds one node. -/
theorem mem_put {node e : Node β} {entries : List (Node β)} (h : e ∈ put node entries) :
    e = node ∨ e ∈ entries := by
  induction entries with
  | nil => exact .inl (List.mem_singleton.mp h)
  | cons e' entries ih =>
      rw [put] at h
      split at h
      · exact (List.mem_cons.mp h).imp_right (List.mem_cons_of_mem e')
      · rcases List.mem_cons.mp h with rfl | h
        · exact .inr List.mem_cons_self
        · exact (ih h).imp_right (List.mem_cons_of_mem e')

/-- Names stay distinct. -/
theorem nodup_put {node : Node β} {entries : List (Node β)} (h : (entries.map Node.name).Nodup) :
    ((put node entries).map Node.name).Nodup := by
  induction entries with
  | nil => exact List.nodup_singleton _
  | cons e entries ih =>
      rw [List.map_cons, List.nodup_cons] at h
      rw [put]
      split
      · rename_i he
        rw [List.map_cons, List.nodup_cons, ← he]
        exact h
      · rename_i he
        rw [List.map_cons, List.nodup_cons]
        refine ⟨fun hin => ?_, ih h.2⟩
        obtain ⟨e', he', heq⟩ := List.mem_map.mp hin
        rcases mem_put he' with rfl | he'
        · exact he heq.symm
        · exact h.1 (heq ▸ List.mem_map_of_mem he')

/-! ## Calls

What `write` and `createDirs` leave at every path, those that they do not touch included. -/

namespace Node

/-- A well-named node keeps its directory well named. -/
theorem WellNamed.put {name : String} {entries : List (Node β)} {node : Node β}
    (h : (Node.dir name entries).WellNamed) (hnode : node.WellNamed) :
    (Node.dir name (FileTree.put node entries)).WellNamed := by
  cases h with
  | dir hnames hentries =>
      refine .dir (nodup_put hnames) fun e he => ?_
      rcases mem_put he with rfl | he
      · exact hnode
      · exact hentries e he

/-- What is in a well-named directory is well named. -/
theorem WellNamed.find {name child : String} {entries : List (Node β)} {node : Node β}
    (h : (Node.dir name entries).WellNamed) (hfind : FileTree.find child entries = some node) :
    node.WellNamed := by
  cases h with
  | dir _ hentries => exact hentries node (mem_of_find hfind)

theorem wellNamed_empty {name : String} : (dir name ([] : List (Node β))).WellNamed :=
  .dir List.nodup_nil fun _ he => nomatch he

/-- The entry of a name, or a new directory of this name. -/
theorem name_getD {child : String} {entries : List (Node β)} :
    ((FileTree.find child entries).getD (dir child [])).name = child := by
  cases h : FileTree.find child entries with
  | none => rfl
  | some node => exact name_of_find h

theorem name_createDirs {path : Path} {node node' : Node β} (h : node.createDirs path = some node') :
    node'.name = node.name := by
  cases node with
  | file name contents => cases path <;> cases h
  | dir name entries =>
      cases path with
      | nil => cases h; rfl
      | cons child rest =>
          obtain ⟨_, _, rfl⟩ := Option.map_eq_some_iff.mp h
          rfl

theorem name_write {contents : β} {path : Path} {node node' : Node β}
    (h : node.write contents path = some node') : node'.name = node.name := by
  cases node with
  | file name old =>
      cases path with
      | nil => cases h; rfl
      | cons child rest => cases h
  | dir name entries =>
      cases path with
      | nil => cases h
      | cons child rest =>
          rw [write] at h
          split at h
          · obtain ⟨_, _, rfl⟩ := Option.map_eq_some_iff.mp h
            rfl
          · split at h
            · cases h
              rfl
            · cases h

/-- Only the path through the new node leads elsewhere. -/
theorem contentsAt_put {name child : String} {entries : List (Node β)} {node : Node β}
    (hname : node.name = child) (first : String) (rest : Path) :
    (dir name (FileTree.put node entries)).contentsAt (first :: rest) =
      if first = child then node.contentsAt rest else (dir name entries).contentsAt (first :: rest) := by
  rw [contentsAt, find_put, hname]
  by_cases heq : child = first
  · rw [if_pos heq, if_pos heq.symm, Option.bind_some]
  · rw [if_neg heq, if_neg (Ne.symm heq), contentsAt]

/-- Making directories changes no file. -/
theorem contentsAt_createDirs {path : Path} {node node' : Node β} (h : node.createDirs path = some node')
    (q : Path) : node'.contentsAt q = node.contentsAt q := by
  induction path generalizing node node' q with
  | nil =>
      cases node with
      | file name contents => cases h
      | dir name entries => cases h; rfl
  | cons child rest ih =>
      cases node with
      | file name contents => cases h
      | dir name entries =>
          obtain ⟨made, hmade, rfl⟩ := Option.map_eq_some_iff.mp h
          cases q with
          | nil => rfl
          | cons first below =>
              rw [contentsAt_put ((name_createDirs hmade).trans name_getD)]
              split
              · rename_i heq
                rw [ih hmade, contentsAt, heq]
                cases hfind : FileTree.find child entries with
                | none => cases below <;> rfl
                | some node => rfl
              · rfl

/-- A written file is there, and no other file is changed. -/
theorem contentsAt_write {contents : β} {path : Path} {node node' : Node β}
    (h : node.write contents path = some node') (q : Path) :
    node'.contentsAt q = if q = path then some contents else node.contentsAt q := by
  induction path generalizing node node' q with
  | nil =>
      cases node with
      | dir name entries => cases h
      | file name old =>
          cases h
          cases q <;> rfl
  | cons child rest ih =>
      cases node with
      | file name old => cases h
      | dir name entries =>
          rw [write] at h
          split at h
          · rename_i node hfind
            obtain ⟨made, hmade, rfl⟩ := Option.map_eq_some_iff.mp h
            cases q with
            | nil => rfl
            | cons first below =>
                rw [contentsAt_put ((name_write hmade).trans (name_of_find hfind))]
                by_cases heq : first = child
                · rw [if_pos heq, ih hmade, contentsAt, heq, hfind, Option.bind_some]
                  simp
                · simp [heq]
          · rename_i hfind
            split at h
            · rename_i hrest
              cases h
              cases q with
              | nil => rfl
              | cons first below =>
                  have hname : (file child contents).name = child := rfl
                  rw [contentsAt_put hname, hrest]
                  by_cases heq : first = child
                  · rw [if_pos heq, contentsAt, heq, hfind]
                    cases below <;> simp [contentsAt]
                  · simp [heq]
            · cases h

/-- Making directories keeps the names distinct. -/
theorem wellNamed_createDirs {path : Path} {node node' : Node β} (hnode : node.WellNamed)
    (h : node.createDirs path = some node') : node'.WellNamed := by
  induction path generalizing node node' with
  | nil =>
      cases node with
      | file name contents => cases h
      | dir name entries => cases h; exact hnode
  | cons child rest ih =>
      cases node with
      | file name contents => cases h
      | dir name entries =>
          obtain ⟨made, hmade, rfl⟩ := Option.map_eq_some_iff.mp h
          refine hnode.put (ih ?_ hmade)
          cases hfind : FileTree.find child entries with
          | none => exact wellNamed_empty
          | some node => exact hnode.find hfind

/-- So does writing a file. -/
theorem wellNamed_write {contents : β} {path : Path} {node node' : Node β} (hnode : node.WellNamed)
    (h : node.write contents path = some node') : node'.WellNamed := by
  induction path generalizing node node' with
  | nil =>
      cases node with
      | file name old => cases h; exact .file
      | dir name entries => cases h
  | cons child rest ih =>
      cases node with
      | file name old => cases h
      | dir name entries =>
          rw [write] at h
          split at h
          · rename_i node hfind
            obtain ⟨made, hmade, rfl⟩ := Option.map_eq_some_iff.mp h
            exact hnode.put (ih (hnode.find hfind) hmade)
          · split at h
            · cases h
              exact hnode.put .file
            · cases h

/-! ## Replacement

The entry at one path is replaced, and only paths through it see that. -/

/-- Everything below a well-named node is well named. -/
theorem WellNamed.nodeAt {path : Path} {node below : Node β} (h : node.WellNamed)
    (hbelow : node.nodeAt path = some below) : below.WellNamed := by
  induction path generalizing node with
  | nil => cases hbelow; exact h
  | cons child rest ih =>
      cases node with
      | file name contents => cases hbelow
      | dir name entries =>
          obtain ⟨node, hfind, hrest⟩ := Option.bind_eq_some_iff.mp hbelow
          exact ih (h.find hfind) hrest

/-- A path is followed in two parts. -/
theorem contentsAt_append (path below : Path) (node : Node β) :
    node.contentsAt (path ++ below) = (node.nodeAt path).bind (contentsAt below) := by
  induction path generalizing node with
  | nil => rfl
  | cons child rest ih =>
      cases node with
      | file name contents => rfl
      | dir name entries =>
          rw [List.cons_append, contentsAt, nodeAt]
          cases FileTree.find child entries with
          | none => rfl
          | some node => exact ih node

section
variable {r : Type} {f : Node β → Node β × r} {otherwise : r}

/-- Altering a node well keeps the tree well named. -/
theorem wellNamed_alter (hwell : ∀ node, node.WellNamed → (f node).1.WellNamed) (path : Path) {node : Node β}
    (h : node.WellNamed) : (alter f otherwise path node).1.WellNamed := by
  induction path generalizing node with
  | nil => exact hwell node h
  | cons child rest ih =>
      cases node with
      | file name contents => exact .file
      | dir name entries =>
          rw [alter]
          split
          · rename_i node hfind
            exact h.put (ih (h.find hfind))
          · exact h

/-- The answer is that of the replacement. -/
theorem alter_answer (path : Path) (node : Node β) :
    (alter f otherwise path node).2 = ((node.nodeAt path).map fun node => (f node).2).getD otherwise := by
  induction path generalizing node with
  | nil => rfl
  | cons child rest ih =>
      cases node with
      | file name contents => rfl
      | dir name entries =>
          rw [alter, nodeAt]
          split
          · rename_i node hfind
            rw [ih, hfind, Option.bind_some]
          · rename_i hfind
            rw [hfind]
            rfl

variable (hname : ∀ node, (f node).1.name = node.name)
include hname

/-- Altering below a node leaves its name. -/
theorem name_alter (path : Path) (node : Node β) : (alter f otherwise path node).1.name = node.name := by
  cases path with
  | nil => exact hname node
  | cons child rest =>
      cases node with
      | file name contents => rfl
      | dir name entries =>
          rw [alter]
          split <;> rfl

/-- Below the path is what the replacement has. -/
theorem nodeAt_alter (path : Path) (node : Node β) :
    (alter f otherwise path node).1.nodeAt path = (node.nodeAt path).map fun node => (f node).1 := by
  induction path generalizing node with
  | nil => rfl
  | cons child rest ih =>
      cases node with
      | file name contents => rfl
      | dir name entries =>
          rw [alter, nodeAt]
          split
          · rename_i node hfind
            rw [nodeAt, find_put, if_pos ((name_alter hname rest node).trans (name_of_find hfind)),
              Option.bind_some, ih, hfind, Option.bind_some]
          · rename_i hfind
            rw [nodeAt, hfind]
            rfl

/-- Nothing else is changed. -/
theorem contentsAt_alter (path : Path) (node : Node β) {q : Path} (hq : ¬path <+: q) :
    (alter f otherwise path node).1.contentsAt q = node.contentsAt q := by
  induction path generalizing node q with
  | nil => exact absurd List.nil_prefix hq
  | cons child rest ih =>
      cases node with
      | file name contents => rfl
      | dir name entries =>
          rw [alter]
          split
          · rename_i node hfind
            cases q with
            | nil => rfl
            | cons first below =>
                rw [contentsAt_put ((name_alter hname rest node).trans (name_of_find hfind))]
                split
                · rename_i heq
                  have hbelow : ¬rest <+: below := fun h =>
                    hq (by rw [heq]; exact List.cons_prefix_cons.mpr ⟨rfl, h⟩)
                  rw [ih node hbelow, contentsAt, heq, hfind, Option.bind_some]
                · rfl
          · rfl

end

end Node

end FileTree
