import Krabka.Lib.FileTree
import Krabka.Lib.Text
import Krabka.Lib.ByteStream

/-!
# `Codegen.OutputSweep` — a run of the generator on disk

A run writes its files in place and notes every path (`Written`). Then it sweeps its output directories: a file
that starts with the generator's banner, and that the run did not write, is left over from an earlier schema set
and is deleted. A file that somebody else wrote is not the generator's to delete, also where the run fails half
way or the command line names a wrong directory.

Every call may be refused, and a call that is refused does nothing; only the stat behind `Path::is_dir` is taken
to answer. Were it refused, `is_dir` would say that there is no directory, and a sweep would end there without an
error and with its files in place.
-/

namespace Krabka.Codegen

open ByteStream FileTree Text

/-- The system calls of a run that can be refused. A directory is read once more after its sweep. -/
inductive Call where
  | createDirs
  | write
  | readDir
  | readAgain
  | openFile
  | removeFile
  | removeDir
deriving DecidableEq, Repr

inductive IoError where
  | refused (call : Call) (path : Path)
  /-- The first line of the file is no text. -/
  | invalidData (path : Path)
deriving DecidableEq, Repr

abbrev Disk := Node Bytes

/-- `BANNER_PREFIX`. -/
def bannerPrefix : String := "// AUTO-GENERATED by krabka-protocol-codegen"

/-- `read_line`: the line ends behind its newline. -/
def readLine : Bytes → Bytes
  | [] => []
  | b :: bs => if b = 10 then [b] else b :: readLine bs

/-- `is_generated`, of a file that can be opened. -/
def isGenerated (path : Path) (contents : Bytes) : Except IoError Bool :=
  match fromUtf8 (readLine contents) with
  | .ok line => .ok (bannerPrefix.toList.isPrefixOf line.toList)
  | .error _ => .error (.invalidData path)

/-! ## `prune`

A file is removed if it starts with the banner and the run did not write it. A directory that is empty then is
removed as well, and the first error ends the sweep. -/

section
variable (refuses : Call → Path → Bool) (written : List Path) (recursive : Bool)

mutual

/-- One entry of a directory; `none` where it is removed. -/
def pruneEntry (dir : Path) : Disk → Option Disk × Except IoError Unit
  | .file name contents =>
      let path := dir ++ [name]
      let file := Node.file name contents
      if path ∈ written then (some file, .ok ())
      else if refuses .openFile path then (some file, .error (.refused .openFile path))
      else
        match isGenerated path contents with
        | .error e => (some file, .error e)
        | .ok false => (some file, .ok ())
        | .ok true =>
            if refuses .removeFile path then (some file, .error (.refused .removeFile path)) else (none, .ok ())
  | .dir name entries =>
      let path := dir ++ [name]
      if !recursive then (some (.dir name entries), .ok ())
      else if refuses .readDir path then (some (.dir name entries), .error (.refused .readDir path))
      else
        let swept := pruneEntries path entries
        match swept.2 with
        | .error e => (some (.dir name swept.1), .error e)
        | .ok () =>
            if refuses .readAgain path then (some (.dir name swept.1), .error (.refused .readAgain path))
            else if !swept.1.isEmpty then (some (.dir name swept.1), .ok ())
            else if refuses .removeDir path then (some (.dir name swept.1), .error (.refused .removeDir path))
            else (none, .ok ())

/-- The loop over the entries, which stops at the first error. -/
def pruneEntries (dir : Path) : List Disk → List Disk × Except IoError Unit
  | [] => ([], .ok ())
  | e :: es =>
      let entry := pruneEntry dir e
      match entry.2 with
      | .error err => (entry.1.toList ++ es, .error err)
      | .ok () =>
          let rest := pruneEntries dir es
          (entry.1.toList ++ rest.1, rest.2)

end

/-- `Written::prune` of what is at `path`. -/
def pruneDir (path : Path) : Disk → Disk × Except IoError Unit
  | .file name contents => (.file name contents, .ok ())
  | .dir name entries =>
      if refuses .readDir path then (.dir name entries, .error (.refused .readDir path))
      else
        let swept := pruneEntries refuses written recursive path entries
        (.dir name swept.1, swept.2)

/-- `Written::prune`: where there is no directory, there is nothing to do. -/
def prune (path : Path) (disk : Disk) : Disk × Except IoError Unit :=
  disk.alter (pruneDir refuses written recursive path) (.ok ()) path

end

/-! ## A run

The outputs come in the order in which the emitters make them, and then one sweep for each directory. Where an
output failed nothing is swept. -/

/-- What a run does before its sweeps. A body can fail to be formatted. -/
inductive Emitted where
  | createDirs (path : Path)
  | write (path : Path) (body : Except String Bytes)

inductive RunError where
  | io (e : IoError)
  | fmt (text : String)
  | namespaceOut (out : Path)

/-- The disk, and the paths that the run has written. -/
structure RunState where
  disk : Disk
  written : List Path

section
variable (refuses : Call → Path → Bool)

def RunState.output (st : RunState) : Emitted → Except RunError RunState
  | .createDirs path =>
      match st.disk.createDirs path with
      | some disk =>
          if refuses .createDirs path then .error (.io (.refused .createDirs path)) else .ok { st with disk }
      | none => .error (.io (.refused .createDirs path))
  | .write _ (.error text) => .error (.fmt text)
  | .write path (.ok body) =>
      match st.disk.write body path with
      | some disk =>
          if refuses .write path then .error (.io (.refused .write path))
          else .ok { disk, written := path :: st.written }
      | none => .error (.io (.refused .write path))

/-- The outputs in their order, up to the first error. -/
def RunState.outputs (st : RunState) : List Emitted → RunState × Except RunError Unit
  | [] => (st, .ok ())
  | o :: os =>
      match st.output refuses o with
      | .ok st => st.outputs os
      | .error e => (st, .error e)

/-- The sweeps in their order, up to the first error. -/
def RunState.sweeps (st : RunState) : List (Path × Bool) → RunState × Except RunError Unit
  | [] => (st, .ok ())
  | (path, recursive) :: rest =>
      let swept := prune refuses st.written recursive path st.disk
      match swept.2 with
      | .ok () => RunState.sweeps { st with disk := swept.1 } rest
      | .error e => ({ st with disk := swept.1 }, .error (.io e))

/-- The `src` directory of the protocol crate. A namespace's `out` sits two levels below the crate. -/
def protocolSrc (out : Path) : Option String → Option Path
  | none => some (out.dropLast ++ ["src"])
  | some ns => if 2 ≤ out.length then some (out.dropLast.dropLast ++ ["src", ns]) else none

/-- The sweep of `out` itself stays flat: a namespace's run owns a directory below it. -/
def sweptDirs (out src : Path) : List (Path × Bool) :=
  [(out, false), (out ++ ["common"], true), (src ++ ["owned"], true), (src ++ ["borrowed"], true)]

/-- `run`, given what the emitters answer. Nothing is swept where an output failed. -/
def generatorRun (out : Path) (ns : Option String) (outputs : List Emitted) (disk : Disk) :
    RunState × Except RunError Unit :=
  let made := RunState.outputs refuses ⟨disk, []⟩ [.createDirs out]
  match made.2, protocolSrc out ns with
  | .error e, _ => (made.1, .error e)
  | .ok (), none => (made.1, .error (.namespaceOut out))
  | .ok (), some src =>
      let wrote := made.1.outputs refuses outputs
      match wrote.2 with
      | .error e => (wrote.1, .error e)
      | .ok () => wrote.1.sweeps refuses (sweptDirs out src)

end

/-! ## What a sweep does

A removal leaves every other path as it was, so the sweep is described by what it removes: the stale files
below the directory, or those it came to before an error. -/

/-- The generator's, and not of this run. -/
def Stale (written : List Path) (path : Path) (contents : Bytes) : Prop :=
  path ∉ written ∧ isGenerated path contents = .ok true

/-- The files that a sweep looks at: those at `depth` and, if it is recursive, those below. -/
def Reached (recursive : Bool) (depth : Nat) (q : Path) : Prop :=
  q.length = depth ∨ recursive = true ∧ depth < q.length

/-- What a sweep may do to the files below `path`: it deletes stale ones. Where it ends without an error, it has
    deleted all of these that it looks at. -/
structure Swept (written : List Path) (recursive : Bool) (depth : Nat) (path : Path)
    (before after : Path → Option Bytes) (r : Except IoError Unit) : Prop where
  kept : ∀ q, after q = before q ∨ ∃ c, before q = some c ∧ after q = none ∧ Stale written (path ++ q) c
  all : r = .ok () → ∀ q c, Reached recursive depth q → after q = some c → ¬Stale written (path ++ q) c

section
variable {refuses : Call → Path → Bool} {written : List Path} {recursive : Bool}

/-- Nothing is done, and it is an error or there is nothing to do. -/
theorem Swept.same {depth : Nat} {path : Path} {before : Path → Option Bytes} {r : Except IoError Unit}
    (h : r = .ok () → ∀ q c, Reached recursive depth q → before q = some c →
      ¬Stale written (path ++ q) c) :
    Swept written recursive depth path before before r :=
  ⟨fun _ => .inl rfl, h⟩

/-- An entry that is kept keeps its name. -/
theorem pruneEntry_name {dir : Path} {e k : Disk}
    (h : (pruneEntry refuses written recursive dir e).1 = some k) : k.name = e.name := by
  cases e with
  | file name contents =>
      unfold pruneEntry at h
      dsimp only at h
      repeat' split at h
      all_goals cases h
      all_goals rfl
  | dir name entries =>
      unfold pruneEntry at h
      dsimp only at h
      repeat' split at h
      all_goals cases h
      all_goals rfl

/-- No entry comes up anew. -/
theorem names_pruneEntries {dir : Path} (es : List Disk) :
    ((pruneEntries refuses written recursive dir es).1.map Node.name).Sublist (es.map Node.name) := by
  have hentry (e : Disk) :
      ((pruneEntry refuses written recursive dir e).1.toList.map Node.name).Sublist [e.name] := by
    cases h : (pruneEntry refuses written recursive dir e).1 with
    | none => exact List.nil_sublist _
    | some k =>
        rw [Option.toList_some, List.map_singleton, pruneEntry_name h]
  induction es with
  | nil => exact List.nil_sublist _
  | cons e es ih =>
      unfold pruneEntries
      dsimp only
      split
      · rw [List.map_append]
        exact (hentry e).append (List.Sublist.refl _)
      · rw [List.map_append]
        exact (hentry e).append ih

/-- One entry is looked for before the others. -/
theorem contentsAt_join {name first : String} {e : Disk} {kept : Option Disk} {tail : List Disk} (rest : Path)
    (hkept : ∀ k, kept = some k → k.name = e.name) (htail : e.name ∉ tail.map Node.name) :
    (Node.dir name (kept.toList ++ tail)).contentsAt (first :: rest) =
      if e.name = first then kept.bind (Node.contentsAt rest)
      else (Node.dir name tail).contentsAt (first :: rest) := by
  cases kept with
  | some k =>
      rw [Option.toList_some, List.singleton_append, Node.contentsAt, find_cons, hkept k rfl, Node.contentsAt]
      split <;> rfl
  | none =>
      rw [Option.toList_none, List.nil_append]
      split
      · rename_i hname
        have hnone : FileTree.find first tail = none := by
          rw [FileTree.find, List.find?_eq_none]
          intro k hk heq
          exact htail (hname ▸ of_decide_eq_true heq ▸ List.mem_map_of_mem hk)
        rw [Node.contentsAt, hnone, Option.bind_none]
      · rfl

/-- The entry and the others are swept apart. -/
theorem Swept.cons {dir : Path} {name : String} {e : Disk} {es tail : List Disk} {kept : Option Disk}
    {r₁ r₂ r : Except IoError Unit} (hkept : ∀ k, kept = some k → k.name = e.name)
    (hes : e.name ∉ es.map Node.name) (htail : e.name ∉ tail.map Node.name)
    (hentry : Swept written recursive 0 (dir ++ [e.name]) (fun q => e.contentsAt q)
      (fun q => kept.bind (Node.contentsAt q)) r₁)
    (hrest : Swept written recursive 1 dir (fun q => (Node.dir name es).contentsAt q)
      (fun q => (Node.dir name tail).contentsAt q) r₂)
    (hr : r = .ok () → r₁ = .ok () ∧ r₂ = .ok ()) :
    Swept written recursive 1 dir (fun q => (Node.dir name (e :: es)).contentsAt q)
      (fun q => (Node.dir name (kept.toList ++ tail)).contentsAt q) r := by
  have hbefore (first : String) (rest : Path) :=
    @contentsAt_join name first e (some e) es rest (fun k hk => by cases hk; rfl) hes
  rw [Option.toList_some, List.singleton_append] at hbefore
  have hpath (rest : Path) : dir ++ e.name :: rest = dir ++ [e.name] ++ rest := by simp
  constructor
  · intro q
    cases q with
    | nil => exact .inl rfl
    | cons first rest =>
        rw [hbefore, contentsAt_join rest hkept htail]
        split
        · rename_i hfirst
          rw [← hfirst, hpath]
          exact hentry.kept rest
        · exact hrest.kept (first :: rest)
  · intro hok q c hreached hq
    cases q with
    | nil => cases hq
    | cons first rest =>
        rw [contentsAt_join rest hkept htail] at hq
        split at hq
        · rename_i hfirst
          rw [← hfirst, hpath]
          have hbelow : Reached recursive 0 rest :=
            hreached.imp Nat.succ.inj fun h => ⟨h.1, Nat.lt_of_succ_lt_succ h.2⟩
          exact hentry.all (hr hok).1 rest c hbelow hq
        · exact hrest.all (hr hok).2 (first :: rest) c hreached hq
theorem contentsAt_empty {name : String} (q : Path) : (Node.dir name ([] : List Disk)).contentsAt q = none := by
  cases q <;> rfl

/-- A file is swept. -/
theorem swept_file (dir : Path) (name : String) (contents : Bytes) :
    Swept written recursive 0 (dir ++ [name]) (fun q => (Node.file name contents).contentsAt q)
      (fun q => (pruneEntry refuses written recursive dir (.file name contents)).1.bind (Node.contentsAt q))
      (pruneEntry refuses written recursive dir (.file name contents)).2 := by
  have hsame {r : Except IoError Unit} (hstale : r = .ok () → ¬Stale written (dir ++ [name]) contents) :
      Swept written recursive 0 (dir ++ [name]) (fun q => (Node.file name contents).contentsAt q)
        (fun q => (Node.file name contents).contentsAt q) r := by
    refine .same fun hok q c _ hq => ?_
    cases q with
    | nil =>
        cases hq
        rw [List.append_nil]
        exact hstale hok
    | cons first rest => cases hq
  unfold pruneEntry
  dsimp only
  split
  · rename_i hwritten
    exact hsame fun _ hstale => hstale.1 hwritten
  · rename_i hwritten
    split
    · exact hsame fun h => nomatch h
    · split
      · exact hsame fun h => nomatch h
      · rename_i hgenerated
        exact hsame fun _ hstale => nomatch hgenerated.symm.trans hstale.2
      · rename_i hgenerated
        split
        · exact hsame fun h => nomatch h
        · refine ⟨fun q => ?_, fun _ q c _ hq => nomatch hq⟩
          cases q with
          | nil =>
              rw [List.append_nil]
              exact .inr ⟨contents, rfl, rfl, hwritten, hgenerated⟩
          | cons first rest => exact .inl rfl

/-- A directory is swept where its entries are. -/
theorem swept_dir {dir : Path} {name : String} {entries : List Disk}
    (h : Swept written recursive 1 (dir ++ [name]) (fun q => (Node.dir name entries).contentsAt q)
      (fun q => (Node.dir name (pruneEntries refuses written recursive (dir ++ [name]) entries).1).contentsAt q)
      (pruneEntries refuses written recursive (dir ++ [name]) entries).2) :
    Swept written recursive 0 (dir ++ [name]) (fun q => (Node.dir name entries).contentsAt q)
      (fun q => (pruneEntry refuses written recursive dir (.dir name entries)).1.bind (Node.contentsAt q))
      (pruneEntry refuses written recursive dir (.dir name entries)).2 := by
  unfold pruneEntry
  dsimp only
  split
  · rename_i hflat
    rw [Bool.not_eq_true'] at hflat
    refine .same fun _ q c hreached hq => ?_
    rcases hreached with hdepth | ⟨hrec, -⟩
    · rw [List.eq_nil_of_length_eq_zero hdepth] at hq
      cases hq
    · rw [hflat] at hrec
      cases hrec
  · rename_i hrec
    rw [Bool.not_eq_true, Bool.not_eq_false'] at hrec
    split
    · exact .same fun h => nomatch h
    · split
      · exact ⟨h.kept, fun h => nomatch h⟩
      · rename_i hok
        split
        · exact ⟨h.kept, fun h => nomatch h⟩
        · split
          · refine ⟨h.kept, fun _ q c _ hq => h.all hok q c ?_ hq⟩
            cases q with
            | nil => cases hq
            | cons first rest =>
                exact (Nat.eq_or_lt_of_le (Nat.le_add_left 1 rest.length)).imp Eq.symm (⟨hrec, ·⟩)
          · rename_i hempty
            rw [Bool.not_eq_true, Bool.not_eq_false', List.isEmpty_iff] at hempty
            split
            · exact ⟨h.kept, fun h => nomatch h⟩
            · refine ⟨fun q => ?_, fun _ q c _ hq => nomatch hq⟩
              have hkept := h.kept q
              rw [hempty, contentsAt_empty] at hkept
              exact hkept

/-- **A sweep deletes stale files and nothing else**, through the whole tree. -/
theorem swept_tree :
    (∀ (e : Disk) (dir : Path), e.WellNamed →
      Swept written recursive 0 (dir ++ [e.name]) (fun q => e.contentsAt q)
        (fun q => (pruneEntry refuses written recursive dir e).1.bind (Node.contentsAt q))
        (pruneEntry refuses written recursive dir e).2) ∧
      ∀ (es : List Disk) (dir : Path) (name : String), (Node.dir name es).WellNamed →
        Swept written recursive 1 dir (fun q => (Node.dir name es).contentsAt q)
          (fun q => (Node.dir name (pruneEntries refuses written recursive dir es).1).contentsAt q)
          (pruneEntries refuses written recursive dir es).2 := by
  refine Node.induct (fun name contents dir _ => swept_file dir name contents)
    (fun name entries ih dir h => swept_dir (ih (dir ++ [name]) name h))
    (fun dir name _ => .same fun _ q c _ hq => by rw [contentsAt_empty] at hq; cases hq) ?_
  intro e es ihe ihes dir name h
  cases h with
  | dir hnames hentries =>
      rw [List.map_cons, List.nodup_cons] at hnames
      have he := ihe dir (hentries e List.mem_cons_self)
      have hes := ihes dir name (.dir hnames.2 fun e' he' => hentries e' (List.mem_cons_of_mem e he'))
      have hkept (k : Disk) (hk : (pruneEntry refuses written recursive dir e).1 = some k) := pruneEntry_name hk
      unfold pruneEntries
      dsimp only
      split
      · rename_i err herr
        have hstopped : Swept written recursive 1 dir (fun q => (Node.dir name es).contentsAt q)
            (fun q => (Node.dir name es).contentsAt q) (.error err) := .same fun h => nomatch h
        exact .cons hkept hnames.1 hnames.1 he hstopped fun h => nomatch h
      · rename_i hok
        have htail : e.name ∉ (pruneEntries refuses written recursive dir es).1.map Node.name :=
          fun h => hnames.1 ((names_pruneEntries es).subset h)
        exact .cons hkept hnames.1 htail he hes fun h => ⟨hok, h⟩

/-- It keeps the names distinct. -/
theorem wellNamed_tree :
    (∀ (e : Disk) (dir : Path), e.WellNamed →
      ∀ k, (pruneEntry refuses written recursive dir e).1 = some k → k.WellNamed) ∧
      ∀ (es : List Disk) (dir : Path), (∀ e ∈ es, e.WellNamed) →
        ∀ k ∈ (pruneEntries refuses written recursive dir es).1, k.WellNamed := by
  refine Node.induct (fun name contents dir _ k hk => ?_) (fun name entries ih dir h k hk => ?_)
    (fun dir _ k hk => nomatch hk) (fun e es ihe ihes dir h k hk => ?_)
  · unfold pruneEntry at hk
    dsimp only at hk
    repeat' split at hk
    all_goals cases hk
    all_goals exact .file
  · have hswept :
        (Node.dir name (pruneEntries refuses written recursive (dir ++ [name]) entries).1).WellNamed := by
      cases h with
      | dir hnames hentries =>
          exact .dir ((names_pruneEntries entries).nodup hnames) (ih (dir ++ [name]) hentries)
    unfold pruneEntry at hk
    dsimp only at hk
    repeat' split at hk
    all_goals cases hk
    all_goals first | exact h | exact hswept
  · have hentry (h' : k ∈ (pruneEntry refuses written recursive dir e).1.toList) : k.WellNamed :=
      ihe dir (h e List.mem_cons_self) k (Option.mem_toList.mp h')
    have hes (e' : Disk) (he' : e' ∈ es) : e'.WellNamed := h e' (List.mem_cons_of_mem e he')
    unfold pruneEntries at hk
    dsimp only at hk
    split at hk
    · exact (List.mem_append.mp hk).elim hentry (hes k)
    · exact (List.mem_append.mp hk).elim hentry (ihes dir hes k)

/-- `prune`, at its path. -/
theorem swept_pruneDir {path : Path} {node : Disk} (h : node.WellNamed) :
    Swept written recursive 1 path (fun q => node.contentsAt q)
      (fun q => (pruneDir refuses written recursive path node).1.contentsAt q)
      (pruneDir refuses written recursive path node).2 := by
  cases node with
  | file name contents =>
      refine .same fun _ q c hreached hq => ?_
      cases q with
      | nil => exact absurd hreached (by simp [Reached])
      | cons first rest => cases hq
  | dir name entries =>
      simp only [pruneDir]
      split
      · exact .same fun h => nomatch h
      · exact swept_tree.2 entries path name h

/-- So does the sweep of a directory. -/
theorem wellNamed_pruneDir {path : Path} {node : Disk} (h : node.WellNamed) :
    (pruneDir refuses written recursive path node).1.WellNamed := by
  cases h with
  | file => exact .file
  | dir hnames hentries =>
      simp only [pruneDir]
      split
      · exact .dir hnames hentries
      · exact .dir ((names_pruneEntries _).nodup hnames) (wellNamed_tree.2 _ path hentries)

theorem name_pruneDir {path : Path} (node : Disk) :
    (pruneDir refuses written recursive path node).1.name = node.name := by
  cases node with
  | file name contents => rfl
  | dir name entries =>
      simp only [pruneDir]
      split <;> rfl

/-- `prune`, on the disk. -/
theorem prune_kept {path : Path} {disk : Disk} (h : disk.WellNamed) (p : Path) :
    (prune refuses written recursive path disk).1.contentsAt p = disk.contentsAt p ∨
      ∃ c, disk.contentsAt p = some c ∧ (prune refuses written recursive path disk).1.contentsAt p = none ∧
        Stale written p c := by
  unfold prune
  by_cases hp : path <+: p
  · obtain ⟨q, rfl⟩ := hp
    rw [Node.contentsAt_append, Node.contentsAt_append, Node.nodeAt_alter name_pruneDir]
    cases hnode : disk.nodeAt path with
    | none => exact .inl rfl
    | some node => exact (swept_pruneDir (h.nodeAt hnode)).kept q
  · exact .inl (Node.contentsAt_alter name_pruneDir path disk hp)

/-- A sweep without an error leaves no stale file that it looks at. -/
theorem prune_all {path : Path} {disk : Disk} (h : disk.WellNamed)
    (hok : (prune refuses written recursive path disk).2 = .ok ()) {q : Path} {c : Bytes}
    (hreached : Reached recursive 1 q)
    (hq : (prune refuses written recursive path disk).1.contentsAt (path ++ q) = some c) :
    ¬Stale written (path ++ q) c := by
  unfold prune at hok hq
  rw [Node.contentsAt_append, Node.nodeAt_alter name_pruneDir] at hq
  rw [Node.alter_answer] at hok
  cases hnode : disk.nodeAt path with
  | none => rw [hnode] at hq; cases hq
  | some node =>
      rw [hnode] at hq hok
      exact (swept_pruneDir (h.nodeAt hnode)).all hok q c hreached hq

/-- A sweep keeps the disk well named. -/
theorem wellNamed_prune {path : Path} {disk : Disk} (h : disk.WellNamed) :
    (prune refuses written recursive path disk).1.WellNamed :=
  Node.wellNamed_alter (fun _ => wellNamed_pruneDir) path h

end

/-! ## What a run does

Whatever the calls answer, a file of somebody else is as it was, and after a run without an error no stale
file is left. -/

/-- What an output writes to a path. -/
def Emitted.bodyAt (p : Path) : Emitted → Option Bytes
  | .write path (.ok body) => if path = p then some body else none
  | _ => none

/-- What was written to a path last. -/
def lastBody (p : Path) : List Emitted → Option Bytes
  | [] => none
  | o :: os => (lastBody p os).or (o.bodyAt p)

section
variable {refuses : Call → Path → Bool}

/-- What an output that succeeds has done. -/
theorem output_spec {st st' : RunState} {o : Emitted} (h : st.output refuses o = .ok st') :
    (∀ p, st'.disk.contentsAt p = (o.bodyAt p).or (st.disk.contentsAt p)) ∧
      (∀ p, p ∈ st'.written ↔ (o.bodyAt p).isSome ∨ p ∈ st.written) ∧
      (st.disk.WellNamed → st'.disk.WellNamed) := by
  cases o with
  | createDirs path =>
      unfold RunState.output at h
      dsimp only at h
      split at h
      · rename_i disk hdisk
        split at h
        · cases h
        · cases h
          exact ⟨fun p => Node.contentsAt_createDirs hdisk p, fun p => by simp [Emitted.bodyAt],
            fun hwell => Node.wellNamed_createDirs hwell hdisk⟩
      · cases h
  | write path body =>
      cases body with
      | error text => cases h
      | ok body =>
          unfold RunState.output at h
          dsimp only at h
          split at h
          · rename_i disk hdisk
            split at h
            · cases h
            · cases h
              refine ⟨fun p => ?_, fun p => ?_, fun hwell => Node.wellNamed_write hwell hdisk⟩
              · rw [Node.contentsAt_write hdisk, Emitted.bodyAt]
                by_cases hp : p = path
                · simp [hp]
                · simp [hp, Ne.symm hp]
              · rw [Emitted.bodyAt, List.mem_cons]
                by_cases hp : p = path
                · simp [hp]
                · simp [hp, Ne.symm hp]
          · cases h

/-- After the outputs. A path that none of them writes is as it was, also where one failed. -/
structure WroteAll (os : List Emitted) (st st' : RunState) (r : Except RunError Unit) : Prop where
  wellNamed : st.disk.WellNamed → st'.disk.WellNamed
  others : ∀ p, (∀ o ∈ os, o.bodyAt p = none) → st'.disk.contentsAt p = st.disk.contentsAt p
  contents : r = .ok () → ∀ p, st'.disk.contentsAt p = (lastBody p os).or (st.disk.contentsAt p)
  written : r = .ok () → ∀ p, p ∈ st'.written ↔ (lastBody p os).isSome ∨ p ∈ st.written

variable (refuses) in
/-- What the outputs have done up to the first error. -/
theorem outputs_wrote (os : List Emitted) (st : RunState) :
    WroteAll os st (st.outputs refuses os).1 (st.outputs refuses os).2 := by
  induction os generalizing st with
  | nil =>
      exact ⟨id, fun _ _ => rfl, fun _ p => Option.none_or.symm,
        fun _ p => by simp [lastBody, RunState.outputs]⟩
  | cons o os ih =>
      rw [RunState.outputs]
      cases ho : st.output refuses o with
      | error e => exact ⟨id, fun _ _ => rfl, fun h => (nomatch h), fun h => (nomatch h)⟩
      | ok st₁ =>
          obtain ⟨hcontents, hwritten, hwell⟩ := output_spec ho
          have hrest := ih st₁
          refine ⟨fun h => hrest.wellNamed (hwell h), fun p hp => ?_, fun hok p => ?_, fun hok p => ?_⟩
          · rw [List.forall_mem_cons] at hp
            rw [hrest.others p hp.2, hcontents, hp.1, Option.none_or]
          · rw [hrest.contents hok, hcontents, lastBody, Option.or_assoc]
          · rw [hrest.written hok, hwritten, lastBody, Option.isSome_or, Bool.or_eq_true, or_assoc]

/-- After the sweeps. -/
structure SweptAll (sweeps : List (Path × Bool)) (st st' : RunState) (r : Except RunError Unit) : Prop where
  wellNamed : st'.disk.WellNamed
  kept : ∀ p, st'.disk.contentsAt p = st.disk.contentsAt p ∨
    ∃ c, st.disk.contentsAt p = some c ∧ st'.disk.contentsAt p = none ∧ Stale st.written p c
  all : r = .ok () → ∀ s ∈ sweeps, ∀ q c, Reached s.2 1 q → st'.disk.contentsAt (s.1 ++ q) = some c →
    ¬Stale st.written (s.1 ++ q) c

variable (refuses) in
/-- What the sweeps have done up to the first error. -/
theorem sweeps_swept (sweeps : List (Path × Bool)) {st : RunState} (h : st.disk.WellNamed) :
    SweptAll sweeps st (st.sweeps refuses sweeps).1 (st.sweeps refuses sweeps).2 := by
  induction sweeps generalizing st with
  | nil => exact ⟨h, fun _ => .inl rfl, fun _ s hs => nomatch hs⟩
  | cons s sweeps ih =>
      obtain ⟨path, recursive⟩ := s
      have hwell : (prune refuses st.written recursive path st.disk).1.WellNamed := wellNamed_prune h
      have hkept := @prune_kept refuses st.written recursive path st.disk h
      rw [RunState.sweeps]
      split
      · rename_i hok
        have hrest := @ih { st with disk := (prune refuses st.written recursive path st.disk).1 } hwell
        refine ⟨hrest.wellNamed, fun p => ?_, fun hall s hs q c hreached hq => ?_⟩
        · rcases hkept p with hsame | ⟨c, hc, hnone, hstale⟩
          · rw [← hsame]
            exact hrest.kept p
          · rcases hrest.kept p with hsame' | ⟨c', hc', -, -⟩
            · exact .inr ⟨c, hc, hsame'.trans hnone, hstale⟩
            · cases hnone.symm.trans hc'
        · rcases List.mem_cons.mp hs with rfl | hs
          · refine prune_all h hok hreached ?_
            rcases hrest.kept (path ++ q) with hsame' | ⟨c', -, hnone, -⟩
            · exact hsame'.symm.trans hq
            · cases hnone.symm.trans hq
          · exact hrest.all hall s hs q c hreached hq
      · exact ⟨hwell, hkept, fun h => nomatch h⟩

/-- A file that a run looks at when it sweeps. -/
def InSweep (out src p : Path) : Prop := ∃ s ∈ sweptDirs out src, ∃ q, p = s.1 ++ q ∧ Reached s.2 1 q

/-- **A run deletes what earlier runs left, and nothing else.** Wherever it fails, a file that none of its
    outputs writes is as it was, or was a generated one. After a run without an error the swept directories hold
    what it wrote last at each path and, at the other paths, the files that were there and are not generated. -/
theorem generatorRun_outcome {refuses : Call → Path → Bool} {out : Path} {ns : Option String}
    {outputs : List Emitted} {disk : Disk} (h : disk.WellNamed) :
    (∀ p, (∀ o ∈ outputs, o.bodyAt p = none) →
      (generatorRun refuses out ns outputs disk).1.disk.contentsAt p = disk.contentsAt p ∨
        ∃ c, disk.contentsAt p = some c ∧ isGenerated p c = .ok true ∧
          (generatorRun refuses out ns outputs disk).1.disk.contentsAt p = none) ∧
      ((generatorRun refuses out ns outputs disk).2 = .ok () → ∃ src, protocolSrc out ns = some src ∧
        (∀ p body, lastBody p outputs = some body →
          (generatorRun refuses out ns outputs disk).1.disk.contentsAt p = some body) ∧
        ∀ p c, lastBody p outputs = none → InSweep out src p →
          ((generatorRun refuses out ns outputs disk).1.disk.contentsAt p = some c ↔
            disk.contentsAt p = some c ∧ isGenerated p c ≠ .ok true)) := by
  have hmade := outputs_wrote refuses [.createDirs out] ⟨disk, []⟩
  have hmadeSame (p : Path) := hmade.others p (by simp [Emitted.bodyAt])
  rw [generatorRun]
  generalize RunState.outputs refuses ⟨disk, []⟩ [.createDirs out] = made at hmade hmadeSame ⊢
  dsimp only
  split
  · exact ⟨fun p _ => .inl (hmadeSame p), fun h => nomatch h⟩
  · exact ⟨fun p _ => .inl (hmadeSame p), fun h => nomatch h⟩
  · rename_i src hok hsrc
    have hwrote := outputs_wrote refuses outputs made.1
    generalize made.1.outputs refuses outputs = wrote at hwrote ⊢
    split
    · exact ⟨fun p hp => .inl ((hwrote.others p hp).trans (hmadeSame p)), fun h => nomatch h⟩
    · rename_i hwroteOk
      have hswept := sweeps_swept refuses (sweptDirs out src) (hwrote.wellNamed (hmade.wellNamed h))
      have hwritten (p : Path) : p ∈ wrote.1.written ↔ (lastBody p outputs).isSome := by
        rw [hwrote.written hwroteOk, hmade.written hok]
        simp [lastBody, Emitted.bodyAt]
      refine ⟨fun p hp => ?_, fun hall => ⟨src, hsrc, fun p body hbody => ?_, fun p c hnone hin => ?_⟩⟩
      · rw [← hmadeSame, ← hwrote.others p hp]
        exact (hswept.kept p).imp_right fun ⟨c, hc, hgone, hstale⟩ => ⟨c, hc, hstale.2, hgone⟩
      · have hcontents := hwrote.contents hwroteOk p
        rw [hbody, Option.some_or] at hcontents
        rcases hswept.kept p with hsame | ⟨c, -, -, hstale⟩
        · exact hsame.trans hcontents
        · refine absurd ((hwritten p).mpr ?_) hstale.1
          rw [hbody]
          rfl
      · have hcontents := hwrote.contents hwroteOk p
        rw [hnone, Option.none_or, hmadeSame] at hcontents
        have hnew : p ∉ wrote.1.written := by
          rw [hwritten, hnone]
          exact Bool.false_ne_true
        constructor
        · intro hc
          obtain ⟨s, hs, q, rfl, hreached⟩ := hin
          have hfresh := hswept.all hall s hs q c hreached hc
          rcases hswept.kept (s.1 ++ q) with hsame | ⟨c', -, hgone, -⟩
          · rw [hsame, hcontents] at hc
            exact ⟨hc, fun hgen => hfresh ⟨hnew, hgen⟩⟩
          · cases hgone.symm.trans hc
        · rintro ⟨hc, hgen⟩
          rcases hswept.kept p with hsame | ⟨c', hc', -, hstale⟩
          · exact hsame.trans (hcontents.trans hc)
          · rw [hcontents, hc] at hc'
            cases hc'
            exact absurd hstale.2 hgen

end

/-- A file of an earlier run beside one that was written by hand. -/
def earlierRun : Disk :=
  .dir "protocol" [.dir "generated"
    [.file "Gone.owned.rs" (utf8Bytes bannerPrefix), .file "hand.rs" (utf8Bytes "//! Hand-written.")]]

theorem wellNamed_earlierRun : earlierRun.WellNamed := by
  refine .dir (List.nodup_singleton _) fun e he => ?_
  rw [List.mem_singleton.mp he]
  refine .dir (by decide) fun e he => ?_
  simp only [List.mem_cons, List.not_mem_nil, or_false] at he
  rcases he with rfl | rfl <;> exact .file

example :
    let run := generatorRun (fun _ _ => false) ["generated"] none
      [.write ["generated", "Kept.owned.rs"] (.ok (utf8Bytes bannerPrefix))] earlierRun
    run.1.disk.contentsAt ["generated", "Gone.owned.rs"] = none ∧
      (run.1.disk.contentsAt ["generated", "hand.rs"]).isSome := by
  decide

theorem generatorRun_outcome_earlierRun :
    let after := generatorRun (fun _ _ => false) ["generated"] none
      [.write ["generated", "Kept.owned.rs"] (.ok (utf8Bytes bannerPrefix))] earlierRun
    let outputs : List Emitted := [.write ["generated", "Kept.owned.rs"] (.ok (utf8Bytes bannerPrefix))]
    (∀ p, (∀ o ∈ outputs, o.bodyAt p = none) → after.1.disk.contentsAt p = earlierRun.contentsAt p ∨
        ∃ c, earlierRun.contentsAt p = some c ∧ isGenerated p c = .ok true ∧ after.1.disk.contentsAt p = none) ∧
      (after.2 = .ok () → ∃ src, protocolSrc ["generated"] none = some src ∧
        (∀ p body, lastBody p outputs = some body → after.1.disk.contentsAt p = some body) ∧
        ∀ p c, lastBody p outputs = none → InSweep ["generated"] src p →
          (after.1.disk.contentsAt p = some c ↔
            earlierRun.contentsAt p = some c ∧ isGenerated p c ≠ .ok true)) :=
  generatorRun_outcome wellNamed_earlierRun

end Krabka.Codegen
