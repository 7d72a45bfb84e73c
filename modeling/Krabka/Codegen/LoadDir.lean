import Krabka.Codegen.Schema
import Krabka.Lib.Cutting

/-!
# `Codegen.LoadDir` — the schema directory as the generator reads it

`load_dir` of `ir.rs` reads every `.json` file of a directory, cuts the `//` comments off line by line and
parses what is left; a `//` inside a string is part of the string. The schemas come out in the order of their
names, so that the generator sees neither the comments nor the order in which the directory lists its files
(`loadDir_rewritten`).

The JSON parser is a parameter, and so are the errors of the file system.
-/

namespace Krabka.Codegen

open Text

/-! ## `strip_line_comments`

A line is cut at its first `//` outside a string. The scanner of a line knows strings and escapes and nothing
else of JSON. -/

/-- A carriage return in front of the newline belongs to the line end. -/
def dropCr (line : List Char) : List Char := (stripSuffix ['\r'] line).getD line

/-- `src.lines()`: nothing after the last newline is no line. -/
def sourceLines (src : List Char) : List (List Char) :=
  let pieces := src.splitOn '\n'
  let last := pieces.getLastD []
  pieces.dropLast.map dropCr ++ if last.isEmpty then [] else [last]

/-- The line up to a `//` that stands outside a string. The source scans bytes, but looks for ASCII only. -/
def withoutComment (inStr escaped : Bool) : List Char → List Char
  | [] => []
  | c :: cs =>
      if inStr then
        if escaped then c :: withoutComment true false cs
        else if c = '\\' then c :: withoutComment true true cs
        else if c = '"' then c :: withoutComment false false cs
        else c :: withoutComment true false cs
      else if c = '"' then c :: withoutComment true escaped cs
      else if c = '/' ∧ cs.head? = some '/' then []
      else c :: withoutComment false escaped cs

def stripLineComments (src : List Char) : List Char :=
  (sourceLines src).flatMap fun line => withoutComment false false line ++ ['\n']

/-! ## `load_dir`

The entries are read in the order of the directory and sorted by the name of the message. -/

variable {IoErr SerdeErr : Type}

/-- An entry of the directory, with what `read_to_string` answers on it. -/
structure DirEntry (IoErr : Type) where
  path : List Char
  fileName : List Char
  contents : Except IoErr (List Char)

inductive IrError (IoErr SerdeErr : Type) where
  | io (e : IoErr)
  | parse (file : List Char) (source : SerdeErr)

/-- `path.extension()`: a name that only starts with a dot has none. -/
def DirEntry.extension (e : DirEntry IoErr) : Option (List Char) :=
  match rsplitOnce ['.'] e.fileName with
  | some (stem, extension) => if stem.isEmpty then none else some extension
  | none => none

def DirEntry.isJson (e : DirEntry IoErr) : Bool := e.extension == some ['j', 's', 'o', 'n']

def loadEntries (parse : List Char → Except SerdeErr MessageSpec) :
    List (Except IoErr (DirEntry IoErr)) → Except (IrError IoErr SerdeErr) (List MessageSpec)
  | [] => .ok []
  | entry :: rest => do
      let e ← entry.mapError .io
      if e.isJson = false then loadEntries parse rest
      else do
        let raw ← e.contents.mapError .io
        let spec ← (parse (stripLineComments raw)).mapError (.parse e.path)
        let specs ← loadEntries parse rest
        pure (spec :: specs)

def loadDir (parse : List Char → Except SerdeErr MessageSpec)
    (dir : Except IoErr (List (Except IoErr (DirEntry IoErr)))) :
    Except (IrError IoErr SerdeErr) (List MessageSpec) := do
  let entries ← dir.mapError .io
  let out ← loadEntries parse entries
  pure (out.mergeSort fun a b => a.name ≤ b.name)

/-! ## Documents with comments

A document is a list of lines, each a piece of JSON and a comment behind it. A string does not go over the end
of a line. -/

/-- What may stand between the quotes of a string. -/
inductive StringBody : List Char → Prop where
  | nil : StringBody []
  | char {c : Char} {cs : List Char} : c ≠ '"' → c ≠ '\\' → StringBody cs → StringBody (c :: cs)
  | escape (c : Char) {cs : List Char} : StringBody cs → StringBody ('\\' :: c :: cs)

/-- JSON that holds no slash outside its strings and breaks no string. -/
inductive Code : List Char → Prop where
  | nil : Code []
  | char {c : Char} {cs : List Char} : c ≠ '"' → c ≠ '/' → Code cs → Code (c :: cs)
  | quoted {body cs : List Char} : StringBody body → Code cs → Code ('"' :: body ++ '"' :: cs)

structure Line where
  code : List Char
  comment : Option (List Char)
  crlf : Bool

namespace Line

def body (l : Line) : List Char := l.code ++ l.comment.elim [] fun c => '/' :: '/' :: c

def raw (l : Line) : List Char := if l.crlf then l.body ++ ['\r'] else l.body

structure Valid (l : Line) : Prop where
  code : Code l.code
  oneLine : '\n' ∉ l.body
  cr : '\r' ∉ l.body

end Line

/-- Lines that a newline ends, and what stands after the last of them. -/
structure Document where
  lines : List Line
  last : Line

namespace Document

def text (d : Document) : List Char := ['\n'].intercalate (d.lines.map Line.raw ++ [d.last.body])

/-- The document without its comments. -/
def plain (d : Document) : List Char :=
  (d.lines.flatMap fun l => l.code ++ ['\n']) ++
    if d.last.body.isEmpty then [] else d.last.code ++ ['\n']

structure Valid (d : Document) : Prop where
  lines : ∀ l ∈ d.lines, l.Valid
  last : d.last.Valid

end Document

/-- Text without quotes and escapes is the body of a string. -/
theorem StringBody.of_plain {body : List Char} (h : ∀ c ∈ body, c ≠ '"' ∧ c ≠ '\\') : StringBody body := by
  induction body with
  | nil => exact .nil
  | cons c cs ih =>
      obtain ⟨hquote, hback⟩ := h c List.mem_cons_self
      exact .char hquote hback (ih fun d hd => h d (List.mem_cons_of_mem c hd))

/-- The scan passes over the body of a string. -/
theorem StringBody.scan {body : List Char} (h : StringBody body) (rest : List Char) :
    withoutComment true false (body ++ '"' :: rest) = body ++ '"' :: withoutComment false false rest := by
  induction h with
  | nil => simp [withoutComment]
  | char hquote hback _ ih => simp [withoutComment, hquote, hback, ih]
  | escape c _ ih => simp [withoutComment, ih]

/-- The scan passes over code without a comment. -/
theorem Code.scan {code : List Char} (h : Code code) (rest : List Char) :
    withoutComment false false (code ++ rest) = code ++ withoutComment false false rest := by
  induction h with
  | nil => rfl
  | char hquote hslash _ ih => simp [withoutComment, hquote, hslash, ih]
  | quoted hbody _ ih =>
      rw [List.append_assoc, List.cons_append, List.cons_append, withoutComment, hbody.scan, ih]
      simp

theorem Code.append {a b : List Char} (ha : Code a) (hb : Code b) : Code (a ++ b) := by
  induction ha with
  | nil => exact hb
  | char hquote hslash _ ih => exact .char hquote hslash ih
  | quoted hbody _ ih =>
      rw [List.append_assoc]
      exact .quoted hbody ih

/-- **A line loses its comment and nothing else.** -/
theorem Line.Valid.scan {l : Line} (h : l.Valid) : withoutComment false false l.body = l.code := by
  unfold Line.body
  rw [h.code.scan]
  cases l.comment with
  | none => exact List.append_nil _
  | some c => simp [withoutComment]

/-- A carriage return at the end of a line is dropped. -/
theorem Line.Valid.dropCr_raw {l : Line} (h : l.Valid) : dropCr l.raw = l.body := by
  unfold Line.raw dropCr
  split_ifs with hcrlf
  · rw [stripSuffix_append]
    rfl
  · rw [stripSuffix_of_notMem List.mem_cons_self h.cr]
    rfl

/-- A document comes apart into its lines. -/
theorem sourceLines_text {d : Document} (h : d.Valid) :
    sourceLines d.text = d.lines.map Line.body ++ if d.last.body.isEmpty then [] else [d.last.body] := by
  have hpieces : d.text.splitOn '\n' = d.lines.map Line.raw ++ [d.last.body] := by
    refine List.splitOn_intercalate '\n' ?_ (by simp)
    intro piece hpiece
    rcases List.mem_append.mp hpiece with hpiece | hpiece
    · obtain ⟨l, hl, rfl⟩ := List.mem_map.mp hpiece
      have hbody := (h.lines l hl).oneLine
      unfold Line.raw
      split_ifs <;> simp [hbody]
    · rw [List.mem_singleton.mp hpiece]
      exact h.last.oneLine
  have hraw : (d.lines.map Line.raw).map dropCr = d.lines.map Line.body := by
    rw [List.map_map]
    exact List.map_congr_left fun l hl => (h.lines l hl).dropCr_raw
  unfold sourceLines
  simp only [hpieces, List.dropLast_concat, List.getLastD_concat, hraw]

/-- **Stripping leaves the document and its strings, and no comment.** -/
theorem stripLineComments_text {d : Document} (h : d.Valid) : stripLineComments d.text = d.plain := by
  unfold stripLineComments Document.plain
  rw [sourceLines_text h, List.flatMap_append, List.flatMap_map]
  congr 1
  · exact List.flatMap_congr fun l hl => by rw [(h.lines l hl).scan]
  · split_ifs
    · rfl
    · simp [h.last.scan]

/-! ## What is loaded

The outcome depends on the parsed schemas only, and sorting forgets the order in which they came. -/

/-- The file's schema, after its comments are gone. -/
def Loads (parse : List Char → Except SerdeErr MessageSpec) (e : DirEntry IoErr) (spec : MessageSpec) : Prop :=
  ∃ raw, e.contents = .ok raw ∧ parse (stripLineComments raw) = .ok spec

/-- Loading entries loads each JSON file. -/
theorem loadEntries_eq_ok {parse : List Char → Except SerdeErr MessageSpec}
    {entries : List (DirEntry IoErr)} {specs : List MessageSpec} :
    loadEntries parse (entries.map .ok) = .ok specs ↔
      List.Forall₂ (Loads parse) (entries.filter DirEntry.isJson) specs := by
  induction entries generalizing specs with
  | nil =>
      simp only [List.map_nil, loadEntries, List.filter_nil, List.forall₂_nil_left_iff]
      exact ⟨fun h => (Except.ok.inj h).symm, fun h => h ▸ rfl⟩
  | cons e rest ih =>
      rw [List.map_cons, loadEntries]
      show (if e.isJson = false then _ else _) = _ ↔ _
      cases hjson : e.isJson with
      | false =>
          rw [if_pos rfl, List.filter_cons_of_neg (by simp [hjson]), ih]
      | true =>
          rw [if_neg (by decide), List.filter_cons_of_pos hjson, List.forall₂_cons_left_iff]
          simp only [Results.bind_eq_ok, Results.mapError_eq_ok, Results.pure_eq_ok, ih, Loads]
          constructor
          · rintro ⟨raw, hraw, spec, hspec, specs, hspecs, rfl⟩
            exact ⟨spec, specs, ⟨raw, hraw, hspec⟩, hspecs, rfl⟩
          · rintro ⟨spec, specs, ⟨raw, hraw, hspec⟩, hspecs, rfl⟩
            exact ⟨raw, hraw, spec, hspec, specs, hspecs, rfl⟩

/-- Loading a directory loads its entries and sorts them. -/
theorem loadDir_eq_ok {parse : List Char → Except SerdeErr MessageSpec} {entries : List (DirEntry IoErr)}
    {specs : List MessageSpec} :
    loadDir parse (.ok (entries.map .ok)) = .ok specs ↔
      ∃ out, List.Forall₂ (Loads parse) (entries.filter DirEntry.isJson) out ∧
        out.mergeSort (fun a b => a.name ≤ b.name) = specs := by
  show (loadEntries parse (entries.map .ok) >>= _) = _ ↔ _
  simp only [Results.bind_eq_ok, Results.pure_eq_ok, loadEntries_eq_ok]

/-- The specs are in the order of their names. -/
theorem pairwise_mergeSort_name (specs : List MessageSpec) :
    (specs.mergeSort fun a b => a.name ≤ b.name).Pairwise fun a b => a.name ≤ b.name := by
  have hpairwise := @List.pairwise_mergeSort _ (fun a b : MessageSpec => decide (a.name ≤ b.name))
    (fun a b c hab hbc => by simpa using le_trans (by simpa using hab) (by simpa using hbc))
    (fun a b => by simpa using le_total a.name b.name) specs
  simpa using hpairwise

/-- Schemas with different names have one order. -/
theorem mergeSort_eq_of_perm {specs specs' : List MessageSpec} (h : specs.Perm specs')
    (hnames : (specs.map MessageSpec.name).Nodup) :
    specs.mergeSort (fun a b => a.name ≤ b.name) = specs'.mergeSort (fun a b => a.name ≤ b.name) := by
  refine @List.Perm.eq_of_pairwise _ (fun a b => a.name ≤ b.name) _ _ ?_ (pairwise_mergeSort_name specs)
    (pairwise_mergeSort_name specs')
    ((List.mergeSort_perm specs _).trans (h.trans (List.mergeSort_perm specs' _).symm))
  intro a b ha hb hab hba
  have hmem : b ∈ specs := h.mem_iff.mpr (List.mem_mergeSort.mp hb)
  exact List.inj_on_of_nodup_map hnames (List.mem_mergeSort.mp ha) hmem (le_antisymm hab hba)

/-! ## Comments and order

Two directories with the same schemas, in any order and with any comments, load alike. -/

/-- The same file, up to its comments and its line ends. -/
inductive Rewritten : DirEntry IoErr → DirEntry IoErr → Prop where
  | same (e : DirEntry IoErr) : Rewritten e e
  | comments {e : DirEntry IoErr} {d d' : Document} : e.contents = .ok d.text → d.Valid → d'.Valid →
      d.plain = d'.plain → Rewritten e { e with contents := .ok d'.text }

theorem Rewritten.isJson {e e' : DirEntry IoErr} (h : Rewritten e e') : e'.isJson = e.isJson := by
  cases h <;> rfl

/-- A rewritten file loads as the same spec. -/
theorem Rewritten.loads {parse : List Char → Except SerdeErr MessageSpec} {e e' : DirEntry IoErr}
    (h : Rewritten e e') {spec : MessageSpec} (hloads : Loads parse e spec) : Loads parse e' spec := by
  cases h with
  | same => exact hloads
  | comments htext hd hd' hplain =>
      obtain ⟨raw, hraw, hspec⟩ := hloads
      rw [htext] at hraw
      cases hraw
      rw [stripLineComments_text hd, hplain, ← stripLineComments_text hd'] at hspec
      exact ⟨_, rfl, hspec⟩

/-- So do all of them. -/
theorem forall₂_loads_rewritten {parse : List Char → Except SerdeErr MessageSpec}
    {entries entries' : List (DirEntry IoErr)} (h : List.Forall₂ Rewritten entries entries')
    {specs : List MessageSpec} (hloads : List.Forall₂ (Loads parse) (entries.filter DirEntry.isJson) specs) :
    List.Forall₂ (Loads parse) (entries'.filter DirEntry.isJson) specs := by
  induction h generalizing specs with
  | nil => exact hloads
  | @cons e e' rest rest' he _ ih =>
      cases hjson : e.isJson with
      | false =>
          rw [List.filter_cons_of_neg (by simp [hjson])] at hloads
          rw [List.filter_cons_of_neg (by simp [he.isJson, hjson])]
          exact ih hloads
      | true =>
          rw [List.filter_cons_of_pos hjson] at hloads
          rw [List.filter_cons_of_pos (he.isJson.trans hjson)]
          obtain ⟨spec, specs, hspec, hrest, rfl⟩ := List.forall₂_cons_left_iff.mp hloads
          exact .cons (he.loads hspec) (ih hrest)

/-- **The generator sees neither comments nor the order of the directory.** Listed in another order and
commented in another way, a directory of schemas with different names loads as before. -/
theorem loadDir_rewritten (parse : List Char → Except SerdeErr MessageSpec)
    {entries listed entries' : List (DirEntry IoErr)} {specs : List MessageSpec}
    (h : loadDir parse (.ok (entries.map .ok)) = .ok specs)
    (hnames : (specs.map MessageSpec.name).Nodup) (horder : listed.Perm entries)
    (hrewritten : List.Forall₂ Rewritten listed entries') :
    loadDir parse (.ok (entries'.map .ok)) = .ok specs := by
  obtain ⟨out, hout, rfl⟩ := loadDir_eq_ok.mp h
  obtain ⟨out', hout', hperm⟩ := List.perm_comp_forall₂ (horder.filter DirEntry.isJson) hout
  have hnames' : (out'.map MessageSpec.name).Nodup :=
    ((hperm.trans (List.mergeSort_perm out _).symm).map MessageSpec.name).nodup_iff.mpr hnames
  exact loadDir_eq_ok.mpr ⟨out', forall₂_loads_rewritten hrewritten hout', mergeSort_eq_of_perm hperm hnames'⟩

/-- `"key":"value"`. -/
def member (key value : List Char) : List Char := '"' :: key ++ '"' :: ':' :: '"' :: value ++ ['"']

theorem code_member {key value : List Char} (hkey : StringBody key) (hvalue : StringBody value) :
    Code (member key value) := by
  have hcolon : Code (':' :: ('"' :: value ++ '"' :: [])) :=
    .char (by decide) (by decide) (.quoted hvalue .nil)
  have hcode := Code.quoted hkey hcolon
  simpa [member] using hcode

/-- A schema of one line, whose description holds a quote behind two slashes. -/
def schemaLine (name : Char) : List Char :=
  '{' :: member ['n', 'a', 'm', 'e'] [name] ++ ',' :: member ['t', 'y', 'p', 'e'] ['d', 'a', 't', 'a'] ++
    ',' :: member ['v', 'a', 'l', 'i', 'd', 'V', 'e', 'r', 's', 'i', 'o', 'n', 's'] ['0'] ++
    ',' :: member ['a', 'b', 'o', 'u', 't'] ['/', '/', '\\', '"'] ++ ['}']

def schemaFile (name : Char) (comment : List Char) : Document where
  lines := [⟨schemaLine name, some comment, false⟩]
  last := ⟨[], none, false⟩

theorem code_schemaLine {name : Char} (hname : name ≠ '"' ∧ name ≠ '\\') : Code (schemaLine name) := by
  have habout : StringBody ['/', '/', '\\', '"'] :=
    .char (by decide) (by decide) (.char (by decide) (by decide) (.escape '"' .nil))
  refine .append (.append (.append (.append (.char (by decide) (by decide) (code_member (.of_plain ?_)
    (.of_plain (by simpa using hname)))) (.char (by decide) (by decide) (code_member (.of_plain ?_)
    (.of_plain ?_)))) (.char (by decide) (by decide) (code_member (.of_plain ?_) (.of_plain ?_))))
    (.char (by decide) (by decide) (code_member (.of_plain ?_) habout))) (.char (by decide) (by decide) .nil)
  all_goals simp

theorem valid_schemaFile {name : Char} (hname : name = 'A' ∨ name = 'B') {comment : List Char}
    (hline : '\n' ∉ comment) (hcr : '\r' ∉ comment) : (schemaFile name comment).Valid := by
  refine ⟨fun l hl => ?_, ⟨.nil, List.not_mem_nil, List.not_mem_nil⟩⟩
  rw [List.mem_singleton.mp hl]
  rcases hname with rfl | rfl
  · exact ⟨code_schemaLine (by decide), by simp [Line.body, schemaLine, member, hline],
      by simp [Line.body, schemaLine, member, hcr]⟩
  · exact ⟨code_schemaLine (by decide), by simp [Line.body, schemaLine, member, hline],
      by simp [Line.body, schemaLine, member, hcr]⟩

def schemaNamed (name : String) : MessageSpec where
  name := name
  messageType := .data
  apiKey := none
  validVersions := ⟨0, 0⟩
  latestVersionUnstable := false
  flexibleVersions := .none
  fields := []
  commonStructs := []

/-- The parser, as far as the two files ask it. -/
def parseTwo (text : List Char) : Except Unit MessageSpec :=
  if text = (schemaFile 'A' []).plain then .ok (schemaNamed "A")
  else if text = (schemaFile 'B' []).plain then .ok (schemaNamed "B")
  else .error ()

def schemaEntry (name : Char) (comment : List Char) : DirEntry Unit where
  path := [name, '.', 'j', 's', 'o', 'n']
  fileName := [name, '.', 'j', 's', 'o', 'n']
  contents := .ok (schemaFile name comment).text

theorem loadDir_rewritten_swapped :
    loadDir parseTwo (.ok ([schemaEntry 'A' [], schemaEntry 'B' ['x']].map .ok)) =
        .ok [schemaNamed "A", schemaNamed "B"] ∧
      loadDir parseTwo (.ok ([schemaEntry 'B' ['"'], schemaEntry 'A' []].map .ok)) =
        .ok [schemaNamed "A", schemaNamed "B"] := by
  have hA : Loads parseTwo (schemaEntry 'A' []) (schemaNamed "A") :=
    ⟨_, rfl, by rw [stripLineComments_text (valid_schemaFile (by decide) (by decide) (by decide))]; rfl⟩
  have hB : Loads parseTwo (schemaEntry 'B' ['x']) (schemaNamed "B") :=
    ⟨_, rfl, by rw [stripLineComments_text (valid_schemaFile (by decide) (by decide) (by decide))]; rfl⟩
  have hload : loadDir parseTwo (.ok ([schemaEntry 'A' [], schemaEntry 'B' ['x']].map .ok)) =
      .ok [schemaNamed "A", schemaNamed "B"] :=
    loadDir_eq_ok.mpr ⟨_, .cons hA (.cons hB .nil), List.mergeSort_of_pairwise (by simp [schemaNamed])⟩
  exact ⟨hload, loadDir_rewritten parseTwo hload (by decide) (List.Perm.swap _ _ _)
    (.cons (.comments rfl (valid_schemaFile (by decide) (by decide) (by decide))
      (valid_schemaFile (by decide) (by decide) (by decide)) rfl) (.cons (.same _) .nil))⟩

end Krabka.Codegen
