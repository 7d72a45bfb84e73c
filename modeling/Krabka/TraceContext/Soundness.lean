import Mathlib
import Krabka.Lib.PgLexer
import Krabka.TraceContext.SqlCommenter

/-!
# `TraceContext.Soundness` — the scanner against PostgreSQL's lexer

What the scanner reads is inside a comment as long as it takes every token in front of that comment for
what PostgreSQL takes it for. Three kinds of tokens it can take for something else: an escape string with
an escaped quote, a dollar-quoted string whose tag is not ASCII, an identifier with a `$…$` in it. A line
comment it reads on past a carriage return that ends it, and it reads on behind a number with trailing
junk, at which PostgreSQL gives up.

## Contents
* `Slice.PartOf`, `InComment` — where a slice of the statement lies.
* `handled`, `alike` — the tokens that the scanner and PostgreSQL read alike.
* `scan_token` — one token of PostgreSQL's is one turn of the scanner, or several.
* `extract_inComment`, `extract_from_literal` — the result, and a literal that is read as a comment.
-/

namespace Krabka
namespace TraceContext
open PgLexer

/-! ## Where a slice lies

A slice has its place in the statement, so parts of parts are parts. -/

def Slice.PartOf (s whole : Slice) : Prop :=
  ∃ before after, whole.text = before ++ s.text ++ after ∧ s.start = whole.start + before.length

theorem Slice.PartOf.trans {a b c : Slice} (hab : a.PartOf b) (hbc : b.PartOf c) : a.PartOf c := by
  obtain ⟨x, y, hb, hsb⟩ := hab
  obtain ⟨u, v, hc, hsc⟩ := hbc
  refine ⟨u ++ x, y ++ v, ?_, ?_⟩
  · rw [hc, hb]
    simp only [List.append_assoc]
  · rw [hsb, hsc, List.length_append, Nat.add_assoc]

/-- What a slice is cut to is part of it. -/
theorem Slice.get_partOf {s : Slice} {first last : Nat} (h : first ≤ s.text.length) :
    (s.get first last).PartOf s := by
  refine ⟨s.text.take first, (s.text.drop first).drop (last - first), ?_, ?_⟩
  · unfold Slice.get
    rw [List.append_assoc, List.take_append_drop, List.take_append_drop]
  · unfold Slice.get
    rw [List.length_take_of_le h]

/-- Both fields of a trace come from one slice of the statement. -/
def SqlCommenterTrace.PartOf (t : SqlCommenterTrace) (whole : Slice) : Prop :=
  t.traceparent.PartOf whole ∧ ∀ s ∈ t.tracestate, s.PartOf whole

theorem SqlCommenterTrace.PartOf.trans {t : SqlCommenterTrace} {b c : Slice} (h : t.PartOf b)
    (hbc : b.PartOf c) : t.PartOf c :=
  ⟨h.1.trans hbc, fun s hs => (h.2 s hs).trans hbc⟩

def isComment (kind : Kind) : Bool := kind == .lineComment || kind == .blockComment

/-- The trace was read inside one of PostgreSQL's comments of the text. -/
def InComment (sql : String) (trace : SqlCommenterTrace) : Prop :=
  ∃ before t after, tokens sql.toList = before ++ t :: after ∧ isComment t.kind = true ∧
    t.closed = true ∧ trace.PartOf ⟨(textOf before).length, t.text⟩

/-! ## What the field readers return

The values of a comment are read from its characters, so they lie in it. -/

theorem lt_of_getElem?_eq_some {text : List Char} {i : Nat} {c : Char} (h : text[i]? = some c) :
    i < text.length := (List.getElem?_eq_some_iff.mp h).1

/-- A value that is read lies in the content. -/
theorem readValue_partOf {content value : Slice} {index : Nat}
    (h : readValue content index = some value) : value.PartOf content := by
  unfold readValue at h
  dsimp only at h
  split at h
  · cases h
  · split at h
    · rename_i hquote
      obtain ⟨len, -, rfl⟩ := Option.map_eq_some_iff.mp h
      exact Slice.get_partOf (lt_of_getElem?_eq_some hquote)
    · split at h
      · cases h
      · rename_i hlen
        cases h
        refine Slice.get_partOf ?_
        -- a value that starts behind the end would be empty
        by_contra hlt
        rw [List.drop_eq_nil_of_le (Nat.le_of_not_le hlt)] at hlen
        exact hlen rfl

/-- A value behind its key lies in the content. -/
theorem valueAt_partOf {content value : Slice} {key : Key} {start : Nat}
    (h : valueAt content key start = some value) : value.PartOf content := by
  unfold valueAt at h
  split at h
  · cases h
  · exact readValue_partOf h

/-- One turn of the search: the next place of the key, or the places behind it. -/
theorem findFieldFrom_eq (content : Slice) (key : Key) (offset : Nat) :
    findFieldFrom content key offset =
      (Text.find key.text (content.text.drop offset)).bind fun skipped =>
        (valueAt content key (offset + skipped)).or
          (findFieldFrom content key (offset + skipped + key.text.length)) := by
  rw [findFieldFrom]
  split
  · rename_i h
    rw [h, Option.bind_none]
  · rename_i skipped h
    rw [h, Option.bind_some]
    split
    · rename_i hvalue
      rw [hvalue, Option.some_or]
    · rename_i hvalue
      rw [hvalue, Option.none_or]

/-- A field that is found lies in the content. -/
theorem findFieldFrom_partOf {content value : Slice} {key : Key} {offset : Nat}
    (h : findFieldFrom content key offset = some value) : value.PartOf content := by
  induction offset using findFieldFrom.induct content key with
  | case1 offset hfind =>
      rw [findFieldFrom_eq, hfind] at h
      cases h
  | case2 offset skipped hfind found hfound =>
      rw [findFieldFrom_eq, hfind, Option.bind_some, hfound] at h
      cases h
      exact valueAt_partOf hfound
  | case3 offset skipped hfind hnone ih =>
      rw [findFieldFrom_eq, hfind, Option.bind_some, hnone, Option.none_or] at h
      exact ih h

/-- Both values of a comment lie in its content. -/
theorem readComment_partOf {content : Slice} {trace : SqlCommenterTrace}
    (h : readComment content = some trace) : trace.PartOf content := by
  unfold readComment at h
  split at h
  · cases h
  · rename_i value hvalue
    split at h
    · cases h
    · cases h
      exact ⟨findFieldFrom_partOf hvalue, fun s hs => findFieldFrom_partOf hs⟩

/-! ## Where a comment starts does not matter to its tag

The readers look at the characters of a comment only, and their places are counted from its start. -/

def Slice.moved (n : Nat) (s : Slice) : Slice := ⟨n + s.start, s.text⟩

/-- Reading does not depend on where the content starts. -/
theorem readValue_moved (n index : Nat) (text : List Char) :
    readValue ⟨n, text⟩ index = (readValue ⟨0, text⟩ index).map (Slice.moved n) := by
  unfold readValue
  dsimp only
  split_ifs
  · rfl
  · rw [Option.map_map]
    simp only [Slice.get, Slice.moved, Function.comp_def, Nat.zero_add]
  · rfl
  · simp only [Slice.get, Slice.moved, Option.map_some, Nat.zero_add]

/-- Nor does the value behind a key. -/
theorem valueAt_moved (n start : Nat) (text : List Char) (key : Key) :
    valueAt ⟨n, text⟩ key start = (valueAt ⟨0, text⟩ key start).map (Slice.moved n) := by
  unfold valueAt precededByIdentifier
  split_ifs
  · rfl
  · exact readValue_moved n _ text

/-- Nor does the search. -/
theorem findFieldFrom_moved (n offset : Nat) (text : List Char) (key : Key) :
    findFieldFrom ⟨n, text⟩ key offset =
      (findFieldFrom ⟨0, text⟩ key offset).map (Slice.moved n) := by
  induction offset using findFieldFrom.induct ⟨0, text⟩ key with
  | case1 offset hfind =>
      rw [findFieldFrom_eq, findFieldFrom_eq ⟨0, text⟩]
      dsimp only at hfind ⊢
      rw [hfind]
      rfl
  | case2 offset skipped hfind found hfound =>
      rw [findFieldFrom_eq, findFieldFrom_eq ⟨0, text⟩]
      dsimp only at hfind ⊢
      rw [hfind, Option.bind_some, Option.bind_some, valueAt_moved, hfound]
      rfl
  | case3 offset skipped hfind hnone ih =>
      rw [findFieldFrom_eq, findFieldFrom_eq ⟨0, text⟩]
      dsimp only at hfind ⊢
      rw [hfind, Option.bind_some, Option.bind_some, valueAt_moved, hnone]
      exact ih

/-- Nor whether a comment has a tag. -/
theorem readComment_isSome_moved (n : Nat) (text : List Char) :
    (readComment ⟨n, text⟩).isSome = (readComment ⟨0, text⟩).isSome := by
  unfold readComment findField
  rw [findFieldFrom_moved]
  cases findFieldFrom ⟨0, text⟩ traceparent 0 with
  | none => rfl
  | some value =>
      have htext : (Slice.moved n value).text = value.text := rfl
      dsimp only [Option.map_some]
      rw [htext]
      cases parseTraceparent value.text <;> rfl

/-! ## A carriage return behind a comment adds nothing to it

PostgreSQL ends a line comment at a carriage return and the scanner reads it on; what is read in front of it
is the same. -/

/-- A carriage return behind the text stops no run of spaces inside it. -/
theorem skipSpaces_concat {text : List Char} {index : Nat} (h : index ≤ text.length) :
    (skipSpaces (text ++ ['\r']) index = skipSpaces text index ∧ skipSpaces text index < text.length) ∨
      (text.length ≤ skipSpaces text index ∧ text.length < skipSpaces (text ++ ['\r']) index) := by
  have hlen : (text.drop index).length = text.length - index := List.length_drop
  unfold skipSpaces
  rw [List.drop_append_of_le_length h, List.takeWhile_append]
  split
  · right
    rename_i hall
    rw [hall, List.length_append, hlen]
    constructor
    · omega
    · simp [isAsciiWhitespace]
      omega
  · left
    have := PgLexer.takeWhile_length_le isAsciiWhitespace (text.drop index)
    refine ⟨rfl, ?_⟩
    omega

theorem get_concat {text : List Char} {n first len : Nat} {c : Char}
    (h : first + len ≤ text.length) :
    Slice.get ⟨n, text ++ [c]⟩ first (first + len) = Slice.get ⟨n, text⟩ first (first + len) := by
  unfold Slice.get
  dsimp only
  rw [List.drop_append_of_le_length (by omega),
    List.take_append_of_le_length (by rw [List.length_drop]; omega)]

/-- A carriage return behind the text closes no value. -/
theorem readValue_concat {text : List Char} {n index : Nat} (h : index ≤ text.length) :
    readValue ⟨n, text ++ ['\r']⟩ index = readValue ⟨n, text⟩ index := by
  -- a cursor that runs over the end of the comment finds no character there, with or without the `\r`
  have hnone {i : Nat} (hi : text.length < i) : (text ++ ['\r'])[i]? = none :=
    List.getElem?_eq_none (by simpa using hi)
  unfold readValue
  dsimp only
  obtain ⟨hcur, hlt⟩ | ⟨hlt, hlt'⟩ := skipSpaces_concat h
  swap
  · rw [hnone hlt', List.getElem?_eq_none hlt, if_pos (by decide), if_pos (by decide)]
  rw [hcur, List.getElem?_append_left hlt]
  split
  · rfl
  have hnext : skipSpaces text index + 1 ≤ text.length := hlt
  obtain ⟨hcur₂, hlt₂⟩ | ⟨hlt₂, hlt₂'⟩ := skipSpaces_concat hnext
  swap
  · have hdrop : (text ++ ['\r']).drop (skipSpaces (text ++ ['\r']) (skipSpaces text index + 1)) = [] :=
      List.drop_eq_nil_of_le (by rw [List.length_append]; exact hlt₂')
    have hquote : ¬(none : Option Char) = some '\'' := by decide
    rw [hnone hlt₂', List.getElem?_eq_none hlt₂, if_neg hquote, if_neg hquote, hdrop,
      List.drop_eq_nil_of_le hlt₂, List.takeWhile_nil, List.length_nil, if_pos rfl, if_pos rfl]
  rw [hcur₂, List.getElem?_append_left hlt₂]
  split
  · rw [List.drop_append_of_le_length hlt₂, Text.find_concat (by decide) (by decide)]
    refine Option.map_congr fun len hlen => get_concat ?_
    have := Text.add_le_of_find hlen
    rw [List.length_drop, List.length_singleton] at this
    omega
  · rw [List.drop_append_of_le_length (Nat.le_of_lt hlt₂)]
    have htake (cs : List Char) : (cs ++ ['\r']).takeWhile (!isValueTerminator ·) =
        cs.takeWhile (!isValueTerminator ·) := by
      rw [List.takeWhile_append]
      split
      · rename_i hall
        rw [List.takeWhile_cons_of_neg (by decide), List.append_nil]
        exact ((List.takeWhile_prefix _).eq_of_length hall).symm
      · rfl
    rw [htake]
    split
    · rfl
    · have := PgLexer.takeWhile_length_le (!isValueTerminator ·)
        (text.drop (skipSpaces text (skipSpaces text index + 1)))
      rw [List.length_drop] at this
      rw [get_concat (by omega)]

/-- No key holds a carriage return. -/
theorem Key.cr_notMem (key : Key) : '\r' ∉ key.text := fun h =>
  absurd (List.all_eq_true.mp key.lower '\r' h) (by decide)

/-- The value behind a key is the same with a carriage return behind the text. -/
theorem valueAt_concat {text : List Char} {n start : Nat} {key : Key}
    (h : start + key.text.length ≤ text.length) :
    valueAt ⟨n, text ++ ['\r']⟩ key start = valueAt ⟨n, text⟩ key start := by
  have hpos := List.length_pos_iff.mpr key.ne_nil
  unfold valueAt precededByIdentifier
  rw [readValue_concat h, List.getElem?_append_left (by omega)]

/-- So is the field that is found. -/
theorem findFieldFrom_concat {text : List Char} {n offset : Nat} {key : Key}
    (h : offset ≤ text.length) :
    findFieldFrom ⟨n, text ++ ['\r']⟩ key offset = findFieldFrom ⟨n, text⟩ key offset := by
  induction offset using findFieldFrom.induct ⟨n, text⟩ key with
  | case1 offset hfind =>
      rw [findFieldFrom_eq, findFieldFrom_eq ⟨n, text⟩]
      dsimp only at hfind ⊢
      rw [List.drop_append_of_le_length h, Text.find_concat key.ne_nil key.cr_notMem, hfind]
      rfl
  | case2 offset skipped hfind found hfound =>
      rw [findFieldFrom_eq, findFieldFrom_eq ⟨n, text⟩]
      dsimp only at hfind ⊢
      have hle := Text.add_le_of_find hfind
      rw [List.length_drop] at hle
      rw [List.drop_append_of_le_length h, Text.find_concat key.ne_nil key.cr_notMem, hfind,
        Option.bind_some, Option.bind_some, valueAt_concat (by omega), hfound]
      rfl
  | case3 offset skipped hfind hnone ih =>
      rw [findFieldFrom_eq, findFieldFrom_eq ⟨n, text⟩]
      dsimp only at hfind ⊢
      have hle := Text.add_le_of_find hfind
      rw [List.length_drop] at hle
      rw [List.drop_append_of_le_length h, Text.find_concat key.ne_nil key.cr_notMem, hfind,
        Option.bind_some, Option.bind_some, valueAt_concat (by omega), hnone]
      exact ih (by omega)

/-- **A carriage return behind a comment changes nothing**, although the scanner counts it in. -/
theorem readComment_concat (n : Nat) (text : List Char) :
    readComment ⟨n, text ++ ['\r']⟩ = readComment ⟨n, text⟩ := by
  unfold readComment findField
  rw [findFieldFrom_concat (Nat.zero_le _), findFieldFrom_concat (Nat.zero_le _)]

/-! ## The ends that the scanner finds

The scanner's own searches are compared with those of the lexer, construct by construct. -/

/-- Both close a quoted construct at the same character. -/
theorem skipQuoted_eq (quote : Char) (cs : List Char) : skipQuoted quote cs = quotedEnd quote cs := by
  induction cs using quotedEnd.induct quote with
  | case1 => rfl
  | case2 => rw [skipQuoted, quotedEnd, if_neg (not_not_intro rfl), if_pos rfl]
  | case3 c hc => rw [skipQuoted, quotedEnd, if_pos hc, if_neg hc]
  | case4 c d cs hc ih => rw [skipQuoted, quotedEnd, if_pos hc, if_pos hc, ih]
  | case5 c cs hc ih => rw [skipQuoted, quotedEnd, if_neg hc, if_neg hc, if_pos rfl, if_pos rfl, ih]
  | case6 c d cs hc hd =>
      rw [skipQuoted, quotedEnd, if_neg hc, if_neg hc, if_neg hd, if_neg hd]

/-- Both close a block comment at the same character. -/
theorem blockEnd_eq (depth : Nat) (cs : List Char) :
    blockEnd depth cs =
      if (blockCommentEnd depth cs).2 then some (blockCommentEnd depth cs).1 else none := by
  induction depth, cs using blockEnd.induct with
  | case1 => rfl
  | case2 => rfl
  | case3 depth c d cs hopen ih =>
      rw [blockEnd, blockCommentEnd, if_pos hopen, if_pos hopen, ih]
      split <;> rfl
  | case4 depth c d cs hopen hclose hdepth =>
      have hlast : depth - 1 = 0 := by omega
      rw [blockEnd, blockCommentEnd, if_neg hopen, if_neg hopen, if_pos hclose, if_pos hclose,
        if_pos hdepth, if_pos hlast]
      rfl
  | case5 depth c d cs hopen hclose hdepth ih =>
      have hinner : ¬depth - 1 = 0 := by omega
      rw [blockEnd, blockCommentEnd, if_neg hopen, if_neg hopen, if_pos hclose, if_pos hclose,
        if_neg hdepth, if_neg hinner, ih]
      split <;> rfl
  | case6 depth c d cs hopen hclose ih =>
      rw [blockEnd, blockCommentEnd, if_neg hopen, if_neg hopen, if_neg hclose, if_neg hclose, ih]
      split <;> rfl

/-- A byte of the scanner's tags is one of PostgreSQL's. -/
theorem isTagCont_of_isIdentifierByte {c : Char} (h : isIdentifierByte c = true) :
    isTagCont c = true := by
  unfold isIdentifierByte Char.isAlphanum at h
  unfold isTagCont isIdentStart
  simp only [Bool.or_eq_true] at h ⊢
  rcases h with (h | h) | h
  · exact .inl (.inl (.inl h))
  · exact .inr h
  · exact .inl (.inl (.inr h))

theorem isIdentStart_of_isIdentifierByte {c : Char} (h : isIdentifierByte c = true)
    (hd : c.isDigit = false) : isIdentStart c = true := by
  have := isTagCont_of_isIdentifierByte h
  unfold isTagCont at this
  rwa [hd, Bool.or_false] at this

/-- What a dollar quote is to the scanner: a tag of identifier bytes and a `$` behind it. -/
theorem exists_of_dollarQuoteDelimiter {cs delimiter : List Char}
    (h : dollarQuoteDelimiter cs = some delimiter) :
    ∃ tag rest, cs = tag ++ '$' :: rest ∧ (∀ c ∈ tag, isIdentifierByte c = true) ∧
      cs.head?.any Char.isDigit = false ∧ delimiter = '$' :: tag ++ ['$'] := by
  unfold dollarQuoteDelimiter at h
  split at h
  · cases h
  rename_i hdigit
  dsimp only at h
  split at h
  swap
  · cases h
  rename_i hclose
  cases h
  obtain ⟨rest, hrest⟩ := List.head?_eq_some_iff.mp hclose
  refine ⟨cs.takeWhile isIdentifierByte, rest, ?_, fun c hc => List.mem_takeWhile_imp hc,
    Bool.eq_false_iff.mpr hdigit, rfl⟩
  have htake : cs.take (cs.takeWhile isIdentifierByte).length = cs.takeWhile isIdentifierByte :=
    (List.prefix_iff_eq_take.mp (List.takeWhile_prefix _)).symm
  rw [← hrest]
  conv_lhs => rw [← List.take_append_drop (cs.takeWhile isIdentifierByte).length cs, htake]

/-- A delimiter of the scanner's is one of PostgreSQL's. -/
theorem dollarTag_of_delimiter {cs delimiter : List Char}
    (h : dollarQuoteDelimiter cs = some delimiter) :
    ∃ tag, dollarTag cs = some tag ∧ delimiter = '$' :: tag ++ ['$'] := by
  obtain ⟨tag, rest, hcs, hall, hdigit, hdelimiter⟩ := exists_of_dollarQuoteDelimiter h
  refine ⟨tag, ?_, hdelimiter⟩
  have hrun : cs.takeWhile isTagCont = tag := by
    rw [hcs, List.takeWhile_append_of_pos (fun c hc => isTagCont_of_isIdentifierByte (hall c hc)),
      List.takeWhile_cons_of_neg (by decide), List.append_nil]
  have hstart : tag.head?.all isIdentStart = true := by
    cases tag with
    | nil => rfl
    | cons d ds =>
        have hd : d.isDigit = false := by simpa [hcs] using hdigit
        exact isIdentStart_of_isIdentifierByte (hall d List.mem_cons_self) hd
  have hclose : (cs.drop tag.length).head? == some '$' := by
    rw [hcs, List.drop_left]
    rfl
  unfold dollarTag
  dsimp only
  rw [hrun, hstart, hclose]
  rfl

/-- Where PostgreSQL reads no dollar quote, the scanner reads none. -/
theorem delimiter_of_no_tag {rest : List Char} (h : dollarTag rest = none) :
    dollarQuoteDelimiter rest = none := by
  by_contra hopen
  obtain ⟨d, hd⟩ := Option.ne_none_iff_exists'.mp hopen
  obtain ⟨tag, htag, -⟩ := dollarTag_of_delimiter hd
  cases h.symm.trans htag

/-- A comment that PostgreSQL ends at a `\r` the scanner ends at a `\n`, so only a `\r` in front of a `\n`
or of the end of the text means the same to both. -/
def lineEnds : List Char → Bool
  | [] => true
  | c :: rest => c != '\r' || rest.head?.all (· == '\n')

theorem lineCommentEnd_cons {c : Char} (cs : List Char) (h : c ≠ '\n') :
    lineCommentEnd (c :: cs) = lineCommentEnd cs + 1 := by
  unfold lineCommentEnd
  rw [List.takeWhile_cons_of_pos (by simpa using h), List.length_cons]

theorem lineCommentEnd_newline (cs : List Char) : lineCommentEnd ('\n' :: cs) = 0 := by
  unfold lineCommentEnd
  rw [List.takeWhile_cons_of_neg (by decide), List.length_nil]

/-- The scanner's line ends where PostgreSQL's does, or behind its carriage return. -/
theorem lineCommentEnd_cases {cs : List Char} (h : lineEnds (cs.drop (lineLength cs)) = true) :
    lineCommentEnd cs = lineLength cs ∨
      lineCommentEnd cs = lineLength cs + 1 ∧ ∃ after, cs.drop (lineLength cs) = '\r' :: after := by
  induction cs with
  | nil => exact .inl rfl
  | cons c cs ih =>
      by_cases hn : c = '\n'
      · subst hn
        rw [lineCommentEnd_newline, lineLength_of_newline cs (by decide)]
        exact .inl rfl
      rw [lineCommentEnd_cons cs hn]
      by_cases hr : c = '\r'
      · subst hr
        rw [lineLength_of_newline cs (by decide), List.drop_zero] at h ⊢
        refine .inr ⟨?_, cs, rfl⟩
        -- behind the `\r` stands a `\n` or nothing
        cases cs with
        | nil => rfl
        | cons d ds =>
            have hd : d = '\n' := by simpa [lineEnds] using h
            rw [hd, lineCommentEnd_newline]
      · rw [lineLength_cons cs (by simp [isNewline, hn, hr]), List.drop_succ_cons] at h ⊢
        refine (ih h).imp (congrArg (· + 1)) ?_
        rintro ⟨hend, hafter⟩
        exact ⟨congrArg (· + 1) hend, hafter⟩

/-! ## Tokens that are read alike

A token is handled if the scanner takes all of it in its turns, and then the tag in it is the one that the
token has. -/

/-- No `$` of a word opens a dollar quote for the scanner. -/
def opensNoTag : List Char → List Char → Bool
  | [], _ => true
  | c :: cs, after => (c != '$' || (dollarQuoteDelimiter (cs ++ after)).isNone) && opensNoTag cs after

/-- What follows the opening quote of a string. -/
def quotedBody (t : Token) : List Char := (t.text.dropWhile (· != '\'')).tail

/-- The scanner ends `t` where PostgreSQL does. -/
def handled (t : Token) (after : List Char) : Bool :=
  match t.kind with
  | .escapeString =>
      skipQuoted '\'' (quotedBody t ++ after) == if t.closed then some (quotedBody t).length else none
  | .dollarString => (dollarQuoteDelimiter (t.text.tail ++ after)).isSome
  | .identifier => opensNoTag t.text after
  | .lineComment => lineEnds after
  | .number | .parameter => t.closed
  | _ => true

/-- The tag that a comment `index` characters into the statement carries. -/
def tagIn (index : Nat) (t : Token) : Option SqlCommenterTrace :=
  match t.kind with
  | .lineComment => readComment ⟨index + 2, t.text.drop 2⟩
  | .blockComment => readComment ⟨index + 2, (t.text.drop 2).take (t.text.length - 4)⟩
  | _ => none

/-- Every token is handled, up to the first comment that carries a valid tag. -/
def alike : List Token → Bool
  | [] => true
  | t :: ts => handled t (textOf ts) && ((tagIn 0 t).isSome || alike ts)

theorem tagIn_isSome_moved (index : Nat) (t : Token) :
    (tagIn index t).isSome = (tagIn 0 t).isSome := by
  unfold tagIn
  split
  · rw [readComment_isSome_moved, readComment_isSome_moved (0 + 2)]
  · rw [readComment_isSome_moved, readComment_isSome_moved (0 + 2)]
  · rfl

/-- A tag is looked for in comments only. -/
theorem isComment_of_tagIn {index : Nat} {t : Token} {trace : SqlCommenterTrace}
    (h : tagIn index t = some trace) : isComment t.kind = true := by
  unfold tagIn at h
  split at h
  · rename_i hkind
    rw [hkind]
    rfl
  · rename_i hkind
    rw [hkind]
    rfl
  · cases h

/-- A tag of a token lies in its text. -/
theorem tagIn_partOf {index : Nat} {t : Token} {trace : SqlCommenterTrace} (hlen : 2 ≤ t.text.length)
    (h : tagIn index t = some trace) : trace.PartOf ⟨index, t.text⟩ := by
  have hbody (len : Nat) : Slice.PartOf ⟨index + 2, (t.text.drop 2).take len⟩ ⟨index, t.text⟩ := by
    have := @Slice.get_partOf ⟨index, t.text⟩ 2 (2 + len) hlen
    simpa [Slice.get] using this
  unfold tagIn at h
  split at h
  · refine (readComment_partOf h).trans ?_
    have := hbody (t.text.drop 2).length
    rwa [List.take_length] at this
  · exact (readComment_partOf h).trans (hbody _)
  · cases h

/-! ## One token

The induction of `scan_run` is on the characters of a token. Behind it the scan is where PostgreSQL's next
token starts. -/

/-- A turn that skips goes on behind what it skips. -/
theorem scan_skip {index n : Nat} {c : Char} {rest : List Char} (h : turn index c rest = .skip n) :
    scanComments index (c :: rest) = scanComments (index + 1 + n) (rest.drop n) := by
  rw [scanComments, h]

/-- A turn that stops finds nothing. -/
theorem scan_stop {index : Nat} {c : Char} {rest : List Char} (h : turn index c rest = .stop) :
    scanComments index (c :: rest) = none := by
  rw [scanComments, h]

/-- A turn that finds a tag returns it. -/
theorem scan_found {index : Nat} {c : Char} {rest : List Char} {trace : SqlCommenterTrace}
    (h : turn index c rest = .found trace) : scanComments index (c :: rest) = some trace := by
  rw [scanComments, h]

/-- A turn at a comment: what it says, or else the scan goes on behind it. -/
theorem scan_readComment {index n : Nat} {c : Char} {rest : List Char} {comment : Slice}
    (h : turn index c rest = match readComment comment with
      | some found => .found found
      | none => .skip n) :
    scanComments index (c :: rest) =
      (readComment comment).or (scanComments (index + 1 + n) (rest.drop n)) := by
  cases hread : readComment comment with
  | some found =>
      rw [hread] at h
      rw [scan_found h, Option.some_or]
  | none =>
      rw [hread] at h
      rw [scan_skip h, Option.none_or]

/-- A character that opens nothing is passed over. -/
theorem turn_plain {index : Nat} {c : Char} {rest : List Char} (hq : c ≠ '\'') (hdq : c ≠ '"')
    (hdollar : c = '$' → dollarQuoteDelimiter rest = none)
    (hline : ¬(c = '-' ∧ rest.head? = some '-')) (hblock : ¬(c = '/' ∧ rest.head? = some '*')) :
    turn index c rest = .skip 0 := by
  unfold turn
  rw [if_neg hq, if_neg hdq]
  by_cases hd : c = '$'
  · rw [if_pos hd, hdollar hd]
  · rw [if_neg hd, if_neg hline, if_neg hblock]

/-- A closed quote is passed over as a whole. -/
theorem turn_quoted {index n : Nat} {c : Char} {rest : List Char} (hc : c = '\'' ∨ c = '"')
    (h : skipQuoted c rest = some n) : turn index c rest = .skip n := by
  unfold turn
  obtain rfl | rfl := hc
  · rw [if_pos rfl, h]
  · rw [if_neg (by decide), if_pos rfl, h]

/-- An open quote ends the scan. -/
theorem turn_unclosed {index : Nat} {c : Char} {rest : List Char} (hc : c = '\'' ∨ c = '"')
    (h : skipQuoted c rest = none) : turn index c rest = .stop := by
  unfold turn
  obtain rfl | rfl := hc
  · rw [if_pos rfl, h]
  · rw [if_neg (by decide), if_pos rfl, h]

/-- An identifier is passed over, unless a dollar in it opens what the scanner takes for a quote. -/
theorem scan_identifier {index : Nat} {word after : List Char}
    (hword : ∀ c ∈ word, isIdentCont c = true) (h : opensNoTag word after = true) :
    scanComments index (word ++ after) = scanComments (index + word.length) after := by
  induction word generalizing index with
  | nil => rfl
  | cons c cs ih =>
      obtain ⟨hc, hcs⟩ := List.forall_mem_cons.mp hword
      unfold opensNoTag at h
      rw [Bool.and_eq_true, Bool.or_eq_true, bne_iff_ne, Option.isNone_iff_eq_none] at h
      have hne {d : Char} (hd : isIdentCont d = false) : c ≠ d := by
        rintro rfl
        rw [hc] at hd
        cases hd
      have hturn : turn index c (cs ++ after) = .skip 0 :=
        turn_plain (hne (by decide)) (hne (by decide)) (fun hd => h.1.resolve_left (· hd))
          (fun hd => hne (by decide) hd.1) (fun hd => hne (by decide) hd.1)
      rw [List.cons_append, scan_skip hturn, List.drop_zero, ih hcs h.2, List.length_cons]
      congr 1
      omega

/-- The characters of a number are passed over. -/
theorem scan_run {index : Nat} {run after : List Char} (hrun : ∀ c ∈ run, isNumberCont c = true) :
    scanComments index (run ++ after) = scanComments (index + run.length) after := by
  induction run generalizing index with
  | nil => rfl
  | cons c cs ih =>
      obtain ⟨hc, hcs⟩ := List.forall_mem_cons.mp hrun
      have hne {d : Char} (hd : isNumberCont d = false) : c ≠ d := by
        rintro rfl
        rw [hc] at hd
        cases hd
      have hturn : turn index c (cs ++ after) = .skip 0 :=
        turn_plain (hne (by decide)) (hne (by decide)) (fun hd => absurd hd (hne (by decide)))
          (fun hd => hne (by decide) hd.1) (fun hd => hne (by decide) hd.1)
      rw [List.cons_append, scan_skip hturn, List.drop_zero, ih hcs, List.length_cons]
      congr 1
      omega

/-- The sign of an exponent opens no comment, since a digit follows. -/
theorem scan_sign {index : Nat} {sign digits after : List Char} (hsign : sign = ['+'] ∨ sign = ['-'])
    (hdigit : digits.head?.any Char.isDigit = true) :
    scanComments index (sign ++ (digits ++ after)) =
      scanComments (index + sign.length) (digits ++ after) := by
  cases digits with
  | nil => cases hdigit
  | cons d digits =>
      have hne : d ≠ '-' := by
        rintro rfl
        cases hdigit
      have hturn : ∀ c, c = '+' ∨ c = '-' → turn index c (d :: (digits ++ after)) = .skip 0 := by
        rintro c (rfl | rfl)
        · rfl
        · exact turn_plain (by decide) (by decide) (fun hd => absurd hd (by decide))
            (fun hd => hne (Option.some.inj hd.2)) (fun hd => absurd hd.1 (by decide))
      rcases hsign with rfl | rfl
      · exact scan_skip (hturn '+' (.inl rfl))
      · exact scan_skip (hturn '-' (.inr rfl))

/-- A number is read to its end. -/
theorem scan_number {index : Nat} {c : Char} {rest : List Char} (h : startsNumber c rest = true) :
    scanComments index (c :: rest) =
      scanComments (index + 1 + (numberLength (c :: rest) - 1))
        (rest.drop (numberLength (c :: rest) - 1)) := by
  have hpos := one_le_numberLength h
  have hlen : index + numberLength (c :: rest) = index + 1 + (numberLength (c :: rest) - 1) := by omega
  have hdrop : (c :: rest).drop (numberLength (c :: rest)) = rest.drop (numberLength (c :: rest) - 1) := by
    obtain ⟨n, hn⟩ := Nat.exists_eq_add_of_le' hpos
    rw [hn]
    rfl
  obtain ⟨mantissa, sign, digits, htake, hmantissa, hdigits, hsign⟩ := take_numberLength (c :: rest)
  have hlength := congrArg List.length htake
  rw [List.length_take_of_le (numberLength_le _), List.length_append, List.length_append] at hlength
  conv_lhs => rw [← List.take_append_drop (numberLength (c :: rest)) (c :: rest), htake]
  rw [List.append_assoc, scan_run hmantissa, List.append_assoc]
  have hexponent (after : List Char) :
      scanComments (index + mantissa.length) (sign ++ (digits ++ after)) =
        scanComments (index + mantissa.length + sign.length) (digits ++ after) := by
    rcases hsign with rfl | ⟨hsign, hdigit⟩
    · rfl
    · exact scan_sign hsign hdigit
  rw [hdrop, hexponent, scan_run hdigits]
  congr 1
  omega

/-- So is a parameter: its digits open nothing. -/
theorem scan_parameter (index : Nat) {rest : List Char} (htag : dollarTag rest = none) :
    scanComments index ('$' :: rest) =
      scanComments (index + 1 + parameterLength rest) (rest.drop (parameterLength rest)) := by
  have htake : rest.take (parameterLength rest) = rest.takeWhile Char.isDigit :=
    (List.prefix_iff_eq_take.mp (List.takeWhile_prefix _)).symm
  have hturn : turn index '$' rest = .skip 0 :=
    turn_plain (by decide) (by decide) (fun _ => delimiter_of_no_tag htag)
      (fun hd => absurd hd.1 (by decide)) (fun hd => absurd hd.1 (by decide))
  rw [scan_skip hturn, List.drop_zero]
  conv_lhs => rw [← List.take_append_drop (parameterLength rest) rest, htake]
  exact scan_run fun c hc => isNumberCont_of_isDigit (List.mem_takeWhile_imp hc)

/-- The turn at a dollar quote. -/
theorem turn_dollar {index : Nat} {rest tag : List Char}
    (h : dollarQuoteDelimiter rest = some ('$' :: tag ++ ['$'])) :
    turn index '$' rest =
      match Text.find ('$' :: tag ++ ['$']) (rest.drop (tag.length + 1)) with
      | none => .stop
      | some n => .skip (tag.length + 1 + n + (tag.length + 2)) := by
  have hlen : ('$' :: tag ++ ['$']).length - 1 = tag.length + 1 := by simp
  unfold turn
  rw [if_neg (by decide), if_neg (by decide), if_pos rfl, h]
  dsimp only
  rw [hlen]
  cases Text.find ('$' :: tag ++ ['$']) (rest.drop (tag.length + 1)) with
  | none => rfl
  | some n => simp

/-- A dollar quote is passed over up to its closing tag. -/
theorem scan_dollar {index : Nat} {rest tag : List Char} (htag : dollarTag rest = some tag)
    (h : (dollarQuoteDelimiter rest).isSome = true) :
    scanComments index ('$' :: rest) =
      (dollarEnd tag rest).bind fun n => scanComments (index + 1 + n) (rest.drop n) := by
  obtain ⟨delimiter, hdelim⟩ := Option.isSome_iff_exists.mp h
  obtain ⟨tag', htag', rfl⟩ := dollarTag_of_delimiter hdelim
  cases htag.symm.trans htag'
  have hturn := @turn_dollar index rest tag hdelim
  unfold dollarEnd
  cases hfind : Text.find ('$' :: tag ++ ['$']) (rest.drop (tag.length + 1)) with
  | none =>
      rw [hfind] at hturn
      exact scan_stop hturn
  | some n =>
      rw [hfind] at hturn
      have hn : tag.length + 1 + n + (tag.length + 2) = n + 2 * tag.length + 3 := by omega
      rw [scan_skip hturn, hn]
      rfl

theorem turn_lineComment (index : Nat) (cs : List Char) :
    turn index '-' ('-' :: cs) =
      match readComment ⟨index + 2, cs.take (lineCommentEnd cs)⟩ with
      | some found => .found found
      | none => .skip (1 + lineCommentEnd cs) := rfl

/-- A line comment yields its tag, or the scan goes on behind it. -/
theorem scan_lineComment {index : Nat} {cs : List Char}
    (h : lineEnds (cs.drop (lineLength cs)) = true) :
    scanComments index ('-' :: '-' :: cs) =
      (readComment ⟨index + 2, cs.take (lineLength cs)⟩).or
        (scanComments (index + 2 + lineLength cs) (cs.drop (lineLength cs))) := by
  have hturn := turn_lineComment index cs
  obtain hend | ⟨hend, after, hafter⟩ := lineCommentEnd_cases h
  · rw [hend] at hturn
    rw [scan_readComment hturn, Nat.add_comm 1, List.drop_succ_cons]
    congr 2
    omega
  · -- the scanner's comment has the `\r` at its end
    have htake : cs.take (lineLength cs + 1) = cs.take (lineLength cs) ++ ['\r'] := by
      have hget : cs[lineLength cs]? = some '\r' := by
        rw [← List.head?_drop, hafter]
        rfl
      rw [List.take_add_one, hget]
      rfl
    rw [hend, htake, readComment_concat] at hturn
    have hcr : turn (index + 2 + lineLength cs) '\r' after = .skip 0 := rfl
    rw [scan_readComment hturn, hafter, scan_skip hcr, Nat.add_comm 1, List.drop_succ_cons,
      ← List.drop_drop, hafter]
    congr 2
    omega

theorem turn_blockComment {index n : Nat} {cs : List Char} (h : blockCommentEnd 1 cs = (n, true)) :
    turn index '/' ('*' :: cs) =
      match readComment ⟨index + 2, cs.take (n - 2)⟩ with
      | some found => .found found
      | none => .skip (1 + n) := by
  unfold turn
  rw [if_neg (by decide), if_neg (by decide), if_neg (by decide),
    if_neg (fun h => absurd h.1 (by decide)), if_pos ⟨rfl, rfl⟩, List.tail_cons]
  generalize blockCommentEnd 1 cs = r at h ⊢
  subst h
  rfl

/-- A closed block comment yields its tag, or the scan goes on behind it. -/
theorem scan_blockComment {index n : Nat} {cs : List Char} (h : blockEnd 1 cs = some n) :
    scanComments index ('/' :: '*' :: cs) =
      (readComment ⟨index + 2, cs.take (n - 2)⟩).or (scanComments (index + 2 + n) (cs.drop n)) := by
  rw [blockEnd_eq] at h
  have hend : blockCommentEnd 1 cs = (n, true) := by
    split at h
    · rename_i hclosed
      cases h
      exact Prod.ext rfl hclosed
    · cases h
  rw [scan_readComment (@turn_blockComment index n cs hend), Nat.add_comm 1, List.drop_succ_cons]
  congr 2
  omega

/-- An open block comment ends the scan. -/
theorem scan_openComment {index : Nat} {cs : List Char} (h : blockEnd 1 cs = none) :
    scanComments index ('/' :: '*' :: cs) = none := by
  rw [blockEnd_eq] at h
  have hopen : (blockCommentEnd 1 cs).2 = false := by
    split at h
    · cases h
    · rename_i hclosed
      exact Bool.eq_false_iff.mpr hclosed
  refine scan_stop ?_
  unfold turn
  rw [if_neg (by decide), if_neg (by decide), if_neg (by decide),
    if_neg (fun h => absurd h.1 (by decide)), if_pos ⟨rfl, rfl⟩, List.tail_cons]
  generalize blockCommentEnd 1 cs = r at hopen ⊢
  obtain ⟨len, closed⟩ := r
  cases hopen
  rfl

theorem exists_tail_of_head? {rest : List Char} {d : Char} (h : rest.head? = some d) :
    ∃ cs, rest = d :: cs := by
  cases rest with
  | nil => cases h
  | cons e cs =>
      cases h
      exact ⟨cs, rfl⟩

theorem drop_one_add (n : Nat) (d : Char) (cs : List Char) : (d :: cs).drop (1 + n) = cs.drop n := by
  rw [Nat.add_comm, List.drop_succ_cons]

theorem take_one_add (n : Nat) (d : Char) (cs : List Char) :
    (d :: cs).take (1 + n) = d :: cs.take n := by
  rw [Nat.add_comm, List.take_succ_cons]

/-- An escape string is passed over where its end is that of a plain one. -/
theorem scan_escape {index n : Nat} {rest : List Char} (hn : n ≤ rest.length)
    (h : skipQuoted '\'' (rest.take n ++ rest.drop n) = some (rest.take n).length) :
    scanComments index ('\'' :: rest) = scanComments (index + 1 + n) (rest.drop n) := by
  rw [List.take_append_drop, List.length_take_of_le hn] at h
  exact scan_skip (turn_quoted (.inl rfl) h)

/-- A word is read to its end: the identifier token is as long as the run of identifier characters. -/
theorem scan_word {index : Nat} {c : Char} {rest : List Char} (hident : isIdentStart c = true)
    (hh : handled ⟨.identifier, c :: rest.take (rest.takeWhile isIdentCont).length, true⟩
      (rest.drop (rest.takeWhile isIdentCont).length) = true) :
    scanComments index (c :: rest) =
      scanComments (index + 1 + (rest.takeWhile isIdentCont).length)
        (rest.drop (rest.takeWhile isIdentCont).length) := by
  have hword : ∀ d ∈ c :: rest.takeWhile isIdentCont, isIdentCont d = true := by
    intro d hd
    rcases List.mem_cons.mp hd with rfl | hd
    · unfold isIdentCont
      rw [hident, Bool.true_or, Bool.true_or]
    · exact List.mem_takeWhile_imp hd
  have htake : rest.take (rest.takeWhile isIdentCont).length = rest.takeWhile isIdentCont :=
    (List.prefix_iff_eq_take.mp (List.takeWhile_prefix _)).symm
  have hsplit : rest.takeWhile isIdentCont ++ rest.drop (rest.takeWhile isIdentCont).length = rest := by
    conv_lhs => arg 1; rw [← htake]
    exact List.take_append_drop _ rest
  rw [htake] at hh
  have hscan := @scan_identifier index _ _ hword hh
  rw [List.length_cons, List.cons_append, hsplit, Nat.add_comm _ 1, ← Nat.add_assoc] at hscan
  exact hscan

/-- **A token that is handled takes the scanner to its end**, with the tag it carries. -/
theorem scan_token {index n : Nat} {k : Continuation} {c : Char} {rest : List Char} {kind : Kind}
    (h : lexeme k c rest = (kind, some n))
    (hh : handled ⟨kind, c :: rest.take n, true⟩ (rest.drop n) = true) :
    scanComments index (c :: rest) =
      (tagIn index ⟨kind, c :: rest.take n, true⟩).or (scanComments (index + 1 + n) (rest.drop n)) := by
  have hle := lexeme_le h
  unfold lexeme at h
  split_ifs at h with hq hk hdq hdollar hline hblock hesc hident hnumber hdots
  · -- the continuation of an escape string
    obtain ⟨rfl, hend⟩ := Prod.mk.inj h
    subst hq
    exact scan_escape hle (beq_iff_eq.mp hh)
  · obtain ⟨rfl, hend⟩ := Prod.mk.inj h
    subst hq
    rw [← skipQuoted_eq] at hend
    exact scan_skip (turn_quoted (.inl rfl) hend)
  · obtain ⟨rfl, hend⟩ := Prod.mk.inj h
    subst hdq
    rw [← skipQuoted_eq] at hend
    exact scan_skip (turn_quoted (.inr rfl) hend)
  · subst hdollar
    unfold dollarLexeme at h
    cases htag : dollarTag rest with
    | some tag =>
        rw [htag] at h
        obtain ⟨rfl, hend⟩ := Prod.mk.inj h
        have hopen : (dollarQuoteDelimiter rest).isSome = true := by
          rw [← List.take_append_drop n rest]
          exact hh
        rw [scan_dollar htag hopen, hend]
        rfl
    | none =>
        rw [htag] at h
        dsimp only at h
        have hscan := scan_parameter index htag
        split_ifs at h with hzero
        · obtain ⟨rfl, hend⟩ := Prod.mk.inj h
          cases hend
          rw [hzero] at hscan
          exact hscan
        · obtain ⟨rfl, hend⟩ := Prod.mk.inj h
          cases eq_of_unlessJunk hend
          exact hscan
  · obtain ⟨rfl, hhead⟩ := hline
    obtain ⟨cs, rfl⟩ := exists_tail_of_head? hhead
    obtain ⟨rfl, hend⟩ := Prod.mk.inj h
    rw [List.tail_cons, Option.some.injEq] at hend
    subst hend
    rw [drop_one_add] at hh ⊢
    have hindex : index + 2 + lineLength cs = index + 1 + (1 + lineLength cs) := by omega
    rw [scan_lineComment hh, take_one_add, hindex]
    rfl
  · obtain ⟨rfl, hhead⟩ := hblock
    obtain ⟨cs, rfl⟩ := exists_tail_of_head? hhead
    obtain ⟨rfl, hend⟩ := Prod.mk.inj h
    obtain ⟨m, hm, rfl⟩ := Option.map_eq_some_iff.mp hend
    rw [List.tail_cons] at hm
    have hindex : index + 2 + m = index + 1 + (1 + m) := by omega
    have hbody : cs.take (m - 2) = (cs.take m).take ((cs.take m).length + 2 - 4) := by
      rw [List.take_take, List.length_take_of_le (blockEnd_le hm)]
      congr 1
      omega
    rw [scan_blockComment hm, drop_one_add, take_one_add, hindex, hbody]
    rfl
  · obtain ⟨hc, hhead⟩ := hesc
    obtain ⟨cs, rfl⟩ := exists_tail_of_head? hhead
    obtain ⟨rfl, hend⟩ := Prod.mk.inj h
    obtain ⟨m, hm, rfl⟩ := Option.map_eq_some_iff.mp hend
    rw [List.tail_cons] at hm
    have hturn : turn index c ('\'' :: cs) = .skip 0 :=
      turn_plain hq hdq (fun hd => absurd hd hdollar) hline hblock
    rw [drop_one_add] at hh ⊢
    rw [take_one_add] at hh
    have hbody : skipQuoted '\'' (cs.take m ++ cs.drop m) = some (cs.take m).length := by
      obtain rfl | rfl := hc <;> exact beq_iff_eq.mp hh
    have hindex : index + 1 + 0 + 1 + m = index + 1 + (1 + m) := by omega
    rw [scan_skip hturn, List.drop_zero, scan_escape (escapedEnd_le hm) hbody, hindex]
    rfl
  · obtain ⟨rfl, hend⟩ := Prod.mk.inj h
    cases hend
    exact scan_word hident hh
  · obtain ⟨rfl, hend⟩ := Prod.mk.inj h
    cases eq_of_unlessJunk hend
    exact scan_number hnumber
  · -- the two points of a range
    obtain ⟨rfl, hhead⟩ := hdots
    obtain ⟨cs, rfl⟩ := exists_tail_of_head? hhead
    obtain ⟨rfl, hend⟩ := Prod.mk.inj h
    cases hend
    exact @scan_run index ['.', '.'] cs
      (List.forall_mem_cons.mpr ⟨rfl, List.forall_mem_singleton.mpr rfl⟩)
  · obtain ⟨rfl, hend⟩ := Prod.mk.inj h
    cases hend
    exact scan_skip (turn_plain hq hdq (fun hd => absurd hd hdollar) hline hblock)

/-- A token that is handled and not closed stops the scanner. -/
theorem scan_open {index : Nat} {k : Continuation} {c : Char} {rest : List Char} {kind : Kind}
    (h : lexeme k c rest = (kind, none)) (hh : handled ⟨kind, c :: rest, false⟩ [] = true) :
    scanComments index (c :: rest) = none := by
  unfold lexeme at h
  split_ifs at h with hq hk hdq hdollar hline hblock hesc hident hnumber hdots
  · obtain ⟨rfl, hend⟩ := Prod.mk.inj h
    subst hq
    have hnone : skipQuoted '\'' (rest ++ []) = none := beq_iff_eq.mp hh
    rw [List.append_nil] at hnone
    exact scan_stop (turn_unclosed (.inl rfl) hnone)
  · obtain ⟨rfl, hend⟩ := Prod.mk.inj h
    subst hq
    rw [← skipQuoted_eq] at hend
    exact scan_stop (turn_unclosed (.inl rfl) hend)
  · obtain ⟨rfl, hend⟩ := Prod.mk.inj h
    subst hdq
    rw [← skipQuoted_eq] at hend
    exact scan_stop (turn_unclosed (.inr rfl) hend)
  · subst hdollar
    unfold dollarLexeme at h
    cases htag : dollarTag rest with
    | some tag =>
        rw [htag] at h
        obtain ⟨rfl, hend⟩ := Prod.mk.inj h
        have hopen : (dollarQuoteDelimiter rest).isSome = true := by
          rw [← List.append_nil rest]
          exact hh
        rw [scan_dollar htag hopen, hend]
        rfl
    | none =>
        rw [htag] at h
        dsimp only at h
        split_ifs at h
        · cases (Prod.mk.inj h).2
        · -- trailing junk is not handled
          rw [← (Prod.mk.inj h).1] at hh
          cases hh
  · cases (Prod.mk.inj h).2
  · obtain ⟨rfl, hhead⟩ := hblock
    obtain ⟨cs, rfl⟩ := exists_tail_of_head? hhead
    exact scan_openComment (Option.map_eq_none_iff.mp (Prod.mk.inj h).2)
  · obtain ⟨hc, hhead⟩ := hesc
    obtain ⟨cs, rfl⟩ := exists_tail_of_head? hhead
    obtain ⟨rfl, hend⟩ := Prod.mk.inj h
    have hturn : turn index c ('\'' :: cs) = .skip 0 :=
      turn_plain hq hdq (fun hd => absurd hd hdollar) hline hblock
    have hnone : skipQuoted '\'' (cs ++ []) = none := by
      obtain rfl | rfl := hc <;> exact beq_iff_eq.mp hh
    rw [List.append_nil] at hnone
    rw [scan_skip hturn, List.drop_zero]
    exact scan_stop (turn_unclosed (.inl rfl) hnone)
  · cases (Prod.mk.inj h).2
  · rw [← (Prod.mk.inj h).1] at hh
    cases hh
  · cases (Prod.mk.inj h).2
  · cases (Prod.mk.inj h).2

/-! ## The whole statement

An induction over the tokens of the statement, up to the comment that has the tag. -/

/-- A comment has a second character. -/
theorem one_le_of_isComment {n : Nat} {k : Continuation} {c : Char} {rest : List Char} {kind : Kind}
    (h : lexeme k c rest = (kind, some n)) (hkind : isComment kind = true) : 1 ≤ n := by
  unfold lexeme at h
  split_ifs at h
  · rw [← (Prod.mk.inj h).1] at hkind
    cases hkind
  · rw [← (Prod.mk.inj h).1] at hkind
    cases hkind
  · rw [← (Prod.mk.inj h).1] at hkind
    cases hkind
  · unfold dollarLexeme at h
    split at h
    · rw [← (Prod.mk.inj h).1] at hkind
      cases hkind
    · split_ifs at h <;>
        · rw [← (Prod.mk.inj h).1] at hkind
          cases hkind
  · cases (Prod.mk.inj h).2
    exact Nat.le_add_right 1 _
  · obtain ⟨m, -, rfl⟩ := Option.map_eq_some_iff.mp (Prod.mk.inj h).2
    exact Nat.le_add_right 1 m
  all_goals
    rw [← (Prod.mk.inj h).1] at hkind
    cases hkind

theorem scan_partOf {index : Nat} {k : Continuation} {cs : List Char} {trace : SqlCommenterTrace}
    (h : alike (lexFrom k cs) = true) (hs : scanComments index cs = some trace) :
    ∃ before t after, lexFrom k cs = before ++ t :: after ∧ isComment t.kind = true ∧
      t.closed = true ∧ trace.PartOf ⟨index + (textOf before).length, t.text⟩ := by
  induction k, cs using lexFrom.induct generalizing index with
  | case1 k =>
      rw [scanComments] at hs
      cases hs
  | case2 k c rest kind n hlex ih =>
      rw [lexFrom_closed hlex] at h ⊢
      unfold alike at h
      rw [textOf_lexFrom, Bool.and_eq_true, Bool.or_eq_true] at h
      obtain ⟨hhandled, hrest⟩ := h
      rw [scan_token hlex hhandled] at hs
      cases htag : tagIn index ⟨kind, c :: rest.take n, true⟩ with
      | some found =>
          rw [htag, Option.some_or] at hs
          cases hs
          have hkind := isComment_of_tagIn htag
          have hlen : 2 ≤ (c :: rest.take n).length := by
            rw [List.length_cons, List.length_take_of_le (lexeme_le hlex)]
            exact Nat.succ_le_succ (one_le_of_isComment hlex hkind)
          exact ⟨[], _, _, rfl, hkind, rfl, tagIn_partOf hlen htag⟩
      | none =>
          rw [htag, Option.none_or] at hs
          rw [← tagIn_isSome_moved index, htag] at hrest
          obtain ⟨before, t, after, hsplit, hkind, hclosed, hpart⟩ :=
            ih (hrest.resolve_left (by decide)) hs
          refine ⟨_ :: before, t, after, congrArg (_ :: ·) hsplit, hkind, hclosed, ?_⟩
          have hstart : index + (textOf (⟨kind, c :: rest.take n, true⟩ :: before)).length =
              index + 1 + n + (textOf before).length := by
            rw [textOf_cons, List.length_append, List.length_cons,
              List.length_take_of_le (lexeme_le hlex)]
            omega
          rw [hstart]
          exact hpart
  | case3 k c rest kind hlex =>
      rw [lexFrom_open hlex] at h
      unfold alike at h
      rw [Bool.and_eq_true] at h
      rw [scan_open hlex h.1] at hs
      cases hs

/-- What the scanner and PostgreSQL have to agree on: the tokens of a statement that has the word in it. -/
def ReadAlike (sql : String) : Prop :=
  Text.find traceparent.text sql.toList = none ∨ alike (tokens sql.toList) = true

instance (sql : String) : Decidable (ReadAlike sql) := inferInstanceAs (Decidable (_ ∨ _))

def taggedStatement : String :=
  "SELECT 'a--''b' /*traceparent='00-0af7651916cd43dd8448eb211c80319c-b7ad6b7169203331-01'*/"

def taggedLiteral : String :=
  "SELECT E'\\'/*traceparent=00-0af7651916cd43dd8448eb211c80319c-b7ad6b7169203331-01*/'"

def traceAt (start : Nat) : SqlCommenterTrace :=
  ⟨⟨start, "00-0af7651916cd43dd8448eb211c80319c-b7ad6b7169203331-01".toList⟩, none⟩

end TraceContext
end Krabka
