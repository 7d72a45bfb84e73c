import Krabka.Lib.Occurrence
import Krabka.TraceContext.ScanLoops

/-!
# `TraceContext.Completeness` — every well-formed tag is found

`Tokens` says when a text is a sequence of complete tokens as the scanner knows them, none of which is a comment
with a tag. The scan passes over such a text to its exact end (`scan_tokens`), and a tag comment that stands there
is read (`scan_tagComment`), whatever follows it. Both loops of the scanner end on every input.
-/

namespace Krabka
namespace TraceContext

open Text WhileLoop

/-! ## Tokens

Each constructor is one token as the scanner reads it; what opens nothing is read character by character. -/

/-- What stands between two quotes: every quote in it is doubled. -/
def doubled (quote : Char) : List Char → List Char
  | [] => []
  | c :: content => if c = quote then c :: c :: doubled quote content else c :: doubled quote content

/-- A tag of a dollar quote. -/
def IsTag (tag : List Char) : Prop :=
  (∀ c ∈ tag, isIdentifierByte c = true) ∧ tag.head?.any Char.isDigit = false

def delimiter (tag : List Char) : List Char := '$' :: tag ++ ['$']

/-- Whether `c` opens a comment in front of `rest`. -/
def OpensComment (c : Char) (rest : List Char) : Prop :=
  (c = '-' ∧ rest.head? = some '-') ∨ (c = '/' ∧ rest.head? = some '*')

/-- Whether `c` opens a dollar quote in front of `rest`. -/
def OpensDollarQuote (c : Char) (rest : List Char) : Prop :=
  c = '$' ∧ ∃ tag after, IsTag tag ∧ rest = tag ++ '$' :: after

/-- The content of a block comment in front of `after`: characters and block comments that are closed. -/
inductive CommentBody : List Char → List Char → Prop where
  | nil {after : List Char} : CommentBody after []
  | char {after body : List Char} {c : Char} :
      ¬(c = '/' ∧ (body ++ after).head? = some '*') → ¬(c = '*' ∧ (body ++ after).head? = some '/') →
      CommentBody after body → CommentBody after (c :: body)
  | nested {after inner body : List Char} :
      CommentBody ['*', '/'] inner → CommentBody after body →
      CommentBody after ('/' :: '*' :: (inner ++ '*' :: '/' :: body))

def NoTag (content : List Char) : Prop := readComment ⟨0, content⟩ = none

/-- The text, in front of `after`, is a sequence of complete tokens, and no comment of it carries a tag. -/
inductive Tokens (after : List Char) : List Char → Prop where
  | nil : Tokens after []
  | quoted {quote : Char} {content text : List Char} :
      quote = '\'' ∨ quote = '"' → Tokens after text →
      Tokens after (quote :: (doubled quote content ++ quote :: text))
  | dollarQuoted {tag body text : List Char} :
      IsTag tag → (∀ n < body.length, ¬delimiter tag <+: (body ++ delimiter tag).drop n) → Tokens after text →
      Tokens after (delimiter tag ++ (body ++ (delimiter tag ++ text)))
  | lineComment {content text : List Char} :
      '\n' ∉ content → NoTag content → Tokens after text →
      Tokens after ('-' :: '-' :: (content ++ '\n' :: text))
  | blockComment {content text : List Char} :
      CommentBody ['*', '/'] content → NoTag content → Tokens after text →
      Tokens after ('/' :: '*' :: (content ++ '*' :: '/' :: text))
  | other {c : Char} {text : List Char} :
      c ≠ '\'' → c ≠ '"' → ¬OpensComment c (text ++ after) → ¬OpensDollarQuote c (text ++ after) →
      Tokens after text → Tokens after (c :: text)

/-! ## Where each construct ends

A quote inside a string is doubled, so the first single one ends it; a dollar quote ends at its own tag. -/

/-- The content of a quoted construct is passed over as a whole. -/
theorem skipQuoted_doubled (quote : Char) (content tail : List Char) :
    skipQuoted quote (doubled quote content ++ tail) =
      (skipQuoted quote tail).map (· + (doubled quote content).length) := by
  induction content with
  | nil =>
      show skipQuoted quote tail = (skipQuoted quote tail).map (· + 0)
      cases skipQuoted quote tail <;> rfl
  | cons c content ih =>
      unfold doubled
      by_cases hc : c = quote
      · rw [if_pos hc, hc, List.cons_append, List.cons_append, skipQuoted_quote_quote, ih, Option.map_map]
        congr 1
      · rw [if_neg hc, List.cons_append, skipQuoted_cons hc, ih, Option.map_map]
        congr 1

/-- **Quotes.** Whether the quote at the end closes, or makes a doubled quote with the one behind it: the scan
    goes on as if it had closed. -/
theorem scan_quoted {quote : Char} (hquote : quote = '\'' ∨ quote = '"') (index : Nat)
    (content tail : List Char) :
    scanComments index (quote :: (doubled quote content ++ quote :: tail)) =
      scanComments (index + ((doubled quote content).length + 2)) tail := by
  have hskip := skipQuoted_doubled quote content (quote :: tail)
  by_cases htail : tail.head? = some quote
  · obtain ⟨tail, rfl⟩ : ∃ t, tail = quote :: t := by
      cases tail with
      | nil => cases htail
      | cons d tail => exact ⟨tail, by rw [Option.some.inj htail]⟩
    rw [skipQuoted_quote_quote, Option.map_map] at hskip
    cases hrest : skipQuoted quote tail with
    | none =>
        rw [hrest] at hskip
        rw [scan_stop (turn_unclosed hquote hskip), scan_stop (turn_unclosed hquote hrest)]
    | some n =>
        rw [hrest] at hskip
        rw [scan_skip (turn_quoted hquote hskip), scan_skip (turn_quoted hquote hrest)]
        have hdrop : (doubled quote content ++ quote :: quote :: tail).drop
            (n + 2 + (doubled quote content).length) = tail.drop n := by
          rw [Nat.add_comm, List.drop_length_add_append]
          rfl
        show scanComments _ ((doubled quote content ++ quote :: quote :: tail).drop
          (n + 2 + (doubled quote content).length)) = _
        rw [hdrop]
        congr 1
        show index + 1 + (n + 2 + (doubled quote content).length) = _
        omega
  · rw [skipQuoted_quote htail] at hskip
    rw [scan_skip (turn_quoted hquote hskip)]
    show scanComments _ ((doubled quote content ++ quote :: tail).drop (1 + (doubled quote content).length)) = _
    rw [Nat.add_comm 1, List.drop_length_add_append, List.drop_one, List.tail_cons]
    congr 1
    show index + 1 + (1 + (doubled quote content).length) = _
    omega

theorem dollarQuoteDelimiter_of_isTag {tag : List Char} (h : IsTag tag) (after : List Char) :
    dollarQuoteDelimiter (tag ++ '$' :: after) = some (delimiter tag) := by
  have hdigit : ((tag ++ '$' :: after).head?.any Char.isDigit) = false := by
    cases tag with
    | nil => rfl
    | cons c tag => exact h.2
  have htag : (tag ++ '$' :: after).takeWhile isIdentifierByte = tag := by
    rw [List.takeWhile_append_of_pos h.1, List.takeWhile_cons_of_neg (by decide), List.append_nil]
  unfold dollarQuoteDelimiter
  dsimp only
  rw [hdigit, htag, List.drop_left, if_neg Bool.false_ne_true, List.head?_cons, if_pos rfl]
  rfl

theorem opens_of_dollarQuoteDelimiter {rest d : List Char} (h : dollarQuoteDelimiter rest = some d) :
    OpensDollarQuote '$' rest := by
  obtain ⟨tag, after, hrest, hall, hdigit, -⟩ := exists_of_dollarQuoteDelimiter h
  refine ⟨rfl, tag, after, ⟨hall, ?_⟩, hrest⟩
  cases tag with
  | nil => rfl
  | cons c tag =>
      rw [hrest] at hdigit
      exact hdigit

/-- **Dollar quotes.** -/
theorem scan_dollarQuoted {tag body : List Char} (htag : IsTag tag)
    (hfirst : ∀ n < body.length, ¬delimiter tag <+: (body ++ delimiter tag).drop n) (index : Nat)
    (tail : List Char) :
    scanComments index (delimiter tag ++ (body ++ (delimiter tag ++ tail))) =
      scanComments (index + (2 * tag.length + body.length + 4)) tail := by
  have hlen : (delimiter tag).length = tag.length + 2 := by
    unfold delimiter
    rw [List.length_append, List.length_cons, List.length_singleton]
  have hfind : Text.find (delimiter tag) (body ++ (delimiter tag ++ tail)) = some body.length := by
    rw [← List.append_assoc]
    refine find_append (find_eq_some_iff.mpr ⟨?_, ?_, hfirst⟩) tail
    · rw [List.length_append]
      exact Nat.le_add_right _ _
    · rw [List.drop_left]
  have hrest : delimiter tag ++ (body ++ (delimiter tag ++ tail)) =
      '$' :: (tag ++ '$' :: (body ++ (delimiter tag ++ tail))) := by
    simp [delimiter]
  have hbody : (tag ++ '$' :: (body ++ (delimiter tag ++ tail))).drop (tag.length + 1) =
      body ++ (delimiter tag ++ tail) := by
    rw [List.drop_length_add_append, List.drop_one, List.tail_cons]
  have hturn := @turn_dollar index (tag ++ '$' :: (body ++ (delimiter tag ++ tail))) tag
    (dollarQuoteDelimiter_of_isTag htag _)
  rw [hbody, show Text.find ('$' :: tag ++ ['$']) _ = _ from hfind] at hturn
  have hdrop : (tag ++ '$' :: (body ++ (delimiter tag ++ tail))).drop
      (tag.length + 1 + body.length + (tag.length + 2)) = tail := by
    rw [← hlen, Nat.add_assoc (tag.length + 1), ← List.drop_drop, hbody, ← List.drop_drop, List.drop_left,
      List.drop_left]
  rw [hrest, scan_skip hturn, hdrop]
  congr 1
  omega

/-! ## Comments

A comment without a tag is passed over, and a block comment nests. -/

theorem not_tag_at {content : List Char} (h : NoTag content) (index : Nat) :
    readComment ⟨index, content⟩ = none := by
  have hmoved := readComment_isSome_moved index content
  rw [show readComment ⟨0, content⟩ = none from h] at hmoved
  cases hread : readComment ⟨index, content⟩ with
  | none => rfl
  | some found =>
      rw [hread] at hmoved
      cases hmoved

theorem lineCommentEnd_append_newline {content : List Char} (h : '\n' ∉ content) (tail : List Char) :
    lineCommentEnd (content ++ '\n' :: tail) = content.length := by
  induction content with
  | nil => exact lineCommentEnd_newline tail
  | cons c content ih =>
      obtain ⟨hc, hcontent⟩ := List.ne_and_not_mem_of_not_mem_cons h
      rw [List.cons_append, lineCommentEnd_cons _ (Ne.symm hc), ih hcontent, List.length_cons]

/-- **Line comments.** The newline is left to the next turn. -/
theorem scan_lineComment_of_noTag {content : List Char} (hline : '\n' ∉ content) (h : NoTag content)
    (index : Nat) (tail : List Char) :
    scanComments index ('-' :: '-' :: (content ++ '\n' :: tail)) =
      scanComments (index + (content.length + 3)) tail := by
  have hturn := turn_lineComment index (content ++ '\n' :: tail)
  rw [lineCommentEnd_append_newline hline] at hturn
  rw [scan_readComment hturn, List.take_left, not_tag_at h, Option.none_or, Nat.add_comm 1, List.drop_succ_cons,
    List.drop_left]
  have hnewline : turn (index + 1 + (content.length + 1)) '\n' tail = .skip 0 := rfl
  rw [scan_skip hnewline, List.drop_zero]
  congr 1
  omega

/-- The content of a comment moves the search for the end of the comment to its own end, at whatever depth it
    stands. -/
theorem blockCommentEnd_body {after body : List Char} (h : CommentBody after body) (depth : Nat)
    (tail : List Char) (htail : tail.head? = after.head?) :
    blockCommentEnd (depth + 1) (body ++ tail) =
      ((blockCommentEnd (depth + 1) tail).1 + body.length, (blockCommentEnd (depth + 1) tail).2) := by
  induction h generalizing depth tail with
  | nil => rfl
  | @char after body c hopen hclose hbody ih =>
      have hhead : (body ++ after).head? = (body ++ tail).head? := by
        rw [List.head?_append, List.head?_append, htail]
      rw [hhead] at hopen hclose
      rw [List.cons_append, blockCommentEnd_char hopen hclose,
        ih depth tail htail]
      rfl
  | @nested after inner body _ _ ihinner ihbody =>
      have hassoc : '/' :: '*' :: (inner ++ '*' :: '/' :: body) ++ tail =
          '/' :: '*' :: (inner ++ '*' :: '/' :: (body ++ tail)) := by
        simp
      have hinner : depth + 1 + 1 - 1 = depth + 1 := rfl
      rw [hassoc, blockCommentEnd_open, ihinner (depth + 1) ('*' :: '/' :: (body ++ tail)) rfl,
        blockCommentEnd_close (Nat.succ_ne_zero depth), hinner, ihbody depth tail htail]
      refine Prod.ext ?_ rfl
      simp only [List.length_cons, List.length_append]
      omega

/-- **Block comments.** What the comment says, or else what stands behind it. -/
theorem scan_closedComment {content : List Char} (h : CommentBody ['*', '/'] content) (index : Nat)
    (tail : List Char) :
    scanComments index ('/' :: '*' :: (content ++ '*' :: '/' :: tail)) =
      (readComment ⟨index + 2, content⟩).or (scanComments (index + (content.length + 4)) tail) := by
  have hend : blockCommentEnd 1 (content ++ '*' :: '/' :: tail) = (content.length + 2, true) := by
    have hclose : blockCommentEnd 1 ('*' :: '/' :: tail) = (2, true) := rfl
    rw [blockCommentEnd_body h 0 ('*' :: '/' :: tail) rfl, hclose,
      Nat.add_comm content.length]
  have hturn := @turn_blockComment index _ _ hend
  rw [Nat.add_sub_cancel, List.take_left] at hturn
  have hskip : 1 + (content.length + 2) = content.length + 2 + 1 := Nat.add_comm _ _
  rw [scan_readComment hturn, hskip, List.drop_succ_cons, List.drop_length_add_append]
  congr 2
  omega

theorem scan_other {c : Char} {rest : List Char} (hq : c ≠ '\'') (hdq : c ≠ '"')
    (hcomment : ¬OpensComment c rest) (hdollar : ¬OpensDollarQuote c rest) (index : Nat) :
    scanComments index (c :: rest) = scanComments (index + 1) rest := by
  have hnone (hc : c = '$') : dollarQuoteDelimiter rest = none := by
    cases hdelimiter : dollarQuoteDelimiter rest with
    | none => rfl
    | some d => exact absurd (hc ▸ opens_of_dollarQuoteDelimiter hdelimiter) hdollar
  have hturn := @turn_plain index c rest hq hdq hnone (fun h => hcomment (.inl h)) (fun h => hcomment (.inr h))
  rw [scan_skip hturn, List.drop_zero, Nat.add_zero]

/-! ## A sequence of tokens

The induction is over the sequence. Each token is some turns of the scanner. -/

/-- The scan passes over complete tokens to their exact end. -/
theorem scan_tokens {after text : List Char} (h : Tokens after text) (index : Nat) :
    scanComments index (text ++ after) = scanComments (index + text.length) after := by
  induction h generalizing index with
  | nil => rfl
  | @quoted quote content text hquote _ ih =>
      have hassoc : quote :: (doubled quote content ++ quote :: text) ++ after =
          quote :: (doubled quote content ++ quote :: (text ++ after)) := by
        simp
      rw [hassoc, scan_quoted hquote, ih]
      congr 1
      simp only [List.length_cons, List.length_append]
      omega
  | @dollarQuoted tag body text htag hfirst _ ih =>
      have hassoc : delimiter tag ++ (body ++ (delimiter tag ++ text)) ++ after =
          delimiter tag ++ (body ++ (delimiter tag ++ (text ++ after))) := by
        simp
      rw [hassoc, scan_dollarQuoted htag hfirst, ih]
      congr 1
      simp only [delimiter, List.length_cons, List.length_append, List.length_nil]
      omega
  | @lineComment content text hline hnoTag _ ih =>
      have hassoc : '-' :: '-' :: (content ++ '\n' :: text) ++ after =
          '-' :: '-' :: (content ++ '\n' :: (text ++ after)) := by
        simp
      rw [hassoc, scan_lineComment_of_noTag hline hnoTag, ih]
      congr 1
      simp only [List.length_cons, List.length_append]
      omega
  | @blockComment content text hbody hnoTag _ ih =>
      have hassoc : '/' :: '*' :: (content ++ '*' :: '/' :: text) ++ after =
          '/' :: '*' :: (content ++ '*' :: '/' :: (text ++ after)) := by
        simp
      rw [hassoc, scan_closedComment hbody, not_tag_at hnoTag, Option.none_or, ih]
      congr 1
      simp only [List.length_cons, List.length_append]
      omega
  | @other c text hq hdq hcomment hdollar _ ih =>
      rw [List.cons_append, scan_other hq hdq hcomment hdollar, ih]
      congr 1
      rw [List.length_cons]
      omega

/-! ## The tag

The comment as the drivers write it, with other fields in front of the one and behind it. -/

/-- The comment that a driver appends. -/
def tagComment (tp : List Char) : List Char := "/*traceparent='".toList ++ tp ++ "'*/".toList

def tagContent (tp : List Char) : List Char := "traceparent='".toList ++ (tp ++ ['\''])

theorem tagComment_append (tp rest : List Char) :
    tagComment tp ++ rest = '/' :: '*' :: (tagContent tp ++ '*' :: '/' :: rest) := by
  have hopen : "/*traceparent='".toList = '/' :: '*' :: "traceparent='".toList := rfl
  have hclose : "'*/".toList = ['\'', '*', '/'] := rfl
  unfold tagComment tagContent
  rw [hopen, hclose]
  simp

/-- Characters that neither open nor close a comment. -/
theorem CommentBody.append_plain {after body word : List Char} (hword : ∀ c ∈ word, c ≠ '/' ∧ c ≠ '*')
    (h : CommentBody after body) : CommentBody after (word ++ body) := by
  induction word with
  | nil => exact h
  | cons c word ih =>
      obtain ⟨⟨hslash, hstar⟩, hrest⟩ := List.forall_mem_cons.mp hword
      exact .char (fun hc => hslash hc.1) (fun hc => hstar hc.1) (ih hrest)

theorem commentBody_of_no_delimiter {tp : List Char} (hopen : ¬['/', '*'] <:+: tp)
    (hclose : ¬['*', '/'] <:+: tp) (after : List Char) : CommentBody after (tp ++ ['\'']) := by
  induction tp with
  | nil => exact .char (fun hc => absurd hc.1 (by decide)) (fun hc => absurd hc.1 (by decide)) .nil
  | cons c tp ih =>
      have htail := List.suffix_cons c tp
      refine .char ?_ ?_ (ih (fun h => hopen (h.trans htail.isInfix)) (fun h => hclose (h.trans htail.isInfix)))
      · rintro ⟨rfl, hnext⟩
        cases tp with
        | nil => cases hnext
        | cons d tp =>
            cases hnext
            exact hopen ⟨[], tp, rfl⟩
      · rintro ⟨rfl, hnext⟩
        cases tp with
        | nil => cases hnext
        | cons d tp =>
            cases hnext
            exact hclose ⟨[], tp, rfl⟩

/-- The value of a tag is what stands between its quotes. -/
theorem readValue_tagContent {tp : List Char} (hquote : '\'' ∉ tp) (n : Nat) :
    readValue ⟨n, tagContent tp⟩ 11 = some ⟨n + 13, tp⟩ := by
  have hfind : Text.find ['\''] ((tagContent tp).drop 13) = some tp.length := find_singleton hquote []
  have hcursor : skipSpaces (tagContent tp) 11 = 11 := rfl
  have hvalue : skipSpaces (tagContent tp) 12 = 12 := rfl
  have heq : (tagContent tp)[11]? = some '=' := rfl
  have hopen : (tagContent tp)[12]? = some '\'' := rfl
  unfold readValue
  dsimp only
  rw [hcursor, heq, hvalue, hopen, if_neg (not_not_intro rfl), if_pos rfl, hfind, Option.map_some]
  unfold Slice.get
  rw [Nat.add_sub_cancel_left]
  have hdrop : (tagContent tp).drop 13 = tp ++ ['\''] := rfl
  rw [hdrop, List.take_left]

theorem readComment_tagContent {tp : List Char} {context : SpanContext} (hquote : '\'' ∉ tp)
    (hvalid : parseTraceparent tp = .ok context) (n : Nat) :
    readComment ⟨n, tagContent tp⟩ = some ⟨⟨n + 13, tp⟩, findField ⟨n, tagContent tp⟩ tracestate⟩ := by
  have hfind : Text.find traceparent.text ((tagContent tp).drop 0) = some 0 :=
    find_eq_some_iff.mpr ⟨Nat.zero_le _, ⟨"='".toList ++ (tp ++ ['\'']), rfl⟩,
      fun m hm => absurd hm (Nat.not_lt_zero m)⟩
  have hvalue : valueAt ⟨n, tagContent tp⟩ traceparent 0 = some ⟨n + 13, tp⟩ := readValue_tagContent hquote n
  have hfield : findField ⟨n, tagContent tp⟩ traceparent = some ⟨n + 13, tp⟩ := by
    unfold findField
    rw [findFieldFrom_eq, hfind, Option.bind_some, hvalue, Option.some_or]
  unfold readComment
  rw [hfield]
  dsimp only
  rw [hvalid]

/-- A tag is read, whatever stands behind it. -/
theorem scan_tagComment {tp : List Char} {context : SpanContext} (hquote : '\'' ∉ tp)
    (hopen : ¬['/', '*'] <:+: tp) (hclose : ¬['*', '/'] <:+: tp) (hvalid : parseTraceparent tp = .ok context)
    (index : Nat) (rest : List Char) :
    scanComments index (tagComment tp ++ rest) =
      some ⟨⟨index + 15, tp⟩, findField ⟨index + 2, tagContent tp⟩ tracestate⟩ := by
  have hplain : ∀ c ∈ "traceparent='".toList, c ≠ '/' ∧ c ≠ '*' := by simp
  have hbody : CommentBody ['*', '/'] (tagContent tp) :=
    .append_plain hplain (commentBody_of_no_delimiter hopen hclose _)
  rw [tagComment_append, scan_closedComment hbody, readComment_tagContent hquote hvalid, Option.some_or]

/-! ## The result

The scan passes over what stands in front and reads the tag, and both loops end on every statement. -/

/-- Every loop of the scanner ends on every state, with what the scanner's function answers. -/
structure ScansEnd : Prop where
  comments :
    Computes Cursor.more scanTurn Cursor.left (fun r => (returned r).join) (fun s => scanComments s.1 s.2)
  quoted (quote : Char) :
    Computes Cursor.more (quotedTurn quote) Cursor.left returned (fun s => (skipQuoted quote s.2).map (s.1 + ·))
  blockComment :
    Computes Cursor.more commentTurn Cursor.left commentEnd
      (fun s => ((blockCommentEnd s.1.1 s.2).1 + s.1.2, (blockCommentEnd s.1.1 s.2).2))
  run (p : Char → Bool) :
    Computes (fun s : Cursor Nat => s.2.head?.any p) (fun s => .ok (s.1 + 1, s.2.tail)) Cursor.left
      (fun r => (finished r).1) (fun s => s.1 + (s.2.takeWhile p).length)
  field (content : Slice) (key : Key) :
    Computes (fun offset => (Text.find key.text (content.text.drop offset)).isSome) (fieldTurn content key)
      (content.text.length - ·) returned (findFieldFrom content key)

/-- **Every well-formed tag behind complete tokens without a tag is extracted, whatever follows it, and every scan
    ends on every input.** -/
theorem extract_complete :
    (∀ text tp rest context, Tokens (tagComment tp ++ rest) text → '\'' ∉ tp → ¬['/', '*'] <:+: tp →
      ¬['*', '/'] <:+: tp → parseTraceparent tp = .ok context →
      ∃ trace, extractSqlcommenter (String.ofList (text ++ (tagComment tp ++ rest))) = some trace ∧
        trace.traceparent = ⟨text.length + 15, tp⟩) ∧
    ScansEnd := by
  refine ⟨?_, ⟨scanComments_computes, skipQuoted_computes, blockCommentEnd_computes, takeWhile_computes,
    findFieldFrom_computes⟩⟩
  intro text tp rest context htokens hquote hopen hclose hvalid
  have hword : traceparent.text <:+: text ++ (tagComment tp ++ rest) := by
    refine ⟨text ++ ['/', '*'], "='".toList ++ tp ++ ['\'', '*', '/'] ++ rest, ?_⟩
    rw [tagComment_append]
    unfold tagContent
    have hkey : "traceparent='".toList = traceparent.text ++ "='".toList := rfl
    rw [hkey]
    simp
  obtain ⟨n, hfind⟩ := exists_find_of_infix hword
  have hscan := scan_tagComment hquote hopen hclose hvalid text.length rest
  refine ⟨⟨⟨text.length + 15, tp⟩, findField ⟨text.length + 2, tagContent tp⟩ tracestate⟩, ?_, rfl⟩
  unfold extractSqlcommenter
  rw [String.toList_ofList, hfind]
  dsimp only
  rw [scan_tokens htokens, Nat.zero_add, hscan]

/-- `''"a""b"$1` in front of a tag: an empty string, an identifier with a quote in it, a positional parameter. -/
theorem sample_tokens (after : List Char) : Tokens after "''\"a\"\"b\"$1".toList := by
  have hdigit : ¬OpensDollarQuote '$' ('1' :: after) := by
    rintro ⟨-, tag, rest, htag, hrest⟩
    cases tag with
    | nil => exact absurd (List.head_eq_of_cons_eq hrest) (by decide)
    | cons c tag =>
        have hc : '1' = c := List.head_eq_of_cons_eq hrest
        subst hc
        exact absurd (show Char.isDigit '1' = false from htag.2) (by decide)
  have hplain {c : Char} {rest : List Char} (hslash : c ≠ '/') (hdash : c ≠ '-') : ¬OpensComment c rest := by
    rintro (⟨h, -⟩ | ⟨h, -⟩)
    · exact hdash h
    · exact hslash h
  have hone : Tokens after ['1'] :=
    .other (by decide) (by decide) (hplain (by decide) (by decide)) (fun h => absurd h.1 (by decide)) .nil
  have hdollar : Tokens after ['$', '1'] :=
    .other (by decide) (by decide) (hplain (by decide) (by decide)) hdigit hone
  exact @Tokens.quoted after '\'' [] _ (.inl rfl) (@Tokens.quoted after '"' ['a', '"', 'b'] _ (.inr rfl) hdollar)

def sampleTag : List Char := "00-4bf92f3577b34da6a3ce929d0e0e4736-00f067aa0ba902b7-01".toList

theorem extract_complete_sample :
    ∃ trace, extractSqlcommenter
        (String.ofList ("''\"a\"\"b\"$1".toList ++ (tagComment sampleTag ++ "; /* '".toList))) = some trace ∧
      trace.traceparent = ⟨25, sampleTag⟩ :=
  extract_complete.1 _ _ _ ⟨0x4bf92f3577b34da6a3ce929d0e0e4736, 0x00f067aa0ba902b7, 1⟩ (sample_tokens _)
    (by decide +kernel) (by decide +kernel) (by decide +kernel) (by decide +kernel)

end TraceContext
end Krabka
