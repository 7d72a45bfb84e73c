import Mathlib
import Krabka.Lib.Text

/-!
# `Lib.PgLexer` — how PostgreSQL splits a text into tokens

The part of PostgreSQL's lexical structure that decides where a comment is: the two comment forms and
the quoting forms that can hold a comment opener without opening a comment. What stands outside them is
an identifier, a number, a parameter or, one character at a time, `other`: an operator and white space
open nothing. A word has to be read to its end, since a `$` in an identifier opens no dollar quote, and
one behind a number does.

Numbers are those of version 16 on: underscores between digits, and integers to the bases 16, 8 and 2. A
letter right behind a number or a parameter is a lexical error, which ends the text's tokens as a quote
that is not closed does.

`standard_conforming_strings` is on, so a backslash is special in `E'…'` only.
-/

namespace PgLexer

inductive Kind where
  | lineComment
  | blockComment
  | standardString
  | escapeString
  | dollarString
  | quotedIdentifier
  | identifier
  | number
  | parameter
  | other
deriving DecidableEq, Repr

/-- A token with its delimiters. A token that is not closed, or that ends in an error, is the rest of the
text. -/
structure Token where
  kind : Kind
  text : List Char
  closed : Bool
deriving DecidableEq, Repr

/-! ## Character classes

The classes of the scanner's definitions; a character that is not ASCII is a letter. -/

def isNewline (c : Char) : Bool := c == '\n' || c == '\r'

/-- White space that stays on its line. -/
def isHorizontalSpace (c : Char) : Bool := c == ' ' || c == '\t' || c == '\x0b' || c == '\x0c'

/-- A letter, `_` or anything outside ASCII. -/
def isIdentStart (c : Char) : Bool := c.isAlpha || c == '_' || 0x80 ≤ c.toNat

def isIdentCont (c : Char) : Bool := isIdentStart c || c.isDigit || c == '$'

/-- A dollar-quote tag is an identifier without dollar signs. -/
def isTagCont (c : Char) : Bool := isIdentStart c || c.isDigit

/-! ## Where each construct ends

Each function reads what follows the opening delimiter and counts the characters up to the end of the
construct, its closing delimiter included. -/

/-- A doubled quote does not close. -/
def quotedEnd (quote : Char) : List Char → Option Nat
  | [] => none
  | [c] => if c = quote then some 1 else none
  | c :: d :: cs =>
      if c ≠ quote then (quotedEnd quote (d :: cs)).map (· + 1)
      else if d = quote then (quotedEnd quote cs).map (· + 2)
      else some 1

/-- Neither a doubled quote nor a quote behind a backslash closes. -/
def escapedEnd : List Char → Option Nat
  | [] => none
  | [c] => if c = '\'' then some 1 else none
  | c :: d :: cs =>
      if c = '\\' then (escapedEnd cs).map (· + 2)
      else if c ≠ '\'' then (escapedEnd (d :: cs)).map (· + 1)
      else if d = '\'' then (escapedEnd cs).map (· + 2)
      else some 1

/-- A block comment closes when every block comment inside it has. -/
def blockEnd (depth : Nat) : List Char → Option Nat
  | [] => none
  | [_] => none
  | c :: d :: cs =>
      if c = '/' ∧ d = '*' then (blockEnd (depth + 1) cs).map (· + 2)
      else if c = '*' ∧ d = '/' then
        if depth ≤ 1 then some 2 else (blockEnd (depth - 1) cs).map (· + 2)
      else (blockEnd depth (d :: cs)).map (· + 1)

/-- A line comment stops in front of the newline. -/
def lineLength (cs : List Char) : Nat := (cs.takeWhile (!isNewline ·)).length

/-- The tag of the dollar quote that the text behind a `$` opens. -/
def dollarTag (cs : List Char) : Option (List Char) :=
  let tag := cs.takeWhile isTagCont
  if (tag.head?.all isIdentStart) && (cs.drop tag.length).head? == some '$' then some tag else none

/-- The body of a dollar-quoted string ends at the first occurrence of its delimiter. -/
def dollarEnd (tag cs : List Char) : Option Nat :=
  (Text.find ('$' :: tag ++ ['$']) (cs.drop (tag.length + 1))).map (· + 2 * tag.length + 3)

/-! ## Numbers

Each function reads a text from its start on and counts the characters of the construct that it starts
with, 0 when there is none. -/

def isOctDigit (c : Char) : Bool := '0' ≤ c && c ≤ '7'

def isBinDigit (c : Char) : Bool := c == '0' || c == '1'

/-- Digits, an underscore in front of any of them. -/
def digitsLength (digit : Char → Bool) : List Char → Nat
  | [] => 0
  | [c] => if digit c then 1 else 0
  | c :: d :: cs =>
      if digit c then digitsLength digit (d :: cs) + 1
      else if c = '_' ∧ digit d then digitsLength digit cs + 2
      else 0

/-- A decimal integer starts with a digit. -/
def integerLength : List Char → Nat
  | [] => 0
  | c :: cs => if c.isDigit then digitsLength Char.isDigit cs + 1 else 0

/-- A point and the digits behind it, if any. Two points are a token of their own, as in `1..10`. -/
def fractionLength (cs : List Char) : Nat :=
  if cs.head? = some '.' ∧ cs.tail.head? ≠ some '.' then 1 + integerLength cs.tail else 0

def signLength (cs : List Char) : Nat := if cs.head? = some '+' ∨ cs.head? = some '-' then 1 else 0

def exponentLength : List Char → Nat
  | [] => 0
  | c :: cs =>
      let digits := integerLength (cs.drop (signLength cs))
      if (c = 'e' ∨ c = 'E') ∧ digits ≠ 0 then 1 + (signLength cs + digits) else 0

/-- The digits that a prefix asks for. -/
def prefixDigit (c : Char) : Option (Char → Bool) :=
  if c = 'x' ∨ c = 'X' then some Char.isHexDigit
  else if c = 'o' ∨ c = 'O' then some isOctDigit
  else if c = 'b' ∨ c = 'B' then some isBinDigit
  else none

/-- `0x1F`, `0o17`, `0b1`. -/
def prefixedLength : List Char → Nat
  | c :: p :: cs =>
      match prefixDigit p with
      | some digit => if c = '0' ∧ digitsLength digit cs ≠ 0 then 2 + digitsLength digit cs else 0
      | none => 0
  | _ => 0

/-- Digits and a fraction. -/
def mantissaLength (cs : List Char) : Nat :=
  integerLength cs + fractionLength (cs.drop (integerLength cs))

def numberLength (cs : List Char) : Nat :=
  if prefixedLength cs ≠ 0 then prefixedLength cs
  else mantissaLength cs + exponentLength (cs.drop (mantissaLength cs))

def startsNumber (c : Char) (rest : List Char) : Bool :=
  c.isDigit || (c == '.' && rest.head?.any Char.isDigit)

/-- Trailing junk: no letter may follow a number. -/
def unlessJunk (n : Nat) (rest : List Char) : Option Nat :=
  if (rest.drop n).head?.any isIdentStart then none else some n

/-- The digits of `$1`. -/
def parameterLength (rest : List Char) : Nat := (rest.takeWhile Char.isDigit).length

/-! ## The tokens

The first token of a text, and all of them. A string constant goes on behind white space with a newline in it.
-/

/-- What may come between the parts of an escape string: its continuation needs a newline, and then
every part is read with backslash escapes. -/
inductive Continuation where
  | none
  | sameLine
  | nextLine
deriving DecidableEq, Repr

/-- The token that starts with a `$`, and how many characters behind it it takes, `none` when it is not
closed. -/
def dollarLexeme (rest : List Char) : Kind × Option Nat :=
  match dollarTag rest with
  | some tag => (.dollarString, dollarEnd tag rest)
  | none =>
      if parameterLength rest = 0 then (.other, some 0)
      else (.parameter, unlessJunk (parameterLength rest) rest)

/-- The token that starts with `c`. -/
def lexeme (k : Continuation) (c : Char) (rest : List Char) : Kind × Option Nat :=
  if c = '\'' then
    if k = .nextLine then (.escapeString, escapedEnd rest) else (.standardString, quotedEnd '\'' rest)
  else if c = '"' then (.quotedIdentifier, quotedEnd '"' rest)
  else if c = '$' then dollarLexeme rest
  else if c = '-' ∧ rest.head? = some '-' then
    (.lineComment, some (1 + lineLength rest.tail))
  else if c = '/' ∧ rest.head? = some '*' then
    (.blockComment, (blockEnd 1 rest.tail).map (1 + ·))
  else if (c = 'E' ∨ c = 'e') ∧ rest.head? = some '\'' then
    (.escapeString, (escapedEnd rest.tail).map (1 + ·))
  else if isIdentStart c then (.identifier, some (rest.takeWhile isIdentCont).length)
  else if startsNumber c rest then (.number, unlessJunk (numberLength (c :: rest) - 1) rest)
  else if c = '.' ∧ rest.head? = some '.' then (.other, some 1)
  else (.other, some 0)

/-- Whether a quote behind this token still continues an escape string. -/
def Continuation.next (k : Continuation) (kind : Kind) (c : Char) : Continuation :=
  match kind with
  | .escapeString => .sameLine
  | .lineComment => k
  | .other =>
      if k = .none then .none
      else if isNewline c then .nextLine
      else if isHorizontalSpace c then k
      else .none
  | _ => .none

/-- The tokens of a text, in order. The first token that is not closed is the last one. -/
def lexFrom (k : Continuation) : List Char → List Token
  | [] => []
  | c :: rest =>
      match lexeme k c rest with
      | (kind, some n) => ⟨kind, c :: rest.take n, true⟩ :: lexFrom (k.next kind c) (rest.drop n)
      | (kind, none) => [⟨kind, c :: rest, false⟩]
termination_by cs => cs.length
decreasing_by simp

def tokens (cs : List Char) : List Token := lexFrom .none cs

/-! ## Lemmas

No construct is longer than the text, and the tokens of a text put together are the text. -/

/-- What a list of tokens was split from. -/
def textOf (ts : List Token) : List Char := ts.flatMap Token.text

@[simp] theorem textOf_nil : textOf [] = [] := rfl

@[simp] theorem textOf_cons (t : Token) (ts : List Token) : textOf (t :: ts) = t.text ++ textOf ts := rfl

theorem lexFrom_nil (k : Continuation) : lexFrom k [] = [] := by
  rw [lexFrom]

/-- A token that is closed is followed by those behind it. -/
theorem lexFrom_closed {k : Continuation} {c : Char} {rest : List Char} {kind : Kind} {n : Nat}
    (h : lexeme k c rest = (kind, some n)) :
    lexFrom k (c :: rest) =
      ⟨kind, c :: rest.take n, true⟩ :: lexFrom (k.next kind c) (rest.drop n) := by
  rw [lexFrom, h]

/-- A token that is open is the last one. -/
theorem lexFrom_open {k : Continuation} {c : Char} {rest : List Char} {kind : Kind}
    (h : lexeme k c rest = (kind, none)) : lexFrom k (c :: rest) = [⟨kind, c :: rest, false⟩] := by
  rw [lexFrom, h]

/-- **A text is its tokens one behind the other.** -/
theorem textOf_lexFrom (k : Continuation) (cs : List Char) : textOf (lexFrom k cs) = cs := by
  induction k, cs using lexFrom.induct with
  | case1 k => rw [lexFrom_nil, textOf_nil]
  | case2 k c rest kind n h ih => rw [lexFrom_closed h, textOf_cons, ih, List.cons_append,
      List.take_append_drop]
  | case3 k c rest kind h => rw [lexFrom_open h, textOf_cons, textOf_nil, List.append_nil]

theorem lineLength_of_newline {c : Char} (cs : List Char) (h : isNewline c = true) :
    lineLength (c :: cs) = 0 := by
  unfold lineLength
  rw [List.takeWhile_cons_of_neg (by simp [h]), List.length_nil]

theorem lineLength_cons {c : Char} (cs : List Char) (h : isNewline c = false) :
    lineLength (c :: cs) = lineLength cs + 1 := by
  unfold lineLength
  rw [List.takeWhile_cons_of_pos (by simp [h]), List.length_cons]

/-! A token ends inside the text. -/

/-- A quote closes inside the text. -/
theorem quotedEnd_le {quote : Char} {cs : List Char} {n : Nat} (h : quotedEnd quote cs = some n) :
    n ≤ cs.length := by
  induction cs using quotedEnd.induct quote generalizing n with
  | case1 => cases h
  | case2 =>
      cases Option.some.inj ((if_pos rfl).symm.trans h)
      exact Nat.le_refl _
  | case3 c hc => cases (if_neg hc).symm.trans h
  | case4 c d cs hc ih =>
      rw [quotedEnd, if_pos hc] at h
      obtain ⟨m, hm, rfl⟩ := Option.map_eq_some_iff.mp h
      exact Nat.succ_le_succ (ih hm)
  | case5 c cs hc ih =>
      rw [quotedEnd, if_neg hc, if_pos rfl] at h
      obtain ⟨m, hm, rfl⟩ := Option.map_eq_some_iff.mp h
      exact Nat.add_le_add_right (ih hm) 2
  | case6 c d cs hc hd =>
      rw [quotedEnd, if_neg hc, if_neg hd] at h
      cases h
      simp

/-- An escape string closes inside the text. -/
theorem escapedEnd_le {cs : List Char} {n : Nat} (h : escapedEnd cs = some n) : n ≤ cs.length := by
  induction cs using escapedEnd.induct generalizing n with
  | case1 => cases h
  | case2 =>
      cases Option.some.inj ((if_pos rfl).symm.trans h)
      exact Nat.le_refl _
  | case3 c hc => cases (if_neg hc).symm.trans h
  | case4 d cs ih =>
      rw [escapedEnd, if_pos rfl] at h
      obtain ⟨m, hm, rfl⟩ := Option.map_eq_some_iff.mp h
      exact Nat.add_le_add_right (ih hm) 2
  | case5 c d cs hb hc ih =>
      rw [escapedEnd, if_neg hb, if_pos hc] at h
      obtain ⟨m, hm, rfl⟩ := Option.map_eq_some_iff.mp h
      exact Nat.succ_le_succ (ih hm)
  | case6 c cs hb hc ih =>
      rw [escapedEnd, if_neg hb, if_neg hc, if_pos rfl] at h
      obtain ⟨m, hm, rfl⟩ := Option.map_eq_some_iff.mp h
      exact Nat.add_le_add_right (ih hm) 2
  | case7 c d cs hb hc hd =>
      rw [escapedEnd, if_neg hb, if_neg hc, if_neg hd] at h
      cases h
      simp

/-- A block comment closes inside the text. -/
theorem blockEnd_le {depth : Nat} {cs : List Char} {n : Nat} (h : blockEnd depth cs = some n) :
    n ≤ cs.length := by
  induction depth, cs using blockEnd.induct generalizing n with
  | case1 => cases h
  | case2 => cases h
  | case3 depth c d cs hopen ih =>
      rw [blockEnd, if_pos hopen] at h
      obtain ⟨m, hm, rfl⟩ := Option.map_eq_some_iff.mp h
      exact Nat.add_le_add_right (ih hm) 2
  | case4 depth c d cs hopen hclose hdepth =>
      rw [blockEnd, if_neg hopen, if_pos hclose, if_pos hdepth] at h
      cases h
      simp
  | case5 depth c d cs hopen hclose hdepth ih =>
      rw [blockEnd, if_neg hopen, if_pos hclose, if_neg hdepth] at h
      obtain ⟨m, hm, rfl⟩ := Option.map_eq_some_iff.mp h
      exact Nat.add_le_add_right (ih hm) 2
  | case6 depth c d cs hopen hclose ih =>
      rw [blockEnd, if_neg hopen, if_neg hclose] at h
      obtain ⟨m, hm, rfl⟩ := Option.map_eq_some_iff.mp h
      exact Nat.succ_le_succ (ih hm)

theorem takeWhile_length_le (p : Char → Bool) (cs : List Char) :
    (cs.takeWhile p).length ≤ cs.length :=
  (List.takeWhile_prefix p).length_le

/-- A dollar quote closes inside the text. -/
theorem dollarEnd_le {tag cs : List Char} {n : Nat} (h : dollarEnd tag cs = some n) :
    n ≤ cs.length := by
  unfold dollarEnd at h
  obtain ⟨m, hm, rfl⟩ := Option.map_eq_some_iff.mp h
  have := Text.add_le_of_find hm
  simp only [List.length_append, List.length_cons, List.length_nil, List.length_drop] at this
  omega

/-! ### Numbers -/

theorem digitsLength_le (digit : Char → Bool) (cs : List Char) : digitsLength digit cs ≤ cs.length := by
  induction cs using digitsLength.induct digit with
  | case1 => exact Nat.le_refl 0
  | case2 c h =>
      rw [digitsLength, if_pos h]
      exact Nat.le_refl 1
  | case3 c h =>
      rw [digitsLength, if_neg h]
      exact Nat.zero_le _
  | case4 c d cs h ih =>
      rw [digitsLength, if_pos h]
      exact Nat.succ_le_succ ih
  | case5 c d cs h hd ih =>
      rw [digitsLength, if_neg h, if_pos hd]
      exact Nat.add_le_add_right ih 2
  | case6 c d cs h hd =>
      rw [digitsLength, if_neg h, if_neg hd]
      exact Nat.zero_le _

/-- An integer is no longer than the text. -/
theorem integerLength_le (cs : List Char) : integerLength cs ≤ cs.length := by
  unfold integerLength
  split
  · exact Nat.le_refl 0
  · split
    · exact Nat.succ_le_succ (digitsLength_le Char.isDigit _)
    · exact Nat.zero_le _

/-- A character of a number, but for the sign of its exponent. -/
def isNumberCont (c : Char) : Bool := c.isAlphanum || c == '_' || c == '.'

theorem isNumberCont_of_isDigit {c : Char} (h : c.isDigit = true) : isNumberCont c = true := by
  unfold isNumberCont Char.isAlphanum
  rw [h, Bool.or_true, Bool.true_or, Bool.true_or]

theorem isNumberCont_of_isHexDigit {c : Char} (h : c.isHexDigit = true) : isNumberCont c = true := by
  unfold Char.isHexDigit at h
  unfold isNumberCont Char.isAlphanum Char.isAlpha Char.isUpper Char.isLower
  simp only [Bool.or_eq_true, Bool.and_eq_true, decide_eq_true_eq] at h ⊢
  rcases h with (h | ⟨hlow, hhigh⟩) | ⟨hlow, hhigh⟩
  · exact .inl (.inl (.inr h))
  · exact .inl (.inl (.inl (.inr ⟨hlow, UInt32.le_trans hhigh (show 'f'.val ≤ 'z'.val by decide)⟩)))
  · exact .inl (.inl (.inl (.inl ⟨hlow, UInt32.le_trans hhigh (show 'F'.val ≤ 'Z'.val by decide)⟩)))

theorem isNumberCont_of_isOctDigit {c : Char} (h : isOctDigit c = true) : isNumberCont c = true := by
  unfold isOctDigit at h
  rw [Bool.and_eq_true, decide_eq_true_eq, decide_eq_true_eq] at h
  refine isNumberCont_of_isDigit ?_
  unfold Char.isDigit
  rw [Bool.and_eq_true, decide_eq_true_eq, decide_eq_true_eq]
  exact ⟨h.1, h.2.trans (by decide)⟩

theorem isNumberCont_of_isBinDigit {c : Char} (h : isBinDigit c = true) : isNumberCont c = true := by
  unfold isBinDigit at h
  rw [Bool.or_eq_true, beq_iff_eq, beq_iff_eq] at h
  rcases h with rfl | rfl <;> rfl

/-- The letter of a base and its digits are characters of a number. -/
theorem isNumberCont_of_prefixDigit {c : Char} {digit : Char → Bool} (h : prefixDigit c = some digit) :
    isNumberCont c = true ∧ ∀ d, digit d = true → isNumberCont d = true := by
  unfold prefixDigit at h
  split_ifs at h with hx ho hb
  · cases h
    exact ⟨by rcases hx with rfl | rfl <;> rfl, fun _ => isNumberCont_of_isHexDigit⟩
  · cases h
    exact ⟨by rcases ho with rfl | rfl <;> rfl, fun _ => isNumberCont_of_isOctDigit⟩
  · cases h
    exact ⟨by rcases hb with rfl | rfl <;> rfl, fun _ => isNumberCont_of_isBinDigit⟩

/-- Digits are digits and underscores. -/
theorem isNumberCont_of_mem_digits {digit : Char → Bool}
    (hdigit : ∀ c, digit c = true → isNumberCont c = true) (cs : List Char) :
    ∀ c ∈ cs.take (digitsLength digit cs), isNumberCont c = true := by
  induction cs using digitsLength.induct digit with
  | case1 => exact fun c hc => absurd hc List.not_mem_nil
  | case2 c h =>
      rw [digitsLength, if_pos h]
      exact List.forall_mem_singleton.mpr (hdigit c h)
  | case3 c h =>
      rw [digitsLength, if_neg h]
      exact fun c hc => absurd hc List.not_mem_nil
  | case4 c d cs h ih =>
      rw [digitsLength, if_pos h, List.take_succ_cons]
      exact List.forall_mem_cons.mpr ⟨hdigit c h, ih⟩
  | case5 c d cs h hd ih =>
      rw [digitsLength, if_neg h, if_pos hd, List.take_succ_cons, List.take_succ_cons]
      refine List.forall_mem_cons.mpr ⟨?_, List.forall_mem_cons.mpr ⟨hdigit d hd.2, ih⟩⟩
      rw [hd.1]
      rfl
  | case6 c d cs h hd =>
      rw [digitsLength, if_neg h, if_neg hd]
      exact fun c hc => absurd hc List.not_mem_nil

/-- An integer is made of digits and underscores. -/
theorem isNumberCont_of_mem_integer (cs : List Char) :
    ∀ c ∈ cs.take (integerLength cs), isNumberCont c = true := by
  unfold integerLength
  split
  · exact fun c hc => absurd hc List.not_mem_nil
  · rename_i c cs
    split
    · rename_i hc
      rw [List.take_succ_cons]
      exact List.forall_mem_cons.mpr
        ⟨isNumberCont_of_isDigit hc, isNumberCont_of_mem_digits (fun _ => isNumberCont_of_isDigit) cs⟩
    · exact fun c hc => absurd hc List.not_mem_nil

/-- What holds of a front and of what follows holds of both together. -/
theorem forall_mem_take_add {P : Char → Prop} {cs : List Char} {n m : Nat} (hn : ∀ c ∈ cs.take n, P c)
    (hm : ∀ c ∈ (cs.drop n).take m, P c) : ∀ c ∈ cs.take (n + m), P c := by
  rw [List.take_add]
  exact List.forall_mem_append.mpr ⟨hn, hm⟩

/-- A mantissa is made of characters of a number. -/
theorem isNumberCont_of_mem_mantissa (cs : List Char) :
    ∀ c ∈ cs.take (mantissaLength cs), isNumberCont c = true := by
  refine forall_mem_take_add (isNumberCont_of_mem_integer cs) ?_
  generalize cs.drop (integerLength cs) = cs
  unfold fractionLength
  split
  · rename_i h
    obtain ⟨cs, rfl⟩ := List.head?_eq_some_iff.mp h.1
    rw [Nat.add_comm, List.tail_cons, List.take_succ_cons]
    exact List.forall_mem_cons.mpr ⟨rfl, isNumberCont_of_mem_integer cs⟩
  · exact fun c hc => absurd hc List.not_mem_nil

/-- A number in another base is made of characters of a number. -/
theorem isNumberCont_of_mem_prefixed (cs : List Char) :
    ∀ c ∈ cs.take (prefixedLength cs), isNumberCont c = true := by
  unfold prefixedLength
  split
  · rename_i c p cs
    cases hdigit : prefixDigit p with
    | none => exact fun c hc => absurd hc List.not_mem_nil
    | some digit =>
        dsimp only
        split
        · rename_i h
          have hp := isNumberCont_of_prefixDigit hdigit
          rw [Nat.add_comm, List.take_succ_cons, List.take_succ_cons, h.1]
          exact List.forall_mem_cons.mpr
            ⟨rfl, List.forall_mem_cons.mpr ⟨hp.1, isNumberCont_of_mem_digits hp.2 cs⟩⟩
        · exact fun c hc => absurd hc List.not_mem_nil
  · exact fun c hc => absurd hc List.not_mem_nil

/-- The sign of an exponent, if it has one. -/
theorem take_signLength (cs : List Char) :
    cs.take (signLength cs) = [] ∨ cs.take (signLength cs) = ['+'] ∨ cs.take (signLength cs) = ['-'] := by
  unfold signLength
  split
  · rename_i h
    rcases h with h | h
    · obtain ⟨cs, rfl⟩ := List.head?_eq_some_iff.mp h
      exact .inr (.inl rfl)
    · obtain ⟨cs, rfl⟩ := List.head?_eq_some_iff.mp h
      exact .inr (.inr rfl)
  · exact .inl rfl

/-- An exponent is its letter, a sign and digits; a sign is never the last of it. -/
theorem take_exponentLength (cs : List Char) :
    ∃ letter sign digits, cs.take (exponentLength cs) = letter ++ (sign ++ digits) ∧
      (∀ c ∈ letter, isNumberCont c = true) ∧ (∀ c ∈ digits, isNumberCont c = true) ∧
      (sign = [] ∨ (sign = ['+'] ∨ sign = ['-']) ∧ digits.head?.any Char.isDigit = true) := by
  have hnone : ∃ letter sign digits : List Char, [] = letter ++ (sign ++ digits) ∧
      (∀ c ∈ letter, isNumberCont c = true) ∧ (∀ c ∈ digits, isNumberCont c = true) ∧
      (sign = [] ∨ (sign = ['+'] ∨ sign = ['-']) ∧ digits.head?.any Char.isDigit = true) :=
    ⟨[], [], [], rfl, fun _ hc => absurd hc List.not_mem_nil, fun _ hc => absurd hc List.not_mem_nil,
      .inl rfl⟩
  unfold exponentLength
  split
  · exact hnone
  rename_i c cs
  dsimp only
  split
  swap
  · exact hnone
  rename_i h
  obtain ⟨hc, hpos⟩ := h
  refine ⟨[c], cs.take (signLength cs),
    (cs.drop (signLength cs)).take (integerLength (cs.drop (signLength cs))), ?_, ?_,
    isNumberCont_of_mem_integer _, (take_signLength cs).imp_right fun hsign => ⟨hsign, ?_⟩⟩
  · rw [Nat.add_comm, List.take_succ_cons, List.take_add]
    rfl
  · refine List.forall_mem_singleton.mpr ?_
    rcases hc with rfl | rfl <;> rfl
  · generalize cs.drop (signLength cs) = digits at hpos
    unfold integerLength at hpos ⊢
    split at hpos
    · exact absurd rfl hpos
    · split at hpos
      · rename_i hd
        rw [if_pos hd]
        exact hd
      · exact absurd rfl hpos

/-- **What a number is made of**: a run of letters, digits, underscores and points, the sign of an exponent or
none, and another such run, which a digit starts when a sign stands in front of it. -/
theorem take_numberLength (cs : List Char) :
    ∃ mantissa sign digits, cs.take (numberLength cs) = mantissa ++ (sign ++ digits) ∧
      (∀ c ∈ mantissa, isNumberCont c = true) ∧ (∀ c ∈ digits, isNumberCont c = true) ∧
      (sign = [] ∨ (sign = ['+'] ∨ sign = ['-']) ∧ digits.head?.any Char.isDigit = true) := by
  unfold numberLength
  split
  · exact ⟨_, [], [], (List.append_nil _).symm, isNumberCont_of_mem_prefixed cs,
      fun c hc => absurd hc List.not_mem_nil, .inl rfl⟩
  rw [List.take_add]
  obtain ⟨letter, sign, digits, hexponent, hletter, hdigits, hsign⟩ :=
    take_exponentLength (cs.drop (mantissaLength cs))
  refine ⟨cs.take (mantissaLength cs) ++ letter, sign, digits, ?_, ?_, hdigits, hsign⟩
  · rw [hexponent, List.append_assoc]
  · exact List.forall_mem_append.mpr ⟨isNumberCont_of_mem_mantissa cs, hletter⟩

theorem fractionLength_le (cs : List Char) : fractionLength cs ≤ cs.length := by
  unfold fractionLength
  split
  · rename_i h
    obtain ⟨cs, rfl⟩ := List.head?_eq_some_iff.mp h.1
    rw [Nat.add_comm]
    exact Nat.succ_le_succ (integerLength_le cs)
  · exact Nat.zero_le _

theorem exponentLength_le (cs : List Char) : exponentLength cs ≤ cs.length := by
  unfold exponentLength
  split
  · exact Nat.le_refl 0
  rename_i c cs
  dsimp only
  split
  · have hdigits := integerLength_le (cs.drop (signLength cs))
    rename_i h
    rw [List.length_drop] at hdigits
    rw [List.length_cons]
    omega
  · exact Nat.zero_le _

theorem prefixedLength_le (cs : List Char) : prefixedLength cs ≤ cs.length := by
  unfold prefixedLength
  split
  · rename_i c p cs
    cases prefixDigit p with
    | none => exact Nat.zero_le _
    | some digit =>
        dsimp only
        split
        · rw [Nat.add_comm]
          exact Nat.add_le_add_right (digitsLength_le digit cs) 2
        · exact Nat.zero_le _
  · exact Nat.zero_le _

/-- A number is no longer than the text. -/
theorem numberLength_le (cs : List Char) : numberLength cs ≤ cs.length := by
  unfold numberLength
  split
  · exact prefixedLength_le cs
  · have hinteger := integerLength_le cs
    have hfraction := fractionLength_le (cs.drop (integerLength cs))
    have hexponent := exponentLength_le (cs.drop (mantissaLength cs))
    rw [List.length_drop] at hfraction hexponent
    have hmantissa : mantissaLength cs ≤ cs.length := by
      unfold mantissaLength
      omega
    omega

/-- What starts a number is in it. -/
theorem one_le_numberLength {c : Char} {rest : List Char} (h : startsNumber c rest = true) :
    1 ≤ numberLength (c :: rest) := by
  unfold numberLength
  split
  · exact Nat.one_le_iff_ne_zero.mpr ‹_›
  refine le_trans ?_ (Nat.le_add_right _ _)
  unfold startsNumber at h
  rw [Bool.or_eq_true, Bool.and_eq_true, beq_iff_eq] at h
  unfold mantissaLength
  by_cases hc : c.isDigit = true
  · have hinteger : integerLength (c :: rest) = digitsLength Char.isDigit rest + 1 := if_pos hc
    omega
  · obtain ⟨rfl, hdigit⟩ := h.resolve_left hc
    have hone : rest.head? ≠ some '.' := by
      intro hdot
      rw [hdot] at hdigit
      cases hdigit
    have hfraction : fractionLength ('.' :: rest) = 1 + integerLength rest := if_pos ⟨rfl, hone⟩
    have hinteger : integerLength ('.' :: rest) = 0 := rfl
    rw [hinteger, List.drop_zero]
    omega

/-- Trailing junk takes a number away and never moves its end. -/
theorem eq_of_unlessJunk {n m : Nat} {rest : List Char} (h : unlessJunk n rest = some m) : m = n := by
  unfold unlessJunk at h
  split at h
  · cases h
  · exact (Option.some.inj h).symm

/-- What a dollar opens closes inside the text. -/
theorem dollarLexeme_le {rest : List Char} {kind : Kind} {n : Nat} (h : dollarLexeme rest = (kind, some n)) :
    n ≤ rest.length := by
  unfold dollarLexeme at h
  split at h
  · exact dollarEnd_le (Prod.mk.inj h).2
  · split at h
    · cases (Prod.mk.inj h).2
      exact Nat.zero_le _
    · rw [eq_of_unlessJunk (Prod.mk.inj h).2]
      exact takeWhile_length_le Char.isDigit rest

/-- **A token ends inside the text.** -/
theorem lexeme_le {k : Continuation} {c : Char} {rest : List Char} {kind : Kind} {n : Nat}
    (h : lexeme k c rest = (kind, some n)) : n ≤ rest.length := by
  have htail {m : Nat} {d : Char} (hd : rest.head? = some d) (hm : m ≤ rest.tail.length) :
      1 + m ≤ rest.length := by
    rw [List.length_tail] at hm
    have : rest ≠ [] := by
      rintro rfl
      cases hd
    have := List.length_pos_iff.mpr this
    omega
  unfold lexeme at h
  split_ifs at h with hq hk hdq hdollar hline hblock hesc hident hnumber hdots
  · exact escapedEnd_le (Prod.mk.inj h).2
  · exact quotedEnd_le (Prod.mk.inj h).2
  · exact quotedEnd_le (Prod.mk.inj h).2
  · exact dollarLexeme_le h
  · cases (Prod.mk.inj h).2
    exact htail hline.2 (takeWhile_length_le _ _)
  · obtain ⟨m, hm, rfl⟩ := Option.map_eq_some_iff.mp (Prod.mk.inj h).2
    exact htail hblock.2 (blockEnd_le hm)
  · obtain ⟨m, hm, rfl⟩ := Option.map_eq_some_iff.mp (Prod.mk.inj h).2
    exact htail hesc.2 (escapedEnd_le hm)
  · cases (Prod.mk.inj h).2
    exact takeWhile_length_le _ _
  · rw [eq_of_unlessJunk (Prod.mk.inj h).2]
    have := numberLength_le (c :: rest)
    rw [List.length_cons] at this
    omega
  · cases (Prod.mk.inj h).2
    exact htail hdots.2 (Nat.zero_le _)
  · cases (Prod.mk.inj h).2
    exact Nat.zero_le _

end PgLexer
