import Mathlib
import Krabka.Lib.Text

/-!
# `TraceContext.SqlCommenter` — a trace context in a comment of a SQL statement

Database drivers append `/*traceparent='00-<32 hex>-<16 hex>-<2 hex>'*/` to the statements they send. The
scanner walks the statement past string literals and quoted identifiers, and reads the first comment that
carries a valid tag.

A `&str` that borrows from the statement is a `Slice`: its characters and where they start.
-/

namespace Krabka
namespace TraceContext

/-! ## Slices

A part of the statement: its characters, and where they start. -/

/-- Part of a statement. -/
structure Slice where
  start : Nat
  text : List Char
deriving DecidableEq, Repr

/-- `s.get(from..to)`. -/
def Slice.get (s : Slice) (first last : Nat) : Slice :=
  ⟨s.start + first, (s.text.drop first).take (last - first)⟩

/-! ## The W3C `traceparent` (`carrier.rs`)

The fields are cut at fixed places of the text and checked one by one. -/

inductive TraceContextError where
  | length (got : Nat)
  | unsupportedVersion
  | malformed
  | zeroTraceId
  | zeroSpanId
deriving DecidableEq, Repr

/-- What the parsed header says. Every context read from a header is a remote one. -/
structure SpanContext where
  traceId : Nat
  spanId : Nat
  flags : Nat
deriving DecidableEq, Repr

def traceparentLen : Nat := 55

/-- `b'0'..=b'9' | b'a'..=b'f'`. -/
def isLowerHexByte (b : UInt8) : Bool := (0x30 ≤ b && b ≤ 0x39) || (0x61 ≤ b && b ≤ 0x66)

def isLowerHex (bytes : List UInt8) : Bool := bytes.all isLowerHexByte

def hexDigit (b : UInt8) : Nat := if b ≤ 0x39 then b.toNat - 0x30 else b.toNat - 0x57

/-- `from_hex` of bytes that are all lower-case hexadecimal. -/
def fromHex (bytes : List UInt8) : Nat := bytes.foldl (fun n b => 16 * n + hexDigit b) 0

/-- `bytes.get(range)`, in bounds behind the length check. -/
def field (bytes : List UInt8) (first last : Nat) : List UInt8 := (bytes.drop first).take (last - first)

def parseTraceparent (value : List Char) : Except TraceContextError SpanContext :=
  let bytes := Text.bytesOf value
  let traceId := field bytes 3 35
  let spanId := field bytes 36 52
  let flags := field bytes 53 55
  if bytes.length ≠ traceparentLen then .error (.length bytes.length)
  else if field bytes 0 2 ≠ [0x30, 0x30] then .error .unsupportedVersion
  else if [2, 35, 52].any (fun separator => bytes[separator]? ≠ some 0x2d) then .error .malformed
  else if !isLowerHex traceId || !isLowerHex spanId || !isLowerHex flags then .error .malformed
  else if traceId.all (· == 0x30) then .error .zeroTraceId
  else if spanId.all (· == 0x30) then .error .zeroSpanId
  else .ok ⟨fromHex traceId, fromHex spanId, fromHex flags⟩

/-! ## One `key=value` of a comment

A key counts where no identifier runs into it, and a value may stand in quotes. -/

/-- A field name: a word of lower-case letters. It is not empty, so a search for it always moves on. -/
structure Key where
  text : List Char
  ne_nil : text ≠ []
  lower : text.all Char.isLower = true

def traceparent : Key := ⟨"traceparent".toList, by decide, by decide⟩
def tracestate : Key := ⟨"tracestate".toList, by decide, by decide⟩

/-- `u8::is_ascii_whitespace`. -/
def isAsciiWhitespace (c : Char) : Bool :=
  c == ' ' || c == '\t' || c == '\n' || c == '\x0c' || c == '\r'

def isIdentifierByte (c : Char) : Bool := c.isAlphanum || c == '_'

def isValueTerminator (c : Char) : Bool :=
  isAsciiWhitespace c || c == ',' || c == '*' || c == '/' || c == '\'' || c == '"'

def skipSpaces (text : List Char) (index : Nat) : Nat :=
  index + ((text.drop index).takeWhile isAsciiWhitespace).length

/-- The value of a pair whose key ends at `index`: in single quotes, or up to the next delimiter. -/
def readValue (content : Slice) (index : Nat) : Option Slice :=
  let cursor := skipSpaces content.text index
  if content.text[cursor]? ≠ some '=' then none
  else
    let cursor := skipSpaces content.text (cursor + 1)
    if content.text[cursor]? = some '\'' then
      (Text.find ['\''] (content.text.drop (cursor + 1))).map
        (fun len => content.get (cursor + 1) (cursor + 1 + len))
    else
      let len := ((content.text.drop cursor).takeWhile (!isValueTerminator ·)).length
      if len = 0 then none else some (content.get cursor (cursor + len))

def precededByIdentifier (content : Slice) (start : Nat) : Bool :=
  start != 0 && (content.text[start - 1]?).any isIdentifierByte

/-- The value behind an occurrence of `key` that is a word of its own. -/
def valueAt (content : Slice) (key : Key) (start : Nat) : Option Slice :=
  if precededByIdentifier content start then none
  else readValue content (start + key.text.length)

/-- The search for `key` from an offset on. An occurrence that is part of a longer word or that no value
follows is passed over. -/
def findFieldFrom (content : Slice) (key : Key) (offset : Nat) : Option Slice :=
  match _h : Text.find key.text (content.text.drop offset) with
  | none => none
  | some skipped =>
      match valueAt content key (offset + skipped) with
      | some value => some value
      | none => findFieldFrom content key (offset + skipped + key.text.length)
termination_by content.text.length - offset
decreasing_by
  have hle := Text.add_le_of_find _h
  have hpos := List.length_pos_iff.mpr key.ne_nil
  rw [List.length_drop] at hle
  omega

def findField (content : Slice) (key : Key) : Option Slice := findFieldFrom content key 0

/-! ## One comment

Both fields are looked for in the content of the comment, in any order. -/

/-- A trace context read out of a tag. Both fields borrow from the statement. -/
structure SqlCommenterTrace where
  traceparent : Slice
  tracestate : Option Slice
deriving DecidableEq, Repr

def readComment (content : Slice) : Option SqlCommenterTrace :=
  match findField content traceparent with
  | none => none
  | some value =>
      match parseTraceparent value.text with
      | .error _ => none
      | .ok _ => some ⟨value, findField content tracestate⟩

/-! ## The scan

What a helper skips it counts: the characters of its argument up to the end of the construct. -/

/-- The rest of a `'…'` or a `"…"` behind its opening quote. -/
def skipQuoted (quote : Char) : List Char → Option Nat
  | [] => none
  | [c] => if c ≠ quote then none else some 1
  | c :: d :: cs =>
      if c ≠ quote then (skipQuoted quote (d :: cs)).map (· + 1)
      else if d = quote then (skipQuoted quote cs).map (· + 2)
      else some 1

/-- The `$tag$` delimiter that a `$` opens, when `cs` is what follows that `$`. -/
def dollarQuoteDelimiter (cs : List Char) : Option (List Char) :=
  if cs.head?.any Char.isDigit then none
  else
    let tag := cs.takeWhile isIdentifierByte
    if (cs.drop tag.length).head? = some '$' then some ('$' :: tag ++ ['$']) else none

def lineCommentEnd (cs : List Char) : Nat := (cs.takeWhile (· != '\n')).length

/-- The end of a block comment whose opener has been read, and whether it was closed. -/
def blockCommentEnd (depth : Nat) : List Char → Nat × Bool
  | [] => (0, false)
  | [_] => (1, false)
  | c :: d :: cs =>
      if c = '/' ∧ d = '*' then
        let (n, closed) := blockCommentEnd (depth + 1) cs
        (n + 2, closed)
      else if c = '*' ∧ d = '/' then
        if depth - 1 = 0 then (2, true)
        else
          let (n, closed) := blockCommentEnd (depth - 1) cs
          (n + 2, closed)
      else
        let (n, closed) := blockCommentEnd depth (d :: cs)
        (n + 1, closed)

/-- What one turn of the walk does. -/
inductive Turn where
  | stop
  | found (trace : SqlCommenterTrace)
  /-- The walk goes on behind so many characters after the current one. -/
  | skip (n : Nat)

/-- The turn at character `c`, `index` characters into the statement. -/
def turn (index : Nat) (c : Char) (rest : List Char) : Turn :=
  if c = '\'' then
    match skipQuoted '\'' rest with
    | none => .stop
    | some n => .skip n
  else if c = '"' then
    match skipQuoted '"' rest with
    | none => .stop
    | some n => .skip n
  else if c = '$' then
    match dollarQuoteDelimiter rest with
    -- not a dollar quote: a positional parameter such as `$1`
    | none => .skip 0
    | some delimiter =>
        match Text.find delimiter (rest.drop (delimiter.length - 1)) with
        | none => .stop
        | some n => .skip (delimiter.length - 1 + n + delimiter.length)
  else if c = '-' ∧ rest.head? = some '-' then
    let len := lineCommentEnd rest.tail
    match readComment ⟨index + 2, rest.tail.take len⟩ with
    | some found => .found found
    | none => .skip (1 + len)
  else if c = '/' ∧ rest.head? = some '*' then
    match blockCommentEnd 1 rest.tail with
    | (_, false) => .stop
    | (len, true) =>
        match readComment ⟨index + 2, rest.tail.take (len - 2)⟩ with
        | some found => .found found
        | none => .skip (1 + len)
  else .skip 0

def scanComments (index : Nat) : List Char → Option SqlCommenterTrace
  | [] => none
  | c :: rest =>
      match turn index c rest with
      | .stop => none
      | .found trace => some trace
      | .skip n => scanComments (index + 1 + n) (rest.drop n)
termination_by cs => cs.length
decreasing_by simp

/-- The word decides whether the walk starts at all. -/
def extractSqlcommenter (sql : String) : Option SqlCommenterTrace :=
  match Text.find traceparent.text sql.toList with
  | none => none
  | some _ => scanComments 0 sql.toList

end TraceContext
end Krabka
