import Krabka.Lib.Results

/-!
# `Security.JavaPattern` — patterns compiled for Java's matching

The constructor of `JavaPattern` (`java_regex.rs`). It rewrites Java's predefined classes into the syntax of
the `regex` crate and keeps the pattern as written beside what the crate compiles.
-/

namespace Krabka.Security

/-- What the patterns take from the `regex` crate. -/
structure RegexCrate where
  Regex : Type
  Error : Type
  /-- `Regex::new`. -/
  compile : List Char → Except Error Regex
  /-- `regex::escape`, of one character. -/
  escape : Char → List Char

variable (R : RegexCrate)

structure JavaPattern where
  source : List Char
  unanchored : R.Regex
  whole : R.Regex

/-- What an escaped character is rewritten to. A word boundary is one outside of a class only. -/
def asciiEscape (classDepth : Nat) (escaped : Char) : List Char :=
  if escaped = 'd' then "[0-9]".toList
  else if escaped = 'D' then "[^0-9]".toList
  else if escaped = 'w' then "[0-9A-Za-z_]".toList
  else if escaped = 'W' then "[^0-9A-Za-z_]".toList
  else if escaped = 's' then "[\\t\\n\\x0B\\f\\r ]".toList
  else if escaped = 'S' then "[^\\t\\n\\x0B\\f\\r ]".toList
  else if escaped = 'b' ∧ classDepth = 0 then "(?-u:\\b)".toList
  else if escaped = 'B' ∧ classDepth = 0 then "(?-u:\\B)".toList
  else if !escaped.isAlphanum then R.escape escaped
  else ['\\', escaped]

def asciiPredefinedClasses (classDepth : Nat) : List Char → List Char
  | [] => []
  | ['\\'] => ['\\']
  | '\\' :: escaped :: chars => asciiEscape R classDepth escaped ++ asciiPredefinedClasses classDepth chars
  | '[' :: chars => '[' :: asciiPredefinedClasses (classDepth + 1) chars
  | ']' :: chars => ']' :: asciiPredefinedClasses (classDepth - 1) chars
  | other :: chars => other :: asciiPredefinedClasses classDepth chars

def JavaPattern.new (pattern : List Char) : Except R.Error (JavaPattern R) := do
  let translated := asciiPredefinedClasses R 0 pattern
  let unanchored ← R.compile translated
  let whole ← R.compile ("\\A(?:".toList ++ translated ++ ")\\z".toList)
  return ⟨pattern, unanchored, whole⟩

/-- The pattern as written. -/
def JavaPattern.asStr {R : RegexCrate} (p : JavaPattern R) : List Char := p.source

theorem asStr_new {R : RegexCrate} {pattern : List Char} {p : JavaPattern R}
    (h : JavaPattern.new R pattern = .ok p) :
    p.asStr = pattern := by
  obtain ⟨unanchored, _, h⟩ := Results.bind_eq_ok.mp h
  obtain ⟨whole, _, h⟩ := Results.bind_eq_ok.mp h
  cases h
  rfl

end Krabka.Security
