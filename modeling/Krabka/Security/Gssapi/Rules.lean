import Krabka.Lib.Cutting
import Krabka.Security.JavaPattern

/-!
# `Security.Gssapi.Rules` — the `auth_to_local` rules

`Rule::parse` and the printer of rules (`name.rs`). Each optional part of a rule is cut off only when all of
it is there; a part that is not closed stays in the rest, and the flag at the end refuses it.
-/

namespace Krabka.Security.Gssapi

open Text

inductive Case where
  | preserve
  | lower
  | upper
deriving DecidableEq, Repr

variable (R : RegexCrate)

/-- `s/from/to/[g]`. -/
structure Subst where
  fromRe : JavaPattern R
  toText : List Char
  global : Bool

structure Translate where
  numComponents : UInt64
  format : List Char
  matchRe : Option (JavaPattern R)
  subst : Option (Subst R)
  case : Case

inductive Rule where
  | default
  | translate (t : Translate R)

/-- Why a rule does not parse. -/
inductive RuleError where
  | parse (spec : List Char)
  | pattern (spec : List Char) (source : R.Error)

/-- The closure `pattern` of `parse`. -/
def compilePattern (spec source : List Char) : Except (RuleError R) (JavaPattern R) :=
  (JavaPattern.new R source).mapError (.pattern spec)

/-- `(match)`, where there is one. -/
def parseMatch (spec rest : List Char) : Except (RuleError R) (Option (JavaPattern R) × List Char) :=
  match (stripPrefix ['('] rest).bind (splitOnceAt ')') with
  | some (source, after) => do return (some (← compilePattern R spec source), after)
  | none => .ok (none, rest)

/-- `s/from/to/` and what is behind it, where there is one. -/
def cutSubst (rest : List Char) : Option (List Char × List Char × List Char) := do
  let (source, after) ← (stripPrefix ['s', '/'] rest).bind (splitOnceAt '/')
  let (toText, after) ← splitOnceAt '/' after
  return (source, toText, after)

def parseSubst (spec rest : List Char) : Except (RuleError R) (Option (Subst R) × List Char) :=
  match cutSubst rest with
  | some (source, toText, after) =>
      let (global, after) := (stripPrefix ['g'] after).elim (false, after) fun after => (true, after)
      do return (some ⟨← compilePattern R spec source, toText, global⟩, after)
  | none => .ok (none, rest)

def parseCase (rest : List Char) : Option Case :=
  if rest = [] then some .preserve
  else if rest = ['L'] then some .lower
  else if rest = ['U'] then some .upper
  else none

def defaultRule : List Char := "DEFAULT".toList

def rulePrefix : List Char := "RULE:[".toList

def Rule.parse (spec : List Char) : Except (RuleError R) (Rule R) := do
  let spec := trimMatches isWhitespace spec
  if spec = defaultRule then return .default
  let rest ← Results.okOr (.parse spec) (stripPrefix rulePrefix spec)
  let numComponents ← (parseU64 (String.ofList (rest.takeWhile Char.isDigit))).mapError fun _ => .parse spec
  let rest ← Results.okOr (.parse spec) (stripPrefix [':'] (rest.dropWhile Char.isDigit))
  let (format, rest) ← Results.okOr (.parse spec) (splitOnceAt ']' rest)
  let (matchRe, rest) ← parseMatch R spec rest
  let (subst, rest) ← parseSubst R spec rest
  let case ← Results.okOr (.parse spec) (parseCase ((stripPrefix ['/'] rest).getD rest))
  return .translate ⟨numComponents, format, matchRe, subst, case⟩

variable {R}

/-- The flag as the printer writes it. -/
def Case.display : Case → List Char
  | .preserve => []
  | .lower => ['/', 'L']
  | .upper => ['/', 'U']

def Subst.display (s : Subst R) : List Char :=
  ['s', '/'] ++ s.fromRe.asStr ++ ['/'] ++ s.toText ++ ['/'] ++ if s.global then ['g'] else []

/-- `rule.to_string()`. -/
def Rule.display : Rule R → List Char
  | .default => defaultRule
  | .translate t =>
      rulePrefix ++ (showU64 t.numComponents).toList ++ [':'] ++ t.format ++ [']'] ++
        (t.matchRe.elim [] fun re => ['('] ++ re.asStr ++ [')']) ++ (t.subst.elim [] Subst.display) ++
        t.case.display

end Krabka.Security.Gssapi
