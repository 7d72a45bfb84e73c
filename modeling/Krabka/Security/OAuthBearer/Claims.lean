import Krabka.Lib.Json
import Krabka.Lib.Results
import Krabka.Lib.Text
import Krabka.Security.Principal

/-!
# `Security.OAuthBearer.Claims` — reading a token's claims

The readers of `oauthbearer.rs` that the three validators share: dates, scopes, audience, principal name and
groups. A claim set is a JSON value. Times are exact seconds, and a `JsonPath` expression is the function it
computes, `none` when its evaluation fails.
-/

namespace Krabka.Security.OAuthBearer

open FixedWidth Text ByteStream Json

/-- An evaluated `JsonPath` expression. -/
abbrev JpQuery := Value → Option (List Value)

/-- An extent of time in seconds. -/
abbrev Time := ℚ

/-- The library functions that read a token. `floatMillis` converts a fractional `NumericDate`, in seconds,
to milliseconds. -/
structure Externals where
  decodeBase64Url : List Char → Option Bytes
  parseJson : Bytes → Option Value
  showFloat : ℚ → List Char
  floatMillis : ℚ → Option Int64

structure AuthOutcome where
  principal : Principal
  expiresAtMs : Option Int64

def orInvalid {α : Type} : Option α → Except AuthError α := Results.okOr .invalidToken

/-- A check that refuses the token. -/
def rejectIf (p : Prop) [Decidable p] : Except AuthError Unit :=
  if p then .error .invalidToken else .ok ()

theorem orInvalid_eq_ok {α : Type} {o : Option α} {a : α} : orInvalid o = .ok a ↔ o = some a :=
  Results.okOr_eq_ok

theorem rejectIf_eq_ok {p : Prop} [Decidable p] {u : Unit} : rejectIf p = .ok u ↔ ¬p := by
  unfold rejectIf
  split <;> simp_all

/-! ## Names of claims

The keys as lists of characters. -/

def algKey : List Char := ['a', 'l', 'g']
def typKey : List Char := ['t', 'y', 'p']
def expKey : List Char := ['e', 'x', 'p']
def iatKey : List Char := ['i', 'a', 't']
def nbfKey : List Char := ['n', 'b', 'f']
def issKey : List Char := ['i', 's', 's']
def audKey : List Char := ['a', 'u', 'd']
def subKey : List Char := ['s', 'u', 'b']
def activeKey : List Char := ['a', 'c', 't', 'i', 'v', 'e']
def scopeKey : List Char := ['s', 'c', 'o', 'p', 'e']
def clientIdKey : List Char := ['c', 'l', 'i', 'e', 'n', 't', '_', 'i', 'd']

/-! ## Dates

Seconds become milliseconds, a whole number exactly and a fraction through `f64`. -/

/-- `value.round()`: to nearest, halves away from zero. -/
def roundHalfAway (x : ℚ) : Int := if x < 0 then -⌊-x + 1 / 2⌋ else ⌊x + 1 / 2⌋

/-- `round_i64` of the units crate. -/
def roundI64 (x : ℚ) : Int64 := Int64.ofIntClamp (roundHalfAway x)

def millisI64 (t : Time) : Int64 := roundI64 (t * 1000)

def skewMillis (skew : Time) : Int64 := millisI64 skew

def numericDateMs (ext : Externals) (claims : Value) (key : List Char) : Option Int64 := do
  let v ← claims.get key
  match v.asI64 with
  | some secs => checkedMulI64 secs 1000
  | none => do
      let secs ← v.asF64
      ext.floatMillis secs

/-! ## Scopes

A text that is split at blanks, or a list of texts. -/

def javaTrim (s : List Char) : List Char := trimMatches (fun c => c.toNat ≤ 0x20) s

def isJavaBlank (s : List Char) : Bool := (javaTrim s).isEmpty

def showNumber (ext : Externals) : Number → List Char
  | .posInt n => Nat.toDigits 10 n.toNat
  | .negInt n => '-' :: Nat.toDigits 10 n.toInt.natAbs
  | .float x => ext.showFloat x

def jacksonText (ext : Externals) : Value → List Char
  | .string s => s
  | .number n => showNumber ext n
  | .bool true => ['t', 'r', 'u', 'e']
  | .bool false => ['f', 'a', 'l', 's', 'e']
  | .null => ['n', 'u', 'l', 'l']
  | .array _ => []
  | .object _ => []

def scopeClaim (ext : Externals) (claims : Value) (claimName : List Char) :
    Except AuthError (List (List Char)) := do
  let items ←
    match claims.get claimName with
    | none => pure []
    | some (.number _) => throw .invalidToken
    | some (.array elements) => pure (elements.map (jacksonText ext))
    | some other => pure [jacksonText ext other]
  return (items.filter fun item => !isJavaBlank item).map javaTrim

/-! ## Audience, custom check and groups

The expressions are functions of the claims. -/

def audienceContains (claims : Value) (expected : List Char) : Bool :=
  match claims.get audKey with
  | some (.string s) => s == expected
  | some (.array items) => (items.filterMap Value.asStr).any (· == expected)
  | _ => false

/-- `null` and `false`. -/
def isFalsy : Value → Bool
  | .null => true
  | .bool b => !b
  | _ => false

def evaluateCustomClaimCheck (path : JpQuery) (claims : Value) : Bool :=
  match path claims with
  | none => false
  | some refs => !refs.isEmpty && refs.all fun r => !isFalsy r

def groupsOf (delimiter : Option (List Char)) : Value → List (List Char)
  | .string s =>
      match delimiter with
      | some d => ((splitStr d s).map (trimMatches isWhitespace)).filter fun g => !g.isEmpty
      | none => [s]
  | .array items => items.filterMap Value.asStr
  | _ => []

def extractGroups (path : JpQuery) (claims : Value) (delimiter : Option (List Char)) :
    List (List Char) :=
  ((path claims).getD []).flatMap (groupsOf delimiter)

/-! ## The principal

The claim that names it, and the claim that stands in for it. -/

/-- The part of every validator's configuration that says how to identify a client. -/
structure Identification where
  principalClaimName : List Char := subKey
  customClaimCheck : Option JpQuery := none
  fallbackUserNameClaim : Option (List Char) := none
  fallbackUserNamePrefix : Option (List Char) := none
  groupsClaim : Option JpQuery := none
  groupsClaimDelimiter : Option (List Char) := none

/-- A claim's text, unless it counts as absent. -/
def textClaim (isAbsent : List Char → Bool) (claims : Value) (key : List Char) : Option (List Char) :=
  ((claims.get key).bind Value.asStr).filter fun s => !isAbsent s

/-- The principal's name: the primary claim, else the fallback claim behind the prefix. -/
def principalName (isAbsent : List Char → Bool) (id : Identification) (claims : Value) :
    Option (List Char) :=
  match textClaim isAbsent claims id.principalClaimName with
  | some name => some name
  | none =>
      ((id.fallbackUserNameClaim.bind fun key => textClaim isAbsent claims key).map fun raw =>
        match id.fallbackUserNamePrefix with
        | some p => p ++ raw
        | none => raw)

/-- The custom check passes, or there is none. -/
def passesCustomCheck (id : Identification) (claims : Value) : Bool :=
  id.customClaimCheck.all fun path => evaluateCustomClaimCheck path claims

def groups (id : Identification) (claims : Value) : List (List Char) :=
  id.groupsClaim.elim [] fun path => extractGroups path claims id.groupsClaimDelimiter

/-- `decode_json_segment`. -/
def decodeJsonSegment (ext : Externals) (seg : List Char) : Except AuthError Value := do
  let bytes ← orInvalid (ext.decodeBase64Url seg)
  orInvalid (ext.parseJson bytes)

end Krabka.Security.OAuthBearer
