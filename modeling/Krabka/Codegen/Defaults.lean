import Krabka.Codegen.Schema
import Krabka.Protocol.Records.PayloadReader

/-!
# `Codegen.Defaults` — values of generated types and their defaults

`Value` is what a field of a generated struct holds, in either flavour. The generator writes the default of
a field as a Rust expression in three places: in the `Default` of the owned struct, in that of the borrowed
one, and in the test that leaves a tagged field off the wire. Here each expression is the value it has.
-/

namespace Krabka.Codegen

open ByteStream Krabka.Protocol
open Records (RecordsCodec)

/-! ## Values

One type for both flavours. A struct holds its fields by position and its unknown tagged fields. -/

/-- `ρ` is the type of a records payload. `None` is `null`, and `Some(x)` is `x`. -/
inductive Value (ρ : Type) where
  | bool (b : Bool)
  | int8 (n : Int8)
  | int16 (n : Int16)
  | int32 (n : Int32)
  | int64 (n : Int64)
  | uint16 (n : UInt16)
  | float64 (bits : UInt64)
  | string (s : String)
  | bytes (b : Bytes)
  | uuid (u : Uuid)
  | records (r : ρ)
  | null
  | array (elems : List (Value ρ))
  | struct (fields : List (Value ρ)) (unknown : UnknownTaggedFields)

/-- `a == b` of two `f64`: zero has two signs, and nothing is equal to a NaN. -/
def floatEq (a b : UInt64) : Bool :=
  let magnitude := fun x : UInt64 => x &&& 0x7FFFFFFFFFFFFFFF
  let isNan := fun x : UInt64 => magnitude x > 0x7FF0000000000000
  !isNan a && !isNan b && (a == b || (magnitude a == 0 && magnitude b == 0))

section
variable {ρ : Type} (records : RecordsCodec ρ)

mutual

/-- The derived `PartialEq`. -/
def Value.eq : Value ρ → Value ρ → Bool
  | .bool a, .bool b => a == b
  | .int8 a, .int8 b => a == b
  | .int16 a, .int16 b => a == b
  | .int32 a, .int32 b => a == b
  | .int64 a, .int64 b => a == b
  | .uint16 a, .uint16 b => a == b
  | .float64 a, .float64 b => floatEq a b
  | .string a, .string b => a == b
  | .bytes a, .bytes b => a == b
  | .uuid a, .uuid b => a == b
  | .records a, .records b => records.eq a b
  | .null, .null => true
  | .array as, .array bs => valuesEq as bs
  | .struct as u, .struct bs v => valuesEq as bs && u == v
  | _, _ => false

def valuesEq : List (Value ρ) → List (Value ρ) → Bool
  | [], [] => true
  | a :: as, b :: bs => a.eq b && valuesEq as bs
  | _, _ => false

end

/-! ## Literals

The texts of integers as the generator reads them. A text that Rust would read otherwise is taken for one that
does not compile. -/

/-- A sign and the text behind it. -/
def splitSign : List Char → Bool × List Char
  | '-' :: cs => (true, cs)
  | cs => (false, cs)

def hexDigit (c : Char) : Option Nat :=
  if c.isDigit then some (c.toNat - '0'.toNat)
  else if 'a' ≤ c ∧ c ≤ 'f' then some (c.toNat - 'a'.toNat + 10)
  else if 'A' ≤ c ∧ c ≤ 'F' then some (c.toNat - 'A'.toNat + 10)
  else none

def parseHex (cs : List Char) : Option Nat :=
  if cs.isEmpty then none
  else cs.foldlM (fun n c => (hexDigit c).map (n * 16 + ·)) 0

def parseDecimal (cs : List Char) : Option Nat :=
  if cs.isEmpty || !cs.all Char.isDigit then none else some (Nat.ofDigitChars 10 cs 0)

/-- `hex_to_signed`: the low `bits` bits, where the top one is a sign. -/
def hexToSigned (bits v : Nat) : Int := (BitVec.ofNat bits v).toInt

/-- The number that `format_int_literal` writes for a text; `none` where it writes no literal. A text that holds
    `_`, or starts with `0b` or `0o`, is taken for none as well, although the compiler reads some of these. -/
def formatIntLiteral (bits : Nat) (s : List Char) : Option Int :=
  let (negative, cs) := splitSign s
  let digits := Text.trimMatches Text.isWhitespace cs
  match (Text.stripPrefix ['0', 'x'] digits).or (Text.stripPrefix ['0', 'X'] digits) with
  | some hex =>
      (parseHex hex).bind fun v =>
        if v < 2 ^ 64 then
          let signed := hexToSigned bits v
          some (if negative || signed < 0 then -signed.natAbs else signed)
        else none
  | none => (parseDecimal digits).map fun n => if negative then -n else n

/-- The number of a Rust literal of a narrow type, which keeps its own base. A literal with `_`, `0b` or `0o`
    counts as one that does not compile. -/
def narrowLiteral (s : List Char) : Option Int :=
  let (negative, digits) := splitSign s
  let number :=
    match Text.stripPrefix ['0', 'x'] digits with
    | some hex => parseHex hex
    | none => parseDecimal digits
  number.map fun n => if negative then -n else n

/-- A literal that does not fit its type is refused by the compiler. -/
def inRange (bits : Nat) (n : Int) : Option Int :=
  if -2 ^ (bits - 1) ≤ n ∧ n < 2 ^ (bits - 1) then some n else none

/-- `n.to_string()` of a JSON number. A fraction is no integer literal. -/
def numberText : Json.Number → List Char
  | .posInt n => (toString n.toNat).toList
  | .negInt n => (toString n.toInt).toList
  | .float _ => ['.']

/-- `parse_string_default_as_i64(s) == Some(0)`: at least one digit, and all of them 0. -/
def parsesAsZero (s : List Char) : Bool :=
  let trimmed := Text.trimMatches Text.isWhitespace s
  let digits :=
    match trimmed with
    | '+' :: cs => cs
    | '-' :: cs => cs
    | cs => cs
  !digits.isEmpty && digits.all (· == '0')

/-- The schema's text for an integer default. -/
def intDefault (bits : Nat) (s : List Char) : Option Int :=
  let trimmed := Text.trimMatches Text.isWhitespace s
  (if bits < 32 then narrowLiteral trimmed else formatIntLiteral bits trimmed).bind (inRange bits)

/-! ## Defaults of a type

Each table of the generator is a function from the type, and from the text of the default where there is one.
-/

/-- `Default::default()` of a type that is no `Option`; `structs` is that of the struct types. -/
def rustDefault (structs : String → Value ρ) : FieldType → Value ρ
  | .array _ => .array []
  | .base .bool => .bool false
  | .base .int8 => .int8 0
  | .base .int16 => .int16 0
  | .base .int32 => .int32 0
  | .base .int64 => .int64 0
  | .base .uint16 => .uint16 0
  | .base .float64 => .float64 0
  | .base .string => .string ""
  | .base .bytes => .bytes []
  | .base .uuid => .uuid Uuid.zero
  | .base .records => .records records.default
  | .base (.struct name) => structs name
  -- the generator has no codec for these
  | .base .uint32 => .null
  | .base (.other _) => .null

namespace FieldSpec

/-- The schema says that the default is null, as a JSON null. -/
def defaultIsJsonNull (f : FieldSpec) : Bool :=
  match f.default with
  | some .null => true
  | _ => false

/-- Or as the text `"null"`. -/
def defaultIsNull (f : FieldSpec) : Bool :=
  match f.default with
  | some .null => true
  | some (.string s) => s = "null".toList
  | _ => false

/-- What the defaults and the tagged codecs take for nullable. -/
def nullable (f : FieldSpec) : Bool := f.isNullable || f.defaultIsJsonNull

/-- The Rust type of the field is an `Option`. -/
def isOption (f : FieldSpec) : Bool := f.isNullable || (f.isTagged && f.defaultIsJsonNull)

end FieldSpec

/-- `scalar_owned_default`, for the base type of a field. The result is `none` when the expression does not
    compile; `string` is what the expression for a string denotes. -/
def scalarDefault (structs : String → Value ρ) (string : List Char → Option String) (base : FieldType)
    (val : Json.Value) : Option (Value ρ) :=
  match val with
  | .string s =>
      if s = "null".toList then some .null
      else
        match base with
        | .base .string => (string s).map .string
        | .base .bool => some (.bool (s = "true".toList))
        | .base .int8 => (intDefault 8 s).map fun n => .int8 (Int8.ofInt n)
        | .base .int16 => (intDefault 16 s).map fun n => .int16 (Int16.ofInt n)
        | .base .int32 => (intDefault 32 s).map fun n => .int32 (Int32.ofInt n)
        | .base .int64 => (intDefault 64 s).map fun n => .int64 (Int64.ofInt n)
        | t => some (rustDefault records structs t)
  | .number n =>
      match base with
      | .base .int8 => (intDefault 8 (numberText n)).map fun n => .int8 (Int8.ofInt n)
      | .base .int16 => (intDefault 16 (numberText n)).map fun n => .int16 (Int16.ofInt n)
      | .base .int32 => (intDefault 32 (numberText n)).map fun n => .int32 (Int32.ofInt n)
      | .base .int64 => (intDefault 64 (numberText n)).map fun n => .int64 (Int64.ofInt n)
      | t => some (rustDefault records structs t)
  | .bool b =>
      match base with
      | .base .bool => some (.bool b)
      | t => some (rustDefault records structs t)
  | _ => some (rustDefault records structs base)

/-- `owned_default_expr` and `borrowed_default_expr`, which differ in how they write a string. -/
def defaultExpr (structs : String → Value ρ) (string : List Char → Option String) (f : FieldSpec) :
    Option (Value ρ) :=
  if f.baseType = .base .records && f.nullable then some .null
  else if f.nullable && f.defaultIsNull then some .null
  else if f.fieldType.isArray then some (.array [])
  else
    match f.default with
    | none => some (rustDefault records structs f.baseType)
    | some val => scalarDefault records structs string f.baseType val

/-! ## The owned flavour

`Default` is derived unless some field asks for a value of its own. -/

/-- `{s:?}` escapes what a literal cannot hold, so it denotes the text itself. -/
def debugLiteral (s : List Char) : Option String := some (String.ofList s)

/-- A field's default differs from that of its Rust type. -/
def FieldSpec.needsManualDefault (f : FieldSpec) : Bool :=
  if f.nullable then !f.defaultIsNull
  else
    match f.default with
    | none => false
    | some .null => false
    | some (.bool b) => b
    | some (.string s) =>
        !(s = "null".toList || s = "false".toList || s.isEmpty || parsesAsZero s)
    | some (.number n) => n.asI64 ≠ some 0
    | some _ => true

def needsManualDefault (fields : List FieldSpec) : Bool := fields.any (·.needsManualDefault)

/-- `#[derive(Default)]`. -/
def derivedDefault (structs : String → Value ρ) (f : FieldSpec) : Value ρ :=
  if f.isOption then .null else rustDefault records structs f.fieldType

/-- The fields of the owned struct's `Default`. A field whose expression does not compile has no default;
    the model answers null for it. -/
def ownedDefaults (structs : String → Value ρ) (fields : List FieldSpec) : List (Value ρ) :=
  if needsManualDefault fields then
    fields.map fun f => (defaultExpr records structs debugLiteral f).getD .null
  else fields.map (derivedDefault records structs)

/-! ## The test of a tagged field

A tagged field is written when it differs from what stands in its test, which is not always what `Default`
gives. -/

/-- What `tagged_is_default_cond` compares the field with. A test `is_none()` compares it with null, one
    `is_empty()` with the empty array. -/
def comparedDefault (structs : String → Value ρ) (f : FieldSpec) : Option (Value ρ) :=
  if f.baseType = .base .records && f.nullable then some .null
  else if f.nullable && f.defaultIsNull then some .null
  else
    match f.default with
    | none =>
        if f.fieldType.isArray then some (.array [])
        else some (rustDefault records structs f.baseType)
    | some val =>
        match scalarDefault records structs debugLiteral f.baseType val with
        | some .null => some .null
        | expected =>
            if !f.nullable && f.fieldType.isArray then some (.array []) else expected

/-- `tagged_should_encode`: a Boolean field has a test of its own. -/
def taggedShouldEncode (structs : String → Value ρ) (f : FieldSpec) (v : Value ρ) : Bool :=
  let fromDefault := !(comparedDefault records structs f).any (v.eq records ·)
  if f.baseType = .base .bool then
    match f.default with
    | some (.bool b) => !v.eq records (.bool b)
    | some (.string s) =>
        if s = "true".toList then !v.eq records (.bool true)
        else if s = "false".toList then !v.eq records (.bool false)
        else fromDefault
    | _ => fromDefault
  else fromDefault

end

end Krabka.Codegen
