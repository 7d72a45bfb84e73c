import Krabka.Codegen.Owned

/-!
# `Codegen.Borrowed` — the borrowed flavour of a generated struct

What the Rust code does that the borrowed generator writes for a schema: the `Default` of each struct, its
`decode_borrow` and its `to_owned`. A text or a byte string that a borrowed value points to is modelled by
itself.

The payload of a tagged field does not outlive the closure that reads it. Where such a field would point into
it, the message's own struct stores the field owned, and a third table of expressions reads it
(`decode_owned_call`).

## Contents
- **Getters.** The readers of borrowed texts and byte strings.
- **Defaults.** A text default is pasted between quotes, so its escapes count.
- **Expressions.** `decode_borrow_call` and `decode_owned_call`.
- **Structs and messages.** As in the owned flavour.
-/

namespace Krabka.Codegen

open ByteStream Krabka.Protocol
open Records (RecordsCodec)

/-! ## Getters

Each takes a slice of the input in place of a copy. The lengths and the errors are those of the owned reader.
-/

def getStringBorrowed : Decode String := do
  let len ← getI16
  match FixedWidth.usizeOfI16 len with
  | none => throw (.invalidValue "non-nullable STRING was null")
  | some n => takeString n

def getNullableStringBorrowed : Decode (Option String) := do
  let len ← getI16
  match FixedWidth.usizeOfI16 len with
  | none => return none
  | some n => some <$> takeString n

def getCompactStringBorrowed : Decode String := do
  let raw ← getUvarint
  if raw = 0 then throw (.invalidValue "non-nullable COMPACT_STRING was null")
  else takeString (raw - 1).toNat

def getCompactNullableStringBorrowed : Decode (Option String) := do
  let raw ← getUvarint
  if raw = 0 then return none else some <$> takeString (raw - 1).toNat

def getBytesBorrowed : Decode Bytes := do
  let len ← getI32
  match FixedWidth.usizeOfI32 len with
  | none => throw (.invalidValue "non-nullable BYTES was null")
  | some n => takeBytes n

def getNullableBytesBorrowed : Decode (Option Bytes) := do
  let len ← getI32
  match FixedWidth.usizeOfI32 len with
  | none => return none
  | some n => some <$> takeBytes n

def getCompactBytesBorrowed : Decode Bytes := do
  let raw ← getUvarint
  if raw = 0 then throw (.invalidValue "non-nullable COMPACT_BYTES was null")
  else takeBytes (raw - 1).toNat

def getCompactNullableBytesBorrowed : Decode (Option Bytes) := do
  let raw ← getUvarint
  if raw = 0 then return none else some <$> takeBytes (raw - 1).toNat

/-! ## Defaults

What Rust makes of a literal that the generator has pasted between quotes without escaping it. -/

/-- Where a lexer stands inside a string literal. -/
inductive LiteralState where
  | text
  | escape
  | hexHigh
  | hexLow (high : Nat)
  | unicodeOpen
  | unicode (digits value : Nat)
  | continuation
deriving DecidableEq, Repr

/-- The escapes of one letter. -/
def simpleEscape : Char → Option Char
  | 'n' => some '\n'
  | 'r' => some '\r'
  | 't' => some '\t'
  | '0' => some '\x00'
  | '\\' => some '\\'
  | '\'' => some '\''
  | '"' => some '"'
  | _ => none

/-- A character of plain text. A bare quote ends the literal early, which leaves no expression. -/
def literalText (c : Char) : Option (LiteralState × List Char) :=
  if c = '"' || c = '\r' then none
  else if c = '\\' then some (.escape, [])
  else some (.text, [c])

/-- One character of a string literal, with what it stands for. -/
def literalStep (state : LiteralState) (c : Char) : Option (LiteralState × List Char) :=
  match state with
  | .text => literalText c
  | .escape =>
      if c = 'x' then some (.hexHigh, [])
      else if c = 'u' then some (.unicodeOpen, [])
      else if c = '\n' then some (.continuation, [])
      else (simpleEscape c).map fun e => (.text, [e])
  | .hexHigh => (hexDigit c).bind fun d => if d < 8 then some (.hexLow d, []) else none
  | .hexLow high => (hexDigit c).map fun d => (.text, [Char.ofNat (16 * high + d)])
  | .unicodeOpen => if c = '\x7b' then some (.unicode 0 0, []) else none
  | .unicode digits value =>
      if c = '\x7d' then
        if h : 0 < digits ∧ value.isValidChar then some (.text, [Char.ofNatAux value h.2]) else none
      else if c = '_' then if 0 < digits then some (.unicode digits value, []) else none
      else if digits < 6 then (hexDigit c).map fun d => (.unicode (digits + 1) (16 * value + d), [])
      else none
  | .continuation => if c ∈ [' ', '\t', '\n', '\r'] then some (.continuation, []) else literalText c

def literalLoop : LiteralState → List Char → Option (List Char)
  | .text, [] => some []
  | .continuation, [] => some []
  | _, [] => none
  | state, c :: cs =>
      (literalStep state c).bind fun (state, out) => (literalLoop state cs).map (out ++ ·)

/-- A source file's line ends are `\n`. -/
def normalizeNewlines : List Char → List Char
  | '\r' :: '\n' :: cs => '\n' :: normalizeNewlines cs
  | c :: cs => c :: normalizeNewlines cs
  | [] => []

/-- What `"{s}"` denotes; `none` where it is no string literal. -/
def pastedLiteral (s : List Char) : Option String :=
  (literalLoop .text (normalizeNewlines s)).map String.ofList

example : pastedLiteral ['a', '\\', 'n'] = some "a\n" := by decide +kernel

mutual

def FieldSpec.needsLifetimeIn (map : ResMap) : FieldSpec → Bool
  | ⟨_, fieldType, _, _, _, _, fields, _, _⟩ =>
      match fieldType.baseType with
      | .base .string | .base .bytes | .base .records => true
      | .base (.struct name) =>
          if fields.isEmpty then (map.lookup name).any (·.needsLifetime) else needsLifetimeIn map fields
      | _ => false

/-- `needs_lifetime`: a field points to text, here or in a struct. -/
def needsLifetimeIn (map : ResMap) : List FieldSpec → Bool
  | [] => false
  | f :: fs => f.needsLifetimeIn map || needsLifetimeIn map fs

end

/-- `tagged_field_needs_owned`. -/
def FieldSpec.taggedNeedsOwned (map : ResMap) (f : FieldSpec) : Bool := f.isTagged && f.needsLifetimeIn map

variable {ρ : Type}

/-- A field of the borrowed struct's `Default`, which is never derived. Only the message's own struct stores
    a field owned; its `Default::default()` is then the owned one. -/
def borrowedDefault (records : RecordsCodec ρ) (topLevel : Bool) (map : ResMap)
    (ownedStructs structs : String → Value ρ) (f : FieldSpec) : Value ρ :=
  (defaultExpr records (if topLevel && f.taggedNeedsOwned map then ownedStructs else structs)
    pastedLiteral f).getD .null

/-! ## Expressions

Two tables: one reads from the input, one reads a tagged field that is stored owned. -/

section
variable (borrow : Bytes → Except ProtocolError ρ) (owned : String → Codec ρ)
  (callee : String → Int16 → Decode (Value ρ)) (version : Int16) (flex : Bool)

/-- `RecordsPayloadBorrowed::decode_borrow` of what is behind the length; `borrow` answers the payload. -/
def borrowRecords (bytes : Bytes) : Decode (Value ρ) :=
  match borrow bytes with
  | .ok r => pure (.records r)
  | .error e => throw e

def decodeBorrowBase : BaseType → Bool → Decode (Value ρ)
  | .int8, _ => do return .int8 (← getI8)
  | .int16, _ => do return .int16 (← getI16)
  | .uint16, _ => do return .uint16 (← getU16)
  | .int32, _ => do return .int32 (← getI32)
  | .int64, _ => do return .int64 (← getI64)
  | .bool, _ => do return .bool (← getBool)
  | .float64, _ => do return .float64 (← getF64)
  | .uuid, _ => do return .uuid (← getUuid)
  | .string, false => do return .string (← either flex getCompactStringBorrowed getStringBorrowed)
  | .string, true => do
      return ofOption .string (← either flex getCompactNullableStringBorrowed getNullableStringBorrowed)
  | .bytes, false => do return .bytes (← either flex getCompactBytesBorrowed getBytesBorrowed)
  | .bytes, true => do
      return ofOption .bytes (← either flex getCompactNullableBytesBorrowed getNullableBytesBorrowed)
  | .records, false => do
      let bytes ← either flex getCompactBytesBorrowed getBytesBorrowed
      borrowRecords borrow bytes
  | .records, true => do
      match ← either flex getCompactNullableBytesBorrowed getNullableBytesBorrowed with
      | none => return .null
      | some bytes => borrowRecords borrow bytes
  | .struct name, false => callee name version
  | .struct name, true => do
      let marker ← getI8
      if marker < 0 then return .null else callee name version
  | .uint32, _ => throw (.schemaMismatch "unhandled type in decode_borrow_call: uint32")
  | .other t, _ => throw (.schemaMismatch ("unhandled type in decode_borrow_call: " ++ t))

def decodeBorrowCall : FieldType → Bool → Decode (Value ρ)
  | .base b, nullable => decodeBorrowBase borrow callee version flex b nullable
  | .array elem, false => do return .array (← getArray flex (decodeBorrowCall elem false))
  | .array elem, true => do return ofOption .array (← getNullableArray flex (decodeBorrowCall elem false))

/-- A struct that is nullable has no marker to read here. -/
def decodeOwnedBase : BaseType → Bool → Decode (Value ρ)
  | .int8, _ => do return .int8 (← getI8)
  | .int16, _ => do return .int16 (← getI16)
  | .uint16, _ => do return .uint16 (← getU16)
  | .int32, _ => do return .int32 (← getI32)
  | .int64, _ => do return .int64 (← getI64)
  | .bool, _ => do return .bool (← getBool)
  | .float64, _ => do return .float64 (← getF64)
  | .uuid, _ => do return .uuid (← getUuid)
  | .string, false => do return .string (← either flex getCompactStringOwned getStringOwned)
  | .string, true => do
      return ofOption .string (← either flex getCompactNullableStringOwned getNullableStringOwned)
  | .struct name, _ => (owned name).decode version
  | .bytes, _ => throw (.schemaMismatch "unhandled type in decode_owned_call: bytes")
  | .records, _ => throw (.schemaMismatch "unhandled type in decode_owned_call: records")
  | .uint32, _ => throw (.schemaMismatch "unhandled type in decode_owned_call: uint32")
  | .other t, _ => throw (.schemaMismatch ("unhandled type in decode_owned_call: " ++ t))

def decodeOwnedCall : FieldType → Bool → Decode (Value ρ)
  | .base b, nullable => decodeOwnedBase owned version flex b nullable
  | .array elem, false => do return .array (← getArray flex (decodeOwnedCall elem false))
  | .array elem, true => do return ofOption .array (← getNullableArray flex (decodeOwnedCall elem false))

/-! ## Structs

The loop over the tagged section answers a closure that keeps a slot for each field. -/

def decodeBorrowForm (t : FieldType) : Form → Decode (Value ρ)
  | .plain => decodeBorrowCall borrow callee version flex t false
  | .nullable => decodeBorrowCall borrow callee version flex t true
  | .unwrapped => decodeBorrowCall borrow callee version flex t false

def decodeBorrowOne (p : FieldSpec × Value ρ) : Decode (Value ρ) :=
  if versionCond p.1.versions version then
    decodeBorrowForm borrow callee version (flex && !p.1.forcesNonFlex) p.1.fieldType (p.1.form version)
  else pure p.2

end

namespace StructDef

variable (d : StructDef) (map : ResMap) (borrow : Bytes → Except ProtocolError ρ)
  (owned : String → Codec ρ) (callee : String → Int16 → Decode (Value ρ)) (version : Int16)

def borrowUntagged (p : FieldSpec × Value ρ) : Decode (Value ρ) :=
  if p.1.isTagged then pure p.2 else decodeBorrowOne borrow callee version (d.flex version) p

def borrowPositional : List (FieldSpec × Value ρ) → Decode (List (Value ρ))
  | [] => pure []
  | p :: ps => do
      let v ← d.borrowUntagged borrow callee version p
      let vs ← borrowPositional ps
      return v :: vs

/-- The payload of a tagged field. -/
def borrowTagged (f : FieldSpec) : Decode (Value ρ) :=
  if f.taggedNeedsOwned map then decodeOwnedCall owned version true f.fieldType f.nullable
  else decodeBorrowCall borrow callee version true f.fieldType f.nullable

def borrowKnown : List (FieldSpec × Option (Value ρ)) → UInt32 → Decode (Option (List (Option (Value ρ))))
  | [], _ => pure none
  | p :: ps, tag =>
      if p.1.tag = some tag then
        if p.1.tagValid d.flexMin version then do
          let v ← borrowTagged map borrow owned callee version p.1
          return some (some v :: ps.map (·.2))
        else throw (.tagNotValidForVersion tag version)
      else do
        let slots ← borrowKnown ps tag
        return slots.map (p.2 :: ·)

def borrowTrailer : Decode (List (Option (Value ρ)) × UnknownTaggedFields) :=
  readTaggedFieldsInto
    (fun tag slots => d.borrowKnown map borrow owned callee version (d.fields.zip slots) tag)
    (d.fields.map fun _ => none)

def borrowFields (defaults : List (Value ρ)) : Decode (Value ρ) := do
  let values ← d.borrowPositional borrow callee version (d.fields.zip defaults)
  if d.hasTrailer version then do
    let (slots, unknown) ← d.borrowTrailer map borrow owned callee version
    return .struct (writeBack values slots) unknown
  else return .struct values []

/-- `decode_borrow`. -/
def decodeBorrow (defaults : List (Value ρ)) : Decode (Value ρ) :=
  match d.guard version with
  | some e => throw e
  | none => d.borrowFields map borrow owned callee version defaults

end StructDef

/-! ## `to_owned`

Field by field. A text is copied, a struct is converted, a records field is parsed. -/

/-- `to_owned_field_expr`: texts are copied, structs convert themselves. -/
def toOwnedFieldExpr (callee : String → Value ρ → Value ρ) : FieldType → Value ρ → Value ρ
  | .array (.base (.struct name)), .array vs => .array (vs.map (callee name))
  | .base (.struct name), .struct vs u => callee name (.struct vs u)
  | _, v => v

/-- One value a field. A field that is stored owned is cloned. -/
def toOwnedFields (callee : String → Value ρ → Value ρ) (topLevel : Bool) (map : ResMap) :
    List FieldSpec → List (Value ρ) → List (Value ρ)
  | f :: fs, v :: vs =>
      (if topLevel && f.taggedNeedsOwned map then v else toOwnedFieldExpr callee f.fieldType v) ::
        toOwnedFields callee topLevel map fs vs
  | _, vs => vs

/-! ## Messages

The structs of a message call each other by the path that the resolution gives. -/

namespace MessageSpec

variable (spec : MessageSpec) (records : RecordsCodec ρ) (borrow : Bytes → Except ProtocolError ρ)

/-- The fields of a borrowed struct's `Default`, given those of the struct types. -/
def borrowedDefaults (structs : StructId → Value ρ) (id : StructId) (d : StructDef) : List (Value ρ) :=
  d.fields.map (borrowedDefault records (id = spec.top) spec.resMap (spec.defaultOf records id.file)
    fun name => (spec.path id.file name).elim .null structs)

def borrowedDefaultAt : Nat → StructId → Value ρ
  | 0, _ => .null
  | n + 1, id =>
      match spec.structDef id with
      | some d => .struct (spec.borrowedDefaults records (borrowedDefaultAt n) id d) []
      | none => .null

/-- `decode_borrow` of a struct type, in which calls are nested `n` deep. -/
def decodeBorrow : Nat → StructId → Int16 → Decode (Value ρ)
  | 0, _, _ => throw (.schemaMismatch "nested too deep")
  | n + 1, id, version =>
      match spec.structDef id with
      | some d =>
          d.decodeBorrow spec.resMap borrow (spec.callee records n id.file)
            (fun name => (spec.path id.file name).elim (fun _ => throw (.schemaMismatch "nested too deep"))
              (decodeBorrow n))
            version (spec.borrowedDefaults records (spec.borrowedDefaultAt records spec.structCount) id d)
      | none => throw (.schemaMismatch "nested too deep")

/-- `to_owned` of a struct type. -/
def toOwned : Nat → StructId → Value ρ → Value ρ
  | n + 1, id, .struct values unknown =>
      match spec.structDef id with
      | some d =>
          .struct (toOwnedFields (fun name v => (spec.path id.file name).elim v (toOwned n · v))
            (id = spec.top) spec.resMap d.fields values) unknown
      | none => .struct values unknown
  | _, _, v => v

end MessageSpec

end Krabka.Codegen
