import Krabka.Codegen.Defaults
import Krabka.Codegen.NameConv

/-!
# `Codegen.Owned` — the owned codec of a generated struct

What the Rust code does that the owned generator writes for a schema: `encode`, `encoded_len` and `decode`
of each struct, for every version. A generator of expressions, such as `encode_call`, is here the meaning of
the expression that it generates.

## Contents
- **Conditions.** The tests on the version that the generator writes around a field.
- **Names.** The field that the call of a tagged field names.
- **Expressions.** The three tables over field types, for one value.
- **Structs.** Positional fields in the order of the schema, then the tagged section.
- **Messages.** The structs of a message call one another. A call depth bounds the nesting of a value.
-/

namespace Krabka.Codegen

open ByteStream Output Krabka.Protocol
open Records (putTrailer fieldSize RecordsCodec)
open PartitionRecord (encodeToBytes)

/-! ## Conditions

Tests on the version are written around a field only where they can fail: a field of every version has none.
-/

/-- `version_cond`, as it simplifies the test. -/
def versionCond (r : VersionRange) (version : Int16) : Bool :=
  if r.min = Int16.minValue && r.max = Int16.maxValue then true
  else if r.min = r.max then version = r.min
  else if r.min = Int16.minValue then version ≤ r.max
  else if r.max = Int16.maxValue then r.min ≤ version
  else r.contains version

namespace FieldSpec

/-- `nullable_split_cond`: the nullable codec starts late or ends early. -/
def nullableSplitCond (f : FieldSpec) : Option (Int16 → Bool) :=
  f.nullableVersions.bind fun r =>
    let needLower := r.min > f.versions.min
    let needUpper := r.max < f.versions.max
    if !needLower && !needUpper then none
    else some fun version => (!needLower || r.min ≤ version) && (!needUpper || version ≤ r.max)

/-- `tagged_version_cond`. -/
def taggedVersionCond (f : FieldSpec) (flexMin : Int16) : Option (Int16 → Bool) :=
  if f.tagRange.min ≤ flexMin && f.tagRange.max = Int16.maxValue then none
  else some (versionCond f.tagRange)

/-- The tag is valid at a version at which its struct is flexible. -/
def tagValid (f : FieldSpec) (flexMin version : Int16) : Bool :=
  match f.taggedVersionCond flexMin with
  | some cond => cond version
  | none => true

def forcesNonFlex (f : FieldSpec) : Bool := f.flexibleVersions = some .none

end FieldSpec

/-! ## Names

The call for a tagged field is generated for a local buffer by replacing the text of the buffer's name, and
that text may be in the name of a field. `calledName` is what the call names then. -/

/-- `replace("buf", "b")`. -/
def replaceBuf : List Char → List Char
  | 'b' :: 'u' :: 'f' :: cs => 'b' :: replaceBuf cs
  | c :: cs => c :: replaceBuf cs
  | [] => []

namespace FieldSpec

def rustName (f : FieldSpec) : List Char := fieldName f.name.toList

/-- The field that the call of a tagged field names: `encode_call_with_buf` renames the buffer in the text of
    the call, where the field's own name stands too. -/
def calledName (f : FieldSpec) : List Char := replaceBuf f.rustName

end FieldSpec

/-- The codec that a positional field has at a version: `unwrapped` is the one of an `Option` that is not
    nullable there. -/
inductive Form where
  | plain
  | nullable
  | unwrapped
deriving DecidableEq, Repr

def FieldSpec.form (f : FieldSpec) (version : Int16) : Form :=
  match f.nullableSplitCond with
  | some cond => if cond version then .nullable else .unwrapped
  | none => if f.isNullable then .nullable else .plain

/-! ## Expressions

A field has a form at each version: plain, nullable, or unwrapped to a default where the version has no null.
-/

/-- The generated methods of a struct type. -/
structure Codec (ρ : Type) where
  encode : Value ρ → Int16 → Encode
  encodedLen : Value ρ → Int16 → Nat
  decode : Int16 → Decode (Value ρ)

variable {ρ : Type}

/-- No value of the field's Rust type. -/
def illTyped : Encode := fail (.schemaMismatch "ill-typed value")

/-- `if flex { compact } else { classic }`. -/
def either {α : Type} (flex : Bool) (compact classic : α) : α := if flex then compact else classic

/-- `None` is null. -/
def ofOption {α : Type} (g : α → Value ρ) : Option α → Value ρ
  | some a => g a
  | none => .null

section
variable (records : RecordsCodec ρ) (callee : String → Codec ρ) (structs : String → Value ρ)
  (lenient : Bool) (version : Int16) (flex : Bool)

/-! ### `encode_call`

The expression that writes one value. What the types of the generated code exclude is ill typed here. -/

def encodeBase : BaseType → Bool → Value ρ → Encode
  | .int8, _, .int8 n => put (putI8 n)
  | .int16, _, .int16 n => put (putI16 n)
  | .uint16, _, .uint16 n => put (putU16 n)
  | .int32, _, .int32 n => put (putI32 n)
  | .int64, _, .int64 n => put (putI64 n)
  | .bool, _, .bool b => put (putBool b)
  | .float64, _, .float64 x => put (putF64 x)
  | .uuid, _, .uuid u => put (putUuid u)
  | .string, false, .string s => either flex (putCompactString s) (putString s)
  | .string, true, .string s => either flex (putCompactNullableString (some s)) (putNullableString (some s))
  | .string, true, .null => either flex (putCompactNullableString none) (putNullableString none)
  | .bytes, false, .bytes b => either flex (putCompactBytes b) (putBytes b)
  | .bytes, true, .bytes b => either flex (putCompactNullableBytes (some b)) (putNullableBytes (some b))
  | .bytes, true, .null => either flex (putCompactNullableBytes none) (putNullableBytes none)
  | .records, false, .records r => records.putField r version flex
  | .records, true, .records r => records.putField r version flex
  | .records, true, .null => either flex (putCompactNullableBytes none) (putNullableBytes none)
  | .struct _, true, .null => put (putI8 (-1))
  | .struct name, true, v => do
      put (putI8 1)
      (callee name).encode v version
  | .struct name, false, v => (callee name).encode v version
  | _, _, _ => illTyped

def encodeCall : FieldType → Bool → Value ρ → Encode
  | .base b, nullable, v => encodeBase records callee version flex b nullable v
  | .array elem, false, .array vs => encodeArray flex (encodeCall elem false) vs
  | .array elem, true, .array vs => encodeNullableArray flex (encodeCall elem false) (some vs)
  | .array elem, true, .null => encodeNullableArray flex (encodeCall elem false) none
  | .array _, _, _ => illTyped

/-- `encode_call_option_as_non_nullable`: null stands for the empty value. -/
def encodeCallOptionAsNonNullable (t : FieldType) (v : Value ρ) : Encode :=
  match t, v with
  | .base .records, .null => either flex (putCompactBytes []) (putBytes [])
  | t, .null => encodeCall records callee version flex t false (rustDefault records structs t)
  | t, v => encodeCall records callee version flex t false v

/-! ### `encoded_len_expr`

The expression that announces its length. -/

def encodedLenBase : BaseType → Bool → Value ρ → Nat
  | .int8, _, _ => 1
  | .bool, _, _ => 1
  | .int16, _, _ => 2
  | .uint16, _, _ => 2
  | .int32, _, _ => 4
  | .int64, _, _ => 8
  | .float64, _, _ => 8
  | .uuid, _, _ => 16
  | .string, false, .string s => either flex (compactStringLen s) (stringLen s)
  | .string, true, .string s => either flex (compactNullableStringLen (some s)) (nullableStringLen (some s))
  | .string, true, .null => either flex (compactNullableStringLen none) (nullableStringLen none)
  | .bytes, false, .bytes b => either flex (compactBytesLen b) (bytesLen b)
  | .bytes, true, .bytes b => either flex (compactNullableBytesLen (some b)) (nullableBytesLen (some b))
  | .bytes, true, .null => either flex (compactNullableBytesLen none) (nullableBytesLen none)
  | .records, _, .records r => fieldSize flex (records.encodedLen r version)
  | .records, true, .null => either flex (uvarintLen 0) 4
  | .struct _, true, .null => 1
  | .struct name, true, v => 1 + (callee name).encodedLen v version
  | .struct name, false, v => (callee name).encodedLen v version
  | _, _, _ => 0

def encodedLenExpr : FieldType → Bool → Value ρ → Nat
  | .base b, nullable, v => encodedLenBase records callee version flex b nullable v
  | .array elem, false, .array vs => arrayLen flex (encodedLenExpr elem false) vs
  | .array elem, true, .array vs => nullableArrayLen flex (encodedLenExpr elem false) (some vs)
  | .array elem, true, .null => nullableArrayLen flex (encodedLenExpr elem false) none
  | .array _, _, _ => 0

def encodedLenOptionAsNonNullable (t : FieldType) (v : Value ρ) : Nat :=
  match t, v with
  | .base .records, .null => fieldSize flex 0
  | t, .null => encodedLenExpr records callee version flex t false (rustDefault records structs t)
  | t, v => encodedLenExpr records callee version flex t false v

/-! ### `decode_call`

The expression that reads one value. A records field is read by one of two readers. -/

/-- A records payload behind its length. -/
def readRecords (bytes : Bytes) : Decode (Value ρ) :=
  match records.fromBytes lenient bytes with
  | .ok r => pure (.records r)
  | .error e => throw e

def decodeBase : BaseType → Bool → Decode (Value ρ)
  | .int8, _ => do return .int8 (← getI8)
  | .int16, _ => do return .int16 (← getI16)
  | .uint16, _ => do return .uint16 (← getU16)
  | .int32, _ => do return .int32 (← getI32)
  | .int64, _ => do return .int64 (← getI64)
  | .bool, _ => do return .bool (← getBool)
  | .float64, _ => do return .float64 (← getF64)
  | .uuid, _ => do return .uuid (← getUuid)
  | .string, false => do return .string (← either flex getCompactStringOwned getStringOwned)
  | .string, true => do
      return ofOption .string (← either flex getCompactNullableStringOwned getNullableStringOwned)
  | .bytes, false => do return .bytes (← either flex getCompactBytesOwned getBytesOwned)
  | .bytes, true => do
      return ofOption .bytes (← either flex getCompactNullableBytesOwned getNullableBytesOwned)
  | .records, false => do
      let bytes ← either flex getCompactBytesOwned getBytesOwned
      readRecords records lenient bytes
  | .records, true => do
      match ← either flex getCompactNullableBytesOwned getNullableBytesOwned with
      | none => return .null
      | some bytes => readRecords records lenient bytes
  | .struct name, false => (callee name).decode version
  | .struct name, true => do
      let marker ← getI8
      if marker < 0 then return .null else (callee name).decode version
  | .uint32, _ => throw (.schemaMismatch "unhandled type in decode_call: uint32")
  | .other t, _ => throw (.schemaMismatch ("unhandled type in decode_call: " ++ t))

def decodeCall : FieldType → Bool → Decode (Value ρ)
  | .base b, nullable => decodeBase records callee lenient version flex b nullable
  | .array elem, false => do return .array (← getArray flex (decodeCall elem false))
  | .array elem, true => do return ofOption .array (← getNullableArray flex (decodeCall elem false))

/-! ## Structs

`encode`, `encoded_len` and `decode` over the fields of a struct, with its tagged section last. -/

/-- The codec of a value in a given form. -/
def encodeForm (t : FieldType) (v : Value ρ) : Form → Encode
  | .plain => encodeCall records callee version flex t false v
  | .nullable => encodeCall records callee version flex t true v
  | .unwrapped => encodeCallOptionAsNonNullable records callee structs version flex t v

def encodedLenForm (t : FieldType) (v : Value ρ) : Form → Nat
  | .plain => encodedLenExpr records callee version flex t false v
  | .nullable => encodedLenExpr records callee version flex t true v
  | .unwrapped => encodedLenOptionAsNonNullable records callee structs version flex t v

def decodeForm (t : FieldType) : Form → Decode (Value ρ)
  | .plain => decodeCall records callee lenient version flex t false
  | .nullable => decodeCall records callee lenient version flex t true
  | .unwrapped => decodeCall records callee lenient version flex t false

def encodeOne (p : FieldSpec × Value ρ) : Encode :=
  if versionCond p.1.versions version then
    encodeForm records callee structs version (flex && !p.1.forcesNonFlex) p.1.fieldType p.2
      (p.1.form version)
  else pure ()

def lenOne (p : FieldSpec × Value ρ) : Nat :=
  if versionCond p.1.versions version then
    encodedLenForm records callee structs version (flex && !p.1.forcesNonFlex) p.1.fieldType p.2
      (p.1.form version)
  else 0

/-- The default stays where the version does not have the field. -/
def decodeOne (p : FieldSpec × Value ρ) : Decode (Value ρ) :=
  if versionCond p.1.versions version then
    decodeForm records callee lenient version (flex && !p.1.forcesNonFlex) p.1.fieldType
      (p.1.form version)
  else pure p.2

end

/-- A struct that the generator emits. Only the message's own struct has a guard on its version. -/
structure StructDef where
  fields : List FieldSpec
  flexMin : Int16
  hasFlex : Bool
  guard : Int16 → Option ProtocolError

/-- The fields that are not tagged, each with its value. -/
def positional {α : Type} (ps : List (FieldSpec × α)) : List (FieldSpec × α) :=
  ps.filter fun p => !p.1.isTagged

/-- The tagged fields with their tags, each with its value. -/
def tagged {α : Type} (ps : List (FieldSpec × α)) : List (UInt32 × FieldSpec × α) :=
  ps.filterMap fun p => p.1.tag.map fun tag => (tag, p)

namespace StructDef

variable (d : StructDef) (records : RecordsCodec ρ) (callee : String → Codec ρ)
  (structs : String → Value ρ) (lenient : Bool) (version : Int16)

/-- `is_flexible(version)`, or the same test on the message's threshold. -/
def flex : Bool := d.flexMin ≤ version

/-- The struct has a tagged section at this version. -/
def hasTrailer : Bool := d.hasFlex && d.flex version

/-- `gated_tagged_should_encode`. -/
def shouldEncode (f : FieldSpec) (v : Value ρ) : Bool :=
  f.tagValid d.flexMin version && taggedShouldEncode records structs f v

/-- The tagged fields that are written. -/
def written (values : List (Value ρ)) : List (UInt32 × FieldSpec × Value ρ) :=
  (tagged (d.fields.zip values)).filter fun e => d.shouldEncode records structs version e.2.1 e.2.2

/-- The field that the call of `f` names, with its value. -/
def called (values : List (Value ρ)) (f : FieldSpec) : Option (FieldSpec × Value ρ) :=
  (d.fields.zip values).find? fun p => p.1.rustName = f.calledName

/-- `encode_call_with_buf`. A struct is written by the `encode` of the type that it has. Where no field has the
    name, the code does not compile. -/
def encodeCallWithBuf (values : List (Value ρ)) (f : FieldSpec) : Encode :=
  match d.called values f with
  | some p => encodeCall records callee version true p.1.fieldType f.nullable p.2
  | none => illTyped

/-- `encode_tagged` of every tagged field: its own value decides whether it is written. The section is only
    there at a flexible version. -/
def taggedEntries (values : List (Value ρ)) : Except ProtocolError (List (UInt32 × Bytes)) :=
  (d.written records structs version values).mapM fun e => do
    let payload ← encodeToBytes (d.encodeCallWithBuf records callee version values e.2.1)
    return (e.1, payload)

/-- `len_tagged` of every tagged field, where nothing is renamed. -/
def knownPairs (values : List (Value ρ)) : List (UInt32 × Nat) :=
  (d.written records structs version values).map fun e =>
    (e.1, encodedLenExpr records callee version true e.2.1.fieldType e.2.1.nullable e.2.2)

def encodeFields (values : List (Value ρ)) (unknown : UnknownTaggedFields) : Encode := do
  each (encodeOne records callee structs version (d.flex version)) (positional (d.fields.zip values))
  if d.hasTrailer version then
    putTrailer (d.taggedEntries records callee structs version values) unknown
  else pure ()

def encode (v : Value ρ) : Encode :=
  match v with
  | .struct values unknown =>
      match d.guard version with
      | some e => fail e
      | none => d.encodeFields records callee structs version values unknown
  | _ => illTyped

def encodedLen (v : Value ρ) : Nat :=
  match v with
  | .struct values unknown =>
      ((positional (d.fields.zip values)).map
        (lenOne records callee structs version (d.flex version))).sum +
      if d.hasTrailer version then
        taggedFieldsLen (d.knownPairs records callee structs version values) unknown
      else 0
  | _ => 0

def decodeUntagged (p : FieldSpec × Value ρ) : Decode (Value ρ) :=
  if p.1.isTagged then pure p.2 else decodeOne records callee lenient version (d.flex version) p

/-- The positional fields, read in order over their defaults. -/
def decodePositional : List (FieldSpec × Value ρ) → Decode (List (Value ρ))
  | [] => pure []
  | p :: ps => do
      let v ← d.decodeUntagged records callee lenient version p
      let vs ← decodePositional ps
      return v :: vs

/-- The arms of `match tag`: the first field with the tag reads the payload into its slot. -/
def readKnown : List (FieldSpec × Option (Value ρ)) → UInt32 → Decode (Option (List (Option (Value ρ))))
  | [], _ => pure none
  | p :: ps, tag =>
      if p.1.tag = some tag then
        if p.1.tagValid d.flexMin version then do
          let v ← decodeCall records callee lenient version true p.1.fieldType p.1.nullable
          return some (some v :: ps.map (·.2))
        else throw (.tagNotValidForVersion tag version)
      else do
        let slots ← readKnown ps tag
        return slots.map (p.2 :: ·)

def readTrailer : Decode (List (Option (Value ρ)) × UnknownTaggedFields) :=
  readTaggedFieldsInto
    (fun tag slots => d.readKnown records callee lenient version (d.fields.zip slots) tag)
    (d.fields.map fun _ => none)

/-- What was read of a tagged field replaces its default. -/
def writeBack (values : List (Value ρ)) (slots : List (Option (Value ρ))) : List (Value ρ) :=
  List.zipWith (fun v slot => slot.getD v) values slots

def decodeFields : Decode (Value ρ) := do
  let values ← d.decodePositional records callee lenient version
    (d.fields.zip (ownedDefaults records structs d.fields))
  if d.hasTrailer version then do
    let (slots, unknown) ← d.readTrailer records callee lenient version
    return .struct (writeBack values slots) unknown
  else return .struct values []

def decode : Decode (Value ρ) :=
  match d.guard version with
  | some e => throw e
  | none => d.decodeFields records callee structs lenient version

def codec : Codec ρ where
  encode v version := d.encode records callee structs version v
  encodedLen v version := d.encodedLen records callee structs version v
  decode version := d.decode records callee structs lenient version

end StructDef

/-! ## Messages

A message is its top struct. Structs name one another through the resolved map, and a value is written to any
depth it has. -/

/-- Where calls are nested too deep, nothing is known. -/
def Codec.missing : Codec ρ where
  encode _ _ := fail (.schemaMismatch "nested too deep")
  encodedLen _ _ := 0
  decode _ := throw (.schemaMismatch "nested too deep")

namespace MessageSpec

variable (spec : MessageSpec)

def flexMin : Int16 :=
  match spec.flexibleVersions with
  | .range r => r.min
  | .none => Int16.maxValue

def hasAnyFlex : Bool := spec.flexibleVersions ≠ .none

/-- `version_err`. The API key of a request or a response is there. -/
def versionErr (version : Int16) : ProtocolError :=
  match spec.messageType with
  | .request | .response => .unsupportedVersion (spec.apiKey.getD 0) version
  | .header | .data => .schemaMismatch (spec.name ++ " version out of range")

/-- The message's own struct checks the version and has a tagged section when the message is ever
    flexible. -/
def topDef : StructDef where
  fields := spec.fields
  flexMin := spec.flexMin
  hasFlex := spec.hasAnyFlex
  guard version := if spec.validVersions.contains version then none else some (spec.versionErr version)

/-- A nested or common struct compares the version with the message's threshold. -/
def nestedDef (fields : List FieldSpec) : StructDef where
  fields
  flexMin := spec.flexMin
  hasFlex := spec.flexMin < Int16.maxValue
  guard _ := none

def structDef (id : StructId) : Option StructDef :=
  if id = spec.top then some spec.topDef else (spec.structFields id).map spec.nestedDef

/-- The number of struct types. No type contains itself but through an array, so this bounds the depth of
    a default. -/
def structCount : Nat :=
  (spec.structsOf none).length + (spec.commonStructs.map fun cs => (nestedStructs cs.fields).length + 1).sum

variable (records : RecordsCodec ρ)

/-- `T::default()` of the struct types. -/
def defaultAt : Nat → StructId → Value ρ
  | 0, _ => .null
  | n + 1, id =>
      match spec.structDef id with
      | some d =>
          .struct (ownedDefaults records
            (fun name => (spec.path id.file name).elim .null (defaultAt n)) d.fields) []
      | none => .null

/-- The default of the struct type that a name leads to from a file. -/
def defaultOf (file : Option String) (name : String) : Value ρ :=
  (spec.path file name).elim .null (spec.defaultAt records spec.structCount)

def lenient : Bool := spec.messageType = .response

/-- The generated codec of a struct type, in which calls are nested `n` deep. -/
def codec : Nat → StructId → Codec ρ
  | 0, _ => .missing
  | n + 1, id =>
      match spec.structDef id with
      | some d =>
          d.codec records (fun name => (spec.path id.file name).elim .missing (codec n))
            (spec.defaultOf records id.file) spec.lenient
      | none => .missing

/-- The struct types that a file's fields name, in calls that are nested `n` deep. -/
def callee (n : Nat) (file : Option String) (name : String) : Codec ρ :=
  (spec.path file name).elim .missing (spec.codec records n)

end MessageSpec

end Krabka.Codegen
