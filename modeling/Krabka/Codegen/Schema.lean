import Krabka.Lib.Json
import Krabka.Lib.Results
import Krabka.Lib.Text

/-!
# `Codegen.Schema` — message schemas, validated and resolved

The intermediate representation of `protocol-codegen`: a message with its fields, their types and the
versions in which they exist, are nullable or are tagged. `validate` is the generator's own check;
`MessageSpec.resolve` says in which file the type of every struct field is generated.

A field type is a text in the schema file. Here it is the type that the text stands for, which is what
`base_type` and `is_struct_type` take from it.
-/

namespace Krabka.Codegen

/-! ## Versions

A range has two ends, and the largest version stands for an open one. -/

/-- From `min` to `max`; `Int16.maxValue` stands for an open end. -/
structure VersionRange where
  min : Int16
  max : Int16
deriving DecidableEq, Repr

namespace VersionRange

def contains (r : VersionRange) (v : Int16) : Bool := r.min ≤ v && v ≤ r.max

def isEmpty (r : VersionRange) : Bool := r.min > r.max

theorem contains_iff {r : VersionRange} {v : Int16} : r.contains v ↔ r.min ≤ v ∧ v ≤ r.max := by
  simp [contains]

end VersionRange

theorem minValue_le (v : Int16) : Int16.minValue ≤ v := by
  rw [Int16.le_iff_toInt_le]
  exact v.le_toInt

theorem le_maxValue (v : Int16) : v ≤ Int16.maxValue := by
  rw [Int16.le_iff_toInt_le]
  exact v.toInt_le

inductive FlexibleVersions where
  | none
  | range (r : VersionRange)
deriving DecidableEq, Repr

inductive MessageType where
  | request
  | response
  | header
  | data
deriving DecidableEq, Repr

/-! ## Fields

A field with what the generator asks of its type, its versions and its tag. -/

/-- A type that is not an array. A struct type is one whose name starts with a capital letter; `other` is
    any other text. -/
inductive BaseType where
  | bool
  | int8
  | int16
  | int32
  | int64
  | uint16
  | uint32
  | float64
  | string
  | bytes
  | uuid
  | records
  | struct (name : String)
  | other (text : String)
deriving DecidableEq, Repr

inductive FieldType where
  | base (b : BaseType)
  | array (elem : FieldType)
deriving DecidableEq, Repr

namespace FieldType

/-- `t.strip_prefix("[]").unwrap_or(t)`. -/
def baseType : FieldType → FieldType
  | base b => base b
  | array elem => elem

def isArray : FieldType → Bool
  | base _ => false
  | array _ => true

/-- The name of a struct type. -/
def structName : FieldType → Option String
  | base (.struct name) => some name
  | _ => none

/-- `KNOWN_PRIMITIVE_TYPES`, a struct type or, after one `[]`, one more array. -/
def known : FieldType → Bool
  | base (.other _) => false
  | _ => true

end FieldType

structure FieldSpec where
  name : String
  fieldType : FieldType
  versions : VersionRange
  nullableVersions : Option VersionRange
  taggedVersions : Option VersionRange
  tag : Option UInt32
  fields : List FieldSpec
  default : Option Json.Value
  flexibleVersions : Option FlexibleVersions

structure CommonStruct where
  name : String
  fields : List FieldSpec

structure MessageSpec where
  name : String
  messageType : MessageType
  apiKey : Option Int16
  validVersions : VersionRange
  latestVersionUnstable : Bool
  flexibleVersions : FlexibleVersions
  fields : List FieldSpec
  commonStructs : List CommonStruct

namespace FieldSpec

/-- What stands behind one `[]` or none. -/
def baseType (f : FieldSpec) : FieldType := f.fieldType.baseType

def isTagged (f : FieldSpec) : Bool := f.tag.isSome

def isNullable (f : FieldSpec) : Bool := f.nullableVersions.isSome

/-- The versions in which the field is tagged. -/
def tagRange (f : FieldSpec) : VersionRange := f.taggedVersions.getD f.versions

end FieldSpec

/-! ## Validation

The checks that the generator makes of a message before it writes anything, and the first error it finds. -/

structure ValidateError where
  message : String
  context : String
deriving DecidableEq, Repr

/-- Why a tag is refused. Both rules on ranges are those of Kafka's own generator. -/
def FieldSpec.tagError (flexible : FlexibleVersions) (f : FieldSpec) : Option String :=
  if f.tag.isNone then none
  else if flexible = .none then some "tagged field on non-flexible message"
  else if f.tagRange.max ≠ Int16.maxValue then some "taggedVersions is not open-ended"
  else if f.tagRange.min < f.versions.min || f.versions.max ≠ Int16.maxValue then
    some "taggedVersions is not a subset of versions"
  else none

mutual

def validateField (flexible : FlexibleVersions) (ctx : String) : FieldSpec → Except ValidateError Unit
  | ⟨name, fieldType, versions, nullableVersions, taggedVersions, tag, fields, default, flex⟩ =>
      let f : FieldSpec :=
        ⟨name, fieldType, versions, nullableVersions, taggedVersions, tag, fields, default, flex⟩
      let context := ctx ++ "." ++ name
      if !fieldType.baseType.known then .error ⟨"unknown field type", context⟩
      else
        match f.tagError flexible with
        | some message => .error ⟨message, context⟩
        | none => validateFields flexible context fields

def validateFields (flexible : FlexibleVersions) (ctx : String) : List FieldSpec → Except ValidateError Unit
  | [] => .ok ()
  | f :: fs => do
      validateField flexible ctx f
      validateFields flexible ctx fs

end

/-- Only a request whose versions have a highest one can hold it back. -/
def latestVersionUnstableError (spec : MessageSpec) : Option String :=
  if !spec.latestVersionUnstable then none
  else if spec.messageType ≠ .request then
    some "latestVersionUnstable on a message that is not a request"
  else if spec.validVersions.isEmpty then some "latestVersionUnstable with empty validVersions"
  else if spec.validVersions.max = Int16.maxValue then
    some "latestVersionUnstable with open-ended validVersions"
  else none

def validateMessage (spec : MessageSpec) : Except ValidateError Unit :=
  if (spec.messageType = .request || spec.messageType = .response) && spec.apiKey.isNone then
    .error ⟨"request/response missing apiKey", spec.name⟩
  else
    match latestVersionUnstableError spec with
    | some message => .error ⟨message, spec.name⟩
    | none => do
        validateFields spec.flexibleVersions spec.name spec.fields
        spec.commonStructs.forM fun cs =>
          validateFields spec.flexibleVersions (spec.name ++ "." ++ cs.name) cs.fields

def validate (specs : List MessageSpec) : Except ValidateError Unit := specs.forM validateMessage

/-! ## Resolution

A struct name is looked up in the message first and then in the common structs. The lifetimes of the common
structs are found in rounds. -/

inductive StructKind where
  | nested
  | common
deriving DecidableEq, Repr

/-- A struct type of a message: one of the message's own file, or one of the file of a common struct. -/
structure StructId where
  file : Option String
  name : String
deriving DecidableEq, Repr

structure Resolution where
  kind : StructKind
  /-- The borrowed type has a lifetime parameter. -/
  needsLifetime : Bool
deriving DecidableEq, Repr

structure ResolveError where
  message : String
  typeName : String
deriving DecidableEq, Repr

/-- What every struct type that a message's fields name resolves to; what was inserted last comes first. -/
abbrev ResMap := List (String × Resolution)

/-- Text that a borrowed value points to. -/
def FieldType.borrows : FieldType → Bool
  | base .string | base .bytes | base .records => true
  | _ => false

mutual

def FieldSpec.needsLifetime : FieldSpec → Bool
  | ⟨_, fieldType, _, _, _, _, fields, _, _⟩ => fieldType.baseType.borrows || fieldsNeedLifetime fields

def fieldsNeedLifetime : List FieldSpec → Bool
  | [] => false
  | f :: fs => f.needsLifetime || fieldsNeedLifetime fs

end

mutual

def FieldSpec.needsLifetimeBy (names : List String) : FieldSpec → Bool
  | ⟨_, fieldType, _, _, _, _, fields, _, _⟩ =>
      fieldType.baseType.borrows || commonStructNeedsLifetime names fields ||
        (fields.isEmpty && fieldType.baseType.structName.any (· ∈ names))

/-- Given the common structs that are known to need a lifetime. -/
def commonStructNeedsLifetime (names : List String) : List FieldSpec → Bool
  | [] => false
  | f :: fs => f.needsLifetimeBy names || commonStructNeedsLifetime names fs

end

/-- One round over the common structs. -/
def lifetimeRound (commonStructs : List CommonStruct) (names : List String) : List String :=
  commonStructs.foldl (fun names cs =>
    if cs.name ∈ names then names
    else if commonStructNeedsLifetime names cs.fields then cs.name :: names
    else names) names

/-- The common structs that need a lifetime: every round but the last adds one. -/
def lifetimeNames (commonStructs : List CommonStruct) : List String :=
  (lifetimeRound commonStructs)^[commonStructs.length] []

mutual

/-- The struct types that a field defines inline, depth first. -/
def FieldSpec.nestedStructs : FieldSpec → List (String × List FieldSpec)
  | ⟨_, fieldType, _, _, _, _, fields, _, _⟩ =>
      if fields.isEmpty then []
      else
        match fieldType.baseType.structName with
        | some name => (name, fields) :: nestedStructs fields
        | none => nestedStructs fields

def nestedStructs : List FieldSpec → List (String × List FieldSpec)
  | [] => []
  | f :: fs => f.nestedStructs ++ nestedStructs fs

end

mutual

/-- The first struct type that is named and not resolved. -/
def FieldSpec.unresolved (map : ResMap) : FieldSpec → Option String
  | ⟨_, fieldType, _, _, _, _, fields, _, _⟩ =>
      match fieldType.baseType.structName with
      | some name => if (map.lookup name).isNone then some name else unresolved map fields
      | none => unresolved map fields

def unresolved (map : ResMap) : List FieldSpec → Option String
  | [] => none
  | f :: fs => f.unresolved map <|> unresolved map fs

end

namespace MessageSpec

variable (spec : MessageSpec)

/-- A nested struct replaces a common struct of its name. -/
def resMap : ResMap :=
  ((nestedStructs spec.fields).map fun s => (s.1, ⟨.nested, fieldsNeedLifetime s.2⟩)).reverse ++
    (spec.commonStructs.map fun cs =>
      (cs.name, ⟨.common, decide (cs.name ∈ lifetimeNames spec.commonStructs)⟩)).reverse

/-- `resolve_message`. -/
def resolve : Except ResolveError ResMap :=
  match unresolved spec.resMap spec.fields with
  | some name => .error ⟨spec.name, name⟩
  | none => .ok spec.resMap

/-- Where the Rust path of a struct type leads from a file: a nested struct is looked for in the file
    itself. -/
def path (file : Option String) (name : String) : Option StructId :=
  match spec.resMap.lookup name with
  | some ⟨.nested, _⟩ => some ⟨file, name⟩
  | some ⟨.common, _⟩ => some ⟨some name, name⟩
  | none => none

/-- The structs that are generated into a file, the one it is named after first. -/
def structsOf : Option String → List (String × List FieldSpec)
  | none => (spec.name, spec.fields) :: nestedStructs spec.fields
  | some name =>
      (spec.commonStructs.filter (·.name = name)).flatMap fun cs =>
        (cs.name, cs.fields) :: nestedStructs cs.fields

/-- The fields of a generated struct. -/
def structFields (id : StructId) : Option (List FieldSpec) := (spec.structsOf id.file).lookup id.name

/-- The message's own type. -/
def top : StructId := ⟨none, spec.name⟩

end MessageSpec

end Krabka.Codegen
