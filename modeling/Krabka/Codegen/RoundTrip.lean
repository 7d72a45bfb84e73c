import Krabka.Codegen.TaggedSection
import Krabka.Lib.PairedLists

/-!
# `Codegen.RoundTrip` — the owned codec comes back

For every schema whose generated code compiles, the owned codec of a struct is exact on the values that fit
the wire and whose tagged fields are named by their calls (`MessageSpec.Named`): `encode` writes `encoded_len`
bytes, and `decode` takes exactly those and answers `carried` (`exact_codec`). Where no call is renamed, that is
every value (`named_of_ownNames`).

The proof follows the code: one lemma for each table of expressions, one for the positional fields, one for
the tagged section, and an induction on the nesting of the value.
-/

namespace Krabka.Codegen

open ByteStream Output Reader Krabka.Protocol PairedLists
open Records (putTrailer fieldSize RecordsCodec)
open PartitionRecord (encodeToBytes encodeToBytes_eq_ok)

variable {ρ : Type}

/-! ## Schemas that compile

The generated code has a type, so a schema with a default that does not fit its type, or a nullable struct
where the generator has no option, is excluded. -/

/-- The tables of expressions take an `Option` of this type. -/
def FieldType.takesOption : FieldType → Bool
  | .array _ => true
  | .base .string | .base .bytes | .base .records | .base (.struct _) => true
  | _ => false

/-- So does the codec of an `Option` that is not nullable: any other `unwrap_or_default` is refused. -/
def FieldType.unwraps : FieldType → Bool
  | .array _ => true
  | .base .string => true
  | _ => false

/-- What the compiler checks of a field that holds no records. -/
structure FieldSpec.Compiles (f : FieldSpec) : Prop where
  option : f.isOption → f.fieldType.takesOption
  unwrapped : f.isTagged = false → f.nullableSplitCond.isSome → f.fieldType.unwraps

instance (f : FieldSpec) : Decidable f.Compiles :=
  decidable_of_iff
    ((f.isOption → f.fieldType.takesOption) ∧
      (f.isTagged = false → f.nullableSplitCond.isSome → f.fieldType.unwraps))
    ⟨fun h => ⟨h.1, h.2⟩, fun h => ⟨h.1, h.2⟩⟩

/-! ## Expressions

A length that fits its prefix is all that is asked of a text, a byte string or an array. -/

section
variable (records : RecordsCodec ρ) (callee : String → Codec ρ) (structs : String → Value ρ)
  (fits : String → Value ρ → Prop) (carried : String → Value ρ → Value ρ) (lenient : Bool)
  (version : Int16) (flex : Bool)

/-- The value has the type and its length fits its prefix; `fits` is the same for a struct type. -/
def BaseFits : BaseType → Value ρ → Prop
  | .int8, .int8 _ => True
  | .int16, .int16 _ => True
  | .uint16, .uint16 _ => True
  | .int32, .int32 _ => True
  | .int64, .int64 _ => True
  | .bool, .bool _ => True
  | .float64, .float64 _ => True
  | .uuid, .uuid _ => True
  | .string, .string s => LenFits flex (2 ^ 15) s.utf8ByteSize
  | .bytes, .bytes b => LenFits flex (2 ^ 31) b.length
  | .struct name, .struct vs u => fits name (.struct vs u)
  | _, _ => False

/-- Every element of an array takes a byte. -/
def CallFits : FieldType → Value ρ → Prop
  | .base b, v => BaseFits fits flex b v
  | .array elem, .array vs =>
      LenFits flex (2 ^ 31) vs.length ∧
        ∀ v ∈ vs, CallFits elem v ∧ 1 ≤ encodedLenExpr records callee version flex elem false v
  | .array _, _ => False

/-- `P` holds of the structs inside a value. -/
def Throughout (P : String → Value ρ → Prop) : FieldType → Value ρ → Prop
  | .array elem, .array vs => ∀ v ∈ vs, Throughout P elem v
  | .base (.struct name), .struct vs u => P name (.struct vs u)
  | _, _ => True

/-- What a call reads back: `carried` is what the codec of a struct type does. -/
def carriedCall : FieldType → Value ρ → Value ρ
  | .array elem, .array vs => .array (vs.map (carriedCall elem))
  | .base (.struct name), .struct vs u => carried name (.struct vs u)
  | _, v => v

end

section
variable {records : RecordsCodec ρ} {callee : String → Codec ρ} {structs : String → Value ρ}
  {fits : String → Value ρ → Prop} {carried : String → Value ρ → Value ρ} {lenient : Bool}
  {version : Int16} {flex : Bool}

theorem throughout_null {P : String → Value ρ → Prop} (t : FieldType) : Throughout P t (.null : Value ρ) := by
  cases t with
  | array elem => trivial
  | base b => cases b <;> trivial

theorem throughout_of_forall {P : String → Value ρ → Prop} (h : ∀ name v, P name v) (t : FieldType) (v : Value ρ) :
    Throughout P t v := by
  induction t generalizing v with
  | base b => cases b <;> cases v <;> first | trivial | exact h _ _
  | array elem ih =>
      cases v <;> try trivial
      exact fun v _ => ih v

/-- More can be asked of the structs inside a value that fits. -/
theorem CallFits.inside {P : String → Value ρ → Prop} {t : FieldType} {v : Value ρ}
    (h : CallFits records callee fits version flex t v) (hP : Throughout P t v) :
    CallFits records callee (fun name v => fits name v ∧ P name v) version flex t v := by
  induction t generalizing v with
  | base b =>
      cases b <;> cases v <;> try exact h.elim
      all_goals try exact h
      exact ⟨h, hP⟩
  | array elem ih =>
      cases v <;> try exact h.elim
      exact ⟨h.1, fun v hv => ⟨ih (h.2 v hv).1 (hP v hv), (h.2 v hv).2⟩⟩

theorem carriedCall_null (t : FieldType) : carriedCall carried t (.null : Value ρ) = .null := by
  cases t with
  | array elem => rfl
  | base b => cases b <;> rfl

/-- A value that may be absent is told apart from null. -/
theorem ofOption_injective {α : Type} {ctor : α → Value ρ} (hinj : Function.Injective ctor)
    (hne : ∀ a, ctor a ≠ .null) : Function.Injective (ofOption ctor) := by
  intro o o' h
  cases o with
  | none =>
      cases o' with
      | none => rfl
      | some a' => exact absurd h.symm (hne a')
  | some a =>
      cases o' with
      | none => exact absurd h (hne a)
      | some a' => exact congrArg some (hinj h)

/-- Two encodings, of which one is taken. -/
theorem exact_either {α : Type} {x y : Encode} {n m : Nat} {d e : Decode α} {a : α}
    (hcompact : flex = true → Exact x n d a) (hclassic : flex = false → Exact y m e a) :
    Exact (either flex x y) (either flex n m) (either flex d e) a := by
  cases flex with
  | true => exact hcompact rfl
  | false => exact hclassic rfl

/-- A string behind the prefix of its version. -/
theorem exact_string {s : String} (h : LenFits flex (2 ^ 15) s.utf8ByteSize) :
    Exact (either flex (putCompactString s) (putString s))
      (either flex (compactStringLen s) (stringLen s))
      (either flex getCompactStringOwned getStringOwned) s := by
  refine exact_either ?_ ?_
  · rintro rfl
    exact exact_putCompactString h
  · rintro rfl
    exact exact_putString h

/-- A nullable string behind the prefix of its version. -/
theorem exact_nullableString {s : Option String} (h : ∀ t ∈ s, LenFits flex (2 ^ 15) t.utf8ByteSize) :
    Exact (either flex (putCompactNullableString s) (putNullableString s))
      (either flex (compactNullableStringLen s) (nullableStringLen s))
      (either flex getCompactNullableStringOwned getNullableStringOwned) s := by
  refine exact_either ?_ ?_
  · rintro rfl
    exact exact_putCompactNullableString h
  · rintro rfl
    exact exact_putNullableString h

/-- Bytes behind the prefix of their version. -/
theorem exact_bytes {b : Bytes} (h : LenFits flex (2 ^ 31) b.length) :
    Exact (either flex (putCompactBytes b) (putBytes b))
      (either flex (compactBytesLen b) (bytesLen b))
      (either flex getCompactBytesOwned getBytesOwned) b := by
  refine exact_either ?_ ?_
  · rintro rfl
    exact exact_putCompactBytes h
  · rintro rfl
    exact exact_putBytes h

/-- Nullable bytes behind the prefix of their version. -/
theorem exact_nullableBytes {b : Option Bytes} (h : ∀ c ∈ b, LenFits flex (2 ^ 31) c.length) :
    Exact (either flex (putCompactNullableBytes b) (putNullableBytes b))
      (either flex (compactNullableBytesLen b) (nullableBytesLen b))
      (either flex getCompactNullableBytesOwned getNullableBytesOwned) b := by
  refine exact_either ?_ ?_
  · rintro rfl
    exact exact_putCompactNullableBytes h
  · rintro rfl
    exact exact_putNullableBytes h

/-- A value of a base type, where it is not null. -/
theorem exact_encodeBase
    (hstruct : ∀ name v, fits name v → Exact ((callee name).encode v version)
      ((callee name).encodedLen v version) ((callee name).decode version) (carried name v))
    {b : BaseType} {v : Value ρ} (h : BaseFits fits flex b v) :
    Exact (encodeBase records callee version flex b false v)
      (encodedLenBase records callee version flex b false v)
      (decodeBase records callee lenient version flex b false) (carriedCall carried (.base b) v) := by
  cases b <;> cases v <;> try exact h.elim
  · exact (exact_putBool _).map Value.bool
  · exact (exact_putI8 _).map Value.int8
  · exact (exact_putI16 _).map Value.int16
  · exact (exact_putI32 _).map Value.int32
  · exact (exact_putI64 _).map Value.int64
  · exact (exact_putU16 _).map Value.uint16
  · exact (exact_putF64 _).map Value.float64
  · exact (exact_string h).map Value.string
  · exact (exact_bytes h).map Value.bytes
  · exact (exact_putUuid _).map Value.uuid
  · exact hstruct _ _ h

/-- A base type that takes an `Option`, where the value is null or not. -/
theorem exact_encodeBase_nullable
    (hstruct : ∀ name v, fits name v → Exact ((callee name).encode v version)
      ((callee name).encodedLen v version) ((callee name).decode version) (carried name v))
    {b : BaseType} {v : Value ρ} (hoption : (FieldType.base b).takesOption)
    (h : v = .null ∨ BaseFits fits flex b v) :
    Exact (encodeBase records callee version flex b true v)
      (encodedLenBase records callee version flex b true v)
      (decodeBase records callee lenient version flex b true) (carriedCall carried (.base b) v) := by
  rcases h with rfl | h
  · cases b <;> try exact absurd hoption Bool.false_ne_true
    case string => exact (exact_nullableString (by simp)).map (ofOption Value.string)
    case bytes => exact (exact_nullableBytes (by simp)).map (ofOption Value.bytes)
    case records =>
      have hnone : Exact (either flex (putCompactNullableBytes none) (putNullableBytes none))
          (either flex (uvarintLen 0) 4)
          (either flex getCompactNullableBytesOwned getNullableBytesOwned) none :=
        exact_nullableBytes (b := none) (by simp)
      exact hnone.bind_nil (Reads.pure Value.null)
    case struct name => exact (exact_putI8 (-1)).bind_nil (Reads.pure Value.null)
  · cases b <;> try exact absurd hoption Bool.false_ne_true
    case string =>
      cases v <;> try exact h.elim
      exact (exact_nullableString (fun t ht => by cases ht; exact h)).map (ofOption Value.string)
    case bytes =>
      cases v <;> try exact h.elim
      exact (exact_nullableBytes (fun t ht => by cases ht; exact h)).map (ofOption Value.bytes)
    case records => cases v <;> exact h.elim
    case struct name =>
      cases v <;> try exact h.elim
      exact (exact_putI8 1).bind (hstruct name _ h)

/-- **`encode_call`, `encoded_len_expr` and `decode_call` agree** on a value that is not null. -/
theorem exact_encodeCall
    (hstruct : ∀ name v, fits name v → Exact ((callee name).encode v version)
      ((callee name).encodedLen v version) ((callee name).decode version) (carried name v))
    {t : FieldType} {v : Value ρ} (h : CallFits records callee fits version flex t v) :
    Exact (encodeCall records callee version flex t false v)
      (encodedLenExpr records callee version flex t false v)
      (decodeCall records callee lenient version flex t false) (carriedCall carried t v) := by
  induction t generalizing v with
  | base b => exact exact_encodeBase hstruct h
  | array elem ih =>
      cases v <;> try exact h.elim
      case array vs =>
        obtain ⟨hlen, hall⟩ := h
        exact (exact_encodeArray hlen (fun v hv => ih (hall v hv).1) (fun v hv => (hall v hv).2)).map
          Value.array

/-- They agree on an `Option` too. -/
theorem exact_encodeCall_nullable
    (hstruct : ∀ name v, fits name v → Exact ((callee name).encode v version)
      ((callee name).encodedLen v version) ((callee name).decode version) (carried name v))
    {t : FieldType} {v : Value ρ} (hoption : t.takesOption)
    (h : v = .null ∨ CallFits records callee fits version flex t v) :
    Exact (encodeCall records callee version flex t true v)
      (encodedLenExpr records callee version flex t true v)
      (decodeCall records callee lenient version flex t true) (carriedCall carried t v) := by
  cases t with
  | base b => exact exact_encodeBase_nullable hstruct hoption h
  | array elem =>
      rcases h with rfl | h
      · have hnone : Exact (encodeNullableArray flex (encodeCall records callee version flex elem false) none)
            (nullableArrayLen flex (encodedLenExpr records callee version flex elem false) none)
            (getNullableArray flex (decodeCall records callee lenient version flex elem false))
            ((none : Option (List (Value ρ))).map (List.map (carriedCall carried elem))) :=
          exact_encodeNullableArray (by simp) (by simp) (by simp)
        exact hnone.map (ofOption Value.array)
      · cases v <;> try exact h.elim
        case array vs =>
          obtain ⟨hlen, hall⟩ := h
          have helem : ∀ v ∈ vs, Exact (encodeCall records callee version flex elem false v)
              (encodedLenExpr records callee version flex elem false v)
              (decodeCall records callee lenient version flex elem false) (carriedCall carried elem v) :=
            fun v hv => exact_encodeCall hstruct (hall v hv).1
          have hfit : ∀ l ∈ some vs, LenFits flex (2 ^ 31) l.length :=
            fun l hl => by cases hl; exact hlen
          have harray := exact_encodeNullableArray hfit (fun l hl v hv => by cases hl; exact helem v hv)
            (fun l hl v hv => by cases hl; exact (hall v hv).2)
          exact harray.map (ofOption Value.array)

end

/-! ## Positional fields

A field that the version does not have comes back as its default, one that is unwrapped as the value behind
the option. -/

/-- A field is written plainly, as nullable, or unwrapped in the versions that know no null. -/
theorem form_cases (f : FieldSpec) (version : Int16) :
    (f.form version = .plain ∧ f.isNullable = false) ∨ (f.form version = .nullable ∧ f.isNullable) ∨
      (f.form version = .unwrapped ∧ f.isNullable ∧ f.nullableSplitCond.isSome) := by
  unfold FieldSpec.form
  cases hsplit : f.nullableSplitCond with
  | none =>
      cases hnull : f.isNullable with
      | true => exact .inr (.inl ⟨rfl, rfl⟩)
      | false => exact .inl ⟨rfl, rfl⟩
  | some cond =>
      have hnull : f.isNullable := by
        unfold FieldSpec.nullableSplitCond at hsplit
        obtain ⟨r, hr, -⟩ := Option.bind_eq_some_iff.mp hsplit
        unfold FieldSpec.isNullable
        rw [hr]
        rfl
      cases hcond : cond version with
      | true => exact .inr (.inl ⟨by simp only [hcond, if_true], hnull⟩)
      | false => exact .inr (.inr ⟨by simp [hcond], hnull, rfl⟩)

/-- A nullable field compiles only where its type takes an option. -/
theorem takesOption_of_isNullable {f : FieldSpec} (hc : f.Compiles) (h : f.isNullable) :
    f.fieldType.takesOption := by
  refine hc.option ?_
  unfold FieldSpec.isOption
  rw [h]
  rfl

section
variable (records : RecordsCodec ρ) (callee : String → Codec ρ) (structs : String → Value ρ)
  (fits : String → Value ρ → Prop) (carried : String → Value ρ → Value ρ) (version : Int16)
  (flex : Bool)

/-- A positional field that the version has. -/
def FieldFits (f : FieldSpec) (v : Value ρ) : Prop :=
  (f.isNullable ∧ v = .null) ∨
    CallFits records callee fits version (flex && !f.forcesNonFlex) f.fieldType v

def carriedForm (t : FieldType) (v : Value ρ) (form : Form) : Value ρ :=
  match form, v with
  | .unwrapped, .null => rustDefault records structs t
  | _, v => carriedCall carried t v

/-- What a positional field is read back as; a tagged one keeps its default so far. -/
def carriedPositional (p : (FieldSpec × Value ρ) × Value ρ) : Value ρ :=
  if p.1.1.isTagged then p.2
  else if versionCond p.1.1.versions version then
    carriedForm records structs carried p.1.1.fieldType p.1.2 (p.1.1.form version)
  else p.2

end

section
variable {records : RecordsCodec ρ} {callee : String → Codec ρ} {structs : String → Value ρ}
  {fits : String → Value ρ → Prop} {carried : String → Value ρ → Value ρ} {lenient : Bool}
  {version : Int16} {flex : Bool}

/-- What is not null is unwrapped to itself. -/
theorem encodeCallOptionAsNonNullable_of_ne {t : FieldType} {v : Value ρ} (h : v ≠ .null) :
    encodeCallOptionAsNonNullable records callee structs version flex t v =
      encodeCall records callee version flex t false v := by
  unfold encodeCallOptionAsNonNullable
  split
  · exact absurd rfl h
  · exact absurd rfl h
  · rfl

/-- So is its length. -/
theorem encodedLenOptionAsNonNullable_of_ne {t : FieldType} {v : Value ρ} (h : v ≠ .null) :
    encodedLenOptionAsNonNullable records callee structs version flex t v =
      encodedLenExpr records callee version flex t false v := by
  unfold encodedLenOptionAsNonNullable
  split
  · exact absurd rfl h
  · exact absurd rfl h
  · rfl

theorem carriedForm_unwrapped_of_ne {t : FieldType} {v : Value ρ} (h : v ≠ .null) :
    carriedForm records structs carried t v .unwrapped = carriedCall carried t v := by
  unfold carriedForm
  split
  · exact absurd rfl h
  · rfl

/-- Null fits no call that is not nullable. -/
theorem ne_null_of_callFits {t : FieldType} {v : Value ρ}
    (h : CallFits records callee fits version flex t v) : v ≠ .null := by
  rintro rfl
  cases t with
  | array elem => exact h
  | base b => cases b <;> exact h

/-- The empty string and the empty array fit. -/
theorem callFits_rustDefault {t : FieldType} (h : t.unwraps) :
    CallFits records callee fits version flex t (rustDefault records structs t) := by
  cases t with
  | array elem =>
      have hempty : LenFits flex (2 ^ 31) 0 := by cases flex <;> decide
      exact ⟨hempty, by simp⟩
  | base b =>
      cases b <;> try exact absurd h Bool.false_ne_true
      have hempty : LenFits flex (2 ^ 15) "".utf8ByteSize := by cases flex <;> decide
      exact hempty

/-- A default of its Rust type is carried as itself. -/
theorem carriedCall_rustDefault {t : FieldType} (h : t.unwraps) :
    carriedCall carried t (rustDefault records structs t) = rustDefault records structs t := by
  cases t with
  | array elem => rfl
  | base b =>
      cases b <;> try exact absurd h Bool.false_ne_true
      rfl

/-- The codec of a positional field, in the form that it has at this version. -/
theorem exact_encodeForm
    (hstruct : ∀ name v, fits name v → Exact ((callee name).encode v version)
      ((callee name).encodedLen v version) ((callee name).decode version) (carried name v))
    {f : FieldSpec} {v : Value ρ} (hc : f.Compiles) (htag : f.isTagged = false)
    (h : FieldFits records callee fits version flex f v) :
    Exact
      (encodeForm records callee structs version (flex && !f.forcesNonFlex) f.fieldType v (f.form version))
      (encodedLenForm records callee structs version (flex && !f.forcesNonFlex) f.fieldType v
        (f.form version))
      (decodeForm records callee lenient version (flex && !f.forcesNonFlex) f.fieldType (f.form version))
      (carriedForm records structs carried f.fieldType v (f.form version)) := by
  rcases form_cases f version with ⟨hform, hnull⟩ | ⟨hform, hnull⟩ | ⟨hform, hnull, hsplit⟩
  · rw [hform]
    refine exact_encodeCall hstruct (h.resolve_left ?_)
    rintro ⟨hn, -⟩
    rw [hnull] at hn
    exact absurd hn Bool.false_ne_true
  · rw [hform]
    exact exact_encodeCall_nullable hstruct (takesOption_of_isNullable hc hnull) (h.imp_left And.right)
  · rw [hform]
    have hunwraps := hc.unwrapped htag hsplit
    rcases h with ⟨-, rfl⟩ | h
    · -- null is written as the empty value
      have hfit : CallFits records callee fits version (flex && !f.forcesNonFlex) f.fieldType
          (rustDefault records structs f.fieldType) := callFits_rustDefault hunwraps
      have hempty : Exact _ _
          (decodeCall records callee lenient version (flex && !f.forcesNonFlex) f.fieldType false) _ :=
        exact_encodeCall hstruct hfit
      rw [carriedCall_rustDefault hunwraps] at hempty
      revert hempty hunwraps
      generalize f.fieldType = t
      cases t with
      | array elem => exact fun _ hx => hx
      | base b =>
          cases b <;> intro hu <;> try exact absurd hu Bool.false_ne_true
          exact fun hx => hx
    · have hne := ne_null_of_callFits h
      unfold encodeForm encodedLenForm decodeForm
      rw [carriedForm_unwrapped_of_ne hne]
      dsimp only
      rw [encodeCallOptionAsNonNullable_of_ne hne, encodedLenOptionAsNonNullable_of_ne hne]
      exact exact_encodeCall hstruct h

/-- **Positional fields**, each written when the version has it and read over its default. -/
theorem exact_positional (d : StructDef)
    (hstruct : ∀ name v, fits name v → Exact ((callee name).encode v version)
      ((callee name).encodedLen v version) ((callee name).decode version) (carried name v))
    {fields : List FieldSpec} {values defaults : List (Value ρ)} (hc : ∀ f ∈ fields, f.Compiles)
    (hvalues : values.length = fields.length) (hdefaults : defaults.length = fields.length)
    (hfits : ∀ p ∈ positional (fields.zip values), versionCond p.1.versions version →
      FieldFits records callee fits version (d.flex version) p.1 p.2) :
    Exact
      (each (encodeOne records callee structs version (d.flex version)) (positional (fields.zip values)))
      ((positional (fields.zip values)).map (lenOne records callee structs version (d.flex version))).sum
      (d.decodePositional records callee lenient version (fields.zip defaults))
      (((fields.zip values).zip defaults).map (carriedPositional records structs carried version)) := by
  induction fields generalizing values defaults with
  | nil => exact Exact.pure []
  | cons f fields ih =>
      obtain ⟨v, values, rfl⟩ := List.exists_cons_of_length_eq_add_one hvalues
      obtain ⟨dflt, defaults, rfl⟩ := List.exists_cons_of_length_eq_add_one hdefaults
      rw [List.length_cons, List.length_cons, Nat.add_right_cancel_iff] at hvalues hdefaults
      have hrest := @ih values defaults (fun g hg => hc g (List.mem_cons_of_mem f hg)) hvalues hdefaults
      cases htag : f.isTagged with
      | true =>
          have hskip : positional ((f :: fields).zip (v :: values)) = positional (fields.zip values) := by
            simp [positional, htag]
          rw [hskip] at hfits ⊢
          have hcarried : carriedPositional records structs carried version ((f, v), dflt) = dflt := by
            simp [carriedPositional, htag]
          have hread : d.decodeUntagged records callee lenient version (f, dflt) = pure dflt := by
            simp [StructDef.decodeUntagged, htag]
          rw [List.zip_cons_cons, List.zip_cons_cons, List.zip_cons_cons, List.map_cons, hcarried,
            StructDef.decodePositional, hread, pure_bind]
          exact (hrest hfits).map (dflt :: ·)
      | false =>
          have hkeep : positional ((f :: fields).zip (v :: values)) =
              (f, v) :: positional (fields.zip values) := by
            simp [positional, htag]
          rw [hkeep] at hfits ⊢
          have hrest := hrest fun p hp => hfits p (List.mem_cons_of_mem _ hp)
          have hone : Exact (encodeOne records callee structs version (d.flex version) (f, v))
              (lenOne records callee structs version (d.flex version) (f, v))
              (d.decodeUntagged records callee lenient version (f, dflt))
              (carriedPositional records structs carried version ((f, v), dflt)) := by
            unfold encodeOne lenOne StructDef.decodeUntagged decodeOne carriedPositional
            simp only [htag, Bool.false_eq_true, if_false]
            by_cases hversion : versionCond f.versions version
            · simp only [hversion, if_true]
              exact exact_encodeForm hstruct (hc f List.mem_cons_self) htag
                (hfits (f, v) List.mem_cons_self hversion)
            · simp only [hversion]
              exact Exact.pure dflt
          exact hone.bind (hrest.map (_ :: ·))

end

/-! ## The tagged section

Known and unknown entries are written in the order of their tags. A known field that equals its default is
left off, and comes back as that default. -/

/-- The tagged fields, each under its tag. -/
theorem mem_tagged {α : Type} {ps : List (FieldSpec × α)} {e : UInt32 × FieldSpec × α} :
    e ∈ tagged ps ↔ e.2 ∈ ps ∧ e.2.1.tag = some e.1 := by
  unfold tagged
  rw [List.mem_filterMap]
  constructor
  · rintro ⟨p, hp, he⟩
    obtain ⟨tag, htag, rfl⟩ := Option.map_eq_some_iff.mp he
    exact ⟨hp, htag⟩
  · rintro ⟨hp, htag⟩
    exact ⟨e.2, hp, by rw [htag]; rfl⟩

/-- The tags of the tagged fields are those of the schema. -/
theorem map_fst_tagged {α : Type} (ps : List (FieldSpec × α)) :
    (tagged ps).map Prod.fst = (ps.map Prod.fst).filterMap (·.tag) := by
  unfold tagged
  rw [List.map_filterMap, List.filterMap_map]
  refine List.filterMap_congr fun p _ => ?_
  show (p.1.tag.map _).map Prod.fst = p.1.tag
  cases p.1.tag <;> rfl

section
variable (d : StructDef) (records : RecordsCodec ρ) (callee : String → Codec ρ)
  (structs : String → Value ρ) (fits : String → Value ρ → Prop)
  (carried : String → Value ρ → Value ρ) (version : Int16)

/-- A tagged value that is written: it is nullable at every version. -/
structure TaggedFits (f : FieldSpec) (v : Value ρ) : Prop where
  value : (f.nullable ∧ v = .null) ∨ CallFits records callee fits version true f.fieldType v
  payload : encodedLenExpr records callee version true f.fieldType f.nullable v < 2 ^ 32

/-- The values of the tagged fields that are written, and the unknown fields beside them. -/
structure SectionFits (values : List (Value ρ)) (unknown : UnknownTaggedFields) : Prop where
  payloads : ∀ e ∈ d.written records structs version values,
    TaggedFits records callee fits version e.2.1 e.2.2
  kept : unknown.Fits
  disjoint : ∀ u ∈ unknown, ∀ f ∈ d.fields, f.tag ≠ some u.tag
  count : (d.written records structs version values).length + unknown.length < 2 ^ 32

/-- The call of a tagged field names a field of its type with its value: itself, where nothing is renamed. -/
def StructDef.Names (values : List (Value ρ)) (f : FieldSpec) (v : Value ρ) : Prop :=
  ∃ g, d.called values f = some (g, v) ∧ g.fieldType = f.fieldType

/-- The Rust names of a struct's fields are distinct, and no call of a tagged field is renamed. -/
def OwnNames (fields : List FieldSpec) : Prop :=
  (fields.map (·.rustName)).Nodup ∧ ∀ f ∈ fields, f.isTagged → f.calledName = f.rustName

instance (fields : List FieldSpec) : Decidable (OwnNames fields) :=
  inferInstanceAs (Decidable (_ ∧ _))

/-- What is read of a tag. -/
def writtenValue (values : List (Value ρ)) (tag : UInt32) : Option (Value ρ) :=
  ((d.written records structs version values).lookup tag).map fun p =>
    carriedCall carried p.1.fieldType p.2

end

section
variable {d : StructDef} {records : RecordsCodec ρ} {callee : String → Codec ρ}
  {structs : String → Value ρ} {fits : String → Value ρ → Prop}
  {carried : String → Value ρ → Value ρ} {lenient : Bool} {version : Int16} {values : List (Value ρ)}
  {unknown : UnknownTaggedFields}

/-- The tagged fields that go on the wire. -/
theorem mem_written {e : UInt32 × FieldSpec × Value ρ} :
    e ∈ d.written records structs version values ↔ e.2 ∈ d.fields.zip values ∧ e.2.1.tag = some e.1 ∧
      d.shouldEncode records structs version e.2.1 e.2.2 := by
  unfold StructDef.written
  rw [List.mem_filter, mem_tagged, and_assoc]

/-- Distinct tags stay distinct. -/
theorem nodup_tagged {fields : List FieldSpec} (hdistinct : DistinctTags fields)
    (hlen : values.length = fields.length) : ((tagged (fields.zip values)).map Prod.fst).Nodup := by
  have hfields : (fields.zip values).map Prod.fst = fields := List.map_fst_zip (by omega)
  rw [map_fst_tagged, hfields]
  exact hdistinct

/-- So do those that go on the wire. -/
theorem nodup_written (hdistinct : DistinctTags d.fields) (hlen : values.length = d.fields.length) :
    ((d.written records structs version values).map Prod.fst).Nodup :=
  (nodup_tagged hdistinct hlen).sublist ((List.filter_sublist).map Prod.fst)

/-- The value of a written field is the one that its tag finds. -/
theorem writtenValue_of_mem (hdistinct : DistinctTags d.fields) (hlen : values.length = d.fields.length)
    {e : UInt32 × FieldSpec × Value ρ} (he : e ∈ d.written records structs version values) :
    writtenValue d records structs carried version values e.1 =
      some (carriedCall carried e.2.1.fieldType e.2.2) := by
  have hnodup : ((d.written records structs version values).map Prod.fst).Nodup :=
    nodup_written hdistinct hlen
  obtain ⟨before, after, hsplit⟩ := List.append_of_mem he
  have hfind : (d.written records structs version values).lookup e.1 = some e.2 := by
    refine List.lookup_eq_some_iff.mpr ⟨before, after, hsplit, fun p hp => ?_⟩
    rw [hsplit, List.map_append, List.nodup_append] at hnodup
    have hne := hnodup.2.2 p.1 (List.mem_map_of_mem hp) e.1 (by simp)
    simpa using fun heq => hne heq.symm
  unfold writtenValue
  rw [hfind]
  rfl

/-- A tag has a value where it goes on the wire. -/
theorem writtenValue_isSome {tag : UInt32} :
    (writtenValue d records structs carried version values tag).isSome ↔
      tag ∈ (d.written records structs version values).map Prod.fst := by
  unfold writtenValue
  rw [Option.isSome_map, List.lookup_isSome_iff, List.mem_map]
  constructor
  · rintro ⟨p, hp, heq⟩
    exact ⟨p, hp, (beq_iff_eq.mp heq).symm⟩
  · rintro ⟨p, hp, rfl⟩
    exact ⟨p, hp, beq_self_eq_true p.1⟩

/-- Nothing is read of a tagged field that is not written. -/
theorem writtenValue_of_suppressed (hdistinct : DistinctTags d.fields)
    (hlen : values.length = d.fields.length) {tag : UInt32} {p : FieldSpec × Value ρ}
    (hp : p ∈ d.fields.zip values) (htag : p.1.tag = some tag)
    (h : ¬d.shouldEncode records structs version p.1 p.2) :
    writtenValue d records structs carried version values tag = none := by
  refine Option.not_isSome_iff_eq_none.mp fun hsome => h ?_
  obtain ⟨e, he, rfl⟩ := List.mem_map.mp (writtenValue_isSome.mp hsome)
  obtain ⟨hmem, htag', hshould⟩ := mem_written.mp he
  -- one pair holds the tag
  have hsame : (e.1, p) = e := List.inj_on_of_nodup_map (nodup_tagged hdistinct hlen)
    (mem_tagged.mpr ⟨hp, htag⟩) (mem_tagged.mpr ⟨hmem, htag'⟩) rfl
  have hpair : p = e.2 := congrArg Prod.snd hsame
  rw [hpair]
  exact hshould

/-- The codec of a tagged value. -/
theorem exact_taggedCall
    (hstruct : ∀ name v, fits name v → Exact ((callee name).encode v version)
      ((callee name).encodedLen v version) ((callee name).decode version) (carried name v))
    {f : FieldSpec} {v : Value ρ} (hc : f.Compiles) (htag : f.isTagged)
    (h : TaggedFits records callee fits version f v) :
    Exact (encodeCall records callee version true f.fieldType f.nullable v)
      (encodedLenExpr records callee version true f.fieldType f.nullable v)
      (decodeCall records callee lenient version true f.fieldType f.nullable)
      (carriedCall carried f.fieldType v) := by
  cases hnull : f.nullable with
  | false =>
      refine exact_encodeCall hstruct (h.value.resolve_left ?_)
      rintro ⟨hn, -⟩
      rw [hnull] at hn
      exact absurd hn Bool.false_ne_true
  | true =>
      have hoption : f.isOption := by
        unfold FieldSpec.isOption
        rw [htag, Bool.true_and]
        exact hnull
      exact exact_encodeCall_nullable hstruct (hc.option hoption) (h.value.imp_left And.right)

/-- Such calls name their own fields. -/
theorem OwnNames.names (h : OwnNames d.fields) {p : FieldSpec × Value ρ} (hp : p ∈ d.fields.zip values)
    (htag : p.1.isTagged) : d.Names values p.1 p.2 := by
  have hsublist : ((d.fields.zip values).map (·.1.rustName)).Sublist (d.fields.map (·.rustName)) := by
    have hmap := (map_fst_zip_sublist d.fields values).map FieldSpec.rustName
    rwa [List.map_map] at hmap
  have hfind : ((d.fields.zip values).find? fun q => q.1.rustName = p.1.calledName).isSome :=
    List.find?_isSome.mpr ⟨p, hp, by rw [h.2 p.1 (List.of_mem_zip hp).1 htag]; exact decide_eq_true rfl⟩
  obtain ⟨q, hq⟩ := Option.isSome_iff_exists.mp hfind
  have hname : q.1.rustName = p.1.rustName := by
    have hfound := List.find?_some hq
    rw [← h.2 p.1 (List.of_mem_zip hp).1 htag]
    exact of_decide_eq_true hfound
  obtain rfl : q = p :=
    List.inj_on_of_nodup_map (hsublist.nodup h.1) (List.mem_of_find?_eq_some hq) hp hname
  exact ⟨q.1, hq, rfl⟩

/-- A field that is named by its call is written itself. -/
theorem StructDef.Names.encodeCallWithBuf {f : FieldSpec} {v : Value ρ} (h : d.Names values f v) :
    d.encodeCallWithBuf records callee version values f =
      encodeCall records callee version true f.fieldType f.nullable v := by
  obtain ⟨g, hcalled, htype⟩ := h
  unfold StructDef.encodeCallWithBuf
  rw [hcalled]
  dsimp only
  rw [htype]

/-- The payloads of exact values, each read back alone. -/
theorem exists_entries {es : List (UInt32 × FieldSpec × Value ρ)}
    (hnames : ∀ e ∈ es, d.Names values e.2.1 e.2.2)
    (h : ∀ e ∈ es, Exact (encodeCall records callee version true e.2.1.fieldType e.2.1.nullable e.2.2)
      (encodedLenExpr records callee version true e.2.1.fieldType e.2.1.nullable e.2.2)
      (decodeCall records callee lenient version true e.2.1.fieldType e.2.1.nullable)
      (carriedCall carried e.2.1.fieldType e.2.2)) :
    ∃ entries, es.mapM (fun e => do
        let payload ← encodeToBytes (d.encodeCallWithBuf records callee version values e.2.1)
        return (e.1, payload)) = (.ok entries : Except ProtocolError _) ∧
      List.Forall₂ (fun e x => x.1 = e.1 ∧
        x.2.length = encodedLenExpr records callee version true e.2.1.fieldType e.2.1.nullable e.2.2 ∧
        decodeCall records callee lenient version true e.2.1.fieldType e.2.1.nullable x.2 =
          .ok (carriedCall carried e.2.1.fieldType e.2.2, [])) es entries := by
  induction es with
  | nil => exact ⟨[], rfl, .nil⟩
  | cons e es ih =>
      obtain ⟨entries, hentries, hall⟩ := ih (fun e' he' => hnames e' (List.mem_cons_of_mem e he'))
        fun e' he' => h e' (List.mem_cons_of_mem e he')
      obtain ⟨w, hw, hlen, hread, -⟩ := h e List.mem_cons_self
      refine ⟨(e.1, w) :: entries, ?_, .cons ⟨rfl, hlen, hread.all⟩ hall⟩
      rw [List.mapM_cons, (hnames e List.mem_cons_self).encodeCallWithBuf, encodeToBytes_eq_ok.mpr hw, hentries]
      rfl

/-- The tag of an unknown field is not written as a known one. -/
theorem SectionFits.not_written (h : SectionFits d records callee structs fits version values unknown)
    {u : UnknownTaggedField} (hu : u ∈ unknown) :
    u.tag ∉ (d.written records structs version values).map Prod.fst := by
  intro hmem
  obtain ⟨e, he, htag⟩ := List.mem_map.mp hmem
  obtain ⟨hfield, htag', -⟩ := mem_written.mp he
  exact h.disjoint u hu e.2.1 (List.of_mem_zip hfield).1 (by rw [htag', htag])

/-- No unknown tag is that of a field on the wire. -/
theorem SectionFits.writtenValue_unknown (h : SectionFits d records callee structs fits version values unknown) :
    ∀ u ∈ unknown, writtenValue d records structs carried version values u.tag = none := fun _ hu =>
  Option.not_isSome_iff_eq_none.mp fun hsome => h.not_written hu (writtenValue_isSome.mp hsome)

/-- No tag stands twice in a section. -/
theorem SectionFits.nodup (h : SectionFits d records callee structs fits version values unknown)
    (hdistinct : DistinctTags d.fields) (hlen : values.length = d.fields.length)
    {entries : List (UInt32 × Bytes)}
    (htags : (d.written records structs version values).map Prod.fst = entries.map Prod.fst) :
    ((entries ++ unknown.map fun u => (u.tag, u.bytes)).map Prod.fst).Nodup := by
  rw [List.map_append, List.nodup_append, ← htags, List.map_map]
  refine ⟨nodup_written hdistinct hlen, ?_, ?_⟩
  · exact List.pairwise_map.mpr (h.kept.ascending.imp fun hlt => UInt32.ne_of_lt hlt)
  · rintro a ha b hb rfl
    obtain ⟨u, hu, rfl⟩ := List.mem_map.mp hb
    exact h.not_written hu ha

/-- **The tagged section**, its known and its unknown fields. -/
theorem exact_trailer
    (hstruct : ∀ name v, fits name v → Exact ((callee name).encode v version)
      ((callee name).encodedLen v version) ((callee name).decode version) (carried name v))
    (hc : ∀ f ∈ d.fields, f.Compiles) (hdistinct : DistinctTags d.fields)
    (hlen : values.length = d.fields.length)
    (h : SectionFits d records callee structs fits version values unknown)
    (hnames : ∀ e ∈ d.written records structs version values, d.Names values e.2.1 e.2.2) :
    Exact (putTrailer (d.taggedEntries records callee structs version values) unknown)
      (taggedFieldsLen (d.knownPairs records callee structs version values) unknown)
      (d.readTrailer records callee lenient version)
      (slotsOf d.fields (writtenValue d records structs carried version values), unknown) := by
  have hexact : ∀ e ∈ d.written records structs version values,
      Exact (encodeCall records callee version true e.2.1.fieldType e.2.1.nullable e.2.2)
        (encodedLenExpr records callee version true e.2.1.fieldType e.2.1.nullable e.2.2)
        (decodeCall records callee lenient version true e.2.1.fieldType e.2.1.nullable)
        (carriedCall carried e.2.1.fieldType e.2.2) := by
    intro e he
    obtain ⟨hmem, htag, -⟩ := mem_written.mp he
    have hf : e.2.1 ∈ d.fields := (List.of_mem_zip hmem).1
    exact exact_taggedCall hstruct (hc _ hf) (by rw [FieldSpec.isTagged, htag]; rfl) (h.payloads e he)
  obtain ⟨entries, hentries, hall⟩ := exists_entries hnames hexact
  have htags : (d.written records structs version values).map Prod.fst = entries.map Prod.fst :=
    Results.map_eq_map_of_forall₂ hall fun _ _ hone => hone.1.symm
  have hpairs : d.knownPairs records callee structs version values =
      entries.map fun e => (e.1, e.2.length) :=
    Results.map_eq_map_of_forall₂ hall fun _ _ hone => Prod.ext hone.1.symm hone.2.1.symm
  have hcount : entries.length + unknown.length < 2 ^ 32 := by
    rw [← hall.length_eq]
    exact h.count
  have hsizes : ∀ x ∈ entries, x.2.length < 2 ^ 32 := by
    intro x hx
    obtain ⟨e, he, -, hsize, -⟩ := Results.exists_of_forall₂_right hall hx
    rw [hsize]
    exact (h.payloads e he).payload
  have hknown : ∀ tag, (writtenValue d records structs carried version values tag).isSome ↔
      tag ∈ entries.map Prod.fst := by
    intro tag
    rw [writtenValue_isSome, htags]
  have hreads : ∀ x ∈ entries, EntryReads d records callee lenient version
      (writtenValue d records structs carried version values) x := by
    intro x hx
    obtain ⟨e, he, htag, -, hread⟩ := Results.exists_of_forall₂_right hall hx
    obtain ⟨hmem, htag', hshould⟩ := mem_written.mp he
    unfold EntryReads
    rw [htag, writtenValue_of_mem hdistinct hlen he]
    unfold StructDef.shouldEncode at hshould
    rw [Bool.and_eq_true] at hshould
    exact ⟨e.2.1, (List.of_mem_zip hmem).1, htag', hshould.1, hread⟩
  have hsorted := sortedFields_ascending (h.nodup hdistinct hlen htags)
  have hwrite : putTrailer (d.taggedEntries records callee structs version values) unknown =
      writeTaggedFields entries unknown := by
    unfold StructDef.taggedEntries
    rw [hentries]
    rfl
  rw [hwrite, hpairs]
  exact exact_writeTaggedFields hcount hsizes h.kept.lengths hsorted
    (absorb_sorted d records callee lenient version hdistinct hreads hknown h.disjoint h.writtenValue_unknown
      h.kept.ascending hsorted)

end

/-! ## Structs

The two parts in a row. What is carried of the struct is what is carried of its fields. -/

section
variable (d : StructDef) (records : RecordsCodec ρ) (callee : String → Codec ρ)
  (structs : String → Value ρ) (fits : String → Value ρ → Prop)
  (carried : String → Value ρ → Value ρ) (version : Int16)

/-- A value of a struct whose lengths fit the wire, with one value a field. Nothing is asked of a field that
    is not written. -/
def StructFits : Value ρ → Prop
  | .struct values unknown =>
      values.length = d.fields.length ∧
      (∀ p ∈ positional (d.fields.zip values), versionCond p.1.versions version →
        FieldFits records callee fits version (d.flex version) p.1 p.2) ∧
      (d.hasTrailer version → SectionFits d records callee structs fits version values unknown)
  | _ => False

/-- Every tagged field that is written, here and in the structs inside, is named by its call. -/
def StructNamed (named : String → Value ρ → Prop) : Value ρ → Prop
  | .struct values _ =>
      (∀ p ∈ positional (d.fields.zip values), versionCond p.1.versions version →
        Throughout named p.1.fieldType p.2) ∧
      (d.hasTrailer version → ∀ e ∈ d.written records structs version values,
        d.Names values e.2.1 e.2.2 ∧ Throughout named e.2.1.fieldType e.2.2)
  | _ => True

/-- What a field is read back as, given its default. -/
def carriedField (p : (FieldSpec × Value ρ) × Value ρ) : Value ρ :=
  if p.1.1.isTagged then
    if d.hasTrailer version && d.shouldEncode records structs version p.1.1 p.1.2 then
      carriedCall carried p.1.1.fieldType p.1.2
    else p.2
  else carriedPositional records structs carried version p

/-- What a struct is read back as. -/
def carriedStruct : Value ρ → Value ρ
  | .struct values unknown =>
      .struct
        (((d.fields.zip values).zip (ownedDefaults records structs d.fields)).map
          (carriedField d records structs carried version))
        (if d.hasTrailer version then unknown else [])
  | v => v

end

section
variable {d : StructDef} {records : RecordsCodec ρ} {callee : String → Codec ρ}
  {structs : String → Value ρ} {fits : String → Value ρ → Prop}
  {carried : String → Value ρ → Value ρ} {lenient : Bool} {version : Int16} {values : List (Value ρ)}

/-- Every field has a default. -/
theorem length_ownedDefaults (fields : List FieldSpec) :
    (ownedDefaults records structs fields).length = fields.length := by
  unfold ownedDefaults
  split <;> exact List.length_map _

/-- The slots of the tagged section complete the positional fields. -/
theorem writeBack_carried (hdistinct : DistinctTags d.fields) (hlen : values.length = d.fields.length)
    (htrailer : d.hasTrailer version) (defaults : List (Value ρ)) (hdefaults : defaults.length = d.fields.length) :
    StructDef.writeBack
        (((d.fields.zip values).zip defaults).map (carriedPositional records structs carried version))
        (slotsOf d.fields (writtenValue d records structs carried version values)) =
      ((d.fields.zip values).zip defaults).map (carriedField d records structs carried version) := by
  have hfields : d.fields = ((d.fields.zip values).zip defaults).map fun p => p.1.1 := by
    have hfst : ((d.fields.zip values).zip defaults).map Prod.fst = d.fields.zip values :=
      List.map_fst_zip (by rw [List.length_zip]; omega)
    have hfst' : (d.fields.zip values).map Prod.fst = d.fields := List.map_fst_zip (by omega)
    rw [← hfst] at hfst'
    rw [List.map_map] at hfst'
    exact hfst'.symm
  have hslots : slotsOf d.fields (writtenValue d records structs carried version values) =
      ((d.fields.zip values).zip defaults).map fun p =>
        p.1.1.tag.bind (writtenValue d records structs carried version values) := by
    unfold slotsOf
    conv_lhs => rw [hfields]
    rw [List.map_map]
    rfl
  rw [hslots, StructDef.writeBack, List.zipWith_map, List.zipWith_self]
  refine List.map_congr_left fun p hp => ?_
  have hmem : p.1 ∈ d.fields.zip values := (List.of_mem_zip hp).1
  unfold carriedField
  cases htag : p.1.1.tag with
  | none =>
      have huntagged : p.1.1.isTagged = false := by rw [FieldSpec.isTagged, htag]; rfl
      rw [huntagged]
      rfl
  | some tag =>
      have htagged : p.1.1.isTagged = true := by rw [FieldSpec.isTagged, htag]; rfl
      rw [htagged, htrailer, Bool.true_and, if_pos rfl]
      by_cases hshould : d.shouldEncode records structs version p.1.1 p.1.2
      · have hwritten : (tag, p.1) ∈ d.written records structs version values :=
          mem_written.mpr ⟨hmem, htag, hshould⟩
        have hvalue : writtenValue d records structs carried version values tag =
            some (carriedCall carried p.1.1.fieldType p.1.2) := writtenValue_of_mem hdistinct hlen hwritten
        rw [if_pos hshould, Option.bind_some, hvalue]
        rfl
      · have hnone : writtenValue d records structs carried version values tag = none :=
          writtenValue_of_suppressed hdistinct hlen hmem htag hshould
        rw [if_neg hshould, Option.bind_some, hnone]
        unfold carriedPositional
        rw [if_pos htagged]
        rfl

/-- What fits and is named throughout fits with both conditions. -/
theorem StructFits.named {named : String → Value ρ → Prop} {v : Value ρ}
    (h : StructFits d records callee structs fits version v) (hnamed : StructNamed d records structs version named v) :
    StructFits d records callee structs (fun name v => fits name v ∧ named name v) version v := by
  cases v <;> try exact h.elim
  case struct values unknown =>
    obtain ⟨hlen, hfields, hsection⟩ := h
    refine ⟨hlen, fun p hp hversion => ?_, fun htrailer => ?_⟩
    · exact (hfields p hp hversion).imp_right fun hfits => hfits.inside (hnamed.1 p hp hversion)
    · obtain ⟨hpayloads, hkept, hdisjoint, hcount⟩ := hsection htrailer
      refine ⟨fun e he => ⟨?_, (hpayloads e he).payload⟩, hkept, hdisjoint, hcount⟩
      exact (hpayloads e he).value.imp_right fun hfits => hfits.inside (hnamed.2 htrailer e he).2

/-- **One struct.** Its codec is exact on the values that fit, given the codecs of the structs that its
fields name. -/
theorem exact_struct
    (hstruct : ∀ name v, fits name v → Exact ((callee name).encode v version)
      ((callee name).encodedLen v version) ((callee name).decode version) (carried name v))
    (hc : ∀ f ∈ d.fields, f.Compiles) (hdistinct : DistinctTags d.fields)
    (hguard : d.guard version = none) {v : Value ρ} {named : String → Value ρ → Prop}
    (h : StructFits d records callee structs fits version v) (hnamed : StructNamed d records structs version named v) :
    Exact (d.encode records callee structs version v) (d.encodedLen records callee structs version v)
      (d.decode records callee structs lenient version)
      (carriedStruct d records structs carried version v) := by
  cases v <;> try exact h.elim
  case struct values unknown =>
    obtain ⟨hlen, hfields, hsection⟩ := h
    have hdefaults : (ownedDefaults records structs d.fields).length = d.fields.length :=
      length_ownedDefaults d.fields
    unfold StructDef.encode StructDef.encodedLen StructDef.decode carriedStruct
    simp only [hguard]
    unfold StructDef.encodeFields StructDef.decodeFields
    refine (exact_positional d hstruct hc hlen hdefaults hfields).bind ?_
    cases htrailer : d.hasTrailer version with
    | true =>
        have hnames : ∀ e ∈ d.written records structs version values, d.Names values e.2.1 e.2.2 :=
          fun e he => (hnamed.2 htrailer e he).1
        simp only [if_true]
        rw [← writeBack_carried hdistinct hlen htrailer _ hdefaults]
        exact (exact_trailer hstruct hc hdistinct hlen (hsection htrailer) hnames).map
          fun s => Value.struct (StructDef.writeBack _ s.1) s.2
    | false =>
        simp only [Bool.false_eq_true, if_false]
        have hcarried : ((d.fields.zip values).zip (ownedDefaults records structs d.fields)).map
            (carriedPositional records structs carried version) =
            ((d.fields.zip values).zip (ownedDefaults records structs d.fields)).map
              (carriedField d records structs carried version) := by
          refine List.map_congr_left fun p _ => ?_
          unfold carriedField
          split
          · rename_i htagged
            rw [htrailer, Bool.false_and, carriedPositional, if_pos htagged]
            rfl
          · rfl
        rw [hcarried]
        exact Exact.pure _

end

/-! ## Messages

An induction over the nesting of the value, through every struct that a field names. -/

namespace MessageSpec

/-- What is asked of a schema: its code compiles, and a struct's tags are distinct and cover the versions of
    their fields. -/
structure Supported (spec : MessageSpec) : Prop where
  compiles : ∀ id d, spec.structDef id = some d → ∀ f ∈ d.fields, f.Compiles
  resolves : ∀ id d, spec.structDef id = some d → ∀ f ∈ d.fields, ∀ name,
    f.baseType.structName = some name →
      ∃ target, spec.path id.file name = some target ∧ (spec.structDef target).isSome
  distinct : ∀ id d, spec.structDef id = some d → DistinctTags d.fields
  tagRange : ∀ id d, spec.structDef id = some d → ∀ f ∈ d.fields, f.isTagged → f.tagRange = f.versions

/-- The files that structs are generated into. -/
def files (spec : MessageSpec) : List (Option String) :=
  none :: spec.commonStructs.map fun cs => some cs.name

theorem mem_structsOf {spec : MessageSpec} {id : StructId} {d : StructDef} (h : spec.structDef id = some d) :
    id.file ∈ spec.files ∧ (id.name, d.fields) ∈ spec.structsOf id.file := by
  unfold structDef at h
  split at h
  · rename_i htop
    cases h
    subst htop
    exact ⟨List.mem_cons_self, List.mem_cons_self⟩
  · obtain ⟨fields, hfields, rfl⟩ := Option.map_eq_some_iff.mp h
    have hmem : (id.name, fields) ∈ spec.structsOf id.file := by
      obtain ⟨before, after, hsplit, -⟩ := List.lookup_eq_some_iff.mp hfields
      rw [hsplit]
      simp
    refine ⟨?_, hmem⟩
    unfold files
    revert hmem
    cases id.file with
    | none => exact fun _ => List.mem_cons_self
    | some name =>
        intro hmem
        obtain ⟨cs, hcs, -⟩ := List.mem_flatMap.mp hmem
        obtain ⟨hmem, hname⟩ := List.mem_filter.mp hcs
        rw [decide_eq_true_eq] at hname
        exact List.mem_cons_of_mem _ (List.mem_map.mpr ⟨cs, hmem, by rw [hname]⟩)

/-- A schema is checked file by file. -/
theorem supported_of_forall {spec : MessageSpec}
    (h : ∀ file ∈ spec.files, ∀ s ∈ spec.structsOf file, DistinctTags s.2 ∧
      ∀ f ∈ s.2, f.Compiles ∧ (f.isTagged → f.tagRange = f.versions) ∧
        ∀ name ∈ f.baseType.structName, (spec.path file name).any fun id => (spec.structDef id).isSome) :
    spec.Supported where
  compiles _ _ hd f hf := ((h _ (mem_structsOf hd).1 _ (mem_structsOf hd).2).2 f hf).1
  resolves _ _ hd f hf name hname :=
    (Option.any_eq_true _ _).mp
      (((h _ (mem_structsOf hd).1 _ (mem_structsOf hd).2).2 f hf).2.2 name hname)
  distinct _ _ hd := (h _ (mem_structsOf hd).1 _ (mem_structsOf hd).2).1
  tagRange _ _ hd f hf := ((h _ (mem_structsOf hd).1 _ (mem_structsOf hd).2).2 f hf).2.1

variable (spec : MessageSpec) (records : RecordsCodec ρ) (version : Int16)

/-- A value of a struct type, nested less than `n` deep, whose lengths fit the wire and whose unknown tags
    are ascending and not the schema's. -/
def Fits : Nat → StructId → Value ρ → Prop
  | 0, _, _ => False
  | n + 1, id, v =>
      ∃ d, spec.structDef id = some d ∧
        StructFits d records (spec.callee records n id.file) (spec.defaultOf records id.file)
          (fun name v => ∃ target, spec.path id.file name = some target ∧ Fits n target v) version v

/-- Every tagged field that is written, at every depth, is named by its call. -/
def Named : Nat → StructId → Value ρ → Prop
  | 0, _, _ => True
  | n + 1, id, v =>
      ∀ d, spec.structDef id = some d →
        StructNamed d records (spec.defaultOf records id.file) version
          (fun name v => ∀ target, spec.path id.file name = some target → Named n target v) v

/-- What a value is read back as. -/
def carried : Nat → StructId → Value ρ → Value ρ
  | 0, _, v => v
  | n + 1, id, v =>
      match spec.structDef id with
      | some d =>
          carriedStruct d records (spec.defaultOf records id.file)
            (fun name v => (spec.path id.file name).elim v (carried n · v)) version v
      | none => v

variable {spec} {records} {version}

/-- A valid version passes every guard. -/
theorem guard_eq_none {id : StructId} {d : StructDef} (h : spec.structDef id = some d)
    (hvalid : spec.validVersions.contains version) : d.guard version = none := by
  unfold structDef at h
  split at h
  · cases h
    show (if spec.validVersions.contains version then none else _) = _
    rw [if_pos hvalid]
  · obtain ⟨fields, -, rfl⟩ := Option.map_eq_some_iff.mp h
    rfl

/-- Where no call is renamed, every value is named by its calls. -/
theorem named_of_ownNames (h : ∀ file ∈ spec.files, ∀ s ∈ spec.structsOf file, OwnNames s.2) (n : Nat)
    (id : StructId) (v : Value ρ) : spec.Named records version n id v := by
  induction n generalizing id v with
  | zero => trivial
  | succ n ih =>
      intro d hd
      have hinside : ∀ (t : FieldType) (v : Value ρ),
          Throughout (fun name v => ∀ target, spec.path id.file name = some target →
            spec.Named records version n target v) t v := fun t v =>
        throughout_of_forall (fun name v target _ => ih target v) t v
      cases v <;> try trivial
      refine ⟨fun p _ _ => hinside _ _, fun _ e he => ⟨?_, hinside _ _⟩⟩
      obtain ⟨hmem, htag, -⟩ := mem_written.mp he
      exact (h _ (mem_structsOf hd).1 _ (mem_structsOf hd).2).names hmem (by rw [FieldSpec.isTagged, htag]; rfl)

/-- **The owned codec is exact** on the values that fit and whose tagged fields are named by their calls. -/
theorem exact_codec (hcompiles : ∀ id d, spec.structDef id = some d → ∀ f ∈ d.fields, f.Compiles)
    (hdistinct : ∀ id d, spec.structDef id = some d → DistinctTags d.fields)
    (hvalid : spec.validVersions.contains version) {n : Nat} {id : StructId} {v : Value ρ}
    (h : spec.Fits records version n id v) (hnamed : spec.Named records version n id v) :
    Exact ((spec.codec records n id).encode v version) ((spec.codec records n id).encodedLen v version)
      ((spec.codec records n id).decode version) (spec.carried records version n id v) := by
  induction n generalizing id v with
  | zero => exact h.elim
  | succ n ih =>
      obtain ⟨d, hd, hfits⟩ := h
      have hnamed := hnamed d hd
      have hstruct : ∀ name v, (∃ target, spec.path id.file name = some target ∧
            spec.Fits records version n target v) ∧
            (∀ target, spec.path id.file name = some target → spec.Named records version n target v) →
          Exact ((spec.callee records n id.file name).encode v version)
            ((spec.callee records n id.file name).encodedLen v version)
            ((spec.callee records n id.file name).decode version)
            ((spec.path id.file name).elim v (spec.carried records version n · v)) := by
        rintro name v ⟨⟨target, htarget, hv⟩, hnames⟩
        unfold callee
        rw [htarget]
        exact ih hv (hnames target htarget)
      unfold codec carried
      rw [hd]
      exact exact_struct hstruct (hcompiles id d hd) (hdistinct id d hd)
        (guard_eq_none hd hvalid) (hfits.named hnamed) hnamed

end MessageSpec

end Krabka.Codegen
