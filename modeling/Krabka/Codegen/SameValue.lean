import Krabka.Codegen.Canonical
import Krabka.Lib.ApartOutputs
import Krabka.Protocol.GuardedPrimitives

/-!
# `Codegen.SameValue` — values that a version does not tell apart

Two values can differ and still be written alike: in a field that the version does not have, in null where the
version writes null as the empty value, in a tagged field that is left off the wire. `SameAt` says when, of the
values alone, through every nesting of structs, arrays and tagged fields. The owned codec writes two values
alike exactly when they are the same at the version (`apart_codec`).

The proof follows the tables of expressions as that of the round trip does, with `Apart` in the place of `Exact`:
no length has to fit, and nothing is asked of the unknown tagged fields.
-/

namespace Krabka.Codegen

open ByteStream Output Reader Krabka.Protocol PairedLists
open Records (putTrailer RecordsCodec recordsPayload)
open PartitionRecord (encodeToBytes encodeToBytes_eq_ok)

variable {ρ : Type}

/-! ## Expressions

For every table the two values are compared at the place where they would be written. Records are compared by
what they are framed as. -/

section
variable (records : RecordsCodec ρ) (structs : String → Value ρ) (same : String → Value ρ → Value ρ → Prop)
  (version : Int16) (flex : Bool)

/-- Two records payloads are the same when their own fields are written alike. -/
def SameBase : BaseType → Value ρ → Value ρ → Prop
  | .struct name, .struct vs u, .struct vs' u' => same name (.struct vs u) (.struct vs' u')
  | .records, .records r, .records r' => records.putField r version flex = records.putField r' version flex
  | _, v, v' => v = v'

def SameCall : FieldType → Value ρ → Value ρ → Prop
  | .base b, v, v' => SameBase records same version flex b v v'
  | .array elem, .array vs, .array vs' => List.Forall₂ (SameCall elem) vs vs'
  | .array _, v, v' => v = v'

/-- Where the codec of an `Option` is not nullable, null is the empty value. -/
def unwrapped (t : FieldType) (form : Form) (v : Value ρ) : Value ρ :=
  match form, v with
  | .unwrapped, .null => rustDefault records structs t
  | _, v => v

def SameForm (t : FieldType) (form : Form) (v v' : Value ρ) : Prop :=
  SameCall records same version flex t (unwrapped records structs t form v) (unwrapped records structs t form v')

end

/-- A records payload is written behind the number of its bytes, and the default one has none. -/
structure FramedRecords (records : RecordsCodec ρ) : Prop where
  field : ∀ r version flex w, Wrote (records.putField r version flex) w →
    ∃ b, Wrote (either flex (putCompactBytes b) (putBytes b)) w
  default : ∀ version flex,
    records.putField records.default version flex = either flex (putCompactBytes []) (putBytes [])

theorem framed_recordsPayload [Records.CrcFast] (codecs : Compression.Codecs) : FramedRecords (recordsPayload codecs) where
  field r version flex w h := by
    obtain ⟨pre, encoded, rfl, -, hpre⟩ := Records.RecordsPayload.wrote_encodeLengthPrefixed h
    refine ⟨encoded, ?_⟩
    unfold Records.IsLengthOf at hpre
    cases flex with
    | true =>
        obtain ⟨v, hv, rfl⟩ := hpre
        refine wrote_bind.mpr ⟨_, _, ?_, wrote_put.mpr rfl, rfl⟩
        unfold putCompactLength
        rw [FixedWidth.u32OfLen_eq_some.mpr hv]
        exact wrote_put.mpr rfl
    | false =>
        obtain ⟨v, hv, rfl⟩ := hpre
        refine wrote_bind.mpr ⟨_, _, ?_, wrote_put.mpr rfl, rfl⟩
        unfold putLongLength
        rw [FixedWidth.i32OfLen_eq_some.mpr hv]
        exact wrote_put.mpr rfl
  default version flex := by
    cases flex <;> rfl

section
variable {flex : Bool}

/-- A string is written where its length fits the prefix of its version. -/
theorem guarded_string (s : String) :
    Guarded (LenFits flex (2 ^ 15) s.utf8ByteSize) (either flex (putCompactString s) (putString s))
      (either flex getCompactStringOwned getStringOwned) s := by
  refine .of_exact exact_string fun h => ?_
  cases flex with
  | true => exact writes_putCompactLength.mp (writes_bind.mp h).1
  | false => exact writes_putShortLength.mp (writes_bind.mp h).1

/-- So is a nullable one. -/
theorem guarded_nullableString (s : Option String) :
    Guarded (∀ t ∈ s, LenFits flex (2 ^ 15) t.utf8ByteSize)
      (either flex (putCompactNullableString s) (putNullableString s))
      (either flex getCompactNullableStringOwned getNullableStringOwned) s := by
  refine .of_exact exact_nullableString fun h t ht => ?_
  rw [Option.mem_def.mp ht] at h
  exact (guarded_string t).writes.mp h

/-- So are bytes. -/
theorem guarded_bytes (b : Bytes) :
    Guarded (LenFits flex (2 ^ 31) b.length) (either flex (putCompactBytes b) (putBytes b))
      (either flex getCompactBytesOwned getBytesOwned) b := by
  refine .of_exact exact_bytes fun h => ?_
  cases flex with
  | true => exact writes_putCompactLength.mp (writes_bind.mp h).1
  | false => exact writes_putLongLength.mp (writes_bind.mp h).1

/-- So are nullable ones. -/
theorem guarded_nullableBytes (b : Option Bytes) :
    Guarded (∀ c ∈ b, LenFits flex (2 ^ 31) c.length)
      (either flex (putCompactNullableBytes b) (putNullableBytes b))
      (either flex getCompactNullableBytesOwned getNullableBytesOwned) b := by
  refine .of_exact exact_nullableBytes fun h c hc => ?_
  rw [Option.mem_def.mp hc] at h
  exact (guarded_bytes c).writes.mp h

end

section
variable {records : RecordsCodec ρ} {callee : String → Codec ρ} {structs : String → Value ρ}
  {same : String → Value ρ → Value ρ → Prop} {shaped : String → Value ρ → Prop} {version : Int16} {flex : Bool}

/-- Records payloads are told apart by their bytes. -/
theorem apart_records (hrecords : FramedRecords records) (r r' : ρ) :
    Apart (records.putField r version flex) (records.putField r' version flex)
      (records.putField r version flex = records.putField r' version flex) := by
  intro w w' hw hw' s s'
  obtain ⟨b, hb⟩ := hrecords.field r version flex w hw
  obtain ⟨b', hb'⟩ := hrecords.field r' version flex w' hw'
  constructor
  · intro heq
    obtain ⟨rfl, rfl⟩ := (Apart.of_guarded guarded_bytes b b' w w' hb hb' s s').mp heq
    exact ⟨by rw [hw, hw', wrote_unique hb hb'], rfl⟩
  · rintro ⟨heq, rfl⟩
    rw [heq] at hw
    rw [wrote_unique hw hw']

/-- A payload is never written as null is. -/
theorem apart_null_records (hrecords : FramedRecords records) (r : ρ) :
    Apart (either flex (putCompactNullableBytes none) (putNullableBytes none))
      (records.putField r version flex) False := by
  intro w w' hw hw' s s'
  obtain ⟨b, hb⟩ := hrecords.field r version flex w' hw'
  have hsome : Wrote (either flex (putCompactNullableBytes (some b)) (putNullableBytes (some b))) w' := hb
  rw [Apart.of_guarded guarded_nullableBytes none (some b) w w' hw hsome s s']
  simp

/-- A type whose values are all written through one primitive. -/
theorem apart_scalar {α : Type} {enc : Value ρ → Encode} {fits : α → Prop} {read : Decode α} (ctor : α → Value ρ)
    (hread : ∀ a, Guarded (fits a) (enc (ctor a)) read a) (hinj : Function.Injective ctor)
    (hill : ∀ v, Writes (enc v) → ∃ a, v = ctor a) (v v' : Value ρ) : Apart (enc v) (enc v') (v = v') := by
  by_cases hv : Writes (enc v)
  · by_cases hv' : Writes (enc v')
    · obtain ⟨a, rfl⟩ := hill v hv
      obtain ⟨a', rfl⟩ := hill v' hv'
      exact (Apart.of_guarded hread a a').congr hinj.eq_iff.symm
    · exact (Apart.of_not_writes hv').symm
  · exact Apart.of_not_writes hv

/-- The expressions of the types that hold no struct and no records. -/
theorem apart_encodeScalar {b : BaseType} {nullable : Bool} (hstruct : ∀ name, b ≠ .struct name)
    (hrecords : b ≠ .records) (v v' : Value ρ) :
    Apart (encodeBase records callee version flex b nullable v)
      (encodeBase records callee version flex b nullable v') (v = v') := by
  cases b
  case struct name => exact absurd rfl (hstruct name)
  case records => exact absurd rfl hrecords
  case bool =>
    refine apart_scalar Value.bool (fun n => .always (exact_putBool n)) (fun _ _ => Value.bool.inj) (fun v h => ?_)
      v v'
    cases v <;> first | exact ⟨_, rfl⟩ | exact absurd h (not_writes_fail _)
  case int8 =>
    refine apart_scalar Value.int8 (fun n => .always (exact_putI8 n)) (fun _ _ => Value.int8.inj) (fun v h => ?_)
      v v'
    cases v <;> first | exact ⟨_, rfl⟩ | exact absurd h (not_writes_fail _)
  case int16 =>
    refine apart_scalar Value.int16 (fun n => .always (exact_putI16 n)) (fun _ _ => Value.int16.inj) (fun v h => ?_)
      v v'
    cases v <;> first | exact ⟨_, rfl⟩ | exact absurd h (not_writes_fail _)
  case int32 =>
    refine apart_scalar Value.int32 (fun n => .always (exact_putI32 n)) (fun _ _ => Value.int32.inj) (fun v h => ?_)
      v v'
    cases v <;> first | exact ⟨_, rfl⟩ | exact absurd h (not_writes_fail _)
  case int64 =>
    refine apart_scalar Value.int64 (fun n => .always (exact_putI64 n)) (fun _ _ => Value.int64.inj) (fun v h => ?_)
      v v'
    cases v <;> first | exact ⟨_, rfl⟩ | exact absurd h (not_writes_fail _)
  case uint16 =>
    refine apart_scalar Value.uint16 (fun n => .always (exact_putU16 n)) (fun _ _ => Value.uint16.inj) (fun v h => ?_)
      v v'
    cases v <;> first | exact ⟨_, rfl⟩ | exact absurd h (not_writes_fail _)
  case float64 =>
    refine apart_scalar Value.float64 (fun n => .always (exact_putF64 n)) (fun _ _ => Value.float64.inj) (fun v h => ?_)
      v v'
    cases v <;> first | exact ⟨_, rfl⟩ | exact absurd h (not_writes_fail _)
  case uuid =>
    have hread : ∀ u, Guarded True (encodeBase records callee version flex .uuid nullable (.uuid u)) getUuid u :=
      fun u => .always (exact_putUuid u)
    refine apart_scalar Value.uuid hread (fun _ _ => Value.uuid.inj) (fun v h => ?_) v v'
    cases v <;> first | exact ⟨_, rfl⟩ | exact absurd h (not_writes_fail _)
  case string =>
    cases nullable with
    | false =>
        refine apart_scalar Value.string guarded_string (fun _ _ => Value.string.inj) (fun v h => ?_) v v'
        cases v <;> first | exact ⟨_, rfl⟩ | exact absurd h (not_writes_fail _)
    | true =>
        have hread : ∀ o, Guarded (∀ t ∈ o, LenFits flex (2 ^ 15) t.utf8ByteSize)
            (encodeBase records callee version flex .string true (ofOption .string o))
            (either flex getCompactNullableStringOwned getNullableStringOwned) o := fun o => by
          cases o <;> exact guarded_nullableString _
        refine apart_scalar (ofOption Value.string) hread
          (ofOption_injective (fun _ _ => Value.string.inj) nofun) (fun v h => ?_) v v'
        cases v <;> first | exact ⟨none, rfl⟩ | exact ⟨some _, rfl⟩ | exact absurd h (not_writes_fail _)
  case bytes =>
    cases nullable with
    | false =>
        refine apart_scalar Value.bytes guarded_bytes (fun _ _ => Value.bytes.inj) (fun v h => ?_) v v'
        cases v <;> first | exact ⟨_, rfl⟩ | exact absurd h (not_writes_fail _)
    | true =>
        have hread : ∀ o, Guarded (∀ t ∈ o, LenFits flex (2 ^ 31) t.length)
            (encodeBase records callee version flex .bytes true (ofOption .bytes o))
            (either flex getCompactNullableBytesOwned getNullableBytesOwned) o := fun o => by
          cases o <;> exact guarded_nullableBytes _
        refine apart_scalar (ofOption Value.bytes) hread
          (ofOption_injective (fun _ _ => Value.bytes.inj) nofun) (fun v h => ?_) v v'
        cases v <;> first | exact ⟨none, rfl⟩ | exact ⟨some _, rfl⟩ | exact absurd h (not_writes_fail _)
  case uint32 => exact Apart.fail_left
  case other t => exact Apart.fail_left

/-- A records field. -/
theorem apart_encodeRecords (hrecords : FramedRecords records) (nullable : Bool) (v v' : Value ρ) :
    Apart (encodeBase records callee version flex .records nullable v)
      (encodeBase records callee version flex .records nullable v')
      (SameBase records same version flex .records v v') := by
  cases v <;> cases nullable <;> try exact Apart.fail_left
  case records.false r =>
    cases v' <;> try exact Apart.fail_right
    exact apart_records hrecords r _
  case records.true r =>
    cases v' <;> try exact Apart.fail_right
    case records r' => exact apart_records hrecords r r'
    case null => exact (apart_null_records hrecords r).symm.congr (iff_of_false id nofun)
  case null.true =>
    cases v' <;> try exact Apart.fail_right
    case records r => exact (apart_null_records hrecords r).congr (iff_of_false id nofun)
    case null => exact (Apart.same _).congr (iff_of_true trivial rfl)

/-- A struct field. -/
theorem apart_encodeStruct {name : String}
    (hstruct : ∀ vs u vs' u', shaped name (.struct vs u) → shaped name (.struct vs' u') →
      Apart ((callee name).encode (.struct vs u) version) ((callee name).encode (.struct vs' u') version)
        (same name (.struct vs u) (.struct vs' u')))
    (hill : ∀ v, Writes ((callee name).encode v version) → ∃ vs u, v = .struct vs u)
    {nullable : Bool} {v v' : Value ρ} (hv : Throughout shaped (.base (.struct name)) v)
    (hv' : Throughout shaped (.base (.struct name)) v') :
    Apart (encodeBase records callee version flex (.struct name) nullable v)
      (encodeBase records callee version flex (.struct name) nullable v')
      (SameBase records same version flex (.struct name) v v') := by
  have hmarker : ∀ vs u, Apart (encodeBase records callee version flex (.struct name) true .null)
      (encodeBase records callee version flex (.struct name) true (.struct vs u)) False := fun vs u =>
    ((Apart.of_guarded (fun n => .always (exact_putI8 n)) (-1) 1).congr (by decide)).bind_of_ne
  have hform : ∀ x, Writes (encodeBase records callee version flex (.struct name) nullable x) →
      (nullable = true ∧ x = .null) ∨ ∃ vs u, x = .struct vs u := by
    intro x h
    cases nullable with
    | false => exact .inr (hill x h)
    | true => cases x <;> first | exact .inl ⟨rfl, rfl⟩ | exact .inr (hill _ (writes_bind.mp h).2)
  by_cases hwrites : Writes (encodeBase records callee version flex (.struct name) nullable v)
  · by_cases hwrites' : Writes (encodeBase records callee version flex (.struct name) nullable v')
    · rcases hform v hwrites with ⟨rfl, rfl⟩ | ⟨vs, u, rfl⟩
      · rcases hform v' hwrites' with ⟨-, rfl⟩ | ⟨vs', u', rfl⟩
        · exact (Apart.same _).congr (iff_of_true trivial rfl)
        · exact (hmarker vs' u').congr (iff_of_false id nofun)
      · rcases hform v' hwrites' with ⟨rfl, rfl⟩ | ⟨vs', u', rfl⟩
        · exact (hmarker vs u).symm.congr (iff_of_false id nofun)
        · have hboth := hstruct vs u vs' u' hv hv'
          cases nullable with
          | false => exact hboth
          | true => exact ((Apart.same (put (putI8 1))).bind fun _ => hboth).congr (iff_of_eq (true_and _))
    · exact (Apart.of_not_writes hwrites').symm
  · exact Apart.of_not_writes hwrites

/-- **`encode_call`** tells apart what is not the same. -/
theorem apart_encodeCall (hrecords : FramedRecords records)
    (hstruct : ∀ name vs u vs' u', shaped name (.struct vs u) → shaped name (.struct vs' u') →
      Apart ((callee name).encode (.struct vs u) version) ((callee name).encode (.struct vs' u') version)
        (same name (.struct vs u) (.struct vs' u')))
    (hill : ∀ name v, Writes ((callee name).encode v version) → ∃ vs u, v = .struct vs u)
    {t : FieldType} {nullable : Bool} {v v' : Value ρ} (hv : Throughout shaped t v) (hv' : Throughout shaped t v') :
    Apart (encodeCall records callee version flex t nullable v)
      (encodeCall records callee version flex t nullable v') (SameCall records same version flex t v v') := by
  induction t generalizing nullable v v' with
  | base b =>
      cases b with
      | struct name => exact apart_encodeStruct (hstruct name) (hill name) hv hv'
      | records => exact apart_encodeRecords hrecords nullable v v'
      | _ => exact apart_encodeScalar (fun _ h => by cases h) (fun h => by cases h) v v'
  | array elem ih =>
      have hcount : ∀ n m : Option Nat, Apart (putNullableArrayLen n flex) (putNullableArrayLen m flex) (n = m) :=
        Apart.of_guarded (guarded_putNullableArrayLen flex)
      have hnull : ∀ vs, Apart (encodeCall records callee version flex (.array elem) true .null)
          (encodeCall records callee version flex (.array elem) true (.array vs)) False := fun vs =>
        ((hcount none (some vs.length)).bind (S := True) fun h => by cases h).congr
          (iff_of_false (fun h => by cases h.1) id)
      cases v <;> cases nullable <;> try exact Apart.fail_left
      case array.false vs =>
        cases v' <;> try exact Apart.fail_right
        case array vs' =>
          exact Apart.counted (Apart.of_guarded (guarded_putArrayLen flex)) fun p hp =>
            ih (hv p.1 (List.of_mem_zip hp).1) (hv' p.2 (List.of_mem_zip hp).2)
      case array.true vs =>
        cases v' <;> try exact Apart.fail_right
        case array vs' =>
          exact Apart.counted (fun n m => (hcount (some n) (some m)).congr (iff_of_eq (Option.some.injEq n m)))
            fun p hp => ih (hv p.1 (List.of_mem_zip hp).1) (hv' p.2 (List.of_mem_zip hp).2)
        case null => exact (hnull vs).symm.congr (iff_of_false id nofun)
      case null.true =>
        cases v' <;> try exact Apart.fail_right
        case array vs' => exact (hnull vs').congr (iff_of_false id nofun)
        case null => exact (Apart.same _).congr (iff_of_true trivial rfl)

/-- What is not null is unwrapped to itself. -/
theorem unwrapped_of_ne {t : FieldType} {form : Form} {v : Value ρ} (h : v ≠ .null) :
    unwrapped records structs t form v = v := by
  unfold unwrapped
  split
  · exact absurd rfl h
  · rfl

/-- A form is a call on the value that it writes. -/
theorem encodeForm_eq (hrecords : FramedRecords records) (t : FieldType) (form : Form) (v : Value ρ) :
    encodeForm records callee structs version flex t v form =
      encodeCall records callee version flex t (form = .nullable) (unwrapped records structs t form v) := by
  cases form with
  | plain => rfl
  | nullable => rfl
  | unwrapped =>
      by_cases hv : v = .null
      · subst hv
        cases t with
        | array elem => rfl
        | base b =>
            cases b <;> try rfl
            exact (hrecords.default version flex).symm
      · rw [unwrapped_of_ne hv]
        exact encodeCallOptionAsNonNullable_of_ne hv

/-- Unwrapping puts in a default, which is shaped as well. -/
theorem throughout_unwrapped (hdefault : ∀ name, Throughout shaped (.base (.struct name)) (structs name)) {t : FieldType}
    {form : Form} {v : Value ρ} (h : Throughout shaped t v) : Throughout shaped t (unwrapped records structs t form v) := by
  unfold unwrapped
  split
  · cases t with
    | array elem => exact fun _ hv => absurd hv List.not_mem_nil
    | base b =>
        cases b <;> try trivial
        exact hdefault _
  · exact h

end

/-! ## Tagged sections

A section is the entries that it writes. Two sections are alike if their entries are, tag by tag. -/

/-- Lengths are told apart by their varints. -/
theorem apart_putVarintLength (n m : Nat) (what : String) :
    Apart (putVarintLength n what) (putVarintLength m what) (n = m) := by
  intro w w' hw hw' s s'
  obtain ⟨a, rfl, ha⟩ := wrote_putVarintLength hw
  obtain ⟨b, rfl, hb⟩ := wrote_putVarintLength hw'
  have happart := Apart.of_guarded (fun v => .always (exact_putUvarint v)) a b _ _ (wrote_put.mpr rfl)
    (wrote_put.mpr rfl) s s'
  rw [happart, ← ha, ← hb, UInt32.toNat_inj]

/-- Tagged fields are told apart by what is written of them. -/
theorem apart_putTaggedField (a b : UInt32 × Bytes) : Apart (putTaggedField a) (putTaggedField b) (a = b) := by
  have htag : Apart (put (putUvarint a.1) : Encode) (put (putUvarint b.1)) (a.1 = b.1) :=
    Apart.of_guarded (fun v => .always (exact_putUvarint v)) a.1 b.1
  refine (htag.bind fun _ => (apart_putVarintLength a.2.length b.2.length _).bind fun hlen =>
    Apart.put_of_length hlen).congr ?_
  rw [Prod.ext_iff]
  exact and_congr_right fun _ => and_iff_right_of_imp (congrArg List.length)

/-- A trailer is told apart by its entries, in the order of their tags. -/
theorem apart_writeTaggedFields (es es' : List (UInt32 × Bytes)) (u u' : UnknownTaggedFields) :
    Apart (writeTaggedFields es u) (writeTaggedFields es' u') (sortedFields es u = sortedFields es' u') := by
  refine (Apart.counted (fun n m => apart_putVarintLength n m "tagged-field count")
    fun p _ => apart_putTaggedField p.1 p.2).congr ?_
  rw [List.forall₂_eq_eq_eq]
  rfl

/-- A trailer was written: its known fields were encoded. -/
theorem wrote_putTrailer {entries : Except ProtocolError (List (UInt32 × Bytes))}
    {unknown : UnknownTaggedFields} {w : Bytes} (h : Wrote (putTrailer entries unknown) w) :
    ∃ es, entries = .ok es ∧ Wrote (writeTaggedFields es unknown) w := by
  cases entries with
  | error e => exact absurd h not_wrote_fail
  | ok es => exact ⟨es, rfl, h⟩

/-- An entry of a tagged section: the field that a call names, or the bytes of an unknown field. -/
inductive Entry (ρ : Type) where
  | known (called : Option (FieldSpec × Value ρ)) (nullable : Bool)
  | unknown (bytes : Bytes)

section
variable (d : StructDef) (records : RecordsCodec ρ) (callee : String → Codec ρ) (structs : String → Value ρ)
  (same : String → Value ρ → Value ρ → Prop) (version : Int16)

def Entry.payload : Entry ρ → Except ProtocolError Bytes
  | .known (some p) nullable => encodeToBytes (encodeCall records callee version true p.1.fieldType nullable p.2)
  | .known none _ => encodeToBytes illTyped
  | .unknown b => .ok b

/-- Two values of one type are compared. An unknown field, and a field in the place of one of another type, are
    the bytes that they stand for. -/
def SameEntry : Entry ρ → Entry ρ → Prop
  | .known (some p) nullable, .known (some q) nullable' =>
      if p.1.fieldType = q.1.fieldType ∧ nullable = nullable' then
        SameCall records same version true p.1.fieldType p.2 q.2
      else (Entry.known (some p) nullable).payload records callee version =
        (Entry.known (some q) nullable').payload records callee version
  | e, e' => e.payload records callee version = e'.payload records callee version

/-- The entries of a struct's tagged section, in the order of the schema. -/
def StructDef.entries (values : List (Value ρ)) (unknown : UnknownTaggedFields) : List (UInt32 × Entry ρ) :=
  ((d.written records structs version values).map fun e =>
    (e.1, .known (d.called values e.2.1) e.2.1.nullable)) ++ unknown.map fun u => (u.tag, .unknown u.bytes)

/-- Two structs: the fields that the version has are the same, and so are the entries of the tagged section. -/
def SameStruct : Value ρ → Value ρ → Prop
  | .struct values unknown, .struct values' unknown' =>
      (∀ p ∈ d.fields.zip (values.zip values'), p.1.isTagged = false → p.1.versions.contains version →
        SameForm records structs same version (d.flex version && !p.1.forcesNonFlex) p.1.fieldType
          (p.1.form version) p.2.1 p.2.2) ∧
      (d.hasTrailer version →
        List.Forall₂ (fun e e' => e.1 = e'.1 ∧ SameEntry records callee same version e.2 e'.2)
          ((d.entries records structs version values unknown).insertionSort fun a b => a.1 ≤ b.1)
          ((d.entries records structs version values' unknown').insertionSort fun a b => a.1 ≤ b.1))
  | _, _ => False

/-- A value of the struct's Rust type has one value a field. -/
def StructShaped (shaped : String → Value ρ → Prop) : Value ρ → Prop
  | .struct values _ =>
      values.length = d.fields.length ∧ ∀ p ∈ d.fields.zip values, Throughout shaped p.1.fieldType p.2
  | _ => True

end

section
variable {d : StructDef} {records : RecordsCodec ρ} {callee : String → Codec ρ} {structs : String → Value ρ}
  {same : String → Value ρ → Value ρ → Prop} {shaped : String → Value ρ → Prop} {version : Int16} {flex : Bool}

/-- The positional fields, one by one. -/
theorem apart_positional {f : FieldSpec × Value ρ → Encode} {R : FieldSpec × Value ρ × Value ρ → Prop}
    {fields : List FieldSpec} {values values' : List (Value ρ)} (hlen : values.length = fields.length)
    (hlen' : values'.length = fields.length)
    (h : ∀ p ∈ fields.zip (values.zip values'), p.1.isTagged = false →
      Apart (f (p.1, p.2.1)) (f (p.1, p.2.2)) (R p)) :
    Apart (each f (positional (fields.zip values))) (each f (positional (fields.zip values')))
      (∀ p ∈ fields.zip (values.zip values'), p.1.isTagged = false → R p) := by
  induction fields generalizing values values' with
  | nil => exact (Apart.same _).congr (iff_of_true trivial fun p hp => absurd hp List.not_mem_nil)
  | cons g fields ih =>
      obtain ⟨v, values, rfl⟩ := List.exists_cons_of_length_eq_add_one hlen
      obtain ⟨v', values', rfl⟩ := List.exists_cons_of_length_eq_add_one hlen'
      rw [List.length_cons, List.length_cons, Nat.add_right_cancel_iff] at hlen hlen'
      have hrest := ih hlen hlen' fun p hp => h p (List.mem_cons_of_mem _ hp)
      simp only [List.zip_cons_cons, List.forall_mem_cons]
      cases htag : g.isTagged with
      | true =>
          have hskip : ∀ (v : Value ρ) vs, positional ((g, v) :: fields.zip vs) = positional (fields.zip vs) :=
            fun v vs => List.filter_cons_of_neg (by simp [htag])
          rw [hskip, hskip]
          exact hrest.congr (and_iff_right fun h => by cases h).symm
      | false =>
          have hkeep : ∀ (v : Value ρ) vs,
              positional ((g, v) :: fields.zip vs) = (g, v) :: positional (fields.zip vs) :=
            fun v vs => List.filter_cons_of_pos (by simp [htag])
          rw [hkeep, hkeep]
          have hone := h (g, v, v') List.mem_cons_self htag
          exact (hone.bind fun _ => hrest).congr (and_congr_left' ⟨fun h _ => h, fun h => h rfl⟩)

/-- What is written of an entry. -/
theorem forall₂_entries {values : List (Value ρ)} {unknown : UnknownTaggedFields} {es : List (UInt32 × Bytes)}
    (h : d.taggedEntries records callee structs version values = .ok es) :
    List.Forall₂ (fun e x => e.1 = x.1 ∧ e.2.payload records callee version = .ok x.2)
      (d.entries records structs version values unknown) (es ++ unknown.map fun u => (u.tag, u.bytes)) := by
  refine List.rel_append ?_ ?_
  · rw [List.forall₂_map_left_iff]
    refine (Results.mapM_eq_ok.mp h).imp fun e x hx => ?_
    obtain ⟨b, hb, hx⟩ := Results.bind_eq_ok.mp hx
    cases hx
    refine ⟨rfl, ?_⟩
    rw [← hb]
    unfold StructDef.encodeCallWithBuf
    cases d.called values e.2.1 <;> rfl
  · rw [List.forall₂_map_left_iff, List.forall₂_map_right_iff, List.forall₂_same]
    exact fun u _ => ⟨rfl, rfl⟩

/-- A known entry holds a field of the struct. -/
theorem mem_zip_of_entry {values : List (Value ρ)} {unknown : UnknownTaggedFields} {tag : UInt32}
    {p : FieldSpec × Value ρ} {nullable : Bool}
    (h : (tag, Entry.known (some p) nullable) ∈ d.entries records structs version values unknown) :
    p ∈ d.fields.zip values := by
  rcases List.mem_append.mp h with h | h
  · obtain ⟨e, -, he⟩ := List.mem_map.mp h
    rw [Prod.mk.injEq, Entry.known.injEq] at he
    exact List.mem_of_find?_eq_some he.2.1
  · obtain ⟨u, -, hu⟩ := List.mem_map.mp h
    cases hu

/-- Two entries are written alike when they are the same. -/
theorem payload_eq_iff (hrecords : FramedRecords records)
    (hstruct : ∀ name vs u vs' u', shaped name (.struct vs u) → shaped name (.struct vs' u') →
      Apart ((callee name).encode (.struct vs u) version) ((callee name).encode (.struct vs' u') version)
        (same name (.struct vs u) (.struct vs' u')))
    (hill : ∀ name v, Writes ((callee name).encode v version) → ∃ vs u, v = .struct vs u) {e e' : Entry ρ}
    (he : ∀ p nullable, e = .known (some p) nullable → Throughout shaped p.1.fieldType p.2)
    (he' : ∀ p nullable, e' = .known (some p) nullable → Throughout shaped p.1.fieldType p.2) {b b' : Bytes}
    (hb : e.payload records callee version = .ok b) (hb' : e'.payload records callee version = .ok b') :
    b = b' ↔ SameEntry records callee same version e e' := by
  have hpayload : b = b' ↔ e.payload records callee version = e'.payload records callee version := by
    rw [hb, hb', Except.ok.injEq]
  unfold SameEntry
  split
  · rename_i p nullable q nullable'
    split
    · rename_i hsame
      have hq : Throughout shaped p.1.fieldType q.2 := hsame.1 ▸ he' q nullable' rfl
      have hleft : encodeToBytes (encodeCall records callee version true p.1.fieldType nullable p.2) = .ok b := hb
      have hright : encodeToBytes (encodeCall records callee version true q.1.fieldType nullable' q.2) = .ok b' :=
        hb'
      rw [← hsame.1, ← hsame.2] at hright
      exact (apart_encodeCall hrecords hstruct hill (he p nullable rfl) hq).eq_iff (encodeToBytes_eq_ok.mp hleft)
        (encodeToBytes_eq_ok.mp hright)
    · exact hpayload
  · exact hpayload

/-- **The tagged section.** -/
theorem apart_trailer (hrecords : FramedRecords records)
    (hstruct : ∀ name vs u vs' u', shaped name (.struct vs u) → shaped name (.struct vs' u') →
      Apart ((callee name).encode (.struct vs u) version) ((callee name).encode (.struct vs' u') version)
        (same name (.struct vs u) (.struct vs' u')))
    (hill : ∀ name v, Writes ((callee name).encode v version) → ∃ vs u, v = .struct vs u)
    {values values' : List (Value ρ)} {unknown unknown' : UnknownTaggedFields}
    (hv : ∀ p ∈ d.fields.zip values, Throughout shaped p.1.fieldType p.2)
    (hv' : ∀ p ∈ d.fields.zip values', Throughout shaped p.1.fieldType p.2) :
    Apart (putTrailer (d.taggedEntries records callee structs version values) unknown)
      (putTrailer (d.taggedEntries records callee structs version values') unknown')
      (List.Forall₂ (fun e e' => e.1 = e'.1 ∧ SameEntry records callee same version e.2 e'.2)
        ((d.entries records structs version values unknown).insertionSort fun a b => a.1 ≤ b.1)
        ((d.entries records structs version values' unknown').insertionSort fun a b => a.1 ≤ b.1)) := by
  intro w w' hw hw' s s'
  obtain ⟨es, hes, hw⟩ := wrote_putTrailer hw
  obtain ⟨es', hes', hw'⟩ := wrote_putTrailer hw'
  rw [apart_writeTaggedFields es es' unknown unknown' w w' hw hw' s s']
  refine and_congr_left' ?_
  have hsorted : ∀ {values : List (Value ρ)} {unknown : UnknownTaggedFields} {es : List (UInt32 × Bytes)},
      d.taggedEntries records callee structs version values = .ok es →
      List.Forall₂ (fun e x => e.1 = x.1 ∧ e.2.payload records callee version = .ok x.2)
        ((d.entries records structs version values unknown).insertionSort fun a b => a.1 ≤ b.1)
        (sortedFields es unknown) := by
    intro values unknown es h
    have hall := @forall₂_entries _ d records callee structs version values unknown es h
    exact (forall₂_insertionSort_iff (Results.map_eq_map_of_forall₂ hall fun _ _ hone => hone.1)).mpr hall
  refine eq_iff_forall₂ (hsorted hes) (hsorted hes') ?_
  rintro ⟨tag, e⟩ he ⟨tag', e'⟩ he' x x' hx hx'
  rw [List.mem_insertionSort] at he he'
  rw [Prod.ext_iff, ← hx.1, ← hx'.1]
  refine and_congr_right fun _ => payload_eq_iff hrecords hstruct hill ?_ ?_ hx.2 hx'.2
  · rintro p nullable rfl
    exact hv p (mem_zip_of_entry he)
  · rintro p nullable rfl
    exact hv' p (mem_zip_of_entry he')

/-- A positional field in the form that it has at this version. -/
theorem apart_encodeForm (hrecords : FramedRecords records)
    (hstruct : ∀ name vs u vs' u', shaped name (.struct vs u) → shaped name (.struct vs' u') →
      Apart ((callee name).encode (.struct vs u) version) ((callee name).encode (.struct vs' u') version)
        (same name (.struct vs u) (.struct vs' u')))
    (hill : ∀ name v, Writes ((callee name).encode v version) → ∃ vs u, v = .struct vs u)
    (hdefault : ∀ name, Throughout shaped (.base (.struct name)) (structs name)) {t : FieldType} {v v' : Value ρ}
    (hv : Throughout shaped t v) (hv' : Throughout shaped t v') (form : Form) :
    Apart (encodeForm records callee structs version flex t v form)
      (encodeForm records callee structs version flex t v' form)
      (SameForm records structs same version flex t form v v') := by
  rw [encodeForm_eq hrecords, encodeForm_eq hrecords]
  exact apart_encodeCall hrecords hstruct hill (throughout_unwrapped hdefault hv) (throughout_unwrapped hdefault hv')

/-- **One struct.** -/
theorem apart_struct (hrecords : FramedRecords records)
    (hstruct : ∀ name vs u vs' u', shaped name (.struct vs u) → shaped name (.struct vs' u') →
      Apart ((callee name).encode (.struct vs u) version) ((callee name).encode (.struct vs' u') version)
        (same name (.struct vs u) (.struct vs' u')))
    (hill : ∀ name v, Writes ((callee name).encode v version) → ∃ vs u, v = .struct vs u)
    (hdefault : ∀ name, Throughout shaped (.base (.struct name)) (structs name)) {v v' : Value ρ}
    (hv : StructShaped d shaped v) (hv' : StructShaped d shaped v') :
    Apart (d.encode records callee structs version v) (d.encode records callee structs version v')
      (SameStruct d records callee structs same version v v') := by
  cases v <;> try exact Apart.fail_left
  cases v' <;> try exact Apart.fail_right
  case struct.struct values unknown values' unknown' =>
    unfold StructDef.encode
    cases d.guard version with
    | some e => exact Apart.fail_left
    | none =>
        refine (apart_positional hv.1 hv'.1 fun p hp _ => ?_).bind fun _ =>
          Apart.ite fun _ => apart_trailer hrecords hstruct hill hv.2 hv'.2
        obtain ⟨hleft, hright⟩ := mem_zip_zip hp
        unfold encodeOne
        rw [versionCond_eq]
        exact Apart.ite fun _ => apart_encodeForm hrecords hstruct hill hdefault (hv.2 _ hleft)
          (hv'.2 (p.1, p.2.2) hright) _

end

/-! ## What is always the same

A value is the same as itself at every version. -/

section
variable {d : StructDef} {records : RecordsCodec ρ} {callee : String → Codec ρ} {structs : String → Value ρ}
  {same : String → Value ρ → Value ρ → Prop} {version : Int16} {flex : Bool}

/-- A value is the same as itself in every call. -/
theorem sameCall_refl (hrefl : ∀ name vs u, same name (.struct vs u) (.struct vs u)) (t : FieldType)
    (v : Value ρ) : SameCall records same version flex t v v := by
  induction t generalizing v with
  | base b => cases b <;> cases v <;> first | exact rfl | exact hrefl _ _ _
  | array elem ih =>
      cases v <;> try exact rfl
      exact List.forall₂_same.mpr fun v _ => ih v

/-- So it is in every form. -/
theorem sameForm_refl (hrefl : ∀ name vs u, same name (.struct vs u) (.struct vs u)) (t : FieldType)
    (form : Form) (v : Value ρ) : SameForm records structs same version flex t form v v :=
  sameCall_refl hrefl t _

/-- So is an entry of the section. -/
theorem sameEntry_refl (hrefl : ∀ name vs u, same name (.struct vs u) (.struct vs u)) (e : Entry ρ) :
    SameEntry records callee same version e e := by
  unfold SameEntry
  split
  · split
    · exact sameCall_refl hrefl _ _
    · rfl
  · rfl

/-- So is a struct, with what it does not know. -/
theorem sameStruct_refl (hrefl : ∀ name vs u, same name (.struct vs u) (.struct vs u)) (values : List (Value ρ))
    (unknown : UnknownTaggedFields) :
    SameStruct d records callee structs same version (.struct values unknown) (.struct values unknown) := by
  refine ⟨fun p hp _ _ => ?_, fun _ => List.forall₂_same.mpr fun e _ => ⟨rfl, sameEntry_refl hrefl e.2⟩⟩
  rw [eq_of_mem_zip_self (List.of_mem_zip hp).2]
  exact sameForm_refl hrefl _ _ _

end

/-! ## Messages

An induction over the nesting, as for the round trip. -/

section
variable {records : RecordsCodec ρ} {structs : String → Value ρ} {shaped : String → Value ρ → Prop}

/-- The default of a Rust type is shaped. -/
theorem throughout_rustDefault (hdefault : ∀ name, Throughout shaped (.base (.struct name)) (structs name))
    (t : FieldType) : Throughout shaped t (rustDefault records structs t) := by
  cases t with
  | array elem => exact fun _ hv => absurd hv List.not_mem_nil
  | base b =>
      cases b <;> try trivial
      exact hdefault _

/-- So is a default that the schema states. -/
theorem throughout_scalarDefault (hdefault : ∀ name, Throughout shaped (.base (.struct name)) (structs name))
    {string : List Char → Option String} {t : FieldType} {val : Json.Value} {v : Value ρ}
    (h : scalarDefault records structs string t val = some v) : Throughout shaped t v := by
  have hrust := @throughout_rustDefault _ records structs shaped hdefault
  have hmap : ∀ {α : Type} {o : Option α} {ctor : α → Value ρ} {t : FieldType},
      (∀ a, Throughout shaped t (ctor a)) → o.map ctor = some v → Throughout shaped t v := by
    intro α o ctor t hctor ho
    obtain ⟨a, -, rfl⟩ := Option.map_eq_some_iff.mp ho
    exact hctor a
  unfold scalarDefault at h
  split at h
  · split_ifs at h
    · cases h
      exact throughout_null t
    · split at h
      all_goals first | exact hmap (fun _ => trivial) h | (cases h; first | trivial | exact hrust _)
  · split at h
    all_goals first | exact hmap (fun _ => trivial) h | (cases h; exact hrust _)
  · split at h
    all_goals cases h; first | trivial | exact hrust _
  · cases h
    exact hrust _

/-- So the fields of a struct's default have the types that they are declared with. -/
theorem throughout_ownedDefaults (hdefault : ∀ name, Throughout shaped (.base (.struct name)) (structs name))
    {fields : List FieldSpec} {p : FieldSpec × Value ρ} (h : p ∈ fields.zip (ownedDefaults records structs fields)) :
    Throughout shaped p.1.fieldType p.2 := by
  have hrust := @throughout_rustDefault _ records structs shaped hdefault
  have hexpr : ∀ f : FieldSpec, Throughout shaped f.fieldType ((defaultExpr records structs debugLiteral f).getD .null) := by
    intro f
    unfold defaultExpr
    split_ifs with hnull hnull' harray
    · exact throughout_null _
    · exact throughout_null _
    · cases f.fieldType with
      | array elem => exact fun _ hv => absurd hv List.not_mem_nil
      | base b => cases b <;> trivial
    · have hbase : f.baseType = f.fieldType := by
        unfold FieldSpec.baseType
        revert harray
        cases f.fieldType with
        | base b => exact fun _ => rfl
        | array elem => exact fun h => absurd rfl h
      rw [hbase]
      cases f.default with
      | none => exact hrust _
      | some val =>
          dsimp only
          cases hval : scalarDefault records structs debugLiteral f.fieldType val with
          | none => exact throughout_null _
          | some v => exact throughout_scalarDefault hdefault hval
  have hderived : ∀ f : FieldSpec, Throughout shaped f.fieldType (derivedDefault records structs f) := by
    intro f
    unfold derivedDefault
    split
    · exact throughout_null _
    · exact hrust _
  have hmap : ∀ g : FieldSpec → Value ρ, (∀ f, Throughout shaped f.fieldType (g f)) → p ∈ fields.zip (fields.map g) →
      Throughout shaped p.1.fieldType p.2 := by
    intro g hg hp
    obtain ⟨i, hi⟩ := List.mem_iff_getElem?.mp hp
    obtain ⟨hf, hv⟩ := List.getElem?_zip_eq_some.mp hi
    rw [List.getElem?_map, hf, Option.map_some, Option.some.injEq] at hv
    rw [← hv]
    exact hg p.1
  unfold ownedDefaults at h
  split at h
  · exact hmap _ hexpr h
  · exact hmap _ hderived h

end

namespace MessageSpec

variable (spec : MessageSpec) (records : RecordsCodec ρ) (version : Int16)

/-- A value of a struct's Rust type, as deep as its calls go. -/
def Shaped : Nat → StructId → Value ρ → Prop
  | 0, _, _ => True
  | n + 1, id, v =>
      ∀ d, spec.structDef id = some d →
        StructShaped d (fun name v => ∀ target, spec.path id.file name = some target → Shaped n target v) v

/-- Two values of a struct type are the same at this version. -/
def SameAt : Nat → StructId → Value ρ → Value ρ → Prop
  | 0, _, _, _ => True
  | n + 1, id, v, v' =>
      ∀ d, spec.structDef id = some d →
        SameStruct d records (spec.callee records n id.file) (spec.defaultOf records id.file)
          (fun name v v' => ∀ target, spec.path id.file name = some target → SameAt n target v v') version v v'

variable {spec} {records} {version}

/-- The default of a struct type, inside the values of a file. -/
theorem throughout_of_shaped {n : Nat} {file : Option String} {name : String} {v : StructId → Value ρ}
    (h : ∀ target, spec.Shaped n target (v target)) :
    Throughout (fun name v => ∀ target, spec.path file name = some target → spec.Shaped n target v)
      (.base (.struct name)) ((spec.path file name).elim .null v) := by
  cases hpath : spec.path file name with
  | none => exact throughout_null _
  | some target =>
      rw [Option.elim_some]
      have hv := h target
      cases hvalue : v target <;> try trivial
      rw [hvalue] at hv
      intro target' htarget'
      rw [hpath, Option.some.injEq] at htarget'
      exact htarget' ▸ hv

/-- So is the default of a struct, to any depth. -/
theorem shaped_defaultAt (n k : Nat) (id : StructId) : spec.Shaped n id (spec.defaultAt records k id) := by
  induction n generalizing k id with
  | zero => trivial
  | succ n ih =>
      intro d hd
      cases k with
      | zero => trivial
      | succ k =>
          unfold defaultAt
          rw [hd]
          exact ⟨length_ownedDefaults d.fields, fun p hp =>
            throughout_ownedDefaults (fun name => throughout_of_shaped fun target => ih k target) hp⟩

/-- A struct type writes structs only. -/
theorem struct_of_writes {n : Nat} {file : Option String} {name : String} {v : Value ρ}
    (h : Writes ((spec.callee records n file name).encode v version)) : ∃ vs u, v = .struct vs u := by
  unfold callee at h
  cases hpath : spec.path file name with
  | none =>
      rw [hpath] at h
      exact absurd h (not_writes_fail _)
  | some target =>
      rw [hpath, Option.elim_some] at h
      cases n with
      | zero => exact absurd h (not_writes_fail _)
      | succ n =>
          unfold codec at h
          cases hd : spec.structDef target with
          | none =>
              rw [hd] at h
              exact absurd h (not_writes_fail _)
          | some d =>
              rw [hd] at h
              cases v <;> first | exact ⟨_, _, rfl⟩ | exact absurd h (not_writes_fail _)

/-- **The owned codec tells apart** what is not the same at the version. -/
theorem apart_codec (hrecords : FramedRecords records) {n : Nat} {id : StructId} {v v' : Value ρ}
    (hv : spec.Shaped n id v) (hv' : spec.Shaped n id v') :
    Apart ((spec.codec records n id).encode v version) ((spec.codec records n id).encode v' version)
      (spec.SameAt records version n id v v') := by
  induction n generalizing id v v' with
  | zero => exact Apart.fail_left
  | succ n ih =>
      unfold codec SameAt
      cases hd : spec.structDef id with
      | none => exact Apart.fail_left
      | some d =>
          simp only [Option.some.injEq, forall_eq']
          have hshaped := hv d hd
          refine apart_struct hrecords ?_ (fun _ _ => struct_of_writes) ?_ hshaped (hv' d hd)
          · intro name vs u vs' u' hleft hright
            unfold callee
            cases hpath : spec.path id.file name with
            | none => exact Apart.fail_left
            | some target =>
                simp only [Option.elim_some, Option.some.injEq, forall_eq']
                exact ih (hleft target hpath) (hright target hpath)
          · exact fun name => throughout_of_shaped fun target => shaped_defaultAt n spec.structCount target

/-- **A value is the same as itself at every version.** -/
theorem sameAt_refl (n : Nat) (id : StructId) (vs : List (Value ρ)) (u : UnknownTaggedFields) :
    spec.SameAt records version n id (.struct vs u) (.struct vs u) := by
  induction n generalizing id vs u with
  | zero => trivial
  | succ n ih => exact fun d _ => sameStruct_refl (fun name vs u target _ => ih target vs u) vs u

end MessageSpec

end Krabka.Codegen
