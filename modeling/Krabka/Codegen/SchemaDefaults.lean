import Krabka.Codegen.Defaults

/-!
# `Codegen.SchemaDefaults` — the default that a schema writes down

A default is written in the schema as a JSON text, number or Boolean, and has the value of that literal.
Three tables of the generator turn it into Rust: whether `Default` is derived, the expression of a written
`Default`, and the test that leaves a tagged field off the wire. They keep every Boolean and every signed
integer. They have no row for `uint16` and `float64`, and a text that reads as a zero is taken for the
default of its type.
-/

namespace Krabka.Codegen

open Text Krabka.Protocol
open Records (RecordsCodec recordsPayload)

/-! ## Integer literals

The texts of integers that the generator reads and Rust accepts: a sign, then decimal digits or `0x` and
hexadecimal ones. Both readers come to the same number. -/

/-- The number that a text stands for. -/
inductive IntegerText : List Char → Int → Prop
  | decimal {cs : List Char} {n : Nat} (h : parseDecimal cs = some n) : IntegerText cs n
  | hex {cs : List Char} {n : Nat} (h : parseHex cs = some n) : IntegerText ('0' :: 'x' :: cs) n
  | negDecimal {cs : List Char} {n : Nat} (h : parseDecimal cs = some n) : IntegerText ('-' :: cs) (-n)
  | negHex {cs : List Char} {n : Nat} (h : parseHex cs = some n) :
      IntegerText ('-' :: '0' :: 'x' :: cs) (-n)

/-- Or a JSON value. -/
inductive IntegerLiteral : Json.Value → Int → Prop
  | text {s : List Char} {n : Int} (h : IntegerText s n) : IntegerLiteral (.string s) n
  | posInt (n : UInt64) : IntegerLiteral (.number (.posInt n)) n.toNat
  | negInt (n : Int64) : IntegerLiteral (.number (.negInt n)) n.toInt

/-- Decimal text is digits. -/
theorem isDigit_of_parseDecimal {cs : List Char} {n : Nat} (h : parseDecimal cs = some n) :
    cs ≠ [] ∧ ∀ c ∈ cs, c.isDigit = true := by
  unfold parseDecimal at h
  split at h
  · cases h
  · rename_i hno
    rw [Bool.or_eq_true, not_or, List.isEmpty_iff, Bool.not_eq_true', Bool.not_eq_false,
      List.all_eq_true] at hno
    exact hno

/-- Hexadecimal text is hexadecimal digits. -/
theorem hexDigit_of_parseHex {cs : List Char} {n : Nat} (h : parseHex cs = some n) :
    ∀ c ∈ cs, (hexDigit c).isSome := by
  unfold parseHex at h
  split at h
  · cases h
  · clear * - h
    generalize 0 = acc at h
    induction cs generalizing acc with
    | nil => intro c hc; cases hc
    | cons c cs ih =>
        rw [List.foldlM_cons] at h
        obtain ⟨acc', hacc, h⟩ := Option.bind_eq_some_iff.mp h
        obtain ⟨d, hd, _⟩ := Option.map_eq_some_iff.mp hacc
        rw [List.forall_mem_cons]
        exact ⟨by rw [hd]; rfl, ih acc' h⟩

theorem toNat_of_isDigit {c : Char} (h : c.isDigit = true) : 48 ≤ c.toNat ∧ c.toNat ≤ 57 := by
  unfold Char.isDigit at h
  rw [Bool.and_eq_true, decide_eq_true_eq, decide_eq_true_eq] at h
  exact h

theorem toNat_of_hexDigit {c : Char} (h : (hexDigit c).isSome) : 48 ≤ c.toNat ∧ c.toNat ≤ 102 := by
  unfold hexDigit at h
  split at h
  · rename_i hdigit
    have hrange := toNat_of_isDigit hdigit
    omega
  · split at h
    · rename_i hlow
      have hlow' : 97 ≤ c.toNat ∧ c.toNat ≤ 102 := hlow
      omega
    · split at h
      · rename_i hup
        have hup' : 65 ≤ c.toNat ∧ c.toNat ≤ 70 := hup
        omega
      · cases h

/-- White space is a blank, a control character or not ASCII. -/
theorem isWhitespace_eq_false {c : Char} (hlow : 0x20 < c.toNat) (hhigh : c.toNat < 0x7F) :
    isWhitespace c = false := by
  unfold isWhitespace
  rw [Bool.eq_false_iff]
  intro h
  simp only [Bool.or_eq_true, Bool.and_eq_true, decide_eq_true_eq] at h
  omega

/-- No character of a number is white space. -/
theorem IntegerText.not_isWhitespace {s : List Char} {n : Int} (h : IntegerText s n) :
    ∀ c ∈ s, isWhitespace c = false := by
  have hdecimal : ∀ {cs : List Char} {n : Nat}, parseDecimal cs = some n →
      ∀ c ∈ cs, isWhitespace c = false := by
    intro cs n h c hc
    have hrange := toNat_of_isDigit ((isDigit_of_parseDecimal h).2 c hc)
    exact isWhitespace_eq_false (by omega) (by omega)
  have hhex : ∀ {cs : List Char} {n : Nat}, parseHex cs = some n → ∀ c ∈ cs, isWhitespace c = false := by
    intro cs n h c hc
    have hrange := toNat_of_hexDigit (hexDigit_of_parseHex h c hc)
    exact isWhitespace_eq_false (by omega) (by omega)
  cases h with
  | decimal h => exact hdecimal h
  | hex h => exact List.forall_mem_cons.mpr ⟨by decide, List.forall_mem_cons.mpr ⟨by decide, hhex h⟩⟩
  | negDecimal h => exact List.forall_mem_cons.mpr ⟨by decide, hdecimal h⟩
  | negHex h =>
      exact List.forall_mem_cons.mpr ⟨by decide,
        List.forall_mem_cons.mpr ⟨by decide, List.forall_mem_cons.mpr ⟨by decide, hhex h⟩⟩⟩

theorem stripPrefix_eq_none {p s : List Char} {c : Char} (hc : c ∈ p) (h : c ∉ s) :
    stripPrefix p s = none := by
  unfold stripPrefix
  rw [if_neg]
  rw [List.isPrefixOf_iff_prefix]
  intro hleft
  exact h (hleft.subset hc)

/-- A decimal number starts with no sign and with no base. -/
theorem parseDecimal_plain {cs : List Char} {n : Nat} (h : parseDecimal cs = some n) :
    splitSign cs = (false, cs) ∧ stripPrefix ['0', 'x'] cs = none ∧ stripPrefix ['0', 'X'] cs = none := by
  obtain ⟨_, hdigits⟩ := isDigit_of_parseDecimal h
  have hnot : ∀ c, c.isDigit = false → c ∉ cs := by
    intro c hc hmem
    rw [hdigits c hmem] at hc
    cases hc
  refine ⟨?_, stripPrefix_eq_none (c := 'x') (by decide) (hnot _ (by decide)),
    stripPrefix_eq_none (c := 'X') (by decide) (hnot _ (by decide))⟩
  unfold splitSign
  split
  · exact absurd List.mem_cons_self (hnot '-' (by decide))
  · rfl

theorem stripPrefix_hex (cs : List Char) : stripPrefix ['0', 'x'] ('0' :: 'x' :: cs) = some cs :=
  stripPrefix_append ['0', 'x'] cs

theorem splitSign_hex (cs : List Char) :
    splitSign ('0' :: 'x' :: cs) = (false, '0' :: 'x' :: cs) := rfl

theorem splitSign_neg (cs : List Char) : splitSign ('-' :: cs) = (true, cs) := rfl

/-- An integer text has no space around it. -/
theorem IntegerText.trim_eq {s : List Char} {n : Int} (h : IntegerText s n) :
    trimMatches isWhitespace s = s := trimMatches_eq_self h.not_isWhitespace

/-- A narrow literal keeps its base. -/
theorem IntegerText.narrowLiteral_eq {s : List Char} {n : Int} (h : IntegerText s n) :
    narrowLiteral s = some n := by
  unfold narrowLiteral
  cases h with
  | decimal h =>
      obtain ⟨hsign, hhex, _⟩ := parseDecimal_plain h
      simp only [hsign, hhex, h, Bool.false_eq_true, if_false]
      rfl
  | hex h =>
      rw [splitSign_hex]
      simp only [stripPrefix_hex, h, Bool.false_eq_true, if_false]
      rfl
  | negDecimal h =>
      obtain ⟨_, hhex, _⟩ := parseDecimal_plain h
      rw [splitSign_neg]
      simp only [hhex, h, if_true]
      rfl
  | negHex h =>
      rw [splitSign_neg]
      simp only [stripPrefix_hex, h, if_true]
      rfl

/-- Below the sign bit, the number is itself. -/
theorem hexToSigned_eq {bits v : Nat} (hbits : 0 < bits) (h : v < 2 ^ (bits - 1)) :
    hexToSigned bits v = v := by
  have hpow : (2 : Nat) ^ bits = 2 * 2 ^ (bits - 1) := by
    rw [← pow_succ', Nat.sub_add_cancel hbits]
  unfold hexToSigned
  rw [BitVec.toInt_eq_toNat_cond, BitVec.toNat_ofNat, Nat.mod_eq_of_lt (by omega), if_pos (by omega)]

/-- The lowest number is its own magnitude. -/
theorem natAbs_hexToSigned {bits v : Nat} (hbits : 0 < bits) (h : v ≤ 2 ^ (bits - 1)) :
    (hexToSigned bits v).natAbs = v := by
  rcases h.lt_or_eq with hlt | heq
  · rw [hexToSigned_eq hbits hlt, Int.natAbs_natCast]
  · have hpow : (2 : Nat) ^ bits = 2 * v := by
      rw [heq, ← pow_succ', Nat.sub_add_cancel hbits]
    have hpos : 0 < v := by
      rw [heq]
      exact Nat.two_pow_pos _
    unfold hexToSigned
    rw [BitVec.toInt_eq_toNat_cond, BitVec.toNat_ofNat, hpow, Nat.mod_eq_of_lt (by omega),
      if_neg (by omega)]
    omega

/-- A wide literal is written out in decimal. -/
theorem IntegerText.formatIntLiteral_eq {s : List Char} {n : Int} (h : IntegerText s n) {bits : Nat}
    (hbits : 0 < bits) (hbits' : bits ≤ 64) (hlow : -2 ^ (bits - 1) ≤ n) (hhigh : n < 2 ^ (bits - 1)) :
    formatIntLiteral bits s = some n := by
  have htrim := h.trim_eq
  have hpow : (2 : Nat) ^ (bits - 1) < 2 ^ 64 := Nat.pow_lt_pow_right (by omega) (by omega)
  unfold formatIntLiteral
  cases h with
  | decimal h =>
      obtain ⟨hsign, hhex, hhex'⟩ := parseDecimal_plain h
      simp only [hsign, htrim, hhex, hhex', Option.or_none, h, Bool.false_eq_true, if_false]
      rfl
  | @hex cs v h =>
      have hv : v < 2 ^ (bits - 1) := by exact_mod_cast hhigh
      have hsigned := hexToSigned_eq hbits hv
      rw [splitSign_hex]
      simp only [htrim, stripPrefix_hex, Option.some_or, h, Option.bind_some]
      have hneg : ¬(v : Int) < 0 := by omega
      simp only [hv.trans hpow, if_true, hsigned, Bool.false_or, decide_eq_true_eq, hneg, if_false]
  | @negDecimal cs v h =>
      obtain ⟨hsign, hhex, hhex'⟩ := parseDecimal_plain h
      have htrim' : trimMatches isWhitespace cs = cs := (IntegerText.decimal h).trim_eq
      rw [splitSign_neg]
      simp only [htrim', hhex, hhex', Option.or_none, h, if_true]
      rfl
  | @negHex cs v h =>
      have htrim' : trimMatches isWhitespace ('0' :: 'x' :: cs) = '0' :: 'x' :: cs := (IntegerText.hex h).trim_eq
      have hv : v ≤ 2 ^ (bits - 1) := by
        have hle : (v : Int) ≤ 2 ^ (bits - 1) := by linarith
        exact_mod_cast hle
      rw [splitSign_neg]
      simp only [htrim', stripPrefix_hex, Option.some_or, h, Option.bind_some]
      simp only [hv.trans_lt hpow, if_true, natAbs_hexToSigned hbits hv, Bool.true_or]

/-- The expression for an integer default has the number of the text. -/
theorem IntegerText.intDefault_eq {s : List Char} {n : Int} (h : IntegerText s n) {bits : Nat}
    (hbits : 0 < bits) (hbits' : bits ≤ 64) (hlow : -2 ^ (bits - 1) ≤ n) (hhigh : n < 2 ^ (bits - 1)) :
    intDefault bits s = some n := by
  have hrange : inRange bits n = some n := by
    unfold inRange
    rw [if_pos ⟨hlow, hhigh⟩]
  unfold intDefault
  simp only [h.trim_eq, h.narrowLiteral_eq, h.formatIntLiteral_eq hbits hbits' hlow hhigh, ite_self,
    Option.bind_some, hrange]

/-- A printed number is read back. -/
theorem parseDecimal_toString (n : Nat) : parseDecimal (toString n).toList = some n := by
  have hdigits : (toString n).toList = Nat.toDigits 10 n := Nat.toList_repr
  have hall : ∀ c ∈ Nat.toDigits 10 n, c.isDigit = true :=
    fun c hc => Nat.isDigit_of_mem_toDigits (by omega) (by omega) hc
  unfold parseDecimal
  rw [hdigits, if_neg, Nat.ofDigitChars_ten_toDigits]
  rw [Bool.or_eq_true, not_or, List.isEmpty_iff, Bool.not_eq_true', Bool.not_eq_false, List.all_eq_true]
  exact ⟨Nat.toDigits_ne_nil, hall⟩

/-- The text of an integer is an integer text. -/
theorem integerText_toString (n : Int) : IntegerText (toString n).toList n := by
  cases n with
  | ofNat m => exact .decimal (parseDecimal_toString m)
  | negSucc m =>
      have htext : (toString (Int.negSucc m)).toList = '-' :: (toString (m + 1)).toList := by
        show ("-" ++ Nat.repr (m + 1)).toList = _
        rw [String.toList_append]
        rfl
      rw [htext]
      exact .negDecimal (parseDecimal_toString (m + 1))

/-- A decimal number of zeros. -/
theorem parseDecimal_eq_zero {cs : List Char} {n : Nat} (h : parseDecimal cs = some n)
    (hzero : cs.all (· == '0') = true) : n = 0 := by
  have hcs : cs = List.replicate cs.length '0' := by
    rw [List.eq_replicate_iff]
    refine ⟨rfl, fun c hc => ?_⟩
    exact beq_iff_eq.mp (List.all_eq_true.mp hzero c hc)
  unfold parseDecimal at h
  split at h
  · cases h
  · rw [hcs, Nat.ofDigitChars_replicate_zero] at h
    cases h
    rfl

/-- Only a zero is taken for the default of an integer type. -/
theorem IntegerText.eq_zero {s : List Char} {n : Int} (h : IntegerText s n) (hs : parsesAsZero s = true) :
    n = 0 := by
  unfold parsesAsZero at hs
  rw [h.trim_eq] at hs
  simp only [Bool.and_eq_true] at hs
  obtain ⟨_, hs⟩ := hs
  cases h with
  | decimal h =>
      have hdigits := (isDigit_of_parseDecimal h).2
      split at hs
      · cases hdigits '+' List.mem_cons_self
      · cases hdigits '-' List.mem_cons_self
      · rw [parseDecimal_eq_zero h hs]
        rfl
  | hex h => cases hs
  | negDecimal h =>
      rw [parseDecimal_eq_zero h hs]
      rfl
  | negHex h => cases hs

/-! ## Defaults of a schema

Each form that a default can have in JSON, with the value that it stands for. Floating literals are a
parameter. -/

/-- The `f64` of a text and of a JSON number, by its bits. -/
structure FloatLiterals where
  ofText : List Char → Option UInt64
  ofNumber : Json.Number → UInt64

/-- The types whose defaults are literals. -/
def BaseType.isScalar : BaseType → Bool
  | .bool | .int8 | .int16 | .int32 | .int64 | .uint16 | .float64 | .string => true
  | _ => false

section
variable {ρ : Type}

/-- The value that a field's default stands for, when it is a well-formed literal of the field's type. The
text `null` is the null of a nullable field. -/
inductive SchemaDefault (floats : FloatLiterals) (f : FieldSpec) : Json.Value → Value ρ → Prop
  | null {b : BaseType} (ht : f.fieldType = .base b) (hb : b.isScalar = true) (hnull : f.isNullable = true) :
      SchemaDefault floats f (.string "null".toList) .null
  | bool (ht : f.fieldType = .base .bool) (b : Bool) : SchemaDefault floats f (.bool b) (.bool b)
  | boolText (ht : f.fieldType = .base .bool) (b : Bool) :
      SchemaDefault floats f (.string (toString b).toList) (.bool b)
  | int8 (ht : f.fieldType = .base .int8) {val : Json.Value} {n : Int} (h : IntegerLiteral val n)
      (hn : -2 ^ 7 ≤ n ∧ n < 2 ^ 7) : SchemaDefault floats f val (.int8 (Int8.ofInt n))
  | int16 (ht : f.fieldType = .base .int16) {val : Json.Value} {n : Int} (h : IntegerLiteral val n)
      (hn : -2 ^ 15 ≤ n ∧ n < 2 ^ 15) : SchemaDefault floats f val (.int16 (Int16.ofInt n))
  | int32 (ht : f.fieldType = .base .int32) {val : Json.Value} {n : Int} (h : IntegerLiteral val n)
      (hn : -2 ^ 31 ≤ n ∧ n < 2 ^ 31) : SchemaDefault floats f val (.int32 (Int32.ofInt n))
  | int64 (ht : f.fieldType = .base .int64) {val : Json.Value} {n : Int} (h : IntegerLiteral val n)
      (hn : -2 ^ 63 ≤ n ∧ n < 2 ^ 63) : SchemaDefault floats f val (.int64 (Int64.ofInt n))
  | uint16 (ht : f.fieldType = .base .uint16) {val : Json.Value} {n : Int} (h : IntegerLiteral val n)
      (hn : 0 ≤ n ∧ n < 2 ^ 16) : SchemaDefault floats f val (.uint16 (UInt16.ofInt n))
  | floatText (ht : f.fieldType = .base .float64) {s : List Char} {bits : UInt64} (hs : s ≠ "null".toList)
      (h : floats.ofText s = some bits) : SchemaDefault floats f (.string s) (.float64 bits)
  | floatNumber (ht : f.fieldType = .base .float64) (n : Json.Number) :
      SchemaDefault floats f (.number n) (.float64 (floats.ofNumber n))
  | string (ht : f.fieldType = .base .string) {s : List Char}
      (hs : ¬(f.isNullable = true ∧ s = "null".toList)) :
      SchemaDefault floats f (.string s) (.string (String.ofList s))

/-! ## What the generator makes of them

A default is honoured if the struct's `Default` has it, and if a tagged field is left off the wire exactly
when it equals it. -/

/-- `!self.field` and `self.field` are no Booleans when the field is an `Option`. -/
def FieldSpec.testCompiles (f : FieldSpec) : Bool :=
  if f.baseType = .base .bool && f.nullable then
    match f.default with
    | some (.bool _) => false
    | some (.string s) => !(s = "true".toList || s = "false".toList)
    | _ => true
  else true

/-- The entry of the struct's `Default`, and the value that keeps a tagged field off the wire. -/
structure HonoursDefault (records : RecordsCodec ρ) (structs : String → Value ρ) (fields : List FieldSpec)
    (i : Nat) (f : FieldSpec) (value : Value ρ) : Prop where
  given : (ownedDefaults records structs fields)[i]? = some value
  suppressed : f.isTagged = true → f.testCompiles = true ∧
    ∀ v : Value ρ, taggedShouldEncode records structs f v = false ↔ v.eq records value = true

/-- A default that differs from that of the field's Rust type, so that the `Default` of the struct is written
out: a nullable field's that is not null, and a text or a number that does not read as false, zero or
nothing. -/
def FieldSpec.Departs (f : FieldSpec) : Prop :=
  if f.nullable = true then f.defaultIsNull = false
  else
    match f.default with
    | none | some .null | some (.bool false) => False
    | some (.string s) =>
        s ≠ "null".toList ∧ s ≠ "false".toList ∧ s ≠ [] ∧ parsesAsZero s = false
    | some (.number n) => n.asI64 ≠ some 0
    | some _ => True

/-- What a default must be for the generator to keep it: zero where the tables have no row, and a text that
is not taken for null or, unless another field departs, for a zero. The test of a tagged Boolean is written
for a field that is no `Option`. -/
structure IsKept (fields : List FieldSpec) (f : FieldSpec) (value : Value ρ) : Prop where
  uint16 : ∀ n, value = .uint16 n → n = 0
  float64 : ∀ bits, value = .float64 bits → bits = 0
  string : ∀ s : List Char, value = .string (String.ofList s) → f.isNullable = false →
    s ≠ "null".toList ∧ (s = "false".toList ∨ parsesAsZero s = true → ∃ g ∈ fields, g.Departs)
  bool : ∀ b, value = .bool b → f.isTagged = true → f.isNullable = false

/-- A boolean default is kept unless its field is tagged and nullable. -/
theorem isKept_bool {fields : List FieldSpec} {f : FieldSpec} {b : Bool} :
    IsKept fields f (.bool b : Value ρ) ↔ (f.isTagged = true → f.isNullable = false) := by
  constructor
  · intro h
    exact h.bool b rfl
  · intro h
    exact ⟨nofun, nofun, nofun, fun _ _ => h⟩

/-- The generator has no row for `uint16`: only zero is kept. -/
theorem isKept_uint16 {fields : List FieldSpec} {f : FieldSpec} {n : UInt16} :
    IsKept fields f (.uint16 n : Value ρ) ↔ (.uint16 n : Value ρ) = .uint16 0 := by
  constructor
  · intro h
    rw [h.uint16 n rfl]
  · intro h
    refine ⟨fun m hm => ?_, nofun, nofun, nofun⟩
    exact Value.uint16.inj (hm.symm.trans h)

/-- The generator has no row for `float64`: only zero is kept. -/
theorem isKept_float64 {fields : List FieldSpec} {f : FieldSpec} {bits : UInt64} :
    IsKept fields f (.float64 bits : Value ρ) ↔ (.float64 bits : Value ρ) = .float64 0 := by
  constructor
  · intro h
    rw [h.float64 bits rfl]
  · intro h
    refine ⟨nofun, fun bits' hbits => ?_, nofun, nofun⟩
    exact Value.float64.inj (hbits.symm.trans h)

/-- Of a string that reads as false or as zero, some field must make the struct write its own default. -/
theorem isKept_string {fields : List FieldSpec} {f : FieldSpec} {s : List Char} :
    IsKept fields f (.string (String.ofList s) : Value ρ) ↔ (f.isNullable = false →
      s ≠ "null".toList ∧ (s = "false".toList ∨ parsesAsZero s = true → ∃ g ∈ fields, g.Departs)) := by
  constructor
  · intro h
    exact h.string s rfl
  · intro h
    refine ⟨nofun, nofun, fun s' hs' => ?_, nofun⟩
    have hs : s' = s := (String.ofList_injective (Value.string.inj hs')).symm
    rw [hs]
    exact h

/-- A field asks for a written default exactly where it departs from the derived one. -/
theorem FieldSpec.needsManualDefault_iff {f : FieldSpec} : f.needsManualDefault = true ↔ f.Departs := by
  unfold needsManualDefault Departs
  split
  · rw [Bool.not_eq_true']
  · cases f.default with
    | none => simp
    | some val =>
        cases val with
        | null => simp
        | bool b => cases b <;> simp
        | number n => simp
        | string s => simp [and_assoc]
        | array items => simp
        | object members => simp

/-- A struct writes its own default where one field departs. -/
theorem needsManualDefault_iff {fields : List FieldSpec} :
    needsManualDefault fields = true ↔ ∃ g ∈ fields, g.Departs := by
  unfold needsManualDefault
  rw [List.any_eq_true]
  simp only [FieldSpec.needsManualDefault_iff]

/-! ### A field with an explicit default

Each table is brought into a form that depends on the type and the text of the default alone. -/

section
variable {f : FieldSpec} {b : BaseType} {val : Json.Value} {records : RecordsCodec ρ}
  {structs : String → Value ρ}

theorem nullable_eq (hdef : f.default = some val) (hval : val ≠ .null) : f.nullable = f.isNullable := by
  unfold FieldSpec.nullable FieldSpec.defaultIsJsonNull
  rw [hdef]
  cases val with
  | null => exact absurd rfl hval
  | _ => exact Bool.or_false _

theorem isOption_eq (hdef : f.default = some val) (hval : val ≠ .null) : f.isOption = f.isNullable := by
  unfold FieldSpec.isOption FieldSpec.defaultIsJsonNull
  rw [hdef]
  cases val with
  | null => exact absurd rfl hval
  | _ => exact (congrArg _ (Bool.and_false _)).trans (Bool.or_false _)

/-- The text `null` is the only default that is null. -/
theorem defaultIsNull_iff (hdef : f.default = some val) (hval : val ≠ .null) :
    f.defaultIsNull = true ↔ val = .string "null".toList := by
  unfold FieldSpec.defaultIsNull
  rw [hdef]
  cases val with
  | null => exact absurd rfl hval
  | string s => simp
  | _ => simp

/-- The text `null` is null, whatever the type. -/
theorem scalarDefault_null : scalarDefault records structs debugLiteral (.base b) (.string "null".toList) =
    some .null := by
  unfold scalarDefault
  exact if_pos rfl

/-- The text of a boolean is that boolean. -/
theorem scalarDefault_boolText (b : Bool) :
    scalarDefault records structs debugLiteral (.base .bool) (.string (toString b).toList) =
      some (.bool b) := by
  unfold scalarDefault
  cases b <;> exact if_neg (by decide)

theorem baseType_eq (ht : f.fieldType = .base b) : f.baseType = .base b := by
  rw [FieldSpec.baseType, ht]
  rfl

/-- Among the scalar types there are no records. -/
theorem not_nullableRecords (ht : f.fieldType = .base b) (hb : b.isScalar = true) :
    ¬(decide (f.baseType = .base .records) && f.nullable) = true := by
  rw [baseType_eq ht, Bool.and_eq_true, decide_eq_true_eq]
  rintro ⟨hrecords, _⟩
  cases hrecords
  cases hb

/-- The expression of a written `Default` is that of the table. -/
theorem defaultExpr_eq (ht : f.fieldType = .base b) (hb : b.isScalar = true) (hdef : f.default = some val)
    (hval : val ≠ .null) :
    defaultExpr records structs debugLiteral f = scalarDefault records structs debugLiteral (.base b) val := by
  unfold defaultExpr
  rw [if_neg (not_nullableRecords ht hb)]
  split
  · rename_i hnull
    rw [Bool.and_eq_true] at hnull
    rw [(defaultIsNull_iff hdef hval).mp hnull.2, scalarDefault_null]
  · rw [ht, baseType_eq ht, hdef, if_neg (by simp [FieldType.isArray])]

/-- So is the value that the test of a tagged field compares with. -/
theorem comparedDefault_eq (ht : f.fieldType = .base b) (hb : b.isScalar = true) (hdef : f.default = some val)
    (hval : val ≠ .null) :
    comparedDefault records structs f = scalarDefault records structs debugLiteral (.base b) val := by
  unfold comparedDefault
  rw [if_neg (not_nullableRecords ht hb)]
  split
  · rename_i hnull
    rw [Bool.and_eq_true] at hnull
    rw [(defaultIsNull_iff hdef hval).mp hnull.2, scalarDefault_null]
  · rw [hdef, baseType_eq ht, ht]
    simp only [FieldType.isArray, Bool.and_false, Bool.false_eq_true, if_false]
    split
    · rename_i h
      exact h.symm
    · rfl

/-- The test of a Boolean field is the general one, written for the literal. -/
theorem taggedShouldEncode_eq_false (ht : f.fieldType = .base b) (hb : b.isScalar = true)
    (hdef : f.default = some val) (hval : val ≠ .null) {w : Value ρ}
    (hw : scalarDefault records structs debugLiteral (.base b) val = some w) {v : Value ρ} :
    taggedShouldEncode records structs f v = false ↔ v.eq records w = true := by
  have hgeneral : (!(comparedDefault records structs f).any (v.eq records ·)) = false ↔
      v.eq records w = true := by
    rw [comparedDefault_eq ht hb hdef hval, hw, Option.any_some, Bool.not_eq_false']
  unfold taggedShouldEncode
  rw [baseType_eq ht, hdef]
  split
  · rename_i hbool
    cases hbool
    cases val with
    | bool b =>
        cases hw
        exact iff_of_eq (Bool.not_eq_false' _)
    | string s =>
        show (if s = "true".toList then _ else if s = "false".toList then _ else _) = false ↔ _
        split
        · rename_i htrue
          rw [htrue, show "true".toList = (toString true).toList from rfl, scalarDefault_boolText] at hw
          cases hw
          exact iff_of_eq (Bool.not_eq_false' _)
        · split
          · rename_i hfalse
            rw [hfalse, show "false".toList = (toString false).toList from rfl, scalarDefault_boolText] at hw
            cases hw
            exact iff_of_eq (Bool.not_eq_false' _)
          · exact hgeneral
    | _ => exact hgeneral
  · exact hgeneral

/-- Without a written `Default` no field departs. -/
theorem not_manual_of_mem {fields : List FieldSpec} (hf : f ∈ fields) (h : ¬needsManualDefault fields = true) :
    f.needsManualDefault = false := by
  rw [Bool.eq_false_iff]
  intro hmanual
  exact h (List.any_eq_true.mpr ⟨f, hf, hmanual⟩)

/-- The field's entry in the `Default` of its struct. -/
theorem getElem?_ownedDefaults {fields : List FieldSpec} {i : Nat} (hi : fields[i]? = some f) :
    (ownedDefaults records structs fields)[i]? = some
      (if needsManualDefault fields = true then (defaultExpr records structs debugLiteral f).getD .null
        else derivedDefault records structs f) := by
  unfold ownedDefaults
  split <;> rw [List.getElem?_map, hi, Option.map_some]

/-- The expression and the derived default agree, so it does not matter which of the two is used. -/
theorem getElem?_ownedDefaults_of_derived {fields : List FieldSpec} {i : Nat} (hi : fields[i]? = some f)
    (ht : f.fieldType = .base b) (hb : b.isScalar = true) (hdef : f.default = some val) (hval : val ≠ .null)
    {w : Value ρ} (hw : scalarDefault records structs debugLiteral (.base b) val = some w)
    (hderived : f.needsManualDefault = false → derivedDefault records structs f = w) :
    (ownedDefaults records structs fields)[i]? = some w := by
  rw [getElem?_ownedDefaults hi]
  split
  · rw [defaultExpr_eq ht hb hdef hval, hw, Option.getD_some]
  · rename_i hmanual
    rw [hderived (not_manual_of_mem (List.mem_of_getElem? hi) hmanual)]

/-- An `Option` whose default is not null has a written default. -/
theorem isNullable_of_not_manual (hdef : f.default = some val) (hval : val ≠ .null)
    (hnull : val ≠ .string "null".toList) (h : f.needsManualDefault = false) : f.isNullable = false := by
  rw [← nullable_eq hdef hval, Bool.eq_false_iff]
  intro hnullable
  unfold FieldSpec.needsManualDefault at h
  rw [if_pos hnullable, Bool.not_eq_false'] at h
  exact hnull ((defaultIsNull_iff hdef hval).mp h)

/-- A field that is not nullable has the default of its Rust type. -/
theorem derivedDefault_eq (ht : f.fieldType = .base b) (hdef : f.default = some val) (hval : val ≠ .null)
    (hnullable : f.isNullable = false) :
    derivedDefault records structs f = rustDefault records structs (.base b) := by
  unfold derivedDefault
  rw [isOption_eq hdef hval, hnullable, if_neg Bool.false_ne_true, ht]

/-- What a field that is no `Option` has for a default that the derived one stands for. -/
theorem needsManualDefault_eq (hdef : f.default = some val) (hval : val ≠ .null) (hnullable : f.isNullable = false) :
    f.needsManualDefault = true ↔
      (∀ b, val = .bool b → b = true) ∧
      (∀ s, val = .string s → s ≠ "null".toList ∧ s ≠ "false".toList ∧ s ≠ [] ∧ parsesAsZero s = false) ∧
      (∀ n, val = .number n → n.asI64 ≠ some 0) := by
  rw [FieldSpec.needsManualDefault_iff]
  unfold FieldSpec.Departs
  rw [nullable_eq hdef hval, hnullable, if_neg Bool.false_ne_true, hdef]
  cases val with
  | null => exact absurd rfl hval
  | bool b => cases b <;> simp
  | number n => simp
  | string s => simp
  | array items => simp
  | object members => simp

/-! ### Literals

A literal of a type is its own expression in Rust, and zero is the default that is derived. -/

/-- An integer text is no text that is no literal. -/
theorem IntegerText.ne_of_narrowLiteral {s : List Char} {n : Int} (h : IntegerText s n) {t : List Char}
    (ht : narrowLiteral t = none) : s ≠ t := by
  rintro rfl
  rw [h.narrowLiteral_eq] at ht
  cases ht

/-- An integer is not null, in either spelling. -/
theorem IntegerLiteral.ne_null {n : Int} (h : IntegerLiteral val n) :
    val ≠ .null ∧ val ≠ .string "null".toList := by
  cases h with
  | @text s _ h =>
      refine ⟨nofun, fun hnull => ?_⟩
      exact h.ne_of_narrowLiteral (by decide) (Json.Value.string.inj hnull)
  | posInt n => exact ⟨nofun, nofun⟩
  | negInt n => exact ⟨nofun, nofun⟩

/-- A row of the table for an integer type of `bits` bits. -/
theorem IntegerLiteral.scalarDefault_eq {n : Int} (h : IntegerLiteral val n) {bits : Nat} {g : Int → Value ρ}
    (hbits : 0 < bits) (hbits' : bits ≤ 64) (hn : -2 ^ (bits - 1) ≤ n ∧ n < 2 ^ (bits - 1))
    (htext : ∀ s, s ≠ "null".toList →
      scalarDefault records structs debugLiteral (.base b) (.string s) = (intDefault bits s).map g)
    (hnumber : ∀ m, scalarDefault records structs debugLiteral (.base b) (.number m) =
      (intDefault bits (numberText m)).map g) :
    scalarDefault records structs debugLiteral (.base b) val = some (g n) := by
  cases h with
  | text h =>
      rw [htext _ (h.ne_of_narrowLiteral (by decide)), h.intDefault_eq hbits hbits' hn.1 hn.2, Option.map_some]
  | posInt n =>
      have htoString : IntegerText (numberText (.posInt n)) n.toNat := integerText_toString n.toNat
      rw [hnumber, htoString.intDefault_eq hbits hbits' hn.1 hn.2, Option.map_some]
  | negInt n =>
      have htoString : IntegerText (numberText (.negInt n)) n.toInt := integerText_toString n.toInt
      rw [hnumber, htoString.intDefault_eq hbits hbits' hn.1 hn.2, Option.map_some]

/-- The table has no row for `uint16`. -/
theorem IntegerLiteral.scalarDefault_uint16 {n : Int} (h : IntegerLiteral val n) :
    scalarDefault records structs debugLiteral (.base .uint16) val =
      some (rustDefault records structs (.base .uint16)) := by
  cases h with
  | text h => exact if_neg (h.ne_of_narrowLiteral (by decide))
  | posInt n => rfl
  | negInt n => rfl

/-- An integer that does not depart from the derived default is zero. -/
theorem IntegerLiteral.eq_zero {n : Int} (h : IntegerLiteral val n) (hdef : f.default = some val)
    (hmanual : f.needsManualDefault = false) : f.isNullable = false ∧ n = 0 := by
  obtain ⟨hval, hnull⟩ := h.ne_null
  have hnullable := isNullable_of_not_manual hdef hval hnull hmanual
  refine ⟨hnullable, ?_⟩
  rw [Bool.eq_false_iff, ne_eq, needsManualDefault_eq hdef hval hnullable] at hmanual
  by_contra hn
  refine hmanual ⟨?_, ?_, ?_⟩
  · rintro b rfl
    cases h
  · rintro s rfl
    cases h with
    | text h =>
        refine ⟨h.ne_of_narrowLiteral (by decide), h.ne_of_narrowLiteral (by decide),
          h.ne_of_narrowLiteral (by decide), ?_⟩
        rw [Bool.eq_false_iff]
        exact fun hzero => hn (h.eq_zero hzero)
  · rintro m rfl hzero
    refine hn ?_
    cases h with
    | posInt n => exact (FixedWidth.i64OfInt_eq_some.mp hzero).symm
    | negInt n =>
        cases hzero
        rfl

/-! ### Which defaults are kept

One lemma for each form of the JSON. Together they decide the claim for every field. -/

/-- The table has the literal, so the test compares with it, where it compiles. -/
theorem honoursDefault_of_literal {fields : List FieldSpec} {i : Nat} (hi : fields[i]? = some f)
    (ht : f.fieldType = .base b) (hb : b.isScalar = true) (hdef : f.default = some val) (hval : val ≠ .null)
    {value : Value ρ} (hw : scalarDefault records structs debugLiteral (.base b) val = some value)
    (hderived : f.needsManualDefault = false → derivedDefault records structs f = value) :
    HonoursDefault records structs fields i f value ↔ (f.isTagged = true → f.testCompiles = true) := by
  constructor
  · intro h htag
    exact (h.suppressed htag).1
  · intro h
    refine ⟨getElem?_ownedDefaults_of_derived hi ht hb hdef hval hw hderived, fun htag => ⟨h htag, fun v => ?_⟩⟩
    exact taggedShouldEncode_eq_false ht hb hdef hval hw

/-- The table has another value, and so has the derived default. -/
theorem not_honoursDefault_of_other {fields : List FieldSpec} {i : Nat} (hi : fields[i]? = some f)
    (ht : f.fieldType = .base b) (hb : b.isScalar = true) (hdef : f.default = some val) (hval : val ≠ .null)
    {value w : Value ρ} (hw : scalarDefault records structs debugLiteral (.base b) val = some w)
    (hderived : f.needsManualDefault = false → derivedDefault records structs f = w) (hne : w ≠ value) :
    ¬HonoursDefault records structs fields i f value := by
  intro h
  have hgiven := h.given
  rw [getElem?_ownedDefaults_of_derived hi ht hb hdef hval hw hderived] at hgiven
  exact hne (Option.some.inj hgiven)

/-- Only a boolean's default can make the generated test fail to compile. -/
theorem testCompiles_of_ne_bool (ht : f.fieldType = .base b) (hb : b ≠ .bool) : f.testCompiles = true := by
  unfold FieldSpec.testCompiles
  rw [baseType_eq ht, if_neg]
  rw [Bool.and_eq_true, decide_eq_true_eq]
  rintro ⟨hbool, _⟩
  cases hbool
  exact hb rfl

theorem testCompiles_null (hdef : f.default = some (.string "null".toList)) : f.testCompiles = true := by
  unfold FieldSpec.testCompiles
  rw [hdef]
  split
  · decide
  · rfl

/-- A boolean's default compiles in the test exactly where the field is not nullable. -/
theorem testCompiles_bool (ht : f.fieldType = .base .bool) (hdef : f.default = some val) {c : Bool}
    (hval : val = .bool c ∨ val = .string (toString c).toList) : f.testCompiles = true ↔ f.isNullable = false := by
  have hne : val ≠ .null := by
    rintro rfl
    rcases hval with h | h <;> cases h
  unfold FieldSpec.testCompiles
  rw [baseType_eq ht, nullable_eq hdef hne, hdef]
  cases f.isNullable with
  | false => simp
  | true =>
      rcases hval with rfl | rfl
      · simp
      · cases c <;> decide

end

variable {records : RecordsCodec ρ} {structs : String → Value ρ}

/-- An integer type of `bits` bits that the tables have. -/
theorem honoursDefault_of_integer {fields : List FieldSpec} {i : Nat} {f : FieldSpec} {b : BaseType}
    {val : Json.Value} (bits : Nat) (hbits : 0 < bits ∧ bits ≤ 64) (hi : fields[i]? = some f)
    (ht : f.fieldType = .base b) (hb : b.isScalar = true ∧ b ≠ .bool) (hdef : f.default = some val) {n : Int}
    (h : IntegerLiteral val n) (hn : -2 ^ (bits - 1) ≤ n ∧ n < 2 ^ (bits - 1)) {g : Int → Value ρ}
    (htext : ∀ s, s ≠ "null".toList →
      scalarDefault records structs debugLiteral (.base b) (.string s) = (intDefault bits s).map g)
    (hnumber : ∀ m, scalarDefault records structs debugLiteral (.base b) (.number m) =
      (intDefault bits (numberText m)).map g)
    (hzero : rustDefault records structs (.base b) = g 0) :
    HonoursDefault records structs fields i f (g n) := by
  obtain ⟨hval, _⟩ := h.ne_null
  have hw := h.scalarDefault_eq hbits.1 hbits.2 hn htext hnumber
  refine (honoursDefault_of_literal hi ht hb.1 hdef hval hw fun hmanual => ?_).mpr
    fun _ => testCompiles_of_ne_bool ht hb.2
  obtain ⟨hnullable, rfl⟩ := h.eq_zero hdef hmanual
  rw [derivedDefault_eq ht hdef hval hnullable, hzero]

/-- A type that the tables do not have gets zero. -/
theorem honoursDefault_of_missing {fields : List FieldSpec} {i : Nat} {f : FieldSpec} {b : BaseType}
    {val : Json.Value} (hi : fields[i]? = some f) (ht : f.fieldType = .base b)
    (hb : b.isScalar = true ∧ b ≠ .bool) (hdef : f.default = some val)
    (hval : val ≠ .null ∧ val ≠ .string "null".toList) {value : Value ρ}
    (hw : scalarDefault records structs debugLiteral (.base b) val =
      some (rustDefault records structs (.base b))) :
    HonoursDefault records structs fields i f value ↔ value = rustDefault records structs (.base b) := by
  have hderived : f.needsManualDefault = false →
      derivedDefault records structs f = rustDefault records structs (.base b) := fun hmanual =>
    derivedDefault_eq ht hdef hval.1 (isNullable_of_not_manual hdef hval.1 hval.2 hmanual)
  constructor
  · intro h
    by_contra hne
    exact not_honoursDefault_of_other hi ht hb.1 hdef hval.1 hw hderived (Ne.symm hne) h
  · rintro rfl
    exact (honoursDefault_of_literal hi ht hb.1 hdef hval.1 hw hderived).mpr
      fun _ => testCompiles_of_ne_bool ht hb.2

theorem rustDefault_string_eq {s : List Char} :
    rustDefault records structs (.base .string) = .string (String.ofList s) ↔ s = [] := by
  constructor
  · intro h
    have htext : "" = String.ofList s := Value.string.inj h
    rw [← String.toList_ofList (l := s), ← htext]
    rfl
  · rintro rfl
    rfl

/-- A text that is not the null of its field. -/
theorem honoursDefault_string {fields : List FieldSpec} {i : Nat} {f : FieldSpec} (hi : fields[i]? = some f)
    (ht : f.fieldType = .base .string) {s : List Char} (hdef : f.default = some (.string s))
    (hs : ¬(f.isNullable = true ∧ s = "null".toList)) :
    HonoursDefault records structs fields i f (.string (String.ofList s)) ↔
      (f.isNullable = false →
        s ≠ "null".toList ∧ (s = "false".toList ∨ parsesAsZero s = true → ∃ g ∈ fields, g.Departs)) := by
  have hval : Json.Value.string s ≠ .null := nofun
  have hentry : (ownedDefaults records structs fields)[i]? = _ := getElem?_ownedDefaults hi
  rw [defaultExpr_eq ht rfl hdef hval] at hentry
  have htest := testCompiles_of_ne_bool ht (by decide)
  have hmem : f ∈ fields := List.mem_of_getElem? hi
  by_cases hnull : s = "null".toList
  · -- no Rust text is written for it, and the derived one is empty
    have hnullable : f.isNullable = false := Bool.eq_false_iff.mpr fun h => hs ⟨h, hnull⟩
    rw [hnull, scalarDefault_null, Option.getD_some, derivedDefault_eq ht hdef hval hnullable] at hentry
    refine iff_of_false (fun h => ?_) fun h => (h hnullable).1 hnull
    have hgiven := hentry.symm.trans h.given
    split at hgiven
    · cases hgiven
    · rw [Option.some.injEq, rustDefault_string_eq, hnull] at hgiven
      exact absurd hgiven (by decide)
  · have hw : scalarDefault records structs debugLiteral (.base .string) (.string s) =
        some (.string (String.ofList s)) := if_neg hnull
    rw [hw, Option.getD_some] at hentry
    have hgiven : (ownedDefaults records structs fields)[i]? = some (.string (String.ofList s)) →
        HonoursDefault records structs fields i f (.string (String.ofList s)) := by
      intro hgiven
      exact ⟨hgiven, fun _ => ⟨htest, fun v => taggedShouldEncode_eq_false ht rfl hdef hval hw⟩⟩
    by_cases hmanual : needsManualDefault fields = true
    · rw [if_pos hmanual] at hentry
      exact iff_of_true (hgiven hentry) fun _ => ⟨hnull, fun _ => needsManualDefault_iff.mp hmanual⟩
    · -- the field does not depart, so its text reads as nothing, false or zero
      have hf := not_manual_of_mem hmem hmanual
      have hnullable : f.isNullable = false :=
        isNullable_of_not_manual hdef hval (fun h => hnull (Json.Value.string.inj h)) hf
      rw [if_neg hmanual, derivedDefault_eq ht hdef hval hnullable] at hentry
      rw [needsManualDefault_iff] at hmanual
      by_cases hempty : s = []
      · subst hempty
        refine iff_of_true (hgiven hentry) fun _ => ⟨hnull, fun h => ?_⟩
        rcases h with h | h <;> cases h
      · refine iff_of_false (fun h => ?_) fun h => hmanual ((h hnullable).2 ?_)
        · exact hempty (rustDefault_string_eq.mp (Option.some.inj (hentry.symm.trans h.given)))
        · rw [Bool.eq_false_iff, ne_eq, needsManualDefault_eq hdef hval hnullable] at hf
          by_contra hzero
          rw [not_or, Bool.not_eq_true] at hzero
          refine hf ⟨nofun, ?_, nofun⟩
          rintro _ ⟨⟩
          exact ⟨hnull, hzero.1, hempty, hzero.2⟩

/-- A Boolean. -/
theorem honoursDefault_bool {fields : List FieldSpec} {i : Nat} {f : FieldSpec} (hi : fields[i]? = some f)
    (ht : f.fieldType = .base .bool) {val : Json.Value} (hdef : f.default = some val) {c : Bool}
    (hval : val = .bool c ∨ val = .string (toString c).toList) :
    HonoursDefault records structs fields i f (.bool c) ↔ (f.isTagged = true → f.isNullable = false) := by
  have hne : val ≠ .null ∧ val ≠ .string "null".toList := by
    rcases hval with rfl | rfl
    · exact ⟨nofun, nofun⟩
    · refine ⟨nofun, fun h => ?_⟩
      cases c <;> exact absurd (Json.Value.string.inj h) (by decide)
  have hw : scalarDefault records structs debugLiteral (.base .bool) val = some (.bool c) := by
    rcases hval with rfl | rfl
    · rfl
    · exact scalarDefault_boolText c
  rw [honoursDefault_of_literal hi ht rfl hdef hne.1 hw, testCompiles_bool ht hdef hval]
  intro hmanual
  have hnullable := isNullable_of_not_manual hdef hne.1 hne.2 hmanual
  rw [derivedDefault_eq ht hdef hne.1 hnullable]
  rw [Bool.eq_false_iff, ne_eq, needsManualDefault_eq hdef hne.1 hnullable] at hmanual
  cases c with
  | false => rfl
  | true =>
      exfalso
      rcases hval with rfl | rfl
      · exact hmanual ⟨fun b h => (Json.Value.bool.inj h).symm, nofun, nofun⟩
      · refine hmanual ⟨nofun, ?_, nofun⟩
        rintro _ ⟨⟩
        decide

/-- **The generator keeps a schema's default exactly where `IsKept` says so.** -/
theorem honoursDefault_iff {floats : FloatLiterals} {fields : List FieldSpec} {i : Nat} {f : FieldSpec}
    {val : Json.Value} {value : Value ρ} (hi : fields[i]? = some f) (hdef : f.default = some val)
    (h : SchemaDefault floats f val value) :
    HonoursDefault records structs fields i f value ↔ IsKept fields f value := by
  cases h with
  | null ht hb hnull =>
      have hderived : derivedDefault records structs f = .null := by
        unfold derivedDefault
        rw [isOption_eq hdef nofun, hnull, if_pos rfl]
      rw [honoursDefault_of_literal hi ht hb hdef nofun scalarDefault_null fun _ => hderived]
      exact iff_of_true (fun _ => testCompiles_null hdef) ⟨nofun, nofun, nofun, nofun⟩
  | bool ht c => rw [honoursDefault_bool hi ht hdef (.inl rfl), isKept_bool]
  | boolText ht c => rw [honoursDefault_bool hi ht hdef (.inr rfl), isKept_bool]
  | int8 ht h hn =>
      exact iff_of_true (honoursDefault_of_integer 8 (by decide) hi ht (by decide) hdef h hn
        (fun s hs => if_neg hs) (fun m => rfl) rfl) ⟨nofun, nofun, nofun, nofun⟩
  | int16 ht h hn =>
      exact iff_of_true (honoursDefault_of_integer 16 (by decide) hi ht (by decide) hdef h hn
        (fun s hs => if_neg hs) (fun m => rfl) rfl) ⟨nofun, nofun, nofun, nofun⟩
  | int32 ht h hn =>
      exact iff_of_true (honoursDefault_of_integer 32 (by decide) hi ht (by decide) hdef h hn
        (fun s hs => if_neg hs) (fun m => rfl) rfl) ⟨nofun, nofun, nofun, nofun⟩
  | int64 ht h hn =>
      exact iff_of_true (honoursDefault_of_integer 64 (by decide) hi ht (by decide) hdef h hn
        (fun s hs => if_neg hs) (fun m => rfl) rfl) ⟨nofun, nofun, nofun, nofun⟩
  | uint16 ht h hn =>
      rw [honoursDefault_of_missing hi ht (by decide) hdef h.ne_null h.scalarDefault_uint16, isKept_uint16]
      rfl
  | floatText ht hs h =>
      rw [honoursDefault_of_missing hi ht (by decide) hdef ⟨nofun, fun hnull => hs (Json.Value.string.inj hnull)⟩
        (if_neg hs), isKept_float64]
      rfl
  | floatNumber ht n =>
      rw [honoursDefault_of_missing hi ht (by decide) hdef ⟨nofun, nofun⟩ rfl, isKept_float64]
      rfl
  | string ht hs => rw [honoursDefault_string hi ht hdef hs, isKept_string]

end

/-! ### Three schemas

A default that is kept, and one that the generator loses. -/

/-- A tagged field with a default. -/
def defaultedField (t : BaseType) (val : Json.Value) : FieldSpec where
  name := "Level"
  fieldType := .base t
  versions := ⟨0, .maxValue⟩
  nullableVersions := none
  taggedVersions := some ⟨0, .maxValue⟩
  tag := some 0
  fields := []
  default := some val
  flexibleVersions := none

/-- A request of this one field. -/
def defaulted (t : BaseType) (val : Json.Value) : MessageSpec where
  name := "LevelRequest"
  messageType := .request
  apiKey := some 0
  validVersions := ⟨0, 0⟩
  latestVersionUnstable := false
  flexibleVersions := .range ⟨0, .maxValue⟩
  fields := [defaultedField t val]
  commonStructs := []

/-- No text and no number is a fraction. -/
def noFloats : FloatLiterals := ⟨fun _ => none, fun _ => 0⟩

/-- The default `-1` of an `int32`. -/
theorem honoursDefault_minusOne :
    HonoursDefault (recordsPayload .disabled) (fun _ => .null) (defaulted .int32 (.string ['-', '1'])).fields 0
        (defaultedField .int32 (.string ['-', '1'])) (.int32 (Int32.ofInt (-(1 : Nat)))) ↔
      IsKept (defaulted .int32 (.string ['-', '1'])).fields (defaultedField .int32 (.string ['-', '1']))
        (.int32 (Int32.ofInt (-(1 : Nat))) : Value Records.RecordsPayload) := by
  have hminusOne : IntegerText ['-', '1'] (-(1 : Nat)) := .negDecimal (by decide)
  exact @honoursDefault_iff _ (recordsPayload .disabled) (fun _ => .null) noFloats _ 0
    (defaultedField .int32 (.string ['-', '1'])) _ _ rfl rfl (.int32 rfl (.text hminusOne) (by decide))

/-- The text `0` of a string and the number 1 of a `uint16`. Nobody gets them: the `Default` has an empty
text and a 0. -/
theorem not_honoursDefault_zeroText :
    (validate [defaulted .string (.string ['0'])] = .ok () ∧
      SchemaDefault noFloats (defaultedField .string (.string ['0'])) (.string ['0'])
        (.string (String.ofList ['0']) : Value Records.RecordsPayload) ∧
      ownedDefaults (recordsPayload .disabled) (fun _ => .null) (defaulted .string (.string ['0'])).fields =
        [.string ""] ∧
      ¬HonoursDefault (recordsPayload .disabled) (fun _ => .null) (defaulted .string (.string ['0'])).fields 0
        (defaultedField .string (.string ['0'])) (.string (String.ofList ['0']))) ∧
    (validate [defaulted .uint16 (.number (.posInt 1))] = .ok () ∧
      SchemaDefault noFloats (defaultedField .uint16 (.number (.posInt 1))) (.number (.posInt 1))
        (.uint16 1 : Value Records.RecordsPayload) ∧
      ownedDefaults (recordsPayload .disabled) (fun _ => .null)
        (defaulted .uint16 (.number (.posInt 1))).fields = [.uint16 0] ∧
      ¬HonoursDefault (recordsPayload .disabled) (fun _ => .null)
        (defaulted .uint16 (.number (.posInt 1))).fields 0 (defaultedField .uint16 (.number (.posInt 1)))
        (.uint16 1)) := by
  refine ⟨⟨by decide +kernel, .string rfl (by decide), rfl, fun h => ?_⟩,
    ⟨by decide +kernel, .uint16 rfl (.posInt 1) (by decide), rfl, fun h => ?_⟩⟩
  · have hgiven : "" = String.ofList ['0'] := Value.string.inj (Option.some.inj h.given)
    exact absurd hgiven (by decide)
  · have hgiven : UInt16.ofNat 0 = 1 := Value.uint16.inj (Option.some.inj h.given)
    exact absurd hgiven (by decide)

end Krabka.Codegen
