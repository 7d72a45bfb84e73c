import Krabka.Codegen.SchemaDefaults

/-!
# `Codegen.PlainDefaults` — defaults without text are the same in both flavours

The owned `Default` of a struct is derived where no field asks for more, and the borrowed one is always written
out. A derived default and a written one are the same for every field that holds no text, where both compile
(`defaultExpr_eq_derived`). So the owned and the borrowed `Default` of a struct without text are the same as soon
as those of the structs inside it are (`ownedDefaults_eq_of_plain`).
-/

namespace Krabka.Codegen

open Krabka.Protocol.Records (RecordsCodec)

variable {ρ : Type}

namespace FieldType

/-- What stands behind every `[]`. -/
def inner : FieldType → BaseType
  | base b => b
  | array elem => elem.inner

end FieldType

/-- What the compiler checks of a written default: the expression is there, and `None` is an `Option`. -/
structure FieldSpec.DefaultCompiles (f : FieldSpec) (string : List Char → Option String) : Prop where
  literal : ∀ {ρ : Type} (records : RecordsCodec ρ) (structs : String → Value ρ),
    (defaultExpr records structs string f).isSome
  none : f.defaultIsNull → f.isOption ∨ f.nullable = false ∧ f.fieldType.isArray

theorem parseDecimal_zeros {cs : List Char} (hne : cs ≠ []) (hzeros : cs.all (· == '0') = true) :
    parseDecimal cs = some 0 := by
  have hrep : cs = List.replicate cs.length '0' :=
    List.eq_replicate_iff.mpr ⟨rfl, fun c hc => beq_iff_eq.mp (List.all_eq_true.mp hzeros c hc)⟩
  have hdigits : cs.all Char.isDigit = true := by
    rw [List.all_eq_true]
    intro c hc
    rw [beq_iff_eq.mp (List.all_eq_true.mp hzeros c hc)]
    rfl
  unfold parseDecimal
  rw [hdigits, Bool.not_true, Bool.or_false, if_neg (by rwa [List.isEmpty_iff])]
  rw [hrep, Nat.ofDigitChars_replicate_zero, Nat.mul_zero]

/-- A plus sign is no part of a literal. -/
theorem no_literal_of_plus {cs : List Char} (hzeros : cs.all (· == '0') = true) (bits : Nat) :
    narrowLiteral ('+' :: cs) = none ∧ formatIntLiteral bits ('+' :: cs) = none := by
  have hnot : ∀ c, c ≠ '+' → c ≠ '0' → c ∉ '+' :: cs := by
    intro c hplus hzero hmem
    rcases List.mem_cons.mp hmem with rfl | hmem
    · exact hplus rfl
    · exact hzero (beq_iff_eq.mp (List.all_eq_true.mp hzeros c hmem))
  have hhex := stripPrefix_eq_none (p := ['0', 'x']) (c := 'x') (by decide) (hnot 'x' (by decide) (by decide))
  have hhex' := stripPrefix_eq_none (p := ['0', 'X']) (c := 'X') (by decide) (hnot 'X' (by decide) (by decide))
  have htrim : Text.trimMatches Text.isWhitespace ('+' :: cs) = '+' :: cs := by
    refine Text.trimMatches_eq_self fun c hc => ?_
    rcases List.mem_cons.mp hc with rfl | hc
    · decide
    · rw [beq_iff_eq.mp (List.all_eq_true.mp hzeros c hc)]
      decide
  have hdecimal : parseDecimal ('+' :: cs) = none := rfl
  have hsign : splitSign ('+' :: cs) = (false, '+' :: cs) := rfl
  unfold narrowLiteral formatIntLiteral
  simp only [hsign, htrim, hhex, hhex', hdecimal, Option.or_none]
  exact ⟨rfl, rfl⟩

/-- A text of zeros, behind a sign or not, is the number 0 or no literal. -/
theorem intDefault_of_parsesAsZero {bits : Nat} (hbits : 0 < bits) (hbits' : bits ≤ 64) {s : List Char} {n : Int}
    (hs : parsesAsZero s = true) (h : intDefault bits s = some n) : n = 0 := by
  obtain ⟨m, hm, hrange⟩ := Option.bind_eq_some_iff.mp h
  obtain rfl : m = n := by
    unfold inRange at hrange
    split at hrange
    · exact Option.some.inj hrange
    · cases hrange
  have hzero : ∀ {t : List Char}, IntegerText t 0 →
      (if bits < 32 then narrowLiteral t else formatIntLiteral bits t) = some m → m = 0 := by
    intro t ht hm
    have hpos : (0 : Int) < 2 ^ (bits - 1) := Int.pow_pos (by decide)
    rw [ht.narrowLiteral_eq, ht.formatIntLiteral_eq hbits hbits' (by omega) hpos, ite_self] at hm
    exact (Option.some.inj hm).symm
  unfold parsesAsZero at hs
  revert hm hs
  dsimp only
  generalize Text.trimMatches Text.isWhitespace s = t
  intro hs hm
  split at hs
  all_goals
    rw [Bool.and_eq_true, Bool.not_eq_true', List.isEmpty_eq_false_iff] at hs
    obtain ⟨hne, hzeros⟩ := hs
  · rw [(no_literal_of_plus hzeros bits).1, (no_literal_of_plus hzeros bits).2, ite_self] at hm
    cases hm
  · exact hzero (.negDecimal (n := 0) (parseDecimal_zeros hne hzeros)) hm
  · exact hzero (.decimal (n := 0) (parseDecimal_zeros hne hzeros)) hm

/-- What a derived default stands for is the number 0, where it is a literal at all. -/
theorem intDefault_of_derived {bits : Nat} (hbits : 0 < bits) (hbits' : bits ≤ 64) {s : List Char} {n : Int}
    (hs : s = "false".toList ∨ s = [] ∨ parsesAsZero s = true) (h : intDefault bits s = some n) : n = 0 := by
  have hnone : ∀ {t : List Char}, Text.trimMatches Text.isWhitespace t = t → narrowLiteral t = none →
      formatIntLiteral bits t = none → intDefault bits t = none := by
    intro t htrim hnarrow hwide
    unfold intDefault
    simp only [htrim, hnarrow, hwide, ite_self, Option.bind_none]
  rcases hs with rfl | rfl | hs
  · rw [hnone (by decide) (by decide) rfl] at h
    cases h
  · rw [hnone (by decide) (by decide) rfl] at h
    cases h
  · exact intDefault_of_parsesAsZero hbits hbits' hs h

/-- So it is of a JSON number. -/
theorem intDefault_of_zero {bits : Nat} (hbits : 0 < bits) (hbits' : bits ≤ 64) {m : Json.Number}
    (hm : m.asI64 = some 0) : intDefault bits (numberText m) = some 0 := by
  have hpos : (0 : Int) < 2 ^ (bits - 1) := Int.pow_pos (by decide)
  have htext : IntegerText (numberText m) 0 := by
    cases m with
    | posInt n =>
        have hn : (n.toNat : Int) = 0 := (FixedWidth.i64OfInt_eq_some.mp hm).symm
        have htoString : IntegerText (numberText (.posInt n)) n.toNat := integerText_toString n.toNat
        rwa [hn] at htoString
    | negInt n =>
        cases hm
        exact integerText_toString 0
    | float _ => cases hm
  exact htext.intDefault_eq hbits hbits' (by omega) hpos

section
variable {f : FieldSpec} {records : RecordsCodec ρ} {structs structs' : String → Value ρ}
  {string string' : List Char → Option String}

/-- A default without text depends on the struct type of the field only. -/
theorem defaultExpr_congr (htext : f.fieldType.inner ≠ .string)
    (hstructs : ∀ name, f.baseType = .base (.struct name) → structs name = structs' name) :
    defaultExpr records structs string f = defaultExpr records structs' string' f := by
  have hrust : f.fieldType.isArray = false →
      rustDefault records structs f.baseType = rustDefault records structs' f.baseType := by
    revert hstructs
    generalize f.baseType = t
    intro hstructs
    cases t with
    | array elem => exact fun _ => rfl
    | base b =>
        cases b <;> try exact fun _ => rfl
        exact fun _ => hstructs _ rfl
  have hbase : f.fieldType.isArray = false → f.baseType ≠ .base .string := by
    unfold FieldSpec.baseType
    revert htext
    cases f.fieldType with
    | array elem => exact fun _ h => by cases h
    | base b =>
        rintro htext - hstring
        exact htext (by rw [show FieldType.base b = .base .string from hstring]; rfl)
  unfold defaultExpr
  split_ifs with hnull hnull' harray <;> try rfl
  rw [Bool.not_eq_true] at harray
  have hrust := hrust harray
  have hbase := hbase harray
  cases f.default with
  | none => exact congrArg some hrust
  | some val =>
      dsimp only
      revert hrust hbase
      generalize f.baseType = t
      intro hrust hbase
      unfold scalarDefault
      cases val <;> dsimp only
      case string s =>
        split_ifs
        · rfl
        · split <;> first | rfl | exact congrArg some hrust | exact absurd rfl hbase
      all_goals first | exact congrArg some hrust | (split <;> first | rfl | exact congrArg some hrust)

/-- The value of a literal that a derived default stands for. -/
theorem scalarDefault_of_text {b : BaseType} (hb : b ≠ .string) {s : List Char}
    (hs : s = "false".toList ∨ s = [] ∨ parsesAsZero s = true)
    (hsome : (scalarDefault records structs string (.base b) (.string s)).isSome) :
    scalarDefault records structs string (.base b) (.string s) = some (rustDefault records structs (.base b)) := by
  have hnull : s ≠ "null".toList := by
    rintro rfl
    revert hs
    decide
  have hint : ∀ {bits : Nat} {g : Int → Value ρ}, 0 < bits → bits ≤ 64 → ((intDefault bits s).map g).isSome →
      (intDefault bits s).map g = some (g 0) := by
    intro bits g hbits hbits' h
    obtain ⟨n, hn⟩ := Option.isSome_iff_exists.mp (Option.isSome_map ▸ h)
    rw [hn, intDefault_of_derived hbits hbits' hs hn]
    rfl
  unfold scalarDefault at hsome ⊢
  dsimp only at hsome ⊢
  rw [if_neg hnull] at hsome ⊢
  cases b <;> try rfl
  case string => exact absurd rfl hb
  case bool =>
    have htrue : s ≠ "true".toList := by
      rintro rfl
      revert hs
      decide
    exact congrArg (fun c => some (Value.bool c)) (decide_eq_false htrue)
  all_goals exact hint (by decide) (by decide) hsome

theorem scalarDefault_of_number {b : BaseType} {m : Json.Number} (hm : m.asI64 = some 0) :
    scalarDefault records structs string (.base b) (.number m) = some (rustDefault records structs (.base b)) := by
  unfold scalarDefault
  cases b <;> try rfl
  all_goals
    dsimp only
    rw [intDefault_of_zero (by decide) (by decide) hm]
    rfl

/-- **A derived default is the one that would be written out**, of a field without text. -/
theorem defaultExpr_eq_derived (htext : f.fieldType.inner ≠ .string) (hrecords : f.fieldType.inner ≠ .records)
    (hc : f.DefaultCompiles string) (hmanual : f.needsManualDefault = false) :
    defaultExpr records structs string f = some (derivedDefault records structs f) := by
  have hliteral := hc.literal records structs
  unfold defaultExpr at hliteral ⊢
  unfold derivedDefault
  have hbase : f.baseType ≠ .base .records := by
    unfold FieldSpec.baseType
    revert hrecords
    cases f.fieldType with
    | base b =>
        rintro hrecords hbase
        exact hrecords (by rw [show FieldType.base b = .base .records from hbase]; rfl)
    | array elem =>
        rintro hrecords hbase
        exact hrecords (by rw [show elem = .base .records from hbase]; rfl)
  rw [if_neg (by simp [hbase])] at hliteral ⊢
  cases hnullable : f.nullable with
  | true =>
      -- an `Option` that is not written out is null
      have hnull : f.defaultIsNull = true := by
        unfold FieldSpec.needsManualDefault at hmanual
        rwa [hnullable, if_pos rfl, Bool.not_eq_false'] at hmanual
      have hoption : f.isOption = true := by
        rcases hc.none hnull with h | ⟨h, -⟩
        · exact h
        · rw [hnullable] at h
          cases h
      rw [hnull, hoption]
      rfl
  | false =>
      have hisNullable : f.isNullable = false := (Bool.or_eq_false_iff.mp hnullable).1
      have hjson : f.defaultIsJsonNull = false := (Bool.or_eq_false_iff.mp hnullable).2
      have hoption : f.isOption = false := by
        unfold FieldSpec.isOption
        rw [hisNullable, hjson, Bool.and_false]
        rfl
      unfold FieldSpec.needsManualDefault at hmanual
      rw [hnullable, if_neg Bool.false_ne_true] at hmanual
      rw [hnullable, Bool.false_and, if_neg Bool.false_ne_true] at hliteral
      rw [Bool.false_and, if_neg Bool.false_ne_true, hoption, if_neg Bool.false_ne_true]
      have hnone := hc.none
      rw [hoption] at hnone
      unfold FieldSpec.baseType at hliteral ⊢
      cases htype : f.fieldType with
      | array elem => rfl
      | base b =>
          rw [htype] at hliteral htext hnone
          have hb : b ≠ .string := htext
          have hnull : f.defaultIsNull = false := by
            rw [Bool.eq_false_iff]
            intro hnull
            rcases hnone hnull with h | ⟨-, h⟩ <;> cases h
          unfold FieldSpec.defaultIsJsonNull at hjson
          unfold FieldSpec.defaultIsNull at hnull
          cases hdef : f.default with
          | none => rfl
          | some val =>
              rw [hdef] at hmanual hjson hnull hliteral
              cases val with
              | null => cases hjson
              | bool c =>
                  cases hmanual
                  cases b <;> rfl
              | string s =>
                  simp only [Bool.not_eq_false', Bool.or_eq_true, decide_eq_true_eq, List.isEmpty_iff,
                    or_assoc] at hmanual
                  exact scalarDefault_of_text hb (hmanual.resolve_left (of_decide_eq_false hnull)) hliteral
              | number m => exact @scalarDefault_of_number _ records structs string b m (by simpa using hmanual)
              | array items => cases hmanual
              | object members => cases hmanual

/-- **A struct without text has one `Default`**, where the structs inside it have. -/
theorem ownedDefaults_eq_of_plain {fields : List FieldSpec}
    (h : ∀ f ∈ fields, f.fieldType.inner ≠ .string ∧ f.fieldType.inner ≠ .records ∧ f.DefaultCompiles string)
    (hstructs : ∀ f ∈ fields, ∀ name, f.baseType = .base (.struct name) → structs name = structs' name) :
    ownedDefaults records structs fields =
      fields.map fun f => (defaultExpr records structs' string f).getD .null := by
  have hcongr : ∀ g : List Char → Option String, ∀ f ∈ fields,
      defaultExpr records structs g f = defaultExpr records structs' string f := fun g f hf =>
    defaultExpr_congr (h f hf).1 (hstructs f hf)
  unfold ownedDefaults
  split
  · exact List.map_congr_left fun f hf => by rw [hcongr _ f hf]
  · rename_i hmanual
    refine List.map_congr_left fun f hf => ?_
    obtain ⟨htext, hrecords, hc⟩ := h f hf
    rw [← hcongr string f hf, defaultExpr_eq_derived htext hrecords hc (not_manual_of_mem hf hmanual)]
    rfl

end

end Krabka.Codegen
