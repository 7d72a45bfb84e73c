import Mathlib

/-!
# `Lib.FixedWidth` — checked conversions and arithmetic of machine integers

The conversions that a program makes between integer widths (`try_from`) and its checked and saturating
additions, as functions on Lean's fixed-width types. Each comes with one lemma that says what it does
over `Int`: `..._eq_some` for the fallible ones, `toInt_...` for the total ones.
-/

namespace FixedWidth

/-! ## Conversions

A conversion succeeds if the number is in the range of the target. -/

/-- `i32::try_from(n)` of a `u64`. -/
def i32OfU64 (n : UInt64) : Option Int32 :=
  if n.toNat < 2 ^ 31 then some (Int32.ofNat n.toNat) else none

/-- `u64::try_from(i)` of an `i32`. -/
def u64OfI32 (i : Int32) : Option UInt64 :=
  if 0 ≤ i.toInt then some (UInt64.ofNat i.toInt.toNat) else none

/-- `i32::try_from(n)` of a `u32`. -/
def i32OfU32 (n : UInt32) : Option Int32 :=
  if n.toNat < 2 ^ 31 then some (Int32.ofNat n.toNat) else none

/-- `u32::try_from(i)` of an `i32`. -/
def u32OfI32 (i : Int32) : Option UInt32 :=
  if 0 ≤ i.toInt then some (UInt32.ofNat i.toInt.toNat) else none

/-- `i32::try_from(n)` of a length. -/
def i32OfLen (n : Nat) : Option Int32 :=
  if n < 2 ^ 31 then some (Int32.ofNat n) else none

/-- `i16::try_from(n)` of a length. -/
def i16OfLen (n : Nat) : Option Int16 :=
  if n < 2 ^ 15 then some (Int16.ofNat n) else none

/-- `u32::try_from(n)` of a length. -/
def u32OfLen (n : Nat) : Option UInt32 :=
  if n < 2 ^ 32 then some (UInt32.ofNat n) else none

/-- `i64::try_from(n)` of a length. -/
def i64OfLen (n : Nat) : Option Int64 :=
  if n < 2 ^ 63 then some (Int64.ofNat n) else none

/-- `usize::try_from(i)` of an `i32`. -/
def usizeOfI32 (i : Int32) : Option Nat :=
  if 0 ≤ i.toInt then some i.toInt.toNat else none

/-- `usize::try_from(i)` of an `i16`. -/
def usizeOfI16 (i : Int16) : Option Nat :=
  if 0 ≤ i.toInt then some i.toInt.toNat else none

/-- `usize::try_from(i)` of an `i64`, where `usize` is 64 bits wide. -/
def usizeOfI64 (i : Int64) : Option Nat :=
  if 0 ≤ i.toInt then some i.toInt.toNat else none

theorem i32OfLen_eq_some_ofNat {n : Nat} {i : Int32} :
    i32OfLen n = some i ↔ n < 2 ^ 31 ∧ i = Int32.ofNat n := by
  unfold i32OfLen
  split <;> simp_all [eq_comm]

theorem i64OfLen_eq_some_ofNat {n : Nat} {i : Int64} :
    i64OfLen n = some i ↔ n < 2 ^ 63 ∧ i = Int64.ofNat n := by
  unfold i64OfLen
  split <;> simp_all [eq_comm]

/-- A length is a signed word where it is one, and then it is that number. -/
theorem i32OfLen_eq_some {n : Nat} {i : Int32} : i32OfLen n = some i ↔ i.toInt = n := by
  unfold i32OfLen
  split
  · rename_i h
    rw [Option.some.injEq]
    constructor
    · rintro rfl
      exact Int32.toInt_ofNat_of_lt h
    · intro hi
      apply Int32.toInt_inj.mp
      rw [Int32.toInt_ofNat_of_lt h, hi]
  · have := i.toInt_lt
    constructor
    · intro hn; cases hn
    · intro hi; omega

/-- So it is with an unsigned word. -/
theorem u32OfLen_eq_some {n : Nat} {u : UInt32} : u32OfLen n = some u ↔ u.toNat = n := by
  unfold u32OfLen
  have hlt := u.toNat_lt
  split
  · rename_i h
    rw [Option.some.injEq]
    constructor
    · rintro rfl
      exact UInt32.toNat_ofNat_of_lt' h
    · rintro rfl
      exact UInt32.ofNat_toNat
  · constructor
    · intro hn; cases hn
    · intro hu; omega

/-- A long word is a short one where it is one. -/
theorem i32OfU64_eq_some {n : UInt64} {i : Int32} : i32OfU64 n = some i ↔ i.toInt = n.toNat :=
  i32OfLen_eq_some

/-- A signed word is a length where it is not negative. -/
theorem usizeOfI32_eq_some {i : Int32} {n : Nat} : usizeOfI32 i = some n ↔ i.toInt = n := by
  unfold usizeOfI32
  split
  · rw [Option.some.injEq]; omega
  · constructor
    · intro hn; cases hn
    · intro hi; omega

/-- A negative one is none. -/
theorem usizeOfI32_eq_none {i : Int32} : usizeOfI32 i = none ↔ i.toInt < 0 := by
  unfold usizeOfI32
  split
  · exact iff_of_false (fun h => by cases h) (by omega)
  · exact iff_of_true rfl (by omega)

theorem usizeOfI64_eq_some {i : Int64} {n : Nat} : usizeOfI64 i = some n ↔ i.toInt = n := by
  unfold usizeOfI64
  split
  · rw [Option.some.injEq]; omega
  · constructor
    · intro hn; cases hn
    · intro hi; omega

theorem u64OfI32_eq_some {i : Int32} {n : UInt64} :
    u64OfI32 i = some n ↔ i.toInt = n.toNat := by
  unfold u64OfI32
  have hlt := i.toInt_lt
  split
  · rename_i h
    rw [Option.some.injEq]
    constructor
    · rintro rfl
      rw [UInt64.toNat_ofNat_of_lt' (by simp only [UInt64.size]; omega)]
      omega
    · intro hi
      rw [hi]
      simp
  · rename_i h
    constructor
    · intro hn; cases hn
    · intro hi; omega

/-- A `u32` that fits `i32` comes back from it. -/
theorem u32OfI32_of_i32OfU32 {n : UInt32} {i : Int32} (h : i32OfU32 n = some i) :
    u32OfI32 i = some n := by
  have hi : i.toInt = n.toNat := i32OfLen_eq_some.mp h
  unfold u32OfI32
  rw [if_pos (by omega), hi]
  simp

/-- A length clamped to `i32::MAX`. -/
theorem toInt_i32OfLen_getD (n : Nat) :
    ((i32OfLen n).getD Int32.maxValue).toInt = min (n : Int) 2147483647 := by
  cases h : i32OfLen n with
  | some i =>
      have hi := i32OfLen_eq_some.mp h
      have := i.toInt_lt
      simp only [Option.getD_some, hi]
      omega
  -- too long for `i32`, so past the clamp
  | none =>
      have hn : ¬n < 2 ^ 31 := by
        intro hlt
        unfold i32OfLen at h
        rw [if_pos hlt] at h
        cases h
      have hmax : Int32.maxValue.toInt = 2147483647 := by decide
      simp only [Option.getD_none, hmax]
      omega

/-! ## Arithmetic

A saturating sum is the sum clamped to the range, and a checked one is none outside of it. -/

/-- `a.checked_add(b)` on `i32`. -/
def checkedAddI32 (a b : Int32) : Option Int32 :=
  if -2 ^ 31 ≤ a.toInt + b.toInt ∧ a.toInt + b.toInt < 2 ^ 31
  then some (Int32.ofInt (a.toInt + b.toInt)) else none

/-- `a.checked_sub(b)` on `i32`. -/
def checkedSubI32 (a b : Int32) : Option Int32 :=
  if -2 ^ 31 ≤ a.toInt - b.toInt ∧ a.toInt - b.toInt < 2 ^ 31
  then some (Int32.ofInt (a.toInt - b.toInt)) else none

/-- `a.saturating_add(b)` on `i32`. -/
def saturatingAddI32 (a b : Int32) : Int32 :=
  Int32.ofIntClamp (a.toInt + b.toInt)

/-- `a.saturating_add(b)` on `i64`. -/
def saturatingAddI64 (a b : Int64) : Int64 :=
  Int64.ofIntClamp (a.toInt + b.toInt)

/-- `a.saturating_sub(b)` on `i64`. -/
def saturatingSubI64 (a b : Int64) : Int64 :=
  Int64.ofIntClamp (a.toInt - b.toInt)

/-- The `i64` of an integer in range. -/
def i64OfInt (n : Int) : Option Int64 :=
  if -2 ^ 63 ≤ n ∧ n < 2 ^ 63 then some (Int64.ofInt n) else none

/-- `a.checked_mul(b)` on `i64`. -/
def checkedMulI64 (a b : Int64) : Option Int64 := i64OfInt (a.toInt * b.toInt)

/-- `a.saturating_mul(b)` on `i64`. -/
def saturatingMulI64 (a b : Int64) : Int64 :=
  Int64.ofIntClamp (a.toInt * b.toInt)

/-- `a.saturating_add(b)` on `u64`. -/
def saturatingAddU64 (a b : UInt64) : UInt64 :=
  UInt64.ofNat (min (a.toNat + b.toNat) (2 ^ 64 - 1))

/-- A checked operation has a result when the integer fits, and it is that integer. -/
theorem checkedI32_eq_some {n : Int} {c : Int32} :
    (if -2 ^ 31 ≤ n ∧ n < 2 ^ 31 then some (Int32.ofInt n) else none) = some c ↔ c.toInt = n := by
  have hlt := c.toInt_lt
  have hle := c.le_toInt
  split
  · rename_i h
    rw [Option.some.injEq]
    constructor
    · rintro rfl
      exact Int32.toInt_ofInt_of_le h.1 h.2
    · intro hc
      rw [← hc, Int32.ofInt_toInt]
  · rename_i h
    constructor
    · intro hn; cases hn
    · intro hc
      exact absurd ⟨by omega, by omega⟩ h

/-- A checked sum is the sum, or nothing. -/
theorem checkedAddI32_eq_some {a b c : Int32} :
    checkedAddI32 a b = some c ↔ c.toInt = a.toInt + b.toInt := checkedI32_eq_some

/-- A checked difference is the difference, or nothing. -/
theorem checkedSubI32_eq_some {a b c : Int32} :
    checkedSubI32 a b = some c ↔ c.toInt = a.toInt - b.toInt := checkedI32_eq_some

/-- Counting up stops at the largest word. -/
theorem toInt_saturatingAddI32_one (a : Int32) :
    (saturatingAddI32 a 1).toInt = min (a.toInt + 1) 2147483647 := by
  have h1 : (1 : Int32).toInt = 1 := by decide
  have hlt := a.toInt_lt
  have hle := a.le_toInt
  unfold saturatingAddI32
  rw [h1]
  by_cases hmax : a.toInt + 1 ≤ 2147483647
  · rw [Int32.toInt_ofIntClamp (by rw [Int32.toInt_minValue]; omega)
      (by rw [show Int32.maxValue.toInt = 2147483647 by decide]; exact hmax)]
    omega
  · -- the one value that saturates
    have : a.toInt = 2147483647 := by omega
    rw [this]
    decide

theorem i64OfInt_eq_some {n : Int} {i : Int64} : i64OfInt n = some i ↔ i.toInt = n := by
  unfold i64OfInt
  have hlt := i.toInt_lt
  have hle := i.le_toInt
  split
  · rename_i h
    rw [Option.some.injEq]
    constructor
    · rintro rfl
      exact Int64.toInt_ofInt_of_le h.1 h.2
    · intro hi
      rw [← hi, Int64.ofInt_toInt]
  · rename_i h
    constructor
    · intro hn; cases hn
    · intro hi
      exact absurd ⟨by omega, by omega⟩ h

/-- Clamping goes to the nearer end of the range. -/
theorem toInt_ofIntClampI64 (n : Int) :
    (Int64.ofIntClamp n).toInt = max (min n (2 ^ 63 - 1)) (-2 ^ 63) := by
  unfold Int64.ofIntClamp
  have hmin : Int64.minValue.toInt = -2 ^ 63 := Int64.toInt_minValue
  have hmax : Int64.maxValue.toInt = 2 ^ 63 - 1 := Int64.toInt_maxValue
  split
  · rename_i hlow
    split
    · rename_i hhigh
      rw [Int64.toInt_ofIntLE]
      omega
    · rw [hmax]
      omega
  · rw [hmin]
    omega

/-- A saturating difference stays in the range. -/
theorem toInt_saturatingSubI64 (a b : Int64) :
    (saturatingSubI64 a b).toInt = max (min (a.toInt - b.toInt) (2 ^ 63 - 1)) (-2 ^ 63) :=
  toInt_ofIntClampI64 _

/-- A product that fits is not saturated. -/
theorem saturatingMulI64_of_checked {a b c : Int64} (h : checkedMulI64 a b = some c) :
    saturatingMulI64 a b = c := by
  have hc : c.toInt = a.toInt * b.toInt := i64OfInt_eq_some.mp h
  have hlt := c.toInt_lt
  have hle := c.le_toInt
  apply Int64.toInt_inj.mp
  rw [saturatingMulI64, toInt_ofIntClampI64, ← hc]
  omega

/-- A saturating sum stops at the largest word. -/
theorem toNat_saturatingAddU64 (a b : UInt64) :
    (saturatingAddU64 a b).toNat = min (a.toNat + b.toNat) (2 ^ 64 - 1) := by
  unfold saturatingAddU64
  rw [UInt64.toNat_ofNat_of_lt']
  show min (a.toNat + b.toNat) (2 ^ 64 - 1) < 2 ^ 64
  omega

theorem toInt_maxI64 (a b : Int64) : (max a b).toInt = max a.toInt b.toInt := by
  show (if a ≤ b then b else a).toInt = max a.toInt b.toInt
  split
  · rename_i h
    rw [max_eq_right (Int64.le_iff_toInt_le.mp h)]
  · rename_i h
    have hlt : b.toInt ≤ a.toInt := by
      rw [Int64.le_iff_toInt_le] at h
      omega
    rw [max_eq_left hlt]

theorem toNat_maxU32 (a b : UInt32) : (max a b).toNat = max a.toNat b.toNat := by
  show (if a ≤ b then b else a).toNat = max a.toNat b.toNat
  split
  · rename_i h
    rw [max_eq_right (UInt32.le_iff_toNat_le.mp h)]
  · rename_i h
    have hlt : b.toNat ≤ a.toNat := by
      rw [UInt32.le_iff_toNat_le] at h
      omega
    rw [max_eq_left hlt]

end FixedWidth
