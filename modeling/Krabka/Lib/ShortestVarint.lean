import Krabka.Lib.WireInt

/-!
# `Lib.ShortestVarint` — the bytes that a varint is read from

A reader of base-128 varints accepts longer forms of a number too, padded with empty groups. What it accepts
it takes off the front whatever follows, and it is never fewer bytes than the writer writes.
-/

namespace WireInt

open ByteStream Reader

variable {ε : Type} {w : Nat} {eof tooLong : ε}

theorem toNat_payload_shift (b : UInt8) (shift : Nat) :
    ((b &&& 0x7F).toBitVec.setWidth w <<< shift).toNat < 2 ^ (shift + 7) := by
  have hlow : (b &&& 0x7F).toNat < 128 := by
    rw [UInt8.toNat_and]
    exact Nat.lt_of_le_of_lt Nat.and_le_right (by decide)
  have hset : ((b &&& 0x7F).toBitVec.setWidth w).toNat < 128 := by
    rw [BitVec.toNat_setWidth]
    exact Nat.lt_of_le_of_lt (Nat.mod_le _ _) hlow
  rw [BitVec.toNat_shiftLeft, Nat.shiftLeft_eq]
  calc ((b &&& 0x7F).toBitVec.setWidth w).toNat * 2 ^ shift % 2 ^ w
      ≤ ((b &&& 0x7F).toBitVec.setWidth w).toNat * 2 ^ shift := Nat.mod_le _ _
    _ < 128 * 2 ^ shift := Nat.mul_lt_mul_of_pos_right hset (Nat.two_pow_pos shift)
    _ = 2 ^ (shift + 7) := by rw [Nat.pow_add, Nat.mul_comm]

/-- Groups that are accepted: their own bytes, which say it all, and no number beyond them. -/
theorem getGroups_eq_ok :
    ∀ {n shift : Nat} {acc v : BitVec w} {bs rest : Bytes},
      getGroups eof tooLong n shift acc bs = .ok (v, rest) →
        ∃ used, bs = used ++ rest ∧ Reads (getGroups eof tooLong n shift acc) used v ∧ used ≠ [] ∧
          (acc.toNat < 2 ^ shift → v.toNat < 2 ^ (shift + 7 * used.length)) := by
  intro n
  induction n with
  | zero =>
    intro shift acc v bs rest h
    cases h
  | succ n ih =>
    intro shift acc v bs rest h
    cases bs with
    | nil => cases h
    | cons b bs =>
      have hbyte : ∀ r, byte eof (b :: r) = .ok (b, r) := fun r => rfl
      rw [getGroups, bind_of_ok (hbyte bs)] at h
      have hor : acc.toNat < 2 ^ shift →
          (acc ||| ((b &&& 0x7F).toBitVec.setWidth w <<< shift)).toNat < 2 ^ (shift + 7) := by
        intro hacc
        rw [BitVec.toNat_or]
        refine Nat.or_lt_two_pow (Nat.lt_of_lt_of_le hacc ?_) (toNat_payload_shift b shift)
        exact Nat.pow_le_pow_right (by omega) (by omega)
      by_cases hlast : b &&& 0x80 = 0
      · simp only [if_pos hlast] at h
        cases h
        refine ⟨[b], rfl, fun r => ?_, List.cons_ne_nil _ _, hor⟩
        rw [List.singleton_append, getGroups, bind_of_ok (hbyte r)]
        simp only [if_pos hlast]
        rfl
      · simp only [if_neg hlast] at h
        obtain ⟨used, rfl, hreads, -, hbound⟩ := ih h
        refine ⟨b :: used, rfl, fun r => ?_, List.cons_ne_nil _ _, fun hacc => ?_⟩
        · rw [List.cons_append, getGroups, bind_of_ok (hbyte _)]
          simp only [if_neg hlast]
          exact hreads r
        · have hlen : shift + 7 * (b :: used).length = shift + 7 + 7 * used.length := by
            rw [List.length_cons]
            omega
          rw [hlen]
          exact hbound (hor hacc)

theorem lt_groups (v : BitVec w) : v.toNat < 128 ^ (w + 1) := by
  calc v.toNat < 2 ^ w := v.isLt
    _ ≤ 2 ^ (7 * (w + 1)) := Nat.pow_le_pow_right (by omega) (by omega)
    _ = 128 ^ (w + 1) := by rw [Nat.pow_mul]

/-- **No form of a number is shorter than the written one.** -/
theorem getVarint_eq_ok {max : Nat} {v : BitVec w} {bs rest : Bytes} (h0 : 0 < w)
    (h : getVarint eof tooLong max bs = .ok (v, rest)) :
    ∃ used, bs = used ++ rest ∧ Reads (getVarint eof tooLong max) used v ∧
      varintLen v ≤ used.length := by
  obtain ⟨used, hbs, hreads, hne, hbound⟩ := getGroups_eq_ok h
  refine ⟨used, hbs, hreads, ?_⟩
  have hlt : v.toNat < 2 ^ (0 + 7 * used.length) := hbound (Nat.two_pow_pos 0)
  have hpow : (2 : Nat) ^ (0 + 7 * used.length) = 128 ^ used.length := by
    rw [Nat.zero_add, Nat.pow_mul]
  have hpos := List.length_pos_of_ne_nil hne
  obtain ⟨m, hm, -, hlow⟩ := putGroups_length w v (lt_groups v)
  rw [← length_putVarint h0, putVarint, hm]
  rcases hlow with rfl | hlow
  · exact hpos
  · rw [hpow] at hlt
    have hexp : m < used.length := (Nat.pow_lt_pow_iff_right (by omega)).mp (Nat.lt_of_le_of_lt hlow hlt)
    exact hexp

/-- **The length is the least number of groups that holds the value.** -/
theorem isLeast_varintLen (h0 : 0 < w) (v : BitVec w) :
    IsLeast {k : ℕ | 0 < k ∧ v.toNat < 128 ^ k} (varintLen v) := by
  obtain ⟨m, hm, hup, hlow⟩ := putGroups_length w v (lt_groups v)
  rw [← length_putVarint h0, putVarint, hm]
  refine ⟨⟨Nat.succ_pos m, hup⟩, ?_⟩
  rintro k ⟨hpos, hk⟩
  rcases hlow with rfl | hlow
  · exact hpos
  · exact (Nat.pow_lt_pow_iff_right (by omega)).mp (Nat.lt_of_le_of_lt hlow hk)

/-- One byte is enough below 128, and only there. -/
theorem varintLen_eq_one {v : BitVec w} (h0 : 0 < w) : varintLen v = 1 ↔ v.toNat < 128 := by
  obtain ⟨m, hm, hup, hlow⟩ := putGroups_length w v (lt_groups v)
  rw [← length_putVarint h0, putVarint, hm]
  constructor
  · intro h
    obtain rfl : m = 0 := by omega
    exact hup
  · intro h
    rw [groups_eq_zero hlow h]

/-- The zigzag map has no other value to give: it is undone from both sides. -/
theorem zigzag_unzigzag (h0 : 0 < w) (z : BitVec w) : zigzag (unzigzag z) = z := by
  have hinj : Function.Injective (zigzag (w := w)) :=
    Function.LeftInverse.injective (unzigzag_zigzag h0)
  obtain ⟨v, rfl⟩ := Finite.surjective_of_injective hinj z
  rw [unzigzag_zigzag h0]

/-- The code of an integer: 0, 1, 2, 3, 4 for 0, -1, 1, -2, 2. -/
def zigzagCode (v : ℤ) : ℕ := if 0 ≤ v then (2 * v).toNat else (-2 * v - 1).toNat

theorem toNat_zigzag (h0 : 0 < w) (v : BitVec w) : (zigzag v).toNat = zigzagCode v.toInt := by
  have hpow : 2 ^ w = 2 * 2 ^ (w - 1) := by
    rw [← Nat.pow_succ']
    congr 1
    omega
  have hdouble : (v <<< 1).toNat = 2 * v.toNat % 2 ^ w := by
    rw [BitVec.toNat_shiftLeft, Nat.shiftLeft_eq, Nat.pow_one, Nat.mul_comm]
  have hlt := v.isLt
  unfold zigzagCode
  cases hsign : v.msb with
  | false =>
      -- the sign fills nothing in
      have hcode : zigzag v = v <<< 1 := by
        apply BitVec.eq_of_getLsbD_eq
        intro i hi
        rw [zigzag, BitVec.getLsbD_xor, sign_fill v i hi, hsign, Bool.xor_false]
      have hsmall : 2 * v.toNat < 2 ^ w := BitVec.msb_eq_false_iff_two_mul_lt.mp hsign
      rw [hcode, hdouble, Nat.mod_eq_of_lt hsmall, BitVec.toInt_eq_toNat_of_msb hsign,
        if_pos (Int.natCast_nonneg _)]
      omega
  | true =>
      -- the sign flips every bit
      have hcode : zigzag v = ~~~(v <<< 1) := by
        apply BitVec.eq_of_getLsbD_eq
        intro i hi
        rw [zigzag, BitVec.getLsbD_xor, sign_fill v i hi, hsign, Bool.xor_true, BitVec.getLsbD_not]
        simp [hi]
      have hlarge : 2 ^ w ≤ 2 * v.toNat := BitVec.msb_eq_true_iff_two_mul_ge.mp hsign
      have hmod : 2 * v.toNat % 2 ^ w = 2 * v.toNat - 2 ^ w := by
        rw [Nat.mod_eq_sub_mod hlarge, Nat.mod_eq_of_lt (by omega)]
      have hint : v.toInt = (v.toNat : ℤ) - (2 ^ w : ℕ) := by
        rw [BitVec.toInt_eq_msb_cond, if_pos hsign]
      rw [hcode, BitVec.toNat_not, hdouble, hmod, hint, if_neg (by omega)]
      omega

end WireInt
