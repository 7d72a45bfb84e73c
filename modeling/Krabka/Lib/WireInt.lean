import Krabka.Lib.ByteStream

/-!
# `Lib.WireInt` — integers on the wire

Base-128 varints with the low group first, the zigzag map that brings small negative numbers next to
zero, and fixed-width big-endian integers. Everything is over an arbitrary width `w`, so a 32-bit and a
64-bit form are the same definition.
-/

namespace WireInt

open ByteStream Reader

variable {ε : Type} {w : Nat}

/-! ## Base-128 varints

Seven bits a group, and a mark on every group but the last. -/

/-- The lowest byte of `v` (`v.to_le_bytes()[0]`). -/
def lowByte (v : BitVec w) : UInt8 := UInt8.ofBitVec (v.setWidth 8)

/-- Seven bits a byte, the top bit of a byte saying that more follow. Each round shifts seven bits out,
so `w` rounds are more than any `v` needs. -/
def putGroups : Nat → BitVec w → Bytes
  | 0, v => [lowByte v]
  | fuel + 1, v =>
      if v &&& ~~~0x7F#w ≠ 0 then (lowByte (v &&& 0x7F#w) ||| 0x80) :: putGroups fuel (v >>> 7)
      else [lowByte v]

def putVarint (v : BitVec w) : Bytes := putGroups w v

/-- Reads at most `n` groups, the next one at bit `shift`. Bits beyond the width are dropped. -/
def getGroups (eof tooLong : ε) : Nat → Nat → BitVec w → Reader ε (BitVec w)
  | 0, _, _ => throw tooLong
  | n + 1, shift, acc => do
      let b ← byte eof
      let acc' := acc ||| ((b &&& 0x7F).toBitVec.setWidth w <<< shift)
      if b &&& 0x80 = 0 then return acc' else getGroups eof tooLong n (shift + 7) acc'

def getVarint (eof tooLong : ε) (max : Nat) : Reader ε (BitVec w) :=
  getGroups eof tooLong max 0 0

/-- The number of groups, from the position of the highest set bit. -/
def varintLen (v : BitVec w) : Nat :=
  if v.toNat < 0x80 then 1 else (w - v.clz.toNat + 6) / 7

theorem getLsbD_low7 (i : Nat) : (0x7F#w).getLsbD i = (decide (i < w) && decide (i < 7)) := by
  rw [BitVec.getLsbD_ofNat, show (0x7F : Nat) = 2 ^ 7 - 1 by rfl, Nat.testBit_two_pow_sub_one]

/-- The loop's test: bits above the low seven are what makes a number 128 or more. -/
theorem high_bits_eq_zero (v : BitVec w) : v &&& ~~~0x7F#w = 0 ↔ v.toNat < 128 := by
  constructor
  · intro h
    apply Nat.lt_pow_two_of_testBit v.toNat (n := 7)
    intro i hi
    have hbit := congrArg (fun x => BitVec.getLsbD x i) h
    simp only [BitVec.getLsbD_and, BitVec.getLsbD_not, getLsbD_low7] at hbit
    change v.getLsbD i = false
    by_cases hiw : i < w
    · have hi' : ¬i < 7 := by omega
      simpa [hiw, hi'] using hbit
    · exact BitVec.getLsbD_of_ge v i (by omega)
  · intro h
    apply BitVec.eq_of_getLsbD_eq
    intro i hi
    have hv : v.getLsbD i = true → i < 7 := by
      intro hset
      by_contra hi7
      have : v.getLsbD i = false := by
        apply Nat.testBit_lt_two_pow
        calc v.toNat < 2 ^ 7 := h
          _ ≤ 2 ^ i := Nat.pow_le_pow_right (by omega) (by omega)
      rw [this] at hset
      cases hset
    simp only [BitVec.getLsbD_and, BitVec.getLsbD_not, getLsbD_low7, hi]
    cases hset : v.getLsbD i with
    | false => simp
    | true => simp [hv hset]

theorem toNat_shift7 (v : BitVec w) : (v >>> 7).toNat = v.toNat / 128 := by
  rw [BitVec.toNat_ushiftRight, Nat.shiftRight_eq_div_pow]

/-- A round of the writer, on the value of the number. -/
theorem putGroups_succ (fuel : Nat) (v : BitVec w) :
    putGroups (fuel + 1) v =
      if v.toNat < 128 then [lowByte v]
      else (lowByte (v &&& 0x7F#w) ||| 0x80) :: putGroups fuel (v >>> 7) := by
  rw [putGroups]
  by_cases h : v.toNat < 128
  · rw [if_pos h, if_neg (not_not_intro ((high_bits_eq_zero v).mpr h))]
  · rw [if_neg h, if_pos (fun hz => h ((high_bits_eq_zero v).mp hz))]

/-- The low group and the groups above it are the number, at any position. -/
theorem shift_split (v : BitVec w) (s : Nat) :
    (v &&& 0x7F#w) <<< s ||| (v >>> 7) <<< (s + 7) = v <<< s := by
  apply BitVec.eq_of_getLsbD_eq
  intro i hi
  simp only [BitVec.getLsbD_or, BitVec.getLsbD_shiftLeft, BitVec.getLsbD_and, getLsbD_low7,
    BitVec.getLsbD_ushiftRight, hi, decide_true, Bool.true_and]
  by_cases his : i < s
  · have : i < s + 7 := by omega
    simp [his, this]
  · by_cases hi7 : i < s + 7
    · have h7 : i - s < 7 := by omega
      have hw : i - s < w := by omega
      simp [his, hi7, h7, hw]
    · have h7 : ¬i - s < 7 := by omega
      have hsub : 7 + (i - (s + 7)) = i - s := by omega
      simp [his, hi7, h7, hsub]

/-- The payload of a byte cut off any number is that number's low group. -/
theorem payload_lowByte (v : BitVec w) :
    (lowByte v &&& 0x7F).toBitVec.setWidth w = v &&& 0x7F#w := by
  apply BitVec.eq_of_getLsbD_eq
  intro i hi
  have hbyte : (lowByte v &&& 0x7F).toBitVec = v.setWidth 8 &&& 0x7F#8 := rfl
  rw [hbyte]
  simp only [BitVec.getLsbD_setWidth, BitVec.getLsbD_and, getLsbD_low7, hi, decide_true,
    Bool.true_and]
  by_cases hi7 : i < 7
  · have : i < 8 := by omega
    simp [hi7, this]
  · simp [hi7]

theorem and_low7_of_lt {v : BitVec w} (h : v.toNat < 128) : v &&& 0x7F#w = v := by
  have hz := (high_bits_eq_zero v).mpr h
  apply BitVec.eq_of_getLsbD_eq
  intro i hi
  have hbit := congrArg (fun x => BitVec.getLsbD x i) hz
  simp only [BitVec.getLsbD_and, BitVec.getLsbD_not, getLsbD_low7, hi, decide_true,
    Bool.true_and] at hbit ⊢
  cases hv : v.getLsbD i <;> simp_all

/-- The last byte of a varint does not ask for more. -/
theorem lowByte_stops {v : BitVec w} (h : v.toNat < 128) : lowByte v &&& 0x80 = 0 := by
  have hn : (lowByte v).toNat = v.toNat := by
    simp only [lowByte, UInt8.toNat_ofBitVec, BitVec.toNat_setWidth]
    omega
  apply UInt8.toNat_inj.mp
  rw [UInt8.toNat_and, hn, show (0x80 : UInt8).toNat = 2 ^ 7 by rfl, Nat.and_two_pow,
    Nat.testBit_lt_two_pow h]
  rfl

theorem or_top_continues : ∀ b : UInt8, (b ||| 0x80) &&& 0x80 ≠ 0 := by decide +kernel

theorem payload_or_top : ∀ b : UInt8, (b ||| 0x80) &&& 0x7F = b &&& 0x7F := by decide +kernel

/-- **A written varint is read back**, whatever was read before it: the induction is on the groups the
reader may still take, and the accumulator only ever gains bits. -/
theorem reads_putGroups (eof tooLong : ε) :
    ∀ (n fuel shift : Nat) (acc v : BitVec w), v.toNat < 128 ^ n → 0 < n →
      v.toNat < 128 ^ (fuel + 1) →
      Reads (getGroups eof tooLong n shift acc) (putGroups fuel v) (acc ||| v <<< shift) := by
  intro n
  induction n with
  | zero => intro fuel shift acc v _ h0; omega
  | succ n ih =>
      intro fuel shift acc v hn _ hfuel rest
      by_cases hv : v.toNat < 128
      · have hput : putGroups fuel v = [lowByte v] := by
          cases fuel with
          | zero => rfl
          | succ fuel => rw [putGroups_succ, if_pos hv]
        rw [hput, getGroups, List.singleton_append, bind_of_ok rfl]
        simp only [lowByte_stops hv, payload_lowByte, and_low7_of_lt hv, if_true]
        rfl
      · cases fuel with
        | zero => omega
        | succ fuel =>
            have hdiv : ∀ k, v.toNat < 128 ^ (k + 1) → (v >>> 7).toNat < 128 ^ k := by
              intro k hk
              rw [toNat_shift7, Nat.div_lt_iff_lt_mul (by omega), ← Nat.pow_succ]
              exact hk
            have hn0 : 0 < n := by
              by_contra h0
              have : n = 0 := by omega
              subst this
              omega
            rw [putGroups_succ, if_neg hv, getGroups, List.cons_append, bind_of_ok rfl]
            simp only [or_top_continues, payload_or_top, if_false]
            have hlow : (lowByte (v &&& 0x7F#w) &&& 0x7F).toBitVec.setWidth w = v &&& 0x7F#w := by
              rw [payload_lowByte, BitVec.and_assoc, BitVec.and_self]
            rw [hlow, ih fuel (shift + 7) _ (v >>> 7) (hdiv n hn) hn0 (hdiv _ hfuel) rest,
              BitVec.or_assoc, shift_split]

theorem reads_putVarint (eof tooLong : ε) {max : Nat} (hmax : w ≤ 7 * max) (h0 : 0 < w)
    (v : BitVec w) : Reads (getVarint eof tooLong max) (putVarint v) v := by
  have hpow : ∀ k, w ≤ 7 * k → v.toNat < 128 ^ k := by
    intro k hk
    calc v.toNat < 2 ^ w := v.isLt
      _ ≤ 2 ^ (7 * k) := Nat.pow_le_pow_right (by omega) hk
      _ = 128 ^ k := by rw [Nat.pow_mul]
  have h := reads_putGroups eof tooLong max w 0 0 v (hpow max hmax) (by omega)
    (hpow (w + 1) (by omega))
  rw [BitVec.shiftLeft_zero, show (0 : BitVec w) ||| v = v from BitVec.zero_or] at h
  exact h

/-! ## How many groups

The number of groups follows from the place of the highest bit. -/

/-- A varint is the shortest run of seven-bit groups that holds the value. -/
theorem putGroups_length :
    ∀ (fuel : Nat) (v : BitVec w), v.toNat < 128 ^ (fuel + 1) →
      ∃ m, (putGroups fuel v).length = m + 1 ∧ v.toNat < 128 ^ (m + 1) ∧
        (m = 0 ∨ 128 ^ m ≤ v.toNat) := by
  intro fuel
  induction fuel with
  | zero => intro v hv; exact ⟨0, rfl, hv, Or.inl rfl⟩
  | succ fuel ih =>
      intro v hv
      rw [putGroups_succ]
      by_cases hlt : v.toNat < 128
      · rw [if_pos hlt]
        exact ⟨0, rfl, by simpa using hlt, Or.inl rfl⟩
      · rw [if_neg hlt]
        have hdiv : (v >>> 7).toNat < 128 ^ (fuel + 1) := by
          rw [toNat_shift7, Nat.div_lt_iff_lt_mul (by omega), ← Nat.pow_succ]
          exact hv
        obtain ⟨m, hm, hup, hlow⟩ := ih (v >>> 7) hdiv
        rw [toNat_shift7] at hup hlow
        refine ⟨m + 1, by rw [List.length_cons, hm], ?_, Or.inr ?_⟩
        · rw [Nat.pow_succ]
          exact (Nat.div_lt_iff_lt_mul (by omega)).mp hup
        · rcases hlow with rfl | hlow
          · omega
          · rw [Nat.pow_succ]
            exact (Nat.le_div_iff_mul_le (by omega)).mp hlow

/-- Seven bits are one group. -/
theorem groups_eq_zero {m n : Nat} (hlow : m = 0 ∨ 128 ^ m ≤ n) (h : n < 128) : m = 0 := by
  rcases hlow with rfl | hlow
  · rfl
  · by_contra hne
    have : 128 ^ 1 ≤ 128 ^ m := Nat.pow_le_pow_right (by omega) (by omega)
    omega

/-- **The predicted length is the written one.** The highest set bit lies in the last group. -/
theorem length_putVarint (h0 : 0 < w) (v : BitVec w) : (putVarint v).length = varintLen v := by
  have hfuel : v.toNat < 128 ^ (w + 1) := by
    calc v.toNat < 2 ^ w := v.isLt
      _ ≤ 2 ^ (7 * (w + 1)) := Nat.pow_le_pow_right (by omega) (by omega)
      _ = 128 ^ (w + 1) := by rw [Nat.pow_mul]
  obtain ⟨m, hm, hup, hlow⟩ := putGroups_length w v hfuel
  have hpow : ∀ k : Nat, (128 : Nat) ^ k = 2 ^ (7 * k) := fun k => by rw [Nat.pow_mul]
  unfold putVarint varintLen
  rw [hm]
  split
  · rename_i hsmall
    rw [groups_eq_zero hlow hsmall]
  · rename_i hbig
    have hv0 : v ≠ 0#w := by
      rintro rfl
      simp at hbig
    have htop : v.toNat < 2 ^ (w - v.clz.toNat) := BitVec.toNat_lt_two_pow_sub_clz
    have hbot : 2 ^ (w - 1 - v.clz.toNat) ≤ v.toNat :=
      BitVec.two_pow_sub_clz_le_toNat_of_ne_zero h0 hv0
    -- compare the exponents of the bounds on either side
    have hle : w - 1 - v.clz.toNat < 7 * (m + 1) := by
      rw [hpow] at hup
      exact (Nat.pow_lt_pow_iff_right (by omega)).mp (Nat.lt_of_le_of_lt hbot hup)
    have hge : 7 * m < w - v.clz.toNat := by
      rcases hlow with rfl | hlow
      · by_contra hz
        have : w - v.clz.toNat = 0 := by omega
        rw [this] at htop
        omega
      · rw [hpow] at hlow
        exact (Nat.pow_lt_pow_iff_right (by omega)).mp (Nat.lt_of_le_of_lt hlow htop)
    omega

/-! ## Zigzag

The sign goes to the lowest bit. -/

/-- `(v << 1) ^ (v >> (w - 1))` on a signed number, read as unsigned. -/
def zigzag (v : BitVec w) : BitVec w := (v <<< 1) ^^^ v.sshiftRight (w - 1)

/-- `(z >> 1) ^ -(z & 1)`, read as signed. -/
def unzigzag (z : BitVec w) : BitVec w := (z >>> 1) ^^^ (-(z &&& 1#w))

theorem neg_low_bit (h0 : 0 < w) (z : BitVec w) (i : Nat) (hi : i < w) :
    (-(z &&& 1#w)).getLsbD i = z.getLsbD 0 := by
  rw [BitVec.and_one_eq_setWidth_ofBool_getLsbD]
  cases z.getLsbD 0 with
  | false => simp
  | true =>
      have : -(BitVec.setWidth w (BitVec.ofBool true)) = BitVec.allOnes w := by
        apply BitVec.eq_of_toNat_eq
        simp [BitVec.toNat_neg, Nat.mod_eq_of_lt (Nat.one_lt_two_pow (by omega : w ≠ 0))]
      rw [this]
      simp [hi]

/-- An arithmetic shift by all but one bit fills the word with the sign. -/
theorem sign_fill (v : BitVec w) (i : Nat) (hi : i < w) :
    (v.sshiftRight (w - 1)).getLsbD i = v.msb := by
  rw [BitVec.getLsbD_sshiftRight]
  have hw : ¬w ≤ i := by omega
  by_cases h : w - 1 + i < w
  · have h0 : i = 0 := by omega
    subst h0
    simp [hw, BitVec.msb_eq_getLsbD_last]
  · simp [hw, h]

/-- **Zigzag is undone.** Bit `i + 1` of the code is bit `i` of the number flipped by the sign, and the
sign itself is bit 0. -/
theorem unzigzag_zigzag (h0 : 0 < w) (v : BitVec w) : unzigzag (zigzag v) = v := by
  apply BitVec.eq_of_getLsbD_eq
  intro i hi
  have hsign : (zigzag v).getLsbD 0 = v.msb := by
    unfold zigzag
    rw [BitVec.getLsbD_xor, sign_fill v 0 h0]
    simp
  unfold unzigzag
  rw [BitVec.getLsbD_xor, neg_low_bit h0 _ i hi, hsign, BitVec.getLsbD_ushiftRight]
  by_cases hlast : 1 + i < w
  · unfold zigzag
    rw [BitVec.getLsbD_xor, sign_fill v _ hlast, BitVec.getLsbD_shiftLeft]
    have : 1 + i - 1 = i := by omega
    simp [hlast, this]
  · have hi' : i = w - 1 := by omega
    rw [BitVec.getLsbD_of_ge _ _ (by omega), BitVec.msb_eq_getLsbD_last, hi']
    simp

/-! ## Big-endian integers

One byte after the other, the highest first. -/

/-- The low `n` bytes of `v`, the most significant first. -/
def putBE : Nat → Nat → Bytes
  | 0, _ => []
  | n + 1, v => putBE n (v / 256) ++ [UInt8.ofNat v]

/-- The number that a byte string spells. -/
def ofBE (bs : Bytes) : Nat := bs.foldl (fun v b => v * 256 + b.toNat) 0

@[simp] theorem length_putBE (n v : Nat) : (putBE n v).length = n := by
  induction n generalizing v with
  | zero => rfl
  | succ n ih => simp [putBE, ih]

theorem ofBE_putBE (n v : Nat) : ofBE (putBE n v) = v % 256 ^ n := by
  induction n generalizing v with
  | zero => simp [putBE, ofBE, Nat.mod_one]
  | succ n ih =>
      have h : ofBE (putBE (n + 1) v) = ofBE (putBE n (v / 256)) * 256 + v % 256 := by
        simp [putBE, ofBE, List.foldl_append]
      rw [h, ih, Nat.pow_succ, Nat.mul_comm (256 ^ n) 256, Nat.mod_mul]
      omega

/-- A whole word comes back from its bytes. -/
theorem ofNat_ofBE_putBE {n : Nat} (h : 8 * n = w) (v : BitVec w) :
    BitVec.ofNat w (ofBE (putBE n v.toNat)) = v := by
  have hlt : v.toNat < 256 ^ n := by
    calc v.toNat < 2 ^ w := v.isLt
      _ = 256 ^ n := by rw [← h, Nat.pow_mul]
  rw [ofBE_putBE, Nat.mod_eq_of_lt hlt, BitVec.ofNat_toNat, BitVec.setWidth_eq]

end WireInt
