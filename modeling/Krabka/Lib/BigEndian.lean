import Krabka.Lib.WireInt

/-!
# `Lib.BigEndian` — big-endian numbers from the reader's side

What `ofBE` makes of a byte string: the first byte stands highest, byte strings of one length spell different
numbers (`ofBE_injective`), and the bytes that a fixed-width number is read from are the ones it is written in
(`putBE_ofBE`): unlike a varint, it has one form only.
-/

namespace WireInt

open ByteStream

theorem ofBE_cons (b : UInt8) (bs : Bytes) : ofBE (b :: bs) = b.toNat * 256 ^ bs.length + ofBE bs := by
  have hfold : ∀ (bs : Bytes) (n : Nat),
      bs.foldl (fun v b => v * 256 + b.toNat) n = n * 256 ^ bs.length + ofBE bs := by
    intro bs
    induction bs with
    | nil => intro n; simp [ofBE]
    | cons c rest ih =>
        intro n
        have hrest : ofBE (c :: rest) = c.toNat * 256 ^ rest.length + ofBE rest := by
          show rest.foldl _ (0 * 256 + c.toNat) = _
          rw [ih, Nat.zero_mul, Nat.zero_add]
        rw [List.foldl_cons, ih, hrest, List.length_cons, Nat.pow_succ]
        ring
  show bs.foldl _ (0 * 256 + b.toNat) = _
  rw [hfold, Nat.zero_mul, Nat.zero_add]

theorem ofBE_lt (bs : Bytes) : ofBE bs < 256 ^ bs.length := by
  induction bs with
  | nil => simp [ofBE]
  | cons b rest ih =>
      have hb := b.toNat_lt
      have hle : b.toNat * 256 ^ rest.length ≤ 255 * 256 ^ rest.length := Nat.mul_le_mul_right _ (by omega)
      rw [ofBE_cons, List.length_cons, Nat.pow_succ]
      omega

/-- Byte strings of one length spell different numbers. -/
theorem ofBE_injective {bs bs' : Bytes} (hlen : bs.length = bs'.length) (h : ofBE bs = ofBE bs') :
    bs = bs' := by
  induction bs generalizing bs' with
  | nil => exact (List.length_eq_zero_iff.mp hlen.symm).symm
  | cons b rest ih =>
      cases bs' with
      | nil => cases hlen
      | cons b' rest' =>
          have hrest : rest.length = rest'.length := by simpa using hlen
          have hlt := ofBE_lt rest
          have hlt' := ofBE_lt rest'
          rw [← hrest] at hlt'
          rw [ofBE_cons, ofBE_cons, ← hrest] at h
          have hhead : b.toNat = b'.toNat := by
            have hdiv := congrArg (· / 256 ^ rest.length) h
            have hpos : 0 < 256 ^ rest.length := by positivity
            simpa [Nat.add_div_of_dvd_right, Nat.mul_div_cancel, hpos, Nat.div_eq_of_lt hlt,
              Nat.div_eq_of_lt hlt', Nat.add_comm, Nat.add_mul_div_right] using hdiv
          have htail : ofBE rest = ofBE rest' := by
            rw [hhead] at h
            omega
          rw [UInt8.toNat_inj.mp hhead, ih hrest htail]

theorem ofBE_concat (bs : Bytes) (b : UInt8) : ofBE (bs ++ [b]) = ofBE bs * 256 + b.toNat := by
  simp only [ofBE, List.foldl_append, List.foldl_cons, List.foldl_nil]

/-- **A number is written in the bytes it was read from.** -/
theorem putBE_ofBE (bs : Bytes) : putBE bs.length (ofBE bs) = bs := by
  induction bs using List.reverseRecOn with
  | nil => rfl
  | append_singleton bs b ih =>
    have hb : b.toNat < 256 := b.toNat_lt
    have hhigh : (ofBE bs * 256 + b.toNat) / 256 = ofBE bs := by omega
    have hlow : UInt8.ofNat (ofBE bs * 256 + b.toNat) = b := by
      apply UInt8.toNat_inj.mp
      rw [UInt8.toNat_ofNat']
      omega
    rw [ofBE_concat, List.length_append, List.length_singleton, putBE, hhigh, hlow, ih]

/-- The same for a word of the width. -/
theorem putBE_toNat_ofBE {n w : Nat} {bs : Bytes} (hlen : bs.length = n) (hw : 8 * n = w) :
    putBE n (BitVec.ofNat w (ofBE bs)).toNat = bs := by
  have hlt : ofBE bs < 2 ^ w := by
    calc ofBE bs < 256 ^ bs.length := ofBE_lt bs
      _ = 2 ^ w := by rw [hlen, ← hw, Nat.pow_mul]
  rw [BitVec.toNat_ofNat, Nat.mod_eq_of_lt hlt, ← hlen, putBE_ofBE]

end WireInt
