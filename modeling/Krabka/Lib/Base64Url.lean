import Krabka.Lib.Base64
import Krabka.Lib.BigEndian

/-!
# `Lib.Base64Url` — unpadded base64 in the URL-safe alphabet

RFC 4648, section 5, without padding: the bits of a byte string are cut into groups of six from the front, the
last group is filled up with zeros, and each group is a place in the alphabet. `bytesOf` puts the groups
together again and drops the bits that fill no byte, so it undoes `sextetsOf` (`bytesOf_sextetsOf`); the other
way round only the dropped bits are lost (`sextetsOf_bytesOf`).
-/

namespace Base64Url

open Base64 (group group_eq)

/-! ## The alphabet

The two symbols that differ from the standard one are safe in a URL. -/

def alphabet : List Char :=
  ['A', 'B', 'C', 'D', 'E', 'F', 'G', 'H', 'I', 'J', 'K', 'L', 'M', 'N', 'O', 'P',
    'Q', 'R', 'S', 'T', 'U', 'V', 'W', 'X', 'Y', 'Z', 'a', 'b', 'c', 'd', 'e', 'f',
    'g', 'h', 'i', 'j', 'k', 'l', 'm', 'n', 'o', 'p', 'q', 'r', 's', 't', 'u', 'v',
    'w', 'x', 'y', 'z', '0', '1', '2', '3', '4', '5', '6', '7', '8', '9', '-', '_']

/-- The character of a six-bit value. -/
def symbol (n : Nat) : Char := alphabet.getD n 'A'

/-- The place of a character. -/
def sextet (c : Char) : Nat := alphabet.idxOf c

theorem symbol_mem {n : Nat} (h : n < 64) : symbol n ∈ alphabet := by
  have hall : ∀ n : Fin 64, symbol n ∈ alphabet := by decide +kernel
  exact hall ⟨n, h⟩

theorem sextet_symbol {n : Nat} (h : n < 64) : sextet (symbol n) = n := by
  have hall : ∀ n : Fin 64, sextet (symbol n) = n := by decide +kernel
  exact hall ⟨n, h⟩

theorem sextet_lt {c : Char} (h : c ∈ alphabet) : sextet c < 64 :=
  List.idxOf_lt_length_of_mem h

theorem symbol_sextet {c : Char} (h : c ∈ alphabet) : symbol (sextet c) = c := by
  have hlt : sextet c < alphabet.length := List.idxOf_lt_length_of_mem h
  unfold symbol
  rw [List.getD_eq_getElem _ _ hlt]
  exact List.getElem_idxOf hlt

/-! ## Six bits and eight

Both cuts are of one number, the first byte standing highest. -/

/-- The bits of bytes in groups of six, the last one filled up with zeros. -/
def sextetsOf : List UInt8 → List Nat
  | [] => []
  | [a] => [a.toNat / 4, a.toNat % 4 * 16]
  | [a, b] => [a.toNat / 4, a.toNat % 4 * 16 + b.toNat / 16, b.toNat % 16 * 4]
  | a :: b :: c :: rest =>
      a.toNat / 4 :: (a.toNat % 4 * 16 + b.toNat / 16) :: (b.toNat % 16 * 4 + c.toNat / 64) ::
        (c.toNat % 64) :: sextetsOf rest

/-- The bytes that groups of six bits fill. -/
def bytesOf : List Nat → List UInt8
  | x :: y :: z :: w :: rest => group x y z w ++ bytesOf rest
  | [x, y, z] => (group x y z 0).take 2
  | [x, y] => (group x y 0 0).take 1
  | _ => []

def encode (bs : List UInt8) : List Char := (sextetsOf bs).map symbol

/-- The number that groups of six bits spell. -/
def number (vs : List Nat) : Nat := vs.foldl (fun n v => n * 64 + v) 0

theorem sextetsOf_lt (bs : List UInt8) : ∀ v ∈ sextetsOf bs, v < 64 := by
  induction bs using sextetsOf.induct with
  | case1 => simp [sextetsOf]
  | case2 a =>
      have ha := a.toNat_lt
      simp only [sextetsOf, List.forall_mem_cons]
      exact ⟨by omega, by omega, by simp⟩
  | case3 a b =>
      have ha := a.toNat_lt
      have hb := b.toNat_lt
      simp only [sextetsOf, List.forall_mem_cons]
      exact ⟨by omega, by omega, by omega, by simp⟩
  | case4 a b c rest ih =>
      have ha := a.toNat_lt
      have hb := b.toNat_lt
      have hc := c.toNat_lt
      simp only [sextetsOf, List.forall_mem_cons]
      exact ⟨by omega, by omega, by omega, by omega, ih⟩

theorem length_sextetsOf (bs : List UInt8) : (sextetsOf bs).length = (bs.length * 4 + 2) / 3 := by
  induction bs using sextetsOf.induct with
  | case1 => rfl
  | case2 a => simp [sextetsOf]
  | case3 a b => simp [sextetsOf]
  | case4 a b c rest ih =>
      simp only [sextetsOf, List.length_cons, ih]
      omega

/-- **Bytes come back from their groups.** -/
theorem bytesOf_sextetsOf (bs : List UInt8) : bytesOf (sextetsOf bs) = bs := by
  induction bs using sextetsOf.induct with
  | case1 => rfl
  | case2 a =>
      have hgroup := congrArg (List.take 1) (group_eq a 0 0)
      simpa [sextetsOf, bytesOf] using hgroup
  | case3 a b =>
      have hgroup := congrArg (List.take 2) (group_eq a b 0)
      simpa [sextetsOf, bytesOf] using hgroup
  | case4 a b c rest ih => rw [sextetsOf, bytesOf, group_eq, ih, List.cons_append, List.cons_append,
      List.cons_append, List.nil_append]

/-- Induction on groups of six bits of which the last quadruple has two. -/
@[elab_as_elim]
theorem quadruples {motive : List Nat → Prop} (two : ∀ x y, motive [x, y])
    (four : ∀ x y z w rest, rest.length % 4 = 2 → motive rest → motive (x :: y :: z :: w :: rest))
    (vs : List Nat) (hlen : vs.length % 4 = 2) : motive vs := by
  induction vs using bytesOf.induct with
  | case1 x y z w rest ih =>
      have hrest : rest.length % 4 = 2 := by
        simp only [List.length_cons] at hlen
        omega
      exact four x y z w rest hrest (ih hrest)
  | case2 x y z => simp at hlen
  | case3 x y => exact two x y
  | case4 vs hfour hthree htwo =>
      -- what is left is too short
      rcases vs with _ | ⟨x, _ | ⟨y, rest⟩⟩
      · simp at hlen
      · simp at hlen
      · rcases rest with _ | ⟨z, _ | ⟨w, rest⟩⟩
        · exact absurd rfl (htwo x y)
        · simp at hlen
        · exact absurd rfl (hfour x y z w rest)

/-- The three bytes of four groups, as numbers. -/
theorem toNat_group {x y z w : Nat} (hx : x < 64) (hy : y < 64) (hz : z < 64) (hw : w < 64) :
    (UInt8.ofNat (x * 4 + y / 16)).toNat = x * 4 + y / 16 ∧
      (UInt8.ofNat (y % 16 * 16 + z / 4)).toNat = y % 16 * 16 + z / 4 ∧
      (UInt8.ofNat (z % 4 * 64 + w)).toNat = z % 4 * 64 + w := by
  refine ⟨UInt8.toNat_ofNat_of_lt' ?_, UInt8.toNat_ofNat_of_lt' ?_, UInt8.toNat_ofNat_of_lt' ?_⟩
  · show _ < 256
    omega
  · show _ < 256
    omega
  · show _ < 256
    omega

/-- **Groups come back from their bytes**, but for the four bits of the last one that fill no byte. -/
theorem sextetsOf_bytesOf {vs : List Nat} (hlen : vs.length % 4 = 2) :
    (∀ v ∈ vs, v < 64) → ∃ before last, vs = before ++ [last] ∧
      sextetsOf (bytesOf vs) = before ++ [last / 16 * 16] := by
  refine quadruples ?_ ?_ vs hlen
  · intro x y hlt
    simp only [List.forall_mem_cons] at hlt
    obtain ⟨hx, hy, -⟩ := hlt
    refine ⟨[x], y, rfl, ?_⟩
    show sextetsOf [UInt8.ofNat (x * 4 + y / 16)] = _
    rw [sextetsOf, (toNat_group hx hy hx hx).1]
    simp only [List.cons_append, List.nil_append, List.cons.injEq, and_true]
    omega
  · intro x y z w rest _ ih hlt
    simp only [List.forall_mem_cons] at hlt
    obtain ⟨hx, hy, hz, hw, hrest⟩ := hlt
    obtain ⟨before, last, hvs, hback⟩ := ih hrest
    obtain ⟨hfirst, hsecond, hthird⟩ := toNat_group hx hy hz hw
    refine ⟨x :: y :: z :: w :: before, last, by rw [hvs]; rfl, ?_⟩
    show sextetsOf (UInt8.ofNat (x * 4 + y / 16) :: UInt8.ofNat (y % 16 * 16 + z / 4) ::
      UInt8.ofNat (z % 4 * 64 + w) :: bytesOf rest) = _
    rw [sextetsOf, hfirst, hsecond, hthird, hback]
    simp only [List.cons_append, List.cons.injEq, and_true]
    omega

theorem length_bytesOf (vs : List Nat) : (bytesOf vs).length = vs.length * 3 / 4 := by
  induction vs using bytesOf.induct with
  | case1 x y z w rest ih =>
      simp only [bytesOf, group, List.length_append, List.length_cons, List.length_nil, ih]
      omega
  | case2 x y z => simp [bytesOf, group]
  | case3 x y => simp [bytesOf, group]
  | case4 vs hfour hthree htwo =>
      rcases vs with _ | ⟨x, _ | ⟨y, _ | ⟨z, _ | ⟨w, rest⟩⟩⟩⟩
      · rfl
      · simp [bytesOf]
      · exact absurd rfl (htwo x y)
      · exact absurd rfl (hthree x y z)
      · exact absurd rfl (hfour x y z w rest)

theorem number_cons (v : Nat) (vs : List Nat) : number (v :: vs) = v * 64 ^ vs.length + number vs := by
  have hfold : ∀ (vs : List Nat) (n : Nat),
      vs.foldl (fun n v => n * 64 + v) n = n * 64 ^ vs.length + number vs := by
    intro vs
    induction vs with
    | nil => intro n; simp [number]
    | cons u rest ih =>
        intro n
        have hrest : number (u :: rest) = u * 64 ^ rest.length + number rest := by
          show rest.foldl _ (0 * 64 + u) = _
          rw [ih, Nat.zero_mul, Nat.zero_add]
        rw [List.foldl_cons, ih, hrest, List.length_cons, Nat.pow_succ]
        ring
  show vs.foldl _ (0 * 64 + v) = _
  rw [hfold, Nat.zero_mul, Nat.zero_add]

/-- The bytes are worth as much as the groups, which have four bits to spare. -/
theorem pow_length_bytesOf {vs : List Nat} (h : vs.length % 4 = 2) :
    64 ^ vs.length = 16 * 256 ^ (bytesOf vs).length := by
  have hk : vs.length = 4 * (vs.length / 4) + 2 := by omega
  rw [length_bytesOf, hk, Nat.pow_add, Nat.pow_mul,
    show (4 * (vs.length / 4) + 2) * 3 / 4 = 3 * (vs.length / 4) + 1 by omega, Nat.pow_add, Nat.pow_mul]
  norm_num
  ring

/-- Four groups in front of `n`, and the three bytes they make in front of the bytes of `n`. -/
theorem fourGroups_div (x y z w p n : Nat) :
    (x * (16 * p * 64 * 64 * 64) + (y * (16 * p * 64 * 64) + (z * (16 * p * 64) + (w * (16 * p) + n)))) / 16 =
      (x * 4 + y / 16) * (p * 256 * 256) + ((y % 16 * 16 + z / 4) * (p * 256) +
        ((z % 4 * 64 + w) * p + n / 16)) := by
  have hsum : x * (16 * p * 64 * 64 * 64) + (y * (16 * p * 64 * 64) + (z * (16 * p * 64) +
      (w * (16 * p) + n))) = n + 16 * ((x * 262144 + y * 4096 + z * 64 + w) * p) := by ring
  have hcut : x * 262144 + y * 4096 + z * 64 + w =
      x * 4 * 65536 + y / 16 * 65536 + y % 16 * 16 * 256 + z / 4 * 256 + z % 4 * 64 + w := by
    have hy := Nat.div_add_mod y 16
    have hz := Nat.div_add_mod z 4
    omega
  rw [hsum, Nat.add_mul_div_left _ _ (by decide), hcut]
  ring

/-- **The bytes spell the number that the groups spell**, without its last four bits. -/
theorem ofBE_bytesOf {vs : List Nat} (hlen : vs.length % 4 = 2) :
    (∀ v ∈ vs, v < 64) → WireInt.ofBE (bytesOf vs) = number vs / 16 := by
  refine quadruples ?_ ?_ vs hlen
  · intro x y hlt
    simp only [List.forall_mem_cons] at hlt
    obtain ⟨hx, hy, -⟩ := hlt
    show WireInt.ofBE [UInt8.ofNat (x * 4 + y / 16)] = _
    rw [WireInt.ofBE_cons, (toNat_group hx hy hx hx).1]
    simp only [number, WireInt.ofBE, List.foldl_cons, List.foldl_nil, List.length_nil]
    omega
  · intro x y z w rest hrestlen ih hlt
    simp only [List.forall_mem_cons] at hlt
    obtain ⟨hx, hy, hz, hw, hrest⟩ := hlt
    obtain ⟨hfirst, hsecond, hthird⟩ := toNat_group hx hy hz hw
    show WireInt.ofBE (UInt8.ofNat (x * 4 + y / 16) :: UInt8.ofNat (y % 16 * 16 + z / 4) ::
      UInt8.ofNat (z % 4 * 64 + w) :: bytesOf rest) = _
    rw [WireInt.ofBE_cons, WireInt.ofBE_cons, WireInt.ofBE_cons, hfirst, hsecond, hthird, ih hrest]
    simp only [number_cons, List.length_cons, Nat.pow_succ, pow_length_bytesOf hrestlen]
    exact (fourGroups_div x y z w _ _).symm

example : encode [0xFB, 0xFF] = ['-', '_', '8'] := by decide +kernel

end Base64Url
