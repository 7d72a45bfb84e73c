import Mathlib

/-!
# `Lib.Base64` — padded base64

The standard alphabet with canonical padding. Three bytes are four characters; a last group of one or two
bytes leaves bits of its last character unused, which a strict decoder wants zero and a lenient one
ignores. Either decoder reads back what was encoded (`decode_encode`), the strict one reads nothing else
(`encode_of_decode`), and what was encoded has the shape that grammars ask for (`shape_encode`).
-/

namespace Base64

/-- The character of a six-bit value. -/
def symbol (n : Nat) : Char :=
  if n < 26 then Char.ofNat (n + 65)
  else if n < 52 then Char.ofNat (n + 71)
  else if n < 62 then Char.ofNat (n - 4)
  else if n = 62 then '+'
  else '/'

def value (c : Char) : Option Nat :=
  if c.isUpper then some (c.toNat - 65)
  else if c.isLower then some (c.toNat - 71)
  else if c.isDigit then some (c.toNat + 4)
  else if c = '+' then some 62
  else if c = '/' then some 63
  else none

def encode : List UInt8 → List Char
  | [] => []
  | [a] => [symbol (a.toNat / 4), symbol (a.toNat % 4 * 16), '=', '=']
  | [a, b] =>
      [symbol (a.toNat / 4), symbol (a.toNat % 4 * 16 + b.toNat / 16), symbol (b.toNat % 16 * 4), '=']
  | a :: b :: c :: rest =>
      symbol (a.toNat / 4) :: symbol (a.toNat % 4 * 16 + b.toNat / 16) ::
        symbol (b.toNat % 16 * 4 + c.toNat / 64) :: symbol (c.toNat % 64) :: encode rest

/-- The bytes of a full group. -/
def group (x y z w : Nat) : List UInt8 :=
  [UInt8.ofNat (x * 4 + y / 16), UInt8.ofNat (y % 16 * 16 + z / 4), UInt8.ofNat (z % 4 * 64 + w)]

/-- A last group that ends in padding; `lenient` ignores the unused bits. -/
def padded (lenient : Bool) (a b c : Char) : Option (List UInt8) := do
  let x ← value a
  let y ← value b
  if c = '=' then
    if lenient ∨ y % 16 = 0 then some ((group x y 0 0).take 1) else none
  else do
    let z ← value c
    if lenient ∨ z % 4 = 0 then some ((group x y z 0).take 2) else none

def decode (lenient : Bool) : List Char → Option (List UInt8)
  | [] => some []
  | a :: b :: c :: d :: rest =>
      if d = '=' ∧ rest = [] then padded lenient a b c
      else do
        let x ← value a
        let y ← value b
        let z ← value c
        let w ← value d
        let bytes ← decode lenient rest
        return group x y z w ++ bytes
  | _ => none

/-! ## The alphabet

Every value below 64 has its symbol, and every symbol its value. -/

theorem value_symbol {n : Nat} (h : n < 64) : value (symbol n) = some n := by
  have hall : ∀ n : Fin 64, value (symbol n) = some n.val := by decide
  exact hall ⟨n, h⟩

/-- A character of the alphabet. -/
def isSymbol (c : Char) : Bool := c.isAlphanum || c == '+' || c == '/'

theorem isSymbol_symbol {n : Nat} (h : n < 64) : isSymbol (symbol n) = true := by
  have hall : ∀ n : Fin 64, isSymbol (symbol n) = true := by decide
  exact hall ⟨n, h⟩

theorem symbol_ne_pad {n : Nat} (h : n < 64) : symbol n ≠ '=' := by
  intro hpad
  have hs := isSymbol_symbol h
  rw [hpad] at hs
  revert hs
  decide

/-! ## Round trip

Three bytes are four values; a last group has one or two symbols fewer. -/

theorem group_eq (a b c : UInt8) :
    group (a.toNat / 4) (a.toNat % 4 * 16 + b.toNat / 16) (b.toNat % 16 * 4 + c.toNat / 64)
      (c.toNat % 64) = [a, b, c] := by
  have ha := a.toNat_lt
  have hb := b.toNat_lt
  have hc := c.toNat_lt
  unfold group
  rw [show a.toNat / 4 * 4 + (a.toNat % 4 * 16 + b.toNat / 16) / 16 = a.toNat by omega,
    show (a.toNat % 4 * 16 + b.toNat / 16) % 16 * 16 + (b.toNat % 16 * 4 + c.toNat / 64) / 4 =
      b.toNat by omega,
    show (b.toNat % 16 * 4 + c.toNat / 64) % 4 * 64 + c.toNat % 64 = c.toNat by omega,
    UInt8.ofNat_toNat, UInt8.ofNat_toNat, UInt8.ofNat_toNat]

/-- **Either decoder reads back what was encoded.** -/
theorem decode_encode (lenient : Bool) (bs : List UInt8) : decode lenient (encode bs) = some bs := by
  induction bs using encode.induct with
  | case1 => rfl
  | case2 a =>
      have ha := a.toNat_lt
      have hx : a.toNat / 4 < 64 := by omega
      have hy : a.toNat % 4 * 16 < 64 := by omega
      have hbits : a.toNat % 4 * 16 % 16 = 0 := by omega
      have hgroup := congrArg (List.take 1) (group_eq a 0 0)
      simp only [show (0 : UInt8).toNat = 0 by rfl, Nat.zero_div, Nat.zero_mod, Nat.zero_mul,
        Nat.add_zero] at hgroup
      simp [encode, decode, padded, value_symbol hx, value_symbol hy, hbits, hgroup]
  | case3 a b =>
      have ha := a.toNat_lt
      have hb := b.toNat_lt
      have hx : a.toNat / 4 < 64 := by omega
      have hy : a.toNat % 4 * 16 + b.toNat / 16 < 64 := by omega
      have hz : b.toNat % 16 * 4 < 64 := by omega
      have hbits : b.toNat % 16 * 4 % 4 = 0 := by omega
      have hgroup := congrArg (List.take 2) (group_eq a b 0)
      simp only [show (0 : UInt8).toNat = 0 by rfl, Nat.zero_div, Nat.zero_mod, Nat.add_zero] at hgroup
      simp [encode, decode, padded, value_symbol hx, value_symbol hy, value_symbol hz, symbol_ne_pad hz,
        hbits, hgroup]
  | case4 a b c rest ih =>
      have ha := a.toNat_lt
      have hb := b.toNat_lt
      have hc := c.toNat_lt
      have hx : a.toNat / 4 < 64 := by omega
      have hy : a.toNat % 4 * 16 + b.toNat / 16 < 64 := by omega
      have hz : b.toNat % 16 * 4 + c.toNat / 64 < 64 := by omega
      have hw : c.toNat % 64 < 64 := by omega
      rw [encode, decode, if_neg (fun h => symbol_ne_pad hw h.1), value_symbol hx, value_symbol hy,
        value_symbol hz, value_symbol hw, ih]
      exact congrArg (fun g => some (g ++ rest)) (group_eq a b c)

/-! ## The strict decoder

It asks that the bits which fill no byte are zero. -/

theorem symbol_of_value {c : Char} {n : Nat} (h : value c = some n) : n < 64 ∧ symbol n = c := by
  have hall : ∀ k : Fin 128, ∀ n ∈ value (Char.ofNat k), n < 64 ∧ symbol n = Char.ofNat k := by decide
  have hascii : c.toNat < 128 := by
    unfold value at h
    split_ifs at h with hupper hlower hdigit hplus hslash
    · simp only [Char.isUpper, decide_eq_true_eq, UInt32.le_iff_toNat_le] at hupper
      exact Nat.lt_of_le_of_lt hupper.2 (by decide)
    · simp only [Char.isLower, decide_eq_true_eq, Bool.and_eq_true, UInt32.le_iff_toNat_le] at hlower
      exact Nat.lt_of_le_of_lt hlower.2 (by decide)
    · simp only [Char.isDigit, decide_eq_true_eq, Bool.and_eq_true, UInt32.le_iff_toNat_le] at hdigit
      exact Nat.lt_of_le_of_lt hdigit.2 (by decide)
    · rw [hplus]
      decide
    · rw [hslash]
      decide
  have hc := hall ⟨c.toNat, hascii⟩ n
  rw [Char.ofNat_toNat] at hc
  exact hc h

theorem encode_group {x y z w : Nat} (hx : x < 64) (hy : y < 64) (hz : z < 64) (hw : w < 64)
    (rest : List UInt8) :
    encode (group x y z w ++ rest) = symbol x :: symbol y :: symbol z :: symbol w :: encode rest := by
  show symbol _ :: symbol _ :: symbol _ :: symbol _ :: encode rest = _
  simp only [UInt8.toNat_ofNat']
  rw [show (x * 4 + y / 16) % 2 ^ 8 / 4 = x by omega,
    show (x * 4 + y / 16) % 2 ^ 8 % 4 * 16 + (y % 16 * 16 + z / 4) % 2 ^ 8 / 16 = y by omega,
    show (y % 16 * 16 + z / 4) % 2 ^ 8 % 16 * 4 + (z % 4 * 64 + w) % 2 ^ 8 / 64 = z by omega,
    show (z % 4 * 64 + w) % 2 ^ 8 % 64 = w by omega]

/-- A strict decoder wants the unused bits of the last character zero, as an encoder leaves them. -/
theorem encode_padded {a b c : Char} {bs : List UInt8} (h : padded false a b c = some bs) :
    encode bs = [a, b, c, '='] := by
  unfold padded at h
  simp only [Option.bind_eq_bind, Option.bind_eq_some_iff] at h
  obtain ⟨x, hx, y, hy, h⟩ := h
  obtain ⟨hx64, rfl⟩ := symbol_of_value hx
  obtain ⟨hy64, rfl⟩ := symbol_of_value hy
  split_ifs at h with hc hbits
  · cases h
    have hlast : y % 16 = 0 := by simpa using hbits
    show [symbol ((UInt8.ofNat (x * 4 + y / 16)).toNat / 4),
      symbol ((UInt8.ofNat (x * 4 + y / 16)).toNat % 4 * 16), '=', '='] = _
    rw [UInt8.toNat_ofNat', show (x * 4 + y / 16) % 2 ^ 8 / 4 = x by omega,
      show (x * 4 + y / 16) % 2 ^ 8 % 4 * 16 = y by omega, hc]
  · obtain ⟨z, hz, hbytes⟩ := Option.bind_eq_some_iff.mp h
    obtain ⟨hz64, rfl⟩ := symbol_of_value hz
    split_ifs at hbytes with hbits
    cases hbytes
    have hlast : z % 4 = 0 := by simpa using hbits
    show [symbol ((UInt8.ofNat (x * 4 + y / 16)).toNat / 4),
      symbol ((UInt8.ofNat (x * 4 + y / 16)).toNat % 4 * 16 +
        (UInt8.ofNat (y % 16 * 16 + z / 4)).toNat / 16),
      symbol ((UInt8.ofNat (y % 16 * 16 + z / 4)).toNat % 16 * 4), '='] = _
    simp only [UInt8.toNat_ofNat']
    rw [show (x * 4 + y / 16) % 2 ^ 8 / 4 = x by omega,
      show (x * 4 + y / 16) % 2 ^ 8 % 4 * 16 + (y % 16 * 16 + z / 4) % 2 ^ 8 / 16 = y by omega,
      show (y % 16 * 16 + z / 4) % 2 ^ 8 % 16 * 4 = z by omega]

/-- **A strict decoder accepts what an encoder writes and nothing else.** -/
theorem encode_of_decode {cs : List Char} {bs : List UInt8} (h : decode false cs = some bs) :
    encode bs = cs := by
  induction cs using decode.induct generalizing bs with
  | case1 =>
      cases h
      rfl
  | case2 a b c d rest hlast =>
      obtain ⟨rfl, rfl⟩ := hlast
      rw [decode, if_pos ⟨rfl, rfl⟩] at h
      exact encode_padded h
  | case3 a b c d rest hlast ih =>
      rw [decode, if_neg hlast] at h
      simp only [Option.bind_eq_bind, Option.bind_eq_some_iff] at h
      obtain ⟨x, hx, y, hy, z, hz, w, hw, bytes, hrest, h⟩ := h
      obtain ⟨hx64, rfl⟩ := symbol_of_value hx
      obtain ⟨hy64, rfl⟩ := symbol_of_value hy
      obtain ⟨hz64, rfl⟩ := symbol_of_value hz
      obtain ⟨hw64, rfl⟩ := symbol_of_value hw
      cases h
      rw [encode_group hx64 hy64 hz64 hw64, ih hrest]
  | case4 cs hnil hgroup =>
      unfold decode at h
      split at h
      · exact absurd rfl hnil
      · exact absurd rfl (hgroup _ _ _ _ _)
      · cases h

/-- The strict decoder inverts the encoder. -/
theorem decode_eq_some {cs : List Char} {bs : List UInt8} :
    decode false cs = some bs ↔ cs = encode bs := by
  constructor
  · intro h
    exact (encode_of_decode h).symm
  · rintro rfl
    exact decode_encode false bs

/-! ## The shape of what is encoded

Groups of four symbols, the last one with padding. -/

/-- Symbols, then the padding that completes the last group of four. -/
inductive Shape : List Char → Prop where
  | full {cs : List Char} : cs.all isSymbol → cs.length % 4 = 0 → Shape cs
  | two {cs : List Char} : cs.all isSymbol → cs.length % 4 = 2 → Shape (cs ++ ['=', '='])
  | three {cs : List Char} : cs.all isSymbol → cs.length % 4 = 3 → Shape (cs ++ ['='])

/-- A full group in front changes nothing. -/
theorem Shape.group {cs : List Char} (h : Shape cs) {g : List Char} (hg : g.all isSymbol)
    (hlen : g.length = 4) : Shape (g ++ cs) := by
  cases h with
  | full hcs hmod =>
      refine .full (by rw [List.all_append, hg, hcs]; rfl) ?_
      rw [List.length_append]
      omega
  | two hcs hmod =>
      rw [← List.append_assoc]
      refine .two (by rw [List.all_append, hg, hcs]; rfl) ?_
      rw [List.length_append]
      omega
  | three hcs hmod =>
      rw [← List.append_assoc]
      refine .three (by rw [List.all_append, hg, hcs]; rfl) ?_
      rw [List.length_append]
      omega

theorem shape_encode (bs : List UInt8) : Shape (encode bs) := by
  induction bs using encode.induct with
  | case1 => exact .full rfl rfl
  | case2 a =>
      have ha := a.toNat_lt
      refine @Shape.two [_, _] ?_ rfl
      simp only [List.all_cons, List.all_nil, Bool.and_true, Bool.and_eq_true]
      exact ⟨isSymbol_symbol (by omega), isSymbol_symbol (by omega)⟩
  | case3 a b =>
      have ha := a.toNat_lt
      have hb := b.toNat_lt
      refine @Shape.three [_, _, _] ?_ rfl
      simp only [List.all_cons, List.all_nil, Bool.and_true, Bool.and_eq_true]
      exact ⟨isSymbol_symbol (by omega), isSymbol_symbol (by omega), isSymbol_symbol (by omega)⟩
  | case4 a b c rest ih =>
      have ha := a.toNat_lt
      have hb := b.toNat_lt
      have hc := c.toNat_lt
      refine ih.group (g := [_, _, _, _]) ?_ rfl
      simp only [List.all_cons, List.all_nil, Bool.and_true, Bool.and_eq_true]
      exact ⟨isSymbol_symbol (by omega), isSymbol_symbol (by omega), isSymbol_symbol (by omega),
        isSymbol_symbol (by omega)⟩

/-- Nothing but symbols and padding. -/
theorem Shape.mem {cs : List Char} (h : Shape cs) {c : Char} (hc : c ∈ cs) :
    isSymbol c = true ∨ c = '=' := by
  cases h with
  | full hcs _ => exact Or.inl (List.all_eq_true.mp hcs c hc)
  | two hcs _ =>
      rcases List.mem_append.mp hc with hc | hc
      · exact Or.inl (List.all_eq_true.mp hcs c hc)
      · right
        simpa using hc
  | three hcs _ =>
      rcases List.mem_append.mp hc with hc | hc
      · exact Or.inl (List.all_eq_true.mp hcs c hc)
      · right
        simpa using hc

example : encode [0x6E, 0x2C, 0x2C] = ['b', 'i', 'w', 's'] := by decide

end Base64
