import Krabka.KafkaTap.Frame
import Krabka.Lib.Text

/-!
# `KafkaTap.Spool` — the spool of the standalone tap

One line of JSON per captured frame, with the body in hexadecimal. The spool is a corpus that later runs
replay, so it has to say everything: two lists of frames with the same spool text are the same list.
-/

namespace Krabka.KafkaTap

open ByteStream

/-- `{b:02x}`. -/
def hexByte (b : UInt8) : List Char := [Nat.digitChar (b.toNat / 16), Nat.digitChar (b.toNat % 16)]

/-- A signed 16-bit number as `Display` writes it. -/
def showI16 (i : Int16) : List Char :=
  if i.toInt < 0 then '-' :: Nat.toDigits 10 i.toInt.natAbs else Nat.toDigits 10 i.toInt.natAbs

def showBool (b : Bool) : List Char := if b then "true".toList else "false".toList

/-- The frame as one newline-terminated JSON record, with the body in lowercase hex. -/
def CapturedFrame.spoolLine (f : CapturedFrame) : List Char :=
  "\x7b\"api_key\":".toList ++ showI16 f.apiKey.get ++ ",\"version\":".toList ++ showI16 f.version.get ++
    ",\"is_request\":".toList ++ showBool f.isRequest ++ ",\"body_hex\":\"".toList ++
    f.body.flatMap hexByte ++ "\"\x7d\n".toList

/-- What the tap has written to the spool file. -/
def spool (fs : List CapturedFrame) : List Char := fs.flatMap CapturedFrame.spoolLine

/-! ## Each part says what it shows

The printed forms of numbers, of Booleans and of bytes are injective, and none of them holds the separator
behind it. -/

theorem showI16_injective : Function.Injective showI16 := by
  have hdigit : ∀ n, '-' ∉ Nat.toDigits 10 n := fun n hmem =>
    absurd (Nat.isDigit_of_mem_toDigits (by decide) (by decide) hmem) (by decide)
  have habs : ∀ {m n : Nat}, Nat.toDigits 10 m = Nat.toDigits 10 n → m = n := by
    intro m n h
    rw [← Nat.ofDigitChars_ten_toDigits (n := m), h, Nat.ofDigitChars_ten_toDigits]
  intro i j h
  unfold showI16 at h
  rw [← Int16.toInt_inj]
  by_cases hi : i.toInt < 0 <;> by_cases hj : j.toInt < 0
  · rw [if_pos hi, if_pos hj] at h
    have := habs (List.cons.inj h).2
    omega
  · rw [if_pos hi, if_neg hj] at h
    exact absurd (h ▸ List.mem_cons_self) (hdigit _)
  · rw [if_neg hi, if_pos hj] at h
    exact absurd (h.symm ▸ List.mem_cons_self) (hdigit _)
  · rw [if_neg hi, if_neg hj] at h
    have := habs h
    omega

theorem comma_notMem_showI16 (i : Int16) : ',' ∉ showI16 i := by
  have hdigit : ∀ n, ',' ∉ Nat.toDigits 10 n := fun n hmem =>
    absurd (Nat.isDigit_of_mem_toDigits (by decide) (by decide) hmem) (by decide)
  unfold showI16
  split
  · simp [hdigit]
  · exact hdigit _

theorem showBool_injective : Function.Injective showBool := by
  intro a b h
  cases a <;> cases b <;> first | rfl | exact absurd h (by decide)

theorem comma_notMem_showBool (b : Bool) : ',' ∉ showBool b := by
  cases b <;> decide

theorem digitChar_inj {m n : Nat} (hm : m < 16) (hn : n < 16) (h : Nat.digitChar m = Nat.digitChar n) :
    m = n := by
  have hall : ∀ m n : Fin 16, Nat.digitChar m = Nat.digitChar n → m = n := by decide
  exact Fin.mk.inj (hall ⟨m, hm⟩ ⟨n, hn⟩ h)

theorem flatMap_hexByte_injective : Function.Injective fun body : Bytes => body.flatMap hexByte := by
  intro xs
  induction xs with
  | nil =>
      intro ys h
      cases ys with
      | nil => rfl
      | cons y ys => cases h
  | cons x xs ih =>
      intro ys h
      cases ys with
      | nil => cases h
      | cons y ys =>
          simp only [List.flatMap_cons, hexByte, List.cons_append, List.nil_append, List.cons.injEq] at h
          obtain ⟨hhigh, hlow, hrest⟩ := h
          have hx := x.toNat_lt
          have hy := y.toNat_lt
          have hdiv := digitChar_inj (by omega) (by omega) hhigh
          have hmod := digitChar_inj (by omega) (by omega) hlow
          have hxy : x = y := UInt8.toNat_inj.mp (by omega)
          rw [hxy, ih hrest]

theorem quote_notMem_hex (body : Bytes) : '"' ∉ body.flatMap hexByte := by
  have hall : ∀ n : Fin 16, Nat.digitChar n ≠ '"' := by decide
  intro hmem
  obtain ⟨b, -, hb⟩ := List.mem_flatMap.mp hmem
  have hlt := b.toNat_lt
  rcases List.mem_cons.mp hb with h | h
  · exact hall ⟨b.toNat / 16, by omega⟩ h.symm
  · exact hall ⟨b.toNat % 16, by omega⟩ (List.mem_singleton.mp h).symm

/-! ## The line, and the file

A line is cut in one way only, since each part ends before its separator. -/

/-- What stands before the first `c` and what stands behind it. -/
theorem eq_of_append_cons {c : Char} {a b x y : List Char} (ha : c ∉ a) (hb : c ∉ b)
    (h : a ++ c :: x = b ++ c :: y) : a = b ∧ x = y := by
  have hsplit := Text.splitOnceAt_append (b := x) ha
  rw [h, Text.splitOnceAt_append hb, Option.some.injEq, Prod.mk.injEq] at hsplit
  exact ⟨hsplit.1.symm, hsplit.2.symm⟩

/-- A line says its frame, whatever stands behind it. -/
theorem CapturedFrame.spoolLine_append_inj {f g : CapturedFrame} {x y : List Char}
    (h : f.spoolLine ++ x = g.spoolLine ++ y) : f = g ∧ x = y := by
  have hline : ∀ (f : CapturedFrame) (x : List Char), f.spoolLine ++ x =
      "\x7b\"api_key\":".toList ++ (showI16 f.apiKey.get ++ ',' :: ("\"version\":".toList ++
        (showI16 f.version.get ++ ',' :: ("\"is_request\":".toList ++ (showBool f.isRequest ++ ',' ::
          ("\"body_hex\":\"".toList ++ (f.body.flatMap hexByte ++ '"' :: ("\x7d\n".toList ++ x)))))))) := by
    intro f x
    unfold spoolLine
    rw [show ",\"version\":".toList = ',' :: "\"version\":".toList by decide,
      show ",\"is_request\":".toList = ',' :: "\"is_request\":".toList by decide,
      show ",\"body_hex\":\"".toList = ',' :: "\"body_hex\":\"".toList by decide,
      show "\"\x7d\n".toList = '"' :: "\x7d\n".toList by decide]
    simp only [List.append_assoc, List.cons_append]
  rw [hline, hline] at h
  obtain ⟨hkey, h⟩ := eq_of_append_cons (comma_notMem_showI16 _) (comma_notMem_showI16 _)
    (List.append_cancel_left h)
  obtain ⟨hversion, h⟩ := eq_of_append_cons (comma_notMem_showI16 _) (comma_notMem_showI16 _)
    (List.append_cancel_left h)
  obtain ⟨hrequest, h⟩ := eq_of_append_cons (comma_notMem_showBool _) (comma_notMem_showBool _)
    (List.append_cancel_left h)
  obtain ⟨hbody, h⟩ := eq_of_append_cons (quote_notMem_hex _) (quote_notMem_hex _)
    (List.append_cancel_left h)
  refine ⟨?_, List.append_cancel_left h⟩
  obtain ⟨⟨k⟩, ⟨v⟩, r, b⟩ := f
  obtain ⟨⟨k'⟩, ⟨v'⟩, r', b'⟩ := g
  rw [CapturedFrame.mk.injEq, ApiKey.mk.injEq, ApiVersion.mk.injEq]
  exact ⟨showI16_injective hkey, showI16_injective hversion, showBool_injective hrequest,
    flatMap_hexByte_injective hbody⟩

/-- **The spool loses nothing.** -/
theorem spool_injective : Function.Injective spool := by
  intro fs
  induction fs with
  | nil =>
      intro gs h
      cases gs with
      | nil => rfl
      | cons g gs => cases h
  | cons f fs ih =>
      intro gs h
      cases gs with
      | nil => cases h
      | cons g gs =>
          obtain ⟨rfl, hrest⟩ := CapturedFrame.spoolLine_append_inj h
          rw [ih hrest]

example : (spool [⟨⟨18⟩, ⟨3⟩, true, [0x00, 0x0a, 0xff]⟩]) =
    "\x7b\"api_key\":18,\"version\":3,\"is_request\":true,\"body_hex\":\"000aff\"\x7d\n".toList := by
  decide

end Krabka.KafkaTap
