import Krabka.Lib.Results
import Krabka.Lib.Text
import Krabka.Security.Scram.Messages

/-!
# `Security.OAuthBearer.Saslname` — the two readers of a `saslname`

The GS2 header of an OAUTHBEARER response carries a `saslname` as SCRAM's does. One mechanism recognises
it byte by byte, the other unescapes it character by character. The production is the same, and the two
agree on every name that has no character outside `\x01` to `\x7F`: the unescaping never looks.
-/

namespace Krabka.Security.OAuthBearer

open Text Scram

/-! ## The recogniser (`oauthbearer.rs`)

A scan over bytes that takes escapes as a whole. -/

/-- `2C` or `3D`. -/
def isEscape (e₁ e₂ : UInt8) : Bool := (e₁ == 0x32 && e₂ == 0x43) || (e₁ == 0x33 && e₂ == 0x44)

/-- The loop of `is_saslname`: every byte from here on belongs to the production. -/
def scanSaslname : List UInt8 → Bool
  | [] => true
  | b :: rest =>
      if b = 0x3D then
        match rest with
        | e₁ :: e₂ :: rest => isEscape e₁ e₂ && scanSaslname rest
        | _ => false
      else if b = 0x2C ∨ b = 0x00 ∨ 0x80 ≤ b then false
      else scanSaslname rest

def isSaslname (name : List Char) : Bool :=
  scanSaslname (bytesOf name) && !(bytesOf name).isEmpty

/-- The authzid of a GS2 header, verbatim, and what follows its comma. A `saslname` never contains a comma,
so the first one ends it. -/
def parseHeaderAuthzid (rest : List Char) : Except AuthError (Option (List Char) × List Char) :=
  match stripPrefix [','] rest with
  | some rest => .ok (none, rest)
  | none => do
      let (field, rest) ← orMalformed (splitOnceAt ',' rest)
      let name ← orMalformed (stripPrefix ['a', '='] field)
      if isSaslname name then .ok (some name, rest) else .error .malformedMessage

/-- Only the `n` flag: OAUTHBEARER never negotiates channel binding. -/
def parseGs2Header (message : List Char) : Except AuthError (Option (List Char) × List Char) := do
  let rest ← orMalformed (stripPrefix ['n', ','] message)
  let (authzid, rest) ← parseHeaderAuthzid rest
  let rest ← orMalformed (stripPrefix ['\x01'] rest)
  pure (authzid, rest)

/-! ## The production

A comma and an equals sign are written as escapes; every other character of the class stands for itself. -/

/-- An ASCII character other than NUL. -/
def isAscii (c : Char) : Bool := 0x01 ≤ c.toNat && c.toNat ≤ 0x7F

/-- Safe characters and the two escapes, in any number. -/
inductive SaslChars : List Char → Prop where
  | nil : SaslChars []
  | safe {c : Char} {cs : List Char} (hascii : isAscii c = true) (hne : c ≠ '=') (hne' : c ≠ ',') :
      SaslChars cs → SaslChars (c :: cs)
  | comma {cs : List Char} : SaslChars cs → SaslChars ('=' :: '2' :: 'C' :: cs)
  | equals {cs : List Char} : SaslChars cs → SaslChars ('=' :: '3' :: 'D' :: cs)

/-- `saslname`: one or more of them. -/
def Saslname (s : List Char) : Prop := s ≠ [] ∧ SaslChars s

/-! ## One character of the recogniser

What the scan does at each class of characters. -/

/-- An ASCII character is one byte. -/
theorem lt_0x80_of_isAscii {c : Char} (h : isAscii c = true) : c.toNat < 0x80 := by
  unfold isAscii at h
  rw [Bool.and_eq_true, decide_eq_true_eq, decide_eq_true_eq] at h
  omega

/-- Different ASCII characters are different bytes. -/
theorem ofNat_ne {c d : Char} (hc : c.toNat < 0x80) (hd : d.toNat < 0x80) (h : c ≠ d) :
    UInt8.ofNat c.toNat ≠ UInt8.ofNat d.toNat := by
  intro heq
  have := congrArg UInt8.toNat heq
  rw [UInt8.toNat_ofNat', UInt8.toNat_ofNat', Nat.mod_eq_of_lt (by omega),
    Nat.mod_eq_of_lt (by omega)] at this
  exact h (Char.toNat_inj.mp this)

/-- The scan, one byte in front. -/
theorem scanSaslname_cons {b : UInt8} (hne : b ≠ 0x3D) (rest : List UInt8) :
    scanSaslname (b :: rest) =
      if b = 0x2C ∨ b = 0x00 ∨ 0x80 ≤ b then false else scanSaslname rest := by
  conv_lhs => unfold scanSaslname
  exact if_neg hne

/-- A safe character is passed over. -/
theorem scan_safe {c : Char} (hascii : isAscii c = true) (heq : c ≠ '=') (hcomma : c ≠ ',')
    (cs : List Char) : scanSaslname (bytesOf (c :: cs)) = scanSaslname (bytesOf cs) := by
  have hc := lt_0x80_of_isAscii hascii
  have hpos : 1 ≤ c.toNat := by
    unfold isAscii at hascii
    rw [Bool.and_eq_true, decide_eq_true_eq] at hascii
    exact hascii.1
  have hkeep : ¬(UInt8.ofNat c.toNat = 0x2C ∨ UInt8.ofNat c.toNat = 0x00 ∨
      0x80 ≤ UInt8.ofNat c.toNat) := by
    rintro (h | h | h)
    · exact ofNat_ne hc (by decide) hcomma h
    · have := congrArg UInt8.toNat h
      rw [UInt8.toNat_ofNat', Nat.mod_eq_of_lt (by omega)] at this
      exact absurd this (by simpa using Nat.one_le_iff_ne_zero.mp hpos)
    · rw [UInt8.le_iff_toNat_le, UInt8.toNat_ofNat', Nat.mod_eq_of_lt (by omega)] at h
      exact absurd h (Nat.not_le_of_lt hc)
  have hne : UInt8.ofNat c.toNat ≠ 0x3D := ofNat_ne hc (d := '=') (by decide) heq
  rw [bytesOf_ascii hc, scanSaslname_cons hne, if_neg hkeep]

/-- A comma or a character beyond ASCII is refused. -/
theorem scan_refused {c : Char} (h : isAscii c = false ∨ c = ',') (cs : List Char) :
    scanSaslname (bytesOf (c :: cs)) = false := by
  by_cases hc : c.toNat < 0x80
  · have hstop : c = ',' ∨ c.toNat = 0 := by
      refine h.symm.imp id fun h => ?_
      unfold isAscii at h
      rw [Bool.and_eq_false_iff, decide_eq_false_iff_not, decide_eq_false_iff_not] at h
      omega
    rw [bytesOf_ascii hc]
    obtain rfl | hzero := hstop
    · rw [scanSaslname_cons (by decide), if_pos (by decide)]
    · rw [hzero, scanSaslname_cons (by decide), if_pos (by decide)]
  · obtain ⟨b, bs, hb, hle⟩ := bytesOf_nonAscii (Nat.le_of_not_lt hc) cs
    have hne : b ≠ 0x3D := by
      rintro rfl
      exact absurd hle (by decide)
    rw [hb, scanSaslname_cons hne, if_pos (.inr (.inr hle))]

/-- An escaped comma is passed over. -/
theorem scan_comma (cs : List Char) :
    scanSaslname (bytesOf ('=' :: '2' :: 'C' :: cs)) = scanSaslname (bytesOf cs) := by
  rw [bytesOf_ascii (by decide), bytesOf_ascii (by decide), bytesOf_ascii (by decide)]
  exact Bool.true_and _

/-- An escaped equals sign is passed over. -/
theorem scan_equals (cs : List Char) :
    scanSaslname (bytesOf ('=' :: '3' :: 'D' :: cs)) = scanSaslname (bytesOf cs) := by
  rw [bytesOf_ascii (by decide), bytesOf_ascii (by decide), bytesOf_ascii (by decide)]
  exact Bool.true_and _

/-- An `=` in front of anything else. -/
theorem scan_badEscape {cs : List Char} (hcomma : ∀ ds, cs ≠ '2' :: 'C' :: ds)
    (hequals : ∀ ds, cs ≠ '3' :: 'D' :: ds) : scanSaslname (bytesOf ('=' :: cs)) = false := by
  have hbyte : UInt8.ofNat '='.toNat = 0x3D := rfl
  rw [bytesOf_ascii (by decide), hbyte]
  unfold scanSaslname
  rw [if_pos rfl]
  split
  · rename_i e₁ e₂ bs hbytes
    rw [Bool.and_eq_false_iff]
    left
    rw [Bool.eq_false_iff]
    intro hesc
    unfold isEscape at hesc
    rw [Bool.or_eq_true, Bool.and_eq_true, Bool.and_eq_true, beq_iff_eq, beq_iff_eq, beq_iff_eq,
      beq_iff_eq] at hesc
    obtain ⟨rfl, rfl⟩ | ⟨rfl, rfl⟩ := hesc
    · obtain ⟨ds, rfl, hds⟩ := exists_of_bytesOf_cons (c := '2') (by decide) hbytes
      obtain ⟨ds', rfl, -⟩ := exists_of_bytesOf_cons (c := 'C') (by decide) hds
      exact hcomma ds' rfl
    · obtain ⟨ds, rfl, hds⟩ := exists_of_bytesOf_cons (c := '3') (by decide) hbytes
      obtain ⟨ds', rfl, -⟩ := exists_of_bytesOf_cons (c := 'D') (by decide) hds
      exact hequals ds' rfl
  · rfl

/-! ## Both readers against the production

The unescaping accepts a text if each of its equals signs starts an escape, whatever its other characters are.
-/

/-- Some `=` starts neither escape. -/
def BadEscape (s : List Char) : Prop :=
  ∃ before after, s = before ++ '=' :: after ∧ ¬['2', 'C'] <+: after ∧ ¬['3', 'D'] <+: after

theorem badEscape_cons (c : Char) (cs : List Char) :
    BadEscape (c :: cs) ↔
      (c = '=' ∧ ¬['2', 'C'] <+: cs ∧ ¬['3', 'D'] <+: cs) ∨ BadEscape cs := by
  constructor
  · rintro ⟨before, after, hs, hbad⟩
    cases before with
    | nil =>
        obtain ⟨rfl, rfl⟩ := List.cons.inj hs
        exact .inl ⟨rfl, hbad⟩
    | cons d before => exact .inr ⟨before, after, (List.cons.inj hs).2, hbad⟩
  · rintro (⟨rfl, hbad⟩ | ⟨before, after, rfl, hbad⟩)
    · exact ⟨[], cs, rfl, hbad⟩
    · exact ⟨c :: before, after, rfl, hbad⟩

theorem badEscape_cons_of_ne {c : Char} (h : c ≠ '=') (cs : List Char) :
    BadEscape (c :: cs) ↔ BadEscape cs := by
  rw [badEscape_cons, or_iff_right (fun hc => h hc.1)]

/-- Unescaping fails just for a bad escape. -/
theorem unescape_eq_none_iff (s : List Char) : unescape s = none ↔ BadEscape s := by
  induction s using unescape.induct with
  | case1 =>
      refine ⟨fun h => absurd h (Option.some_ne_none _), ?_⟩
      rintro ⟨before, after, hs, -⟩
      cases before <;> cases hs
  | case2 rest ih =>
      rw [unescape, Option.map_eq_none_iff, ih, badEscape_cons,
        or_iff_right (fun h => h.2.1 ⟨rest, rfl⟩), badEscape_cons_of_ne (by decide),
        badEscape_cons_of_ne (by decide)]
  | case3 rest ih =>
      rw [unescape, Option.map_eq_none_iff, ih, badEscape_cons,
        or_iff_right (fun h => h.2.2 ⟨rest, rfl⟩), badEscape_cons_of_ne (by decide),
        badEscape_cons_of_ne (by decide)]
  | case4 rest hcomma hequals =>
      rw [unescape.eq_4 _ hcomma hequals, badEscape_cons]
      refine iff_of_true rfl (.inl ⟨rfl, ?_, ?_⟩)
      · rintro ⟨ds, rfl⟩
        exact hcomma ds rfl
      · rintro ⟨ds, rfl⟩
        exact hequals ds rfl
  | case5 c rest h₁ h₂ hne ih =>
      rw [unescape.eq_5 _ _ h₁ h₂ hne, Option.map_eq_none_iff, ih, badEscape_cons_of_ne hne]

/-- **What the decoder accepts**: no comma, no bad escape, not empty. -/
theorem isOk_decodeSaslname_iff (s : List Char) :
    (∃ name, decodeSaslname s = .ok name) ↔ s ≠ [] ∧ ',' ∉ s ∧ ¬BadEscape s := by
  unfold decodeSaslname
  rw [← unescape_eq_none_iff, ← and_assoc, ← not_or]
  split
  · rename_i h
    exact iff_of_false (fun ⟨_, hn⟩ => by cases hn) (fun hn => hn.1 h)
  · rename_i h
    rw [and_iff_right h, ← Ne, Option.ne_none_iff_exists']
    exact exists_congr fun name => Results.okOr_eq_ok

/-- A name without an escape in front. -/
theorem saslChars_cons_iff {c : Char} {cs : List Char} (hne : c ≠ '=') :
    SaslChars (c :: cs) ↔ isAscii c = true ∧ c ≠ ',' ∧ SaslChars cs := by
  refine ⟨fun h => ?_, fun h => .safe h.1 hne h.2.1 h.2.2⟩
  cases h with
  | safe hascii _ hcomma h => exact ⟨hascii, hcomma, h⟩
  | comma => exact absurd rfl hne
  | equals => exact absurd rfl hne

/-- A name behind an escaped comma. -/
theorem saslChars_comma_iff {cs : List Char} : SaslChars ('=' :: '2' :: 'C' :: cs) ↔ SaslChars cs := by
  refine ⟨fun h => ?_, .comma⟩
  cases h with
  | safe _ hne => exact absurd rfl hne
  | comma h => exact h

/-- A name behind an escaped equals sign. -/
theorem saslChars_equals_iff {cs : List Char} :
    SaslChars ('=' :: '3' :: 'D' :: cs) ↔ SaslChars cs := by
  refine ⟨fun h => ?_, .equals⟩
  cases h with
  | safe _ hne => exact absurd rfl hne
  | equals h => exact h

theorem not_saslChars_of_badEscape {cs : List Char} (hcomma : ∀ ds, cs = '2' :: 'C' :: ds → False)
    (hequals : ∀ ds, cs = '3' :: 'D' :: ds → False) : ¬SaslChars ('=' :: cs) := by
  intro h
  cases h with
  | safe _ hne => exact hne rfl
  | comma => exact hcomma _ rfl
  | equals => exact hequals _ rfl

/-- **The scan on bytes decides the production on characters.** -/
theorem scanSaslname_iff (s : List Char) : scanSaslname (bytesOf s) = true ↔ SaslChars s := by
  induction s using unescape.induct with
  | case1 => exact iff_of_true (by decide) .nil
  | case2 rest ih => rw [scan_comma, ih, saslChars_comma_iff]
  | case3 rest ih => rw [scan_equals, ih, saslChars_equals_iff]
  | case4 rest hcomma hequals =>
      rw [scan_badEscape (fun ds hd => hcomma ds hd) (fun ds hd => hequals ds hd)]
      exact iff_of_false (by decide) (not_saslChars_of_badEscape hcomma hequals)
  | case5 c rest _ _ hne ih =>
      rw [saslChars_cons_iff hne]
      by_cases hsafe : isAscii c = true ∧ c ≠ ','
      · rw [scan_safe hsafe.1 hne hsafe.2, ih, and_iff_right hsafe.1, and_iff_right hsafe.2]
      · have hstop : isAscii c = false ∨ c = ',' := by
          rw [← Bool.not_eq_true]
          exact (not_and_or.mp hsafe).imp id not_not.mp
        rw [scan_refused hstop]
        exact iff_of_false (by decide) fun h => hsafe ⟨h.1, h.2.1⟩

/-- **The recogniser is the production.** -/
theorem isSaslname_iff (s : List Char) : isSaslname s = true ↔ Saslname s := by
  have hempty : (bytesOf s).isEmpty = true ↔ s = [] := by
    cases s with
    | nil => exact iff_of_true (by decide) rfl
    | cons c cs =>
        refine iff_of_false ?_ (List.cons_ne_nil c cs)
        rw [bytesOf_cons, List.isEmpty_iff, List.append_eq_nil_iff]
        intro h
        have := congrArg List.length h.1
        rw [String.length_utf8EncodeChar] at this
        exact absurd this (Nat.ne_of_gt c.utf8Size_pos)
  unfold isSaslname Saslname
  rw [Bool.and_eq_true, scanSaslname_iff, Bool.not_eq_true', Bool.eq_false_iff, Ne, hempty, and_comm]

/-- The production in the terms of the decoder: what it leaves out is the range of the characters. -/
theorem saslChars_iff (s : List Char) :
    SaslChars s ↔ ',' ∉ s ∧ ¬BadEscape s ∧ ∀ c ∈ s, isAscii c = true := by
  induction s using unescape.induct with
  | case1 =>
      refine iff_of_true .nil ⟨List.not_mem_nil, ?_, fun c hc => absurd hc List.not_mem_nil⟩
      rw [← unescape_eq_none_iff]
      exact Option.some_ne_none _
  | case2 rest ih =>
      rw [saslChars_comma_iff, ih, badEscape_cons, or_iff_right (fun h => h.2.1 ⟨rest, rfl⟩),
        badEscape_cons_of_ne (by decide), badEscape_cons_of_ne (by decide)]
      simp [isAscii]
  | case3 rest ih =>
      rw [saslChars_equals_iff, ih, badEscape_cons, or_iff_right (fun h => h.2.2 ⟨rest, rfl⟩),
        badEscape_cons_of_ne (by decide), badEscape_cons_of_ne (by decide)]
      simp [isAscii]
  | case4 rest hcomma hequals =>
      refine iff_of_false (not_saslChars_of_badEscape hcomma hequals) fun h => h.2.1 ?_
      rw [← unescape_eq_none_iff, unescape.eq_4 _ hcomma hequals]
  | case5 c rest _ _ hne ih =>
      rw [saslChars_cons_iff hne, ih, badEscape_cons_of_ne hne, List.forall_mem_cons, List.mem_cons,
        not_or, Ne, eq_comm]
      tauto

/-- **The two readers agree exactly where the range does not matter**: on ASCII without NUL, and on what
the decoder refuses anyway. -/
theorem readers_agree_iff (s : List Char) :
    (((∃ name, decodeSaslname s = .ok name) ↔ isSaslname s = true) ∧
      (isSaslname s = true ↔ Saslname s) ∧ ((∃ name, decodeSaslname s = .ok name) ↔ Saslname s)) ↔
      (s = [] ∨ ',' ∈ s ∨ BadEscape s ∨ ∀ c ∈ s, isAscii c = true) := by
  rw [isSaslname_iff, isOk_decodeSaslname_iff, Saslname, saslChars_iff]
  tauto

theorem readers_disagree :
    ¬((∃ name, decodeSaslname ['é'] = .ok name) ↔ isSaslname ['é'] = true) := by
  have hrefused : isSaslname ['é'] = false := by decide +kernel
  rw [hrefused]
  exact fun h => absurd (h.mp ⟨['é'], by decide⟩) (by decide)

end Krabka.Security.OAuthBearer
