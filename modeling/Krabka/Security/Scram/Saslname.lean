import Krabka.Lib.Cutting
import Krabka.Security.Scram.Messages

/-!
# `Security.Scram.Saslname` — escaped usernames

`decode_saslname` walks the text from `=` to `=` and reads the two bytes after each; `unescape` says the same
character by character (`decodeLoop_eq_unescape`). What it accepts is exactly what `encode_saslname` writes:
a character of a username stands for one piece of the encoding, and no piece is the start of another.
-/

namespace Krabka.Security.Scram

open Text

/-! ## The loop of the source

A slice of two bytes behind every equals sign, which may end inside a character. -/

/-- `s.split_at_checked(len)`: the length is in bytes. -/
def splitAtChecked (len : Nat) (s : List Char) : Option (List Char × List Char) :=
  (charsTo s len).map fun head => (head, s.drop head.length)

theorem splitAtChecked_eq_some {len : Nat} {s head tail : List Char} :
    splitAtChecked len s = some (head, tail) ↔ s = head ++ tail ∧ String.utf8Len head = len := by
  unfold splitAtChecked
  rw [Option.map_eq_some_iff]
  constructor
  · rintro ⟨p, hp, hcut⟩
    cases hcut
    obtain ⟨⟨rest, rfl⟩, hlen⟩ := charsTo_eq_some_iff.mp hp
    exact ⟨by rw [List.drop_left], hlen⟩
  · rintro ⟨rfl, hlen⟩
    exact ⟨head, charsTo_eq_some_iff.mpr ⟨⟨tail, rfl⟩, hlen⟩, by rw [List.drop_left]⟩

def readEscape (escape : List Char) : Option Char :=
  if escape = ['2', 'C'] then some ','
  else if escape = ['3', 'D'] then some '='
  else none

/-- The loop of `decode_saslname`: each turn copies the text before the next `=`. -/
def decodeLoop (rest : List Char) : Option (List Char) :=
  match _hcut : splitOnceAt '=' rest with
  | none => some rest
  | some (before, after) =>
      match _hescape : splitAtChecked 2 after with
      | none => none
      | some (escape, tail) =>
          match readEscape escape with
          | none => none
          | some c => (decodeLoop tail).map fun decoded => before ++ c :: decoded
termination_by rest.length
decreasing_by
  obtain ⟨-, rfl⟩ := splitOnceAt_eq_some.mp _hcut
  obtain ⟨rfl, -⟩ := splitAtChecked_eq_some.mp _hescape
  simp only [List.length_append, List.length_cons]
  omega

theorem unescape_append {before : List Char} (h : '=' ∉ before) (rest : List Char) :
    unescape (before ++ rest) = (unescape rest).map (before ++ ·) := by
  induction before with
  | nil => simp
  | cons c cs ih =>
      rw [List.mem_cons, not_or] at h
      have hc : c ≠ '=' := fun heq => h.1 heq.symm
      rw [List.cons_append, unescape.eq_5 c _ (fun _ hc' _ => hc hc') (fun _ hc' _ => hc hc') hc, ih h.2]
      simp [Option.map_map, Function.comp_def]

/-- After an `=` stand the two bytes of an escape. -/
theorem unescape_equals (after : List Char) :
    unescape ('=' :: after) =
      (splitAtChecked 2 after).bind fun cut =>
        (readEscape cut.1).bind fun c => (unescape cut.2).map (c :: ·) := by
  by_cases hcomma : ∃ tail, after = ['2', 'C'] ++ tail
  · obtain ⟨tail, rfl⟩ := hcomma
    rw [splitAtChecked_eq_some.mpr ⟨rfl, by decide⟩]
    rfl
  by_cases hequals : ∃ tail, after = ['3', 'D'] ++ tail
  · obtain ⟨tail, rfl⟩ := hequals
    rw [splitAtChecked_eq_some.mpr ⟨rfl, by decide⟩]
    rfl
  · rw [unescape.eq_4 after (fun tail h => hcomma ⟨tail, h⟩) (fun tail h => hequals ⟨tail, h⟩)]
    cases hcut : splitAtChecked 2 after with
    | none => rfl
    | some cut =>
        -- no escape is read from these two bytes
        obtain ⟨hafter, -⟩ := splitAtChecked_eq_some.mp (show _ = some (cut.1, cut.2) from hcut)
        have hnone : readEscape cut.1 = none := by
          unfold readEscape
          rw [if_neg fun h => hcomma ⟨cut.2, by rw [hafter, h]⟩,
            if_neg fun h => hequals ⟨cut.2, by rw [hafter, h]⟩]
        rw [Option.bind_some, hnone]
        rfl

/-- **The loop reads what `unescape` reads.** -/
theorem decodeLoop_eq_unescape (rest : List Char) : decodeLoop rest = unescape rest := by
  fun_induction decodeLoop rest with
  | case1 rest hcut =>
      have hnone : '=' ∉ rest := by
        intro hmem
        obtain ⟨before, after, rfl, hbefore⟩ := List.eq_append_cons_of_mem hmem
        rw [splitOnceAt_append hbefore] at hcut
        cases hcut
      have := unescape_append hnone []
      simpa [unescape] using this.symm
  | case2 rest before after hcut hescape =>
      obtain ⟨hbefore, rfl⟩ := splitOnceAt_eq_some.mp hcut
      rw [unescape_append hbefore, unescape_equals, hescape]
      rfl
  | case3 rest before after hcut escape tail hescape hread =>
      obtain ⟨hbefore, rfl⟩ := splitOnceAt_eq_some.mp hcut
      rw [unescape_append hbefore, unescape_equals, hescape, Option.bind_some, hread]
      rfl
  | case4 rest before after hcut escape tail hescape c hread ih =>
      obtain ⟨hbefore, rfl⟩ := splitOnceAt_eq_some.mp hcut
      rw [unescape_append hbefore, unescape_equals, hescape, Option.bind_some, hread, Option.bind_some, ih,
        Option.map_map]
      rfl

theorem decodeSaslname_eq_loop (saslname : List Char) :
    decodeSaslname saslname =
      if saslname = [] ∨ ',' ∈ saslname then .error .malformedMessage
      else Results.okOr .malformedMessage (decodeLoop saslname) := by
  rw [decodeLoop_eq_unescape]
  rfl

/-! ## The converse of the round trip

What is decoded is encoded as the text that it was decoded from. -/

/-- What is unescaped is escaped again, where no comma stands for itself. -/
theorem encodeSaslname_of_unescape {saslname username : List Char} (hcomma : ',' ∉ saslname)
    (h : unescape saslname = some username) : encodeSaslname username = saslname := by
  fun_induction unescape saslname generalizing username with
  | case1 =>
      cases h
      rfl
  | case2 rest ih =>
      obtain ⟨decoded, hdecoded, rfl⟩ := Option.map_eq_some_iff.mp h
      have hrest : ',' ∉ rest := fun hmem => hcomma (by simp [hmem])
      rw [encodeSaslname_cons, ih hrest hdecoded]
      rfl
  | case3 rest ih =>
      obtain ⟨decoded, hdecoded, rfl⟩ := Option.map_eq_some_iff.mp h
      have hrest : ',' ∉ rest := fun hmem => hcomma (by simp [hmem])
      rw [encodeSaslname_cons, ih hrest hdecoded]
      rfl
  | case4 => cases h
  | case5 c rest hne =>
      rename_i ih
      obtain ⟨decoded, hdecoded, rfl⟩ := Option.map_eq_some_iff.mp h
      rw [List.mem_cons, not_or] at hcomma
      have hescape : escape c = [c] := by
        unfold escape
        rw [if_neg (by assumption), if_neg fun hc => hcomma.1 hc.symm]
      rw [encodeSaslname_cons, hescape, ih hcomma.2 hdecoded]
      rfl

theorem decodeSaslname_eq_ok {saslname username : List Char} :
    decodeSaslname saslname = .ok username ↔ username ≠ [] ∧ encodeSaslname username = saslname := by
  constructor
  · intro h
    unfold decodeSaslname at h
    split at h
    · cases h
    · rename_i hbad
      rw [not_or] at hbad
      have hencode := encodeSaslname_of_unescape hbad.2 (Results.okOr_eq_ok.mp h)
      refine ⟨?_, hencode⟩
      rintro rfl
      exact hbad.1 hencode.symm
  · rintro ⟨hne, rfl⟩
    exact decodeSaslname_encodeSaslname hne

/-- **The escaping of usernames is a bijection** between the non-empty usernames and the texts that are
decoded: every name comes back, what is decoded is the encoding of a name, two names never share an encoding
and no name has two. -/
theorem saslname_bijective :
    (∀ name, name ≠ [] → decodeSaslname (encodeSaslname name) = .ok name) ∧
      (∀ s n, decodeSaslname s = .ok n → n ≠ [] ∧ encodeSaslname n = s) ∧
      Function.Injective encodeSaslname ∧
      ∀ s s' n, decodeSaslname s = .ok n → decodeSaslname s' = .ok n → s = s' := by
  refine ⟨fun name => decodeSaslname_encodeSaslname, fun s n => decodeSaslname_eq_ok.mp, ?_, ?_⟩
  · intro name name' h
    have hname := unescape_encodeSaslname name
    rw [h, unescape_encodeSaslname] at hname
    exact (Option.some.inj hname).symm
  · intro s s' n hs hs'
    rw [← (decodeSaslname_eq_ok.mp hs).2, (decodeSaslname_eq_ok.mp hs').2]

-- a name that reads like an escape, beside a character of three bytes
example : encodeSaslname ['=', '2', 'C', '€', ','] =
      ['=', '3', 'D', '2', 'C', '€', '=', '2', 'C'] ∧
    decodeSaslname ['=', '3', 'D', '2', 'C', '€', '=', '2', 'C'] = .ok ['=', '2', 'C', '€', ','] := by
  decide

end Krabka.Security.Scram
