import Krabka.Lib.Results
import Krabka.Lib.Text
import Krabka.Protocol.Primitives

/-!
# `Security.Gssapi.SecurityLayer` — the security-layer messages

After a GSSAPI context stands, the server offers the layers it supports and the client chooses one. Both
messages are a byte for the layers and three bytes for the largest message the sender takes; a choice may
name an authorization identity behind them. Only the authentication layer is supported.
-/

namespace Krabka.Security.Gssapi

open ByteStream Protocol Results Text

/-- The bitmask of layers. -/
structure SecurityLayer where
  bits : UInt8
  deriving DecidableEq, Repr

namespace SecurityLayer

def auth : SecurityLayer := ⟨0x01⟩

end SecurityLayer

inductive LayerError where
  | short
  | unsupported (layer : UInt8)
  | authzid
  deriving DecidableEq, Repr

/-- A cap wider than 32 bits saturates. -/
def saturatingU32 (n : UInt64) : UInt32 := (FixedWidth.u32OfLen n.toNat).getD 0xFFFFFFFF

/-- The 24-bit size field; the top byte of the `u32` is dropped. -/
def maxRecvWireBytes (maxRecv : UInt64) : Bytes := (putU32 (saturatingU32 maxRecv)).drop 1

def encodeOffer (layers : SecurityLayer) (maxRecv : UInt64) : Bytes :=
  layers.bits :: maxRecvWireBytes maxRecv

def encodeChoice (selected : SecurityLayer) (maxRecv : UInt64) (authzid : Option String) : Bytes :=
  selected.bits :: maxRecvWireBytes maxRecv ++
    match authzid with
    | some z => utf8Bytes z
    | none => []

structure LayerChoice where
  selected : SecurityLayer
  maxSize : UInt32
  authzid : Option String
  deriving DecidableEq, Repr

/-- What stands behind the size. -/
def decodeAuthzid (rest : Bytes) : Except LayerError (Option String) :=
  if rest.isEmpty then .ok none
  else
    match fromUtf8 rest with
    | .ok z => .ok (some z)
    | .error _ => .error .authzid

/-- This rejects any selected layer other than authentication. -/
def decodeChoice : Bytes → Except LayerError LayerChoice
  | layer :: s0 :: s1 :: s2 :: rest =>
      let selected : SecurityLayer := ⟨layer⟩
      if selected ≠ .auth then .error (.unsupported layer)
      else (decodeAuthzid rest).map fun authzid =>
        { selected, maxSize := u32OfBE [0, s0, s1, s2], authzid }
  | _ => .error .short

/-- Client side: the server's offered layers, which are the first byte. -/
def decodeOfferLayers : Bytes → Except LayerError SecurityLayer
  | layer :: _ => .ok ⟨layer⟩
  | [] => .error .short

theorem length_maxRecvWireBytes (maxRecv : UInt64) : (maxRecvWireBytes maxRecv).length = 3 := by
  simp [maxRecvWireBytes]

theorem utf8Bytes_eq_nil {z : String} : utf8Bytes z = [] ↔ z = "" := by
  constructor
  · intro h
    have hempty : fromUtf8 [] = .ok "" := by decide +kernel
    have hz := fromUtf8_utf8Bytes z
    rw [h, hempty, Except.ok.injEq] at hz
    exact hz.symm
  · rintro rfl
    decide

/-- Nothing, or the UTF-8 of an identity. -/
theorem decodeAuthzid_eq_ok_iff {rest : Bytes} {authzid : Option String} :
    decodeAuthzid rest = .ok authzid ↔ rest = utf8Bytes (authzid.getD "") ∧ authzid ≠ some "" := by
  have hnil : utf8Bytes "" = [] := utf8Bytes_eq_nil.mpr rfl
  unfold decodeAuthzid
  by_cases hrest : rest = []
  · subst hrest
    simp only [List.isEmpty_nil, if_true, Except.ok.injEq]
    constructor
    · rintro rfl
      exact ⟨hnil.symm, fun h => by cases h⟩
    · rintro ⟨hbytes, hne⟩
      cases authzid with
      | none => rfl
      | some z => exact absurd (congrArg some (utf8Bytes_eq_nil.mp hbytes.symm)) hne
  · rw [if_neg (by simpa using hrest)]
    cases hz : fromUtf8 rest with
    | ok z =>
        have hbytes := utf8Bytes_of_fromUtf8 hz
        simp only [Except.ok.injEq]
        constructor
        · rintro rfl
          exact ⟨hbytes.symm, fun h => hrest (by rw [← hbytes, Option.some.inj h, hnil])⟩
        · rintro ⟨hrest', -⟩
          cases authzid with
          | none => exact absurd (hrest'.trans hnil) hrest
          | some z' =>
              rw [hrest', Option.getD_some, fromUtf8_utf8Bytes, Except.ok.injEq] at hz
              rw [hz]
    | error e =>
        simp only [reduceCtorEq, false_iff, not_and, not_not]
        intro hbytes
        rw [hbytes, fromUtf8_utf8Bytes] at hz
        cases hz

theorem decodeChoice_eq_ok_iff {bs : Bytes} {c : LayerChoice} :
    decodeChoice bs = .ok c ↔
      c.selected = .auth ∧ c.authzid ≠ some "" ∧ ∃ s0 s1 s2, c.maxSize = u32OfBE [0, s0, s1, s2] ∧
        bs = SecurityLayer.auth.bits :: s0 :: s1 :: s2 :: utf8Bytes (c.authzid.getD "") := by
  constructor
  · intro h
    unfold decodeChoice at h
    split at h
    · rename_i layer s0 s1 s2 rest
      simp only at h
      split at h
      · cases h
      · rename_i hlayer
        have hauth : layer = SecurityLayer.auth.bits := congrArg SecurityLayer.bits (not_not.mp hlayer)
        obtain ⟨authzid, hz, rfl⟩ := map_eq_ok.mp h
        obtain ⟨hrest, hne⟩ := decodeAuthzid_eq_ok_iff.mp hz
        exact ⟨not_not.mp hlayer, hne, s0, s1, s2, rfl, by rw [hauth, hrest]⟩
    · cases h
  · obtain ⟨selected, maxSize, authzid⟩ := c
    rintro ⟨rfl, hne, s0, s1, s2, rfl, rfl⟩
    have hz := decodeAuthzid_eq_ok_iff.mpr ⟨rfl, hne⟩
    simp only at hz
    simp only [decodeChoice]
    rw [if_neg (by decide), hz]
    rfl

/-- The size that the three bytes carry. -/
def wireSize (maxRecv : UInt64) : UInt32 := u32OfBE (0 :: maxRecvWireBytes maxRecv)

/-- What the server reads of the identity: an empty one is none. -/
def sentAuthzid (authzid : Option String) : Option String := if authzid = some "" then none else authzid

theorem sentAuthzid_ne (authzid : Option String) : sentAuthzid authzid ≠ some "" := by
  unfold sentAuthzid
  split
  · exact fun h => by cases h
  · assumption

theorem utf8Bytes_sentAuthzid (authzid : Option String) :
    utf8Bytes ((sentAuthzid authzid).getD "") = utf8Bytes (authzid.getD "") := by
  unfold sentAuthzid
  split
  · rename_i h
    rw [h]
    rfl
  · rfl

/-- **The server reads the choice that the client wrote.** -/
theorem decodeChoice_encodeChoice (maxRecv : UInt64) (authzid : Option String) :
    decodeChoice (encodeChoice .auth maxRecv authzid) =
      .ok { selected := .auth, maxSize := wireSize maxRecv, authzid := sentAuthzid authzid } := by
  obtain ⟨s0, s1, s2, hsize⟩ := List.length_eq_three.mp (length_maxRecvWireBytes maxRecv)
  have hnil : utf8Bytes "" = [] := utf8Bytes_eq_nil.mpr rfl
  refine decodeChoice_eq_ok_iff.mpr ⟨rfl, sentAuthzid_ne authzid, s0, s1, s2, ?_, ?_⟩
  · show wireSize maxRecv = _
    rw [wireSize, hsize]
  · rw [utf8Bytes_sentAuthzid]
    cases authzid with
    | none => simp only [encodeChoice, hsize, Option.getD_none, hnil, List.cons_append, List.nil_append]
    | some z => simp only [encodeChoice, hsize, Option.getD_some, List.cons_append, List.nil_append]

end Krabka.Security.Gssapi
