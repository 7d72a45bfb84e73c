import Krabka.Security.Jwks

/-!
# `Security.JwkProvenance` — which element of the document verifies a token

The key that verifies a token is that of the last usable element under its `kid`. The element's `use`, `kty`
and `crv` are those that the algorithm asks for. Its own `alg` is never read, so a key that is published for
another algorithm verifies all the same.
-/

namespace Krabka.Security

open FixedWidth Text ByteStream Json Collections Scram OAuthBearer

/-! ## One element

What an element of the document becomes, by its type. -/

/-- The element publishes this key. -/
inductive KeyOf (ext : Crypto) (jwk : Value) : JwkKey → Prop where
  | rsa {n e : Bytes} (hkty : stringClaim jwk ktyKey = some ['R', 'S', 'A'])
      (hn : b64urlField ext jwk ['n'] = some n) (he : b64urlField ext jwk ['e'] = some e) :
      KeyOf ext jwk (.rsa n e)
  | ec {x y x' y' : Bytes} (hkty : stringClaim jwk ktyKey = some ['E', 'C'])
      (hcrv : stringClaim jwk crvKey = some ['P', '-', '2', '5', '6'])
      (hx : b64urlField ext jwk ['x'] = some x) (hx' : leftPad32 x = some x')
      (hy : b64urlField ext jwk ['y'] = some y) (hy' : leftPad32 y = some y') :
      KeyOf ext jwk (.ecP256 (0x04 :: (x' ++ y')))

/-- What `parse_one_jwk` reads, the `alg` of the element not among it. -/
theorem parseOneJwk_eq_some {ext : Crypto} {jwk : Value} {ignoreKeyUse : Bool} {kid : List Char}
    {key : JwkKey} :
    parseOneJwk ext jwk ignoreKeyUse = some (kid, key) ↔
      (ignoreKeyUse = false → stringClaim jwk useKey ≠ some enc) ∧
        kid = (stringClaim jwk kidKey).getD [] ∧ KeyOf ext jwk key := by
  have huse : (!ignoreKeyUse && stringClaim jwk useKey == some enc) = true ↔
      ¬(ignoreKeyUse = false → stringClaim jwk useKey ≠ some enc) := by
    cases ignoreKeyUse <;> simp
  unfold parseOneJwk
  split
  · rename_i h
    exact iff_of_false (by simp) fun hkey => huse.mp h hkey.1
  · rename_i h
    rw [and_iff_right (not_not.mp (mt huse.mpr h))]
    constructor
    · intro h
      obtain ⟨kty, hkty, h⟩ := Option.bind_eq_some_iff.mp h
      split at h
      · rename_i hrsa
        subst hrsa
        obtain ⟨n, hn, h⟩ := Option.bind_eq_some_iff.mp h
        obtain ⟨e, he, h⟩ := Option.bind_eq_some_iff.mp h
        cases h
        exact ⟨rfl, .rsa hkty hn he⟩
      · split at h
        · rename_i hec
          subst hec
          obtain ⟨crv, hcrv, h⟩ := Option.bind_eq_some_iff.mp h
          split at h
          · cases h
          · rename_i hp256
            rw [not_not.mp hp256] at hcrv
            obtain ⟨x', hx, h⟩ := Option.bind_eq_some_iff.mp h
            obtain ⟨x, hx, hx'⟩ := Option.bind_eq_some_iff.mp hx
            obtain ⟨y', hy, h⟩ := Option.bind_eq_some_iff.mp h
            obtain ⟨y, hy, hy'⟩ := Option.bind_eq_some_iff.mp hy
            cases h
            exact ⟨rfl, .ec hkty hcrv hx hx' hy hy'⟩
        · cases h
    · rintro ⟨rfl, hkey⟩
      cases hkey with
      | rsa hkty hn he => simp [hkty, hn, he]
      | ec hkty hcrv hx hx' hy hy' => simp [hkty, hcrv, hx, hx', hy, hy']

/-! ## The element behind a key

A key of the map was written by an element, and it is the last usable one under its name. -/

/-- The key that this element publishes is the one that a token with this `kid` is verified with: the
element is the last usable one under the `kid`, and without a `kid` there is no other. -/
def Selected (ext : Crypto) (arr : List Value) (kid : Option (List Char)) (jwk : Value) (key : JwkKey) :
    Prop :=
  match kid with
  | some k => LastEntry (usable ext false arr) k (jwk, key)
  | none => (∃ k, LastEntry (usable ext false arr) k (jwk, key)) ∧
      ∀ p ∈ usable ext false arr, ∀ q ∈ usable ext false arr, p.1 = q.1

/-- `alg` fits the key, and the signature verifies. -/
def Accepts (ext : Crypto) (alg : List Char) (signingInput signature : Bytes) : JwkKey → Prop
  | .rsa n e => alg = rs256 ∧ ext.verifyRsa n e signingInput signature = true
  | .ecP256 point => alg = es256 ∧ ext.verifyEcdsa point signingInput signature = true

theorem mem_usable {ext : Crypto} {ignoreKeyUse : Bool} {arr : List Value} {k : List Char} {jwk : Value}
    {key : JwkKey} :
    (k, jwk, key) ∈ usable ext ignoreKeyUse arr ↔
      jwk ∈ arr ∧ parseOneJwk ext jwk ignoreKeyUse = some (k, key) := by
  unfold usable
  rw [List.mem_filterMap]
  constructor
  · rintro ⟨jwk', hjwk, h⟩
    obtain ⟨⟨k', key'⟩, hparse, h⟩ := Option.map_eq_some_iff.mp h
    cases h
    exact ⟨hjwk, hparse⟩
  · rintro ⟨hjwk, hparse⟩
    exact ⟨jwk, hjwk, by rw [hparse, Option.map_some]⟩

theorem Selected.mem {ext : Crypto} {arr : List Value} {kid : Option (List Char)} {jwk : Value}
    {key : JwkKey} (h : Selected ext arr kid jwk key) :
    ∃ k, (∀ k', kid = some k' → k' = k) ∧ (k, jwk, key) ∈ usable ext false arr := by
  cases kid with
  | none =>
      obtain ⟨⟨k, h⟩, _⟩ := h
      exact ⟨k, fun k' hk' => (by cases hk'), h.mem⟩
  | some k => exact ⟨k, fun k' hk' => (Option.some.inj hk').symm, LastEntry.mem h⟩

theorem Selected.unique {ext : Crypto} {arr : List Value} {kid : Option (List Char)} {jwk jwk' : Value}
    {key key' : JwkKey} (h : Selected ext arr kid jwk key) (h' : Selected ext arr kid jwk' key') :
    jwk = jwk' ∧ key = key' := by
  have hpair : (jwk, key) = (jwk', key') := by
    cases kid with
    | none =>
        obtain ⟨⟨k, h⟩, hsame⟩ := h
        obtain ⟨⟨k', h'⟩, _⟩ := h'
        have hk : k = k' := hsame _ h.mem _ h'.mem
        subst hk
        exact h.unique h'
    | some k => exact LastEntry.unique h h'
  exact Prod.mk.inj hpair

theorem get_written_published {ext : Crypto} {arr : List Value} {k : List Char} {key : JwkKey} :
    (written (published ext false arr))[k]? = some key ↔
      ∃ jwk, LastEntry (usable ext false arr) k (jwk, key) := by
  rw [get_written, published, lastEntry_map (f := Prod.snd)]
  constructor
  · rintro ⟨⟨jwk, key'⟩, h, rfl⟩
    exact ⟨jwk, h⟩
  · rintro ⟨jwk, h⟩
    exact ⟨(jwk, key), h, rfl⟩

/-- The key that is selected is that of the selected element. -/
theorem selectKey_eq_ok {ext : Crypto} {arr : List Value} {kid : Option (List Char)} {key : JwkKey} :
    Jwks.selectKey ⟨written (published ext false arr)⟩ kid = .ok key ↔ ∃ jwk, Selected ext arr kid jwk key := by
  cases kid with
  | none =>
      rw [Jwks.selectKey_none_eq_ok, Jwks.size_eq_one_iff]
      simp only [get_written_published]
      constructor
      · rintro ⟨⟨_, hsame⟩, k, jwk, h⟩
        exact ⟨jwk, ⟨k, h⟩, hsame⟩
      · rintro ⟨jwk, ⟨k, h⟩, hsame⟩
        exact ⟨⟨List.ne_nil_of_mem h.mem, hsame⟩, k, jwk, h⟩
  | some k =>
      show orInvalid (written (published ext false arr))[k]? = .ok key ↔ _
      rw [orInvalid_eq_ok, get_written_published]
      rfl

theorem verify_eq_ok {ext : Crypto} {jwks : Jwks} {kid : Option (List Char)} {alg : List Char}
    {signingInput signature : Bytes} :
    jwks.verify ext kid alg signingInput signature = .ok () ↔
      ∃ key, jwks.selectKey kid = .ok key ∧ Accepts ext alg signingInput signature key := by
  unfold Jwks.verify
  rw [Results.bind_eq_ok]
  refine exists_congr fun key => and_congr_right fun _ => ?_
  cases key with
  | rsa n e =>
      show (if alg = rs256 then _ else _ : Except AuthError Unit) = .ok () ↔ _ ∧ _
      split <;> simp_all [rejectIf_eq_ok]
  | ecP256 point =>
      show (if alg = es256 then _ else _ : Except AuthError Unit) = .ok () ↔ _ ∧ _
      split <;> simp_all [rejectIf_eq_ok]

/-! ## Elements that are meant for the algorithm

What the standard asks of the element, and which of it the parser looks at. -/

/-- `kty` and `crv` are those of `alg`. -/
def TypeFor (jwk : Value) (alg : List Char) : Prop :=
  (alg = rs256 ∧ stringClaim jwk ktyKey = some ['R', 'S', 'A']) ∨
    (alg = es256 ∧ stringClaim jwk ktyKey = some ['E', 'C'] ∧
      stringClaim jwk crvKey = some ['P', '-', '2', '5', '6'])

/-- The `alg` of the element is absent, or it is this one. -/
def OwnAlg (jwk : Value) (alg : List Char) : Prop :=
  jwk.get algKey = none ∨ jwk.get algKey = some (.string alg)

/-- The `alg` of the element is neither of the two that are supported. -/
def UnsupportedAlg (jwk : Value) : Prop :=
  ∃ v, jwk.get algKey = some v ∧ v.asStr ≠ some rs256 ∧ v.asStr ≠ some es256

/-- The element publishes a key of a supported type that is not for encryption. -/
def PublishesKey (ext : Crypto) (jwk : Value) : Prop :=
  stringClaim jwk useKey ≠ some enc ∧ ∃ key, KeyOf ext jwk key

/-- The element has the token's `kid`, or is the only usable one, and is meant for the token's `alg`. -/
structure MeantFor (ext : Crypto) (arr : List Value) (kid : Option (List Char)) (alg : List Char)
    (jwk : Value) : Prop where
  published : jwk ∈ arr
  sameKid : ∀ k, kid = some k → stringClaim jwk kidKey = some k
  alone : kid = none → (usable ext false arr).length = 1
  use : stringClaim jwk useKey ≠ some enc
  type : TypeFor jwk alg
  ownAlg : OwnAlg jwk alg

theorem typeFor_of_accepts {ext : Crypto} {jwk : Value} {key : JwkKey} (hkey : KeyOf ext jwk key)
    {alg : List Char} {signingInput signature : Bytes} (h : Accepts ext alg signingInput signature key) :
    TypeFor jwk alg := by
  cases hkey with
  | rsa hkty _ _ => exact .inl ⟨h.1, hkty⟩
  | ec hkty hcrv _ _ _ _ => exact .inr ⟨h.1, hkty, hcrv⟩

theorem parseOneJwk_eq_none_iff {ext : Crypto} {jwk : Value} :
    parseOneJwk ext jwk false = none ↔ ¬PublishesKey ext jwk := by
  rw [Option.eq_none_iff_forall_ne_some]
  constructor
  · rintro h ⟨huse, key, hkey⟩
    exact h _ (parseOneJwk_eq_some.mpr ⟨fun _ => huse, rfl, hkey⟩)
  · rintro h ⟨kid, key⟩ hparse
    obtain ⟨huse, _, hkey⟩ := parseOneJwk_eq_some.mp hparse
    exact h ⟨huse rfl, key, hkey⟩

/-- **A token is verified with a key that is meant for it exactly where the selected element carries no other
`alg`, and the token's `kid`, or is alone; and unsupported elements are skipped exactly where they publish
no key.** -/
theorem verify_meantFor_iff (ext : Crypto) (s : List Char) (kid : Option (List Char)) (alg : List Char)
    (signingInput signature : Bytes) {arr : List Value} {jwks : Jwks} (harr : elements ext s = some arr)
    (h : Jwks.fromJson ext s false = .ok jwks) :
    ((jwks.verify ext kid alg signingInput signature = .ok () →
        ∃ jwk key, jwks.selectKey kid = .ok key ∧ Selected ext arr kid jwk key ∧
          MeantFor ext arr kid alg jwk) ↔
      ∀ jwk key, Selected ext arr kid jwk key → Accepts ext alg signingInput signature key →
        OwnAlg jwk alg ∧ (∀ k, kid = some k → stringClaim jwk kidKey = some k) ∧
          (kid = none → (usable ext false arr).length = 1)) ∧
    ((∀ jwk ∈ arr, UnsupportedAlg jwk → parseOneJwk ext jwk false = none) ↔
      ∀ jwk ∈ arr, UnsupportedAlg jwk → ¬PublishesKey ext jwk) := by
  have hkeys : jwks = ⟨written (published ext false arr)⟩ := by
    obtain ⟨arr', harr', hjwks⟩ := elements_of_fromJson.mp h
    cases harr.symm.trans harr'
    exact hjwks
  subst hkeys
  constructor
  · rw [verify_eq_ok]
    simp only [selectKey_eq_ok]
    constructor
    · intro hmeant jwk key hsel haccepts
      obtain ⟨jwk', key', _, hsel', hfor⟩ := hmeant ⟨key, ⟨jwk, hsel⟩, haccepts⟩
      obtain ⟨rfl, rfl⟩ := hsel.unique hsel'
      exact ⟨hfor.ownAlg, hfor.sameKid, hfor.alone⟩
    · rintro hcond ⟨key, ⟨jwk, hsel⟩, haccepts⟩
      obtain ⟨hown, hkid, halone⟩ := hcond jwk key hsel haccepts
      obtain ⟨k, _, hmem⟩ := hsel.mem
      obtain ⟨hjwk, hparse⟩ := mem_usable.mp hmem
      obtain ⟨huse, _, hkey⟩ := parseOneJwk_eq_some.mp hparse
      exact ⟨jwk, key, ⟨jwk, hsel⟩, hsel, hjwk, hkid, halone, huse rfl, typeFor_of_accepts hkey haccepts, hown⟩
  · simp only [parseOneJwk_eq_none_iff]

/-! ### A key for key agreement

An element that says it is for another algorithm, and a token that it verifies. -/

def agreementX : List Char := "jlM7b6C_e0YluzBmfAH7YH75-LioD-9bMAYocDGHsqM".toList

def agreementY : List Char := "c-sdveAzGDZtBp-DpvWQAFPHNjPLBBshxV4ahsH0ALQ".toList

/-- An ES256 signature of `e30.e30` by the key with these coordinates. -/
def agreementSignature : List Char :=
  "PtETt4g7TFkGODedsMIc2hZ0LtAlUEi_QzOR03S8IdHf6rO8gQL67EcnmsDyRC9oqbC9h9PmpxyxrTRrayo6zA".toList

/-- A P-256 key that is published for key agreement. -/
def agreementJwk : Value := .object [
  (algKey, .string ['E', 'C', 'D', 'H', '-', 'E', 'S']),
  (crvKey, .string ['P', '-', '2', '5', '6']),
  (kidKey, .string ['k']),
  (ktyKey, .string ['E', 'C']),
  (['x'], .string agreementX),
  (['y'], .string agreementY)]

def agreementJson : List Char :=
  "\x7b\"keys\":[\x7b\"alg\":\"ECDH-ES\",\"crv\":\"P-256\",\"kid\":\"k\",\"kty\":\"EC\",\"x\":\"".toList ++
    agreementX ++ "\",\"y\":\"".toList ++ agreementY ++ "\"\x7d]\x7d".toList

/-- A verification that knows the one signature. -/
def agreementCrypto : Crypto :=
  { cryptoOf agreementJson (.object [(keysKey, .array [agreementJwk])]) with
    verifyRsa := fun _ _ _ _ => false
    verifyEcdsa := fun point signingInput signature =>
      some point = (do return 0x04 :: ((← decodeUrl agreementX) ++ (← decodeUrl agreementY))) ∧
        signingInput = bytesOf ['e', '3', '0', '.', 'e', '3', '0'] ∧
        some signature = decodeUrl agreementSignature }

theorem leftPad32_of_length {bytes : Bytes} (h : bytes.length = 32) : leftPad32 bytes = some bytes := by
  unfold leftPad32
  rw [if_pos h.le, h]
  rfl

theorem agreement_coordinates : ∃ x y, decodeUrl agreementX = some x ∧ leftPad32 x = some x ∧
    decodeUrl agreementY = some y ∧ leftPad32 y = some y := by
  have hx : (decodeUrl agreementX).map List.length = some 32 := by decide +kernel
  have hy : (decodeUrl agreementY).map List.length = some 32 := by decide +kernel
  obtain ⟨x, hx, hlenx⟩ := Option.map_eq_some_iff.mp hx
  obtain ⟨y, hy, hleny⟩ := Option.map_eq_some_iff.mp hy
  exact ⟨x, y, hx, leftPad32_of_length hlenx, hy, leftPad32_of_length hleny⟩

theorem elements_agreement : elements agreementCrypto agreementJson = some [agreementJwk] :=
  elements_cryptoOf agreementJson [agreementJwk]

theorem unsupportedAlg_agreement : UnsupportedAlg agreementJwk := by
  refine ⟨_, rfl, ?_, ?_⟩
  · intro h
    cases h
  · intro h
    cases h

/-- The key for ECDH verifies a token, and the element is not skipped. -/
theorem not_verify_meantFor :
    elements agreementCrypto agreementJson = some [agreementJwk] ∧
    UnsupportedAlg agreementJwk ∧ parseOneJwk agreementCrypto agreementJwk false ≠ none ∧
    ∃ jwks, Jwks.fromJson agreementCrypto agreementJson false = .ok jwks ∧
      ∃ signature, decodeUrl agreementSignature = some signature ∧
        jwks.verify agreementCrypto (some ['k']) es256 (bytesOf ['e', '3', '0', '.', 'e', '3', '0']) signature =
          .ok () ∧
        ¬∃ jwk key, jwks.selectKey (some ['k']) = .ok key ∧
          Selected agreementCrypto [agreementJwk] (some ['k']) jwk key ∧
          MeantFor agreementCrypto [agreementJwk] (some ['k']) es256 jwk := by
  obtain ⟨x, y, hx, hx', hy, hy'⟩ := agreement_coordinates
  have hkey : KeyOf agreementCrypto agreementJwk (.ecP256 (0x04 :: (x ++ y))) := .ec rfl rfl hx hx' hy hy'
  have hparse : parseOneJwk agreementCrypto agreementJwk false = some (['k'], .ecP256 (0x04 :: (x ++ y))) := by
    refine parseOneJwk_eq_some.mpr ⟨fun _ h => ?_, rfl, hkey⟩
    cases h
  have husable : usable agreementCrypto false [agreementJwk] =
      [(['k'], agreementJwk, .ecP256 (0x04 :: (x ++ y)))] := by
    unfold usable
    rw [List.filterMap_cons, hparse]
    rfl
  have hsel : Selected agreementCrypto [agreementJwk] (some ['k']) agreementJwk (.ecP256 (0x04 :: (x ++ y))) := by
    refine ⟨[], [], husable, fun p hp => absurd hp List.not_mem_nil⟩
  have hsig : (decodeUrl agreementSignature).isSome = true := by decide +kernel
  obtain ⟨signature, hsig⟩ := Option.isSome_iff_exists.mp hsig
  refine ⟨elements_agreement, unsupportedAlg_agreement, by rw [hparse]; exact Option.some_ne_none _, _,
    elements_of_fromJson.mpr ⟨_, elements_agreement, rfl⟩, signature, hsig, ?_, ?_⟩
  · refine verify_eq_ok.mpr ⟨_, selectKey_eq_ok.mpr ⟨_, hsel⟩, rfl, ?_⟩
    show decide (_ ∧ _) = true
    rw [hx, hy, hsig]
    simp
  · rintro ⟨jwk, key, _, _, hfor⟩
    rw [List.mem_singleton.mp hfor.published] at hfor
    rcases hfor.ownAlg with h | h
    · cases h
    · cases h

/-- The same document and another signature. -/
theorem verify_meantFor_iff_agreement :
    ((Jwks.verify agreementCrypto ⟨written (published agreementCrypto false [agreementJwk])⟩ (some ['k']) es256
          [] [] = .ok () →
        ∃ jwk key, Jwks.selectKey ⟨written (published agreementCrypto false [agreementJwk])⟩ (some ['k']) =
            .ok key ∧ Selected agreementCrypto [agreementJwk] (some ['k']) jwk key ∧
          MeantFor agreementCrypto [agreementJwk] (some ['k']) es256 jwk) ↔
      ∀ jwk key, Selected agreementCrypto [agreementJwk] (some ['k']) jwk key →
        Accepts agreementCrypto es256 [] [] key →
        OwnAlg jwk es256 ∧ (∀ k, some ['k'] = some k → stringClaim jwk kidKey = some k) ∧
          (some ['k'] = none → (usable agreementCrypto false [agreementJwk]).length = 1)) ∧
    ((∀ jwk ∈ [agreementJwk], UnsupportedAlg jwk → parseOneJwk agreementCrypto jwk false = none) ↔
      ∀ jwk ∈ [agreementJwk], UnsupportedAlg jwk → ¬PublishesKey agreementCrypto jwk) :=
  verify_meantFor_iff agreementCrypto agreementJson (some ['k']) es256 [] [] elements_agreement
    (elements_of_fromJson.mpr ⟨_, elements_agreement, rfl⟩)

end Krabka.Security
