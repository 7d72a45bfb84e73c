import Krabka.Lib.LastEntry
import Krabka.Security.OAuthBearer.PrincipalName
import Krabka.Security.Scram.Messages

/-!
# `Security.Jwks` — key sets and the key of a token without `kid`

A key set is the map that the usable elements of a JWKS document are written into, an element without a
`kid` under the empty string. A token without `kid` is verified with the one key of the map. The map has one
key also when several elements share their `kid`, or have none: the last of them is then taken.
-/

namespace Krabka.Security

open FixedWidth Text ByteStream Json Collections Scram OAuthBearer

/-! ## The model of `jwks.rs`

An element that cannot be used is skipped, and one that can is written into the map. -/

inductive JwkKey where
  | rsa (n e : Bytes)
  | ecP256 (point : Bytes)
deriving DecidableEq, Repr

structure Jwks where
  keys : HashMap (List Char) JwkKey

/-- The library functions behind a key set: those that read a document, and the two verifications. -/
structure Crypto extends Externals where
  verifyRsa : (n e signingInput signature : Bytes) → Bool
  verifyEcdsa : (point signingInput signature : Bytes) → Bool

def keysKey : List Char := ['k', 'e', 'y', 's']
def useKey : List Char := ['u', 's', 'e']
def kidKey : List Char := ['k', 'i', 'd']
def ktyKey : List Char := ['k', 't', 'y']
def crvKey : List Char := ['c', 'r', 'v']
def enc : List Char := ['e', 'n', 'c']
def rs256 : List Char := ['R', 'S', '2', '5', '6']
def es256 : List Char := ['E', 'S', '2', '5', '6']

def asArray : Value → Option (List Value)
  | .array items => some items
  | _ => none

def b64urlField (ext : Crypto) (jwk : Value) (key : List Char) : Option Bytes :=
  (stringClaim jwk key).bind ext.decodeBase64Url

def leftPad32 (bytes : Bytes) : Option Bytes :=
  if bytes.length ≤ 32 then some (List.replicate (32 - bytes.length) 0 ++ bytes) else none

def parseOneJwk (ext : Crypto) (jwk : Value) (ignoreKeyUse : Bool) : Option (List Char × JwkKey) :=
  if !ignoreKeyUse && stringClaim jwk useKey == some enc then none
  else do
    let kid := (stringClaim jwk kidKey).getD []
    let kty ← stringClaim jwk ktyKey
    if kty = ['R', 'S', 'A'] then
      let n ← b64urlField ext jwk ['n']
      let e ← b64urlField ext jwk ['e']
      return (kid, .rsa n e)
    else if kty = ['E', 'C'] then
      let crv ← stringClaim jwk crvKey
      if crv ≠ ['P', '-', '2', '5', '6'] then none
      else
        -- the SEC1 uncompressed point
        let x ← (b64urlField ext jwk ['x']).bind leftPad32
        let y ← (b64urlField ext jwk ['y']).bind leftPad32
        return (kid, .ecP256 (0x04 :: (x ++ y)))
    else none

/-- One round of the loop over the elements. -/
def insertJwk (ext : Crypto) (ignoreKeyUse : Bool) (keys : HashMap (List Char) JwkKey) (jwk : Value) :
    HashMap (List Char) JwkKey :=
  match parseOneJwk ext jwk ignoreKeyUse with
  | some (kid, key) => keys.insert kid key
  | none => keys

def Jwks.fromJson (ext : Crypto) (s : List Char) (ignoreKeyUse : Bool) : Except AuthError Jwks := do
  let doc ← orMalformed (ext.parseJson (bytesOf s))
  let arr ← orMalformed ((doc.get keysKey).bind asArray)
  return ⟨arr.foldl (insertJwk ext ignoreKeyUse) ∅⟩

def Jwks.selectKey (jwks : Jwks) (kid : Option (List Char)) : Except AuthError JwkKey :=
  match kid with
  | none =>
      -- the value of the one entry
      if jwks.keys.size = 1 then orInvalid (jwks.keys.toList.head?.map Prod.snd) else .error .invalidToken
  | some kid => orInvalid jwks.keys[kid]?

def Jwks.verify (ext : Crypto) (jwks : Jwks) (kid : Option (List Char)) (alg : List Char)
    (signingInput signature : Bytes) : Except AuthError Unit := do
  let key ← jwks.selectKey kid
  match key with
  | .rsa n e =>
      if alg = rs256 then rejectIf (!ext.verifyRsa n e signingInput signature) else .error .invalidToken
  | .ecP256 point =>
      if alg = es256 then rejectIf (!ext.verifyEcdsa point signingInput signature)
      else .error .invalidToken

/-! ## The published keys

The map is a fold over the elements, so a lookup in it is the last element under the key. -/

/-- The elements of the document's `keys` array. -/
def elements (ext : Crypto) (s : List Char) : Option (List Value) :=
  (ext.parseJson (bytesOf s)).bind fun doc => (doc.get keysKey).bind asArray

/-- The usable elements, each with its `kid` in the map and its key. -/
def usable (ext : Crypto) (ignoreKeyUse : Bool) (arr : List Value) : List (List Char × Value × JwkKey) :=
  arr.filterMap fun jwk => (parseOneJwk ext jwk ignoreKeyUse).map fun p => (p.1, jwk, p.2)

/-- What is written into the map. -/
def published (ext : Crypto) (ignoreKeyUse : Bool) (arr : List Value) : List (List Char × JwkKey) :=
  (usable ext ignoreKeyUse arr).map fun p => (p.1, p.2.2)

theorem foldl_insertJwk (ext : Crypto) (ignoreKeyUse : Bool) (arr : List Value)
    (keys : HashMap (List Char) JwkKey) :
    arr.foldl (insertJwk ext ignoreKeyUse) keys =
      (published ext ignoreKeyUse arr).foldl (fun m p => m.insert p.1 p.2) keys := by
  induction arr generalizing keys with
  | nil => rfl
  | cons jwk arr ih =>
      rw [List.foldl_cons, ih]
      unfold published usable insertJwk
      rw [List.filterMap_cons]
      cases parseOneJwk ext jwk ignoreKeyUse with
      | none => rfl
      | some p => rfl

theorem elements_of_fromJson {ext : Crypto} {s : List Char} {ignoreKeyUse : Bool} {jwks : Jwks} :
    Jwks.fromJson ext s ignoreKeyUse = .ok jwks ↔
      ∃ arr, elements ext s = some arr ∧ jwks = ⟨written (published ext ignoreKeyUse arr)⟩ := by
  unfold Jwks.fromJson elements written
  simp only [Results.bind_eq_ok, orMalformed_eq_ok, Results.pure_eq_ok, Option.bind_eq_some_iff,
    foldl_insertJwk]
  constructor
  · rintro ⟨doc, hdoc, arr, harr, rfl⟩
    exact ⟨arr, ⟨doc, hdoc, harr⟩, rfl⟩
  · rintro ⟨arr, ⟨doc, hdoc, harr⟩, rfl⟩
    exact ⟨doc, hdoc, arr, harr, rfl⟩

theorem keys_of_fromJson {ext : Crypto} {s : List Char} {ignoreKeyUse : Bool} {arr : List Value} {jwks : Jwks}
    (harr : elements ext s = some arr) (h : Jwks.fromJson ext s ignoreKeyUse = .ok jwks) :
    jwks.keys = written (published ext ignoreKeyUse arr) := by
  obtain ⟨arr', harr', rfl⟩ := elements_of_fromJson.mp h
  cases harr.symm.trans harr'
  rfl

/-! ## A token without `kid`

The number of keys in the map is the number of different names. -/

theorem Jwks.selectKey_none_eq_ok {jwks : Jwks} {key : JwkKey} :
    jwks.selectKey none = .ok key ↔ jwks.keys.size = 1 ∧ ∃ kid : List Char, jwks.keys[kid]? = some key := by
  show (if jwks.keys.size = 1 then orInvalid (jwks.keys.toList.head?.map Prod.snd)
    else .error .invalidToken) = .ok key ↔ _
  split
  · rename_i hone
    rw [orInvalid_eq_ok, and_iff_right hone]
    obtain ⟨⟨kid, key'⟩, hlist⟩ := List.length_eq_one_iff.mp (Std.ExtTreeMap.length_toList.trans hone)
    have hmem {kid' : List Char} {k : JwkKey} : jwks.keys[kid']? = some k ↔ (kid', k) = (kid, key') := by
      rw [← Std.ExtTreeMap.mem_toList_iff_getElem?_eq_some, hlist, List.mem_singleton]
    rw [hlist]
    constructor
    · intro h
      cases h
      exact ⟨kid, hmem.mpr rfl⟩
    · rintro ⟨kid', h⟩
      cases hmem.mp h
      rfl
  · rename_i hone
    refine iff_of_false ?_ fun h => hone h.1
    intro h
    cases h

theorem Jwks.selectKey_none_isOk {jwks : Jwks} :
    (∃ key, jwks.selectKey none = .ok key) ↔ jwks.keys.size = 1 := by
  simp only [selectKey_none_eq_ok, exists_and_left]
  refine and_iff_left_of_imp fun hone => ?_
  obtain ⟨⟨kid, key⟩, hlist⟩ := List.length_eq_one_iff.mp (Std.ExtTreeMap.length_toList.trans hone)
  refine ⟨key, kid, Std.ExtTreeMap.mem_toList_iff_getElem?_eq_some.mp ?_⟩
  rw [hlist]
  exact List.mem_singleton_self _

/-- The defect: several usable elements, and all under one `kid`. -/
def ShareKid (ext : Crypto) (ignoreKeyUse : Bool) (arr : List Value) : Prop :=
  2 ≤ (usable ext ignoreKeyUse arr).length ∧
    ∀ p ∈ usable ext ignoreKeyUse arr, ∀ q ∈ usable ext ignoreKeyUse arr, p.1 = q.1

/-- **A token without `kid` finds a key when the usable elements share their `kid`, however many they are.** -/
theorem Jwks.size_eq_one_iff {ext : Crypto} {ignoreKeyUse : Bool} {arr : List Value} :
    (written (published ext ignoreKeyUse arr)).size = 1 ↔
      usable ext ignoreKeyUse arr ≠ [] ∧
        ∀ p ∈ usable ext ignoreKeyUse arr, ∀ q ∈ usable ext ignoreKeyUse arr, p.1 = q.1 := by
  rw [size_written_eq_one_iff]
  unfold published
  simp only [ne_eq, List.map_eq_nil_iff, List.forall_mem_map]

/-- **The choice of key is unambiguous exactly where the usable elements are not several of one `kid`.** -/
theorem selectKey_none_iff_one (ext : Crypto) (s : List Char) (ignoreKeyUse : Bool) {arr : List Value}
    {jwks : Jwks} (harr : elements ext s = some arr) (h : Jwks.fromJson ext s ignoreKeyUse = .ok jwks) :
    ((∃ key, jwks.selectKey none = .ok key) ↔ (usable ext ignoreKeyUse arr).length = 1) ↔
      ¬ShareKid ext ignoreKeyUse arr := by
  rw [Jwks.selectKey_none_isOk, keys_of_fromJson harr h, Jwks.size_eq_one_iff]
  unfold ShareKid
  generalize usable ext ignoreKeyUse arr = keys
  rw [← List.length_pos_iff]
  by_cases hsame : ∀ p ∈ keys, ∀ q ∈ keys, p.1 = q.1
  · rw [and_iff_left hsame, and_iff_left hsame]
    omega
  · have hlen : keys.length ≠ 1 := by
      intro hone
      obtain ⟨p, rfl⟩ := List.length_eq_one_iff.mp hone
      refine hsame fun q hq r hr => ?_
      rw [List.mem_singleton.mp hq, List.mem_singleton.mp hr]
    rw [iff_false_right hlen]
    exact iff_of_true (fun h => hsame h.2) fun h => hsame h.2

/-! ### Two keys without `kid`

They fall together under the empty name, and the second one is taken. -/

/-- An RSA key of one byte each, without `kid`. -/
def kidlessRsa (n : List Char) : Value := .object [
  (['e'], .string ['A', 'w']),
  (ktyKey, .string ['R', 'S', 'A']),
  (['n'], .string n)]

def twoKeysJson : List Char :=
  "\x7b\"keys\":[\x7b\"kty\":\"RSA\",\"n\":\"AQ\",\"e\":\"Aw\"\x7d,\x7b\"kty\":\"RSA\",\"n\":\"Ag\",\"e\":\"Aw\"\x7d]\x7d".toList

/-- The url alphabet without padding. -/
def decodeUrl (s : List Char) : Option Bytes :=
  Base64.decode false ((s.map fun c => if c = '-' then '+' else if c = '_' then '/' else c) ++
    List.replicate ((4 - s.length % 4) % 4) '=')

/-- The parser at one document, and a verification that accepts. -/
def cryptoOf (text : List Char) (doc : Value) : Crypto where
  toExternals := { truncatingExternals with
    decodeBase64Url := decodeUrl
    parseJson := fun bytes => if bytes = bytesOf text then some doc else none }
  verifyRsa _ _ _ _ := true
  verifyEcdsa _ _ _ := true

/-- The document is the one it is parsed to. -/
theorem elements_cryptoOf (text : List Char) (arr : List Value) :
    elements (cryptoOf text (.object [(keysKey, .array arr)])) text = some arr := by
  have hparse : (cryptoOf text (.object [(keysKey, .array arr)])).parseJson (bytesOf text) =
      some (.object [(keysKey, .array arr)]) := if_pos rfl
  unfold elements
  rw [hparse]
  rfl

def twoKeysElements : List Value := [kidlessRsa ['A', 'Q'], kidlessRsa ['A', 'g']]

def twoKeys : Crypto := cryptoOf twoKeysJson (.object [(keysKey, .array twoKeysElements)])

theorem published_twoKeys (ignoreKeyUse : Bool) :
    published twoKeys ignoreKeyUse twoKeysElements = [([], .rsa [1] [3]), ([], .rsa [2] [3])] := by
  cases ignoreKeyUse with
  | false => decide +kernel
  | true => decide +kernel

/-- The set of two kidless keys holds one: a token without `kid` is verified with the second. -/
theorem selectKey_none_two :
    elements twoKeys twoKeysJson = some twoKeysElements ∧
    (usable twoKeys false twoKeysElements).length = 2 ∧
    ∃ jwks, Jwks.fromJson twoKeys twoKeysJson false = .ok jwks ∧
      jwks.selectKey none = .ok (.rsa [2] [3]) := by
  have helements := elements_cryptoOf twoKeysJson twoKeysElements
  refine ⟨helements, ?_, _, elements_of_fromJson.mpr ⟨_, helements, rfl⟩, ?_⟩
  · have hlen := congrArg List.length (published_twoKeys false)
    rwa [published, List.length_map] at hlen
  · show Jwks.selectKey ⟨written (published twoKeys false twoKeysElements)⟩ none = _
    rw [published_twoKeys]
    refine Jwks.selectKey_none_eq_ok.mpr ⟨size_written_eq_one_iff.mpr ⟨List.cons_ne_nil _ _, ?_⟩, [], ?_⟩
    · decide
    · exact get_written.mpr ⟨[([], .rsa [1] [3])], [], rfl, fun p hp => absurd hp List.not_mem_nil⟩

def oneElement : List Value := [kidlessRsa ['A', 'Q']]

def oneKey : Crypto := cryptoOf [] (.object [(keysKey, .array oneElement)])

/-- One kidless key. -/
theorem selectKey_none_iff_one_single :
    ((∃ key, Jwks.selectKey ⟨written (published oneKey false oneElement)⟩ none = .ok key) ↔
        (usable oneKey false oneElement).length = 1) ↔ ¬ShareKid oneKey false oneElement :=
  selectKey_none_iff_one oneKey [] false (elements_cryptoOf [] oneElement)
    (elements_of_fromJson.mpr ⟨oneElement, elements_cryptoOf [] oneElement, rfl⟩)

end Krabka.Security
