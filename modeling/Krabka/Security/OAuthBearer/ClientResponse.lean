import Krabka.Lib.Cutting
import Krabka.Lib.LastEntry
import Krabka.Security.OAuthBearer.Saslname

/-!
# `Security.OAuthBearer.ClientResponse` — the client initial response

The response is the GS2 header, a list of kvpairs that each end in `^A`, and one more `^A`. The parser cuts
it from both ends and keeps the last `auth` value. What it accepts is the grammar of its documentation, and
what it returns is read off the one decomposition that a message has.
-/

namespace Krabka.Security.OAuthBearer

open Text Scram

structure ClientInitialResponse where
  token : List Char
  authzid : Option (List Char)
deriving DecidableEq, Repr

/-! ## The parser

Cut from the front, then from the back, then at the separators. -/

/-- The kvpair separator `^A`. -/
def kvsep : Char := '\x01'

def authKey : List Char := ['a', 'u', 't', 'h']

def isAsciiAlphabetic (b : UInt8) : Bool := (0x41 ≤ b && b ≤ 0x5A) || (0x61 ≤ b && b ≤ 0x7A)

def isAsciiAlphanumeric (b : UInt8) : Bool := isAsciiAlphabetic b || (0x30 ≤ b && b ≤ 0x39)

def isKvpairKey (key : List Char) : Bool := !key.isEmpty && (bytesOf key).all isAsciiAlphabetic

def isValueByte (b : UInt8) : Bool :=
  (0x21 ≤ b && b ≤ 0x7E) || b == 0x20 || b == 0x09 || b == 0x0D || b == 0x0A

def isKvpairValue (value : List Char) : Bool := !value.isEmpty && (bytesOf value).all isValueByte

def isSchemeByte (b : UInt8) : Bool := isAsciiAlphanumeric b || b == 0x5F

/-- A letter, a digit, or one of `-_~+/.`. -/
def isTokenByte (b : UInt8) : Bool :=
  isAsciiAlphanumeric b || [0x2D, 0x5F, 0x7E, 0x2B, 0x2F, 0x2E].contains b

def parseBearerAuth (auth : List Char) : Except AuthError (List Char) := do
  let (scheme, rest) ← orMalformed (splitOnceAt ' ' auth)
  let token := rest.dropWhile (· == ' ')
  let unpadded := token.rdropWhile (· == '=')
  let wellFormed := !scheme.isEmpty && (bytesOf scheme).all isSchemeByte &&
    !unpadded.isEmpty && (bytesOf unpadded).all isTokenByte
  if wellFormed && scheme.map Char.toLower == ['b', 'e', 'a', 'r', 'e', 'r'] then .ok token
  else .error .malformedMessage

/-- One round of the loop over the kvpairs: the last `auth` wins. -/
def readPair (auth : Option (List Char)) (pair : List Char) : Except AuthError (Option (List Char)) := do
  let (key, value) ← orMalformed (splitOnceAt '=' pair)
  if !isKvpairKey key || !isKvpairValue value then .error .malformedMessage
  else return if key = authKey then some value else auth

def readPairs (kvpairs : List Char) : Except AuthError (Option (List Char)) := do
  if kvpairs.isEmpty then return none
  else
    let kvpairs ← orMalformed (stripSuffix [kvsep] kvpairs)
    (kvpairs.splitOn kvsep).foldlM readPair none

def parseClientInitialResponse (bytes : List UInt8) : Except AuthError ClientInitialResponse := do
  let s ← (charsOf bytes).mapError fun _ => .malformedMessage
  let (authzid, rest) ← parseGs2Header s
  let kvpairs ← orMalformed (stripSuffix [kvsep] rest)
  let auth ← readPairs kvpairs
  let token ← parseBearerAuth (← orMalformed auth)
  return ⟨token, authzid⟩

/-! ## The grammar

The productions of the documentation, as sets of texts. -/

def isLetter (c : Char) : Bool := ('A' ≤ c && c ≤ 'Z') || ('a' ≤ c && c ≤ 'z')

def isWordChar (c : Char) : Bool := isLetter c || ('0' ≤ c && c ≤ '9')

/-- `key`: one or more letters. -/
def Key (s : List Char) : Prop := s ≠ [] ∧ ∀ c ∈ s, isLetter c = true

/-- A visible ASCII character, a space, a tab, or an end of line. -/
def isValueChar (c : Char) : Bool := ('!' ≤ c && c ≤ '~') || c == ' ' || c == '\t' || c == '\r' || c == '\n'

/-- `value`: one or more of them. -/
def KvValue (s : List Char) : Prop := s ≠ [] ∧ ∀ c ∈ s, isValueChar c = true

def isSchemeChar (c : Char) : Bool := isWordChar c || c == '_'

def isTokenChar (c : Char) : Bool := isWordChar c || ['-', '_', '~', '+', '/', '.'].contains c

/-- `auth = scheme 1*SP token`, with the scheme `bearer` in any case. -/
def BearerAuth (value token : List Char) : Prop :=
  ∃ scheme spaces body padding, value = scheme ++ ' ' :: (List.replicate spaces ' ' ++ token) ∧
    token = body ++ List.replicate padding '=' ∧
    (scheme ≠ [] ∧ ∀ c ∈ scheme, isSchemeChar c = true) ∧
    scheme.map Char.toLower = ['b', 'e', 'a', 'r', 'e', 'r'] ∧
    body ≠ [] ∧ ∀ c ∈ body, isTokenChar c = true

/-- `["a=" saslname]`. -/
inductive AuthzidPart : List Char → Option (List Char) → Prop where
  | absent : AuthzidPart [] none
  | present {name : List Char} : Saslname name → AuthzidPart ('a' :: '=' :: name) (some name)

/-- `key "=" value`. -/
def pairText (p : List Char × List Char) : List Char := p.1 ++ '=' :: p.2

/-- `"n," ["a=" saslname] "," ^A *(key "=" value ^A) ^A`. -/
def Message (s : List Char) (authzid : Option (List Char)) (pairs : List (List Char × List Char)) : Prop :=
  (∃ part, AuthzidPart part authzid ∧
    s = 'n' :: ',' :: (part ++ ',' :: kvsep :: (pairs.flatMap (pairText · ++ [kvsep]) ++ [kvsep]))) ∧
  ∀ p ∈ pairs, Key p.1 ∧ KvValue p.2

/-- The value of the last `auth` kvpair. -/
def LastAuth (pairs : List (List Char × List Char)) (value : List Char) : Prop :=
  Collections.LastEntry pairs authKey value

/-! ## Characters and bytes

The tests of the source are on bytes. For ASCII classes they are tests on characters. -/

/-- A test of bytes that is a test of ASCII characters. -/
structure SameTest (onBytes : UInt8 → Bool) (onChars : Char → Bool) : Prop where
  high : ∀ n < 256, 128 ≤ n → onBytes (UInt8.ofNat n) = false
  ascii : ∀ n < 128, onBytes (UInt8.ofNat n) = onChars (Char.ofNat n)
  narrow : ∀ c, onChars c = true → c ≤ '~'

/-- A test of ASCII decides on the bytes what it decides on the characters. -/
theorem SameTest.all_bytesOf {onBytes : UInt8 → Bool} {onChars : Char → Bool} (h : SameTest onBytes onChars)
    (cs : List Char) : (bytesOf cs).all onBytes = cs.all onChars := by
  have hhigh : ∀ b : UInt8, 0x80 ≤ b → onBytes b = false := by
    intro b hb
    have hb' := h.high b.toNat b.toNat_lt (UInt8.le_iff_toNat_le.mp hb)
    rwa [UInt8.ofNat_toNat] at hb'
  rw [Text.all_bytesOf hhigh]
  refine List.all_congr rfl fun c => ?_
  by_cases hc : c.toNat < 0x80
  · rw [h.ascii c.toNat hc, Char.ofNat_toNat]
    simp [hc]
  · have hwide : onChars c = false := by
      rw [← Bool.not_eq_true]
      intro htest
      have hle : c.toNat ≤ 0x7E := UInt32.le_iff_toNat_le.mp (h.narrow c htest)
      omega
    simp [hc, hwide]

theorem toNat_ofNat_of_le {n : Nat} (h : n ≤ 0x7F) : (Char.ofNat n).toNat = n := by
  unfold Char.ofNat
  rw [dif_pos (show n.isValidChar from Or.inl (by omega))]
  simp [Char.ofNatAux, Char.toNat]

theorem ofNat_le_iff {n m : Nat} (hn : n < 256) (hm : m < 256) : UInt8.ofNat n ≤ UInt8.ofNat m ↔ n ≤ m := by
  rw [UInt8.le_iff_toNat_le, UInt8.toNat_ofNat_of_lt' hn, UInt8.toNat_ofNat_of_lt' hm]

theorem charOfNat_le_iff {n m : Nat} (hn : n ≤ 0x7F) (hm : m ≤ 0x7F) : Char.ofNat n ≤ Char.ofNat m ↔ n ≤ m := by
  show (Char.ofNat n).toNat ≤ (Char.ofNat m).toNat ↔ n ≤ m
  rw [toNat_ofNat_of_le hn, toNat_ofNat_of_le hm]

/-- The characters from one to another. -/
theorem SameTest.range (lo hi : Nat) (hle : lo ≤ hi) (hhi : hi ≤ 0x7E) :
    SameTest (fun b => UInt8.ofNat lo ≤ b && b ≤ UInt8.ofNat hi)
      (fun c => Char.ofNat lo ≤ c && c ≤ Char.ofNat hi) where
  high n hn h := by
    rw [Bool.and_eq_false_iff, decide_eq_false_iff_not, decide_eq_false_iff_not,
      ofNat_le_iff hn (by omega)]
    exact Or.inr (by omega)
  ascii n hn := by
    simp only [ofNat_le_iff (show lo < 256 by omega) (show n < 256 by omega),
      ofNat_le_iff (show n < 256 by omega) (show hi < 256 by omega),
      charOfNat_le_iff (show lo ≤ 0x7F by omega) (Nat.le_of_lt_succ hn),
      charOfNat_le_iff (Nat.le_of_lt_succ hn) (show hi ≤ 0x7F by omega)]
  narrow c h := by
    have hc : c ≤ Char.ofNat hi := of_decide_eq_true (Bool.and_eq_true_iff.mp h).2
    exact hc.trans ((charOfNat_le_iff (by omega) (by decide)).mpr hhi)

/-- One character. -/
theorem SameTest.single (n : Nat) (hn : n ≤ 0x7E) :
    SameTest (· == UInt8.ofNat n) (· == Char.ofNat n) where
  high m hm h := by
    rw [beq_eq_false_iff_ne]
    intro heq
    have hle := (ofNat_le_iff hm (show n < 256 by omega)).mp (heq ▸ UInt8.le_refl _)
    omega
  ascii m hm := by
    have hbytes : UInt8.ofNat m = UInt8.ofNat n ↔ m = n := by
      rw [← UInt8.toNat_inj, UInt8.toNat_ofNat_of_lt' (show m < 256 by omega),
        UInt8.toNat_ofNat_of_lt' (show n < 256 by omega)]
    have hchars : Char.ofNat m = Char.ofNat n ↔ m = n := by
      rw [le_antisymm_iff, charOfNat_le_iff (by omega) (by omega), charOfNat_le_iff (by omega) (by omega),
        ← le_antisymm_iff]
    rw [Bool.eq_iff_iff, beq_iff_eq, beq_iff_eq, hbytes, hchars]
  narrow c h := by
    rw [eq_of_beq h]
    exact (charOfNat_le_iff (by omega) (by decide)).mpr hn

/-- Tests are joined by either. -/
theorem SameTest.or {p q : UInt8 → Bool} {p' q' : Char → Bool} (hp : SameTest p p') (hq : SameTest q q') :
    SameTest (fun b => p b || q b) (fun c => p' c || q' c) where
  high n hn h := by rw [hp.high n hn h, hq.high n hn h, Bool.or_false]
  ascii n hn := by rw [hp.ascii n hn, hq.ascii n hn]
  narrow c h := (Bool.or_eq_true_iff.mp h).elim (hp.narrow c) (hq.narrow c)

/-- A list of ASCII characters is a test. -/
theorem SameTest.contains (ns : List Nat) (hns : ∀ n ∈ ns, n ≤ 0x7E) :
    SameTest (ns.map UInt8.ofNat).contains (ns.map Char.ofNat).contains := by
  induction ns with
  | nil => exact ⟨fun _ _ _ => rfl, fun _ _ => rfl, fun _ h => nomatch h⟩
  | cons n ns ih =>
      have hor := (single n (hns n List.mem_cons_self)).or (ih fun m hm => hns m (List.mem_cons_of_mem n hm))
      show SameTest (fun b => (UInt8.ofNat n :: ns.map UInt8.ofNat).contains b)
        (fun c => (Char.ofNat n :: ns.map Char.ofNat).contains c)
      simpa only [List.contains_cons] using hor

/-- The letters. -/
theorem sameTest_letter : SameTest isAsciiAlphabetic isLetter :=
  (SameTest.range 0x41 0x5A (by decide) (by decide)).or (.range 0x61 0x7A (by decide) (by decide))

/-- Letters and digits. -/
theorem sameTest_word : SameTest isAsciiAlphanumeric isWordChar :=
  sameTest_letter.or (.range 0x30 0x39 (by decide) (by decide))

/-- The characters of a value. -/
theorem sameTest_value : SameTest isValueByte isValueChar :=
  ((((SameTest.range 0x21 0x7E (by decide) (by decide)).or (.single 0x20 (by decide))).or
    (.single 0x09 (by decide))).or (.single 0x0D (by decide))).or (.single 0x0A (by decide))

/-- The characters of a scheme. -/
theorem sameTest_scheme : SameTest isSchemeByte isSchemeChar :=
  sameTest_word.or (.single 0x5F (by decide))

/-- The characters of a token. -/
theorem sameTest_token : SameTest isTokenByte isTokenChar :=
  sameTest_word.or (.contains [0x2D, 0x5F, 0x7E, 0x2B, 0x2F, 0x2E] (by decide))

/-- One or more of the characters of a test. -/
theorem SameTest.nonempty_all_iff {onBytes : UInt8 → Bool} {onChars : Char → Bool}
    (h : SameTest onBytes onChars) (s : List Char) :
    (!s.isEmpty && (bytesOf s).all onBytes) = true ↔ s ≠ [] ∧ ∀ c ∈ s, onChars c = true := by
  rw [h.all_bytesOf, Bool.and_eq_true, Bool.not_eq_true', List.isEmpty_eq_false_iff, List.all_eq_true]

/-- The parser's keys are those of the grammar. -/
theorem isKvpairKey_iff {key : List Char} : isKvpairKey key = true ↔ Key key :=
  sameTest_letter.nonempty_all_iff key

/-- So are its values. -/
theorem isKvpairValue_iff {value : List Char} : isKvpairValue value = true ↔ KvValue value :=
  sameTest_value.nonempty_all_iff value

/-! ## The pieces of a message

Every cut as an equation. -/

/-- What fails the test is not among characters that pass it. -/
theorem notMem_of_all {test : Char → Bool} {c : Char} {s : List Char} (h : ∀ d ∈ s, test d = true)
    (hc : test c = false) : c ∉ s := by
  intro hmem
  rw [h c hmem] at hc
  cases hc

/-- What is trimmed from the start is spaces. -/
theorem exists_spaces (rest : List Char) :
    ∃ spaces, rest = List.replicate spaces ' ' ++ rest.dropWhile (· == ' ') := by
  refine ⟨(rest.takeWhile (· == ' ')).length, ?_⟩
  have hall : rest.takeWhile (· == ' ') = List.replicate (rest.takeWhile (· == ' ')).length ' ' :=
    List.eq_replicate_of_mem fun c hc => eq_of_beq (List.mem_takeWhile_imp (p := (· == ' ')) hc)
  rw [← hall, List.takeWhile_append_dropWhile]

/-- Spaces in front of a body are dropped, and nothing of it. -/
theorem dropWhile_spaces {body : List Char} (hne : body ≠ []) (hspace : ' ' ∉ body) (spaces : Nat)
    (rest : List Char) :
    (List.replicate spaces ' ' ++ (body ++ rest)).dropWhile (· == ' ') = body ++ rest := by
  obtain ⟨c, body, rfl⟩ := List.exists_cons_of_ne_nil hne
  rw [List.dropWhile_append_of_pos fun c hc => beq_iff_eq.mpr (List.eq_of_mem_replicate hc)]
  refine List.dropWhile_cons_of_neg ?_
  rw [beq_iff_eq]
  rintro rfl
  exact hspace List.mem_cons_self

/-- **The value of `auth` is the production.** -/
theorem parseBearerAuth_eq_ok {auth token : List Char} :
    parseBearerAuth auth = .ok token ↔ BearerAuth auth token := by
  unfold parseBearerAuth
  simp only [Results.bind_eq_ok, orMalformed_eq_ok, Prod.exists, splitOnceAt_eq_some]
  constructor
  · rintro ⟨scheme, rest, ⟨hspace, rfl⟩, h⟩
    split at h
    · rename_i hformed
      cases h
      simp only [Bool.and_eq_true, beq_iff_eq] at hformed
      obtain ⟨⟨⟨⟨hne, hscheme⟩, hbody⟩, htoken⟩, hbearer⟩ := hformed
      obtain ⟨spaces, hspaces⟩ := exists_spaces rest
      obtain ⟨padding, hpadding⟩ := exists_replicate_of_rdropWhile '=' (rest.dropWhile (· == ' '))
      refine ⟨scheme, spaces, _, padding, by rw [← hspaces], hpadding, ?_, hbearer, ?_⟩
      · exact (sameTest_scheme.nonempty_all_iff scheme).mp (Bool.and_eq_true_iff.mpr ⟨hne, hscheme⟩)
      · exact (sameTest_token.nonempty_all_iff _).mp (Bool.and_eq_true_iff.mpr ⟨hbody, htoken⟩)
    · cases h
  · rintro ⟨scheme, spaces, body, padding, rfl, rfl, hscheme, hbearer, hbody⟩
    have hspace : ' ' ∉ scheme := notMem_of_all hscheme.2 (by decide)
    refine ⟨scheme, _, ⟨hspace, rfl⟩, ?_⟩
    rw [dropWhile_spaces hbody.1 (notMem_of_all hbody.2 (by decide)),
      rdropWhile_append_replicate (notMem_of_all hbody.2 (by decide)), hbearer, if_pos]
    rw [Bool.and_eq_true, Bool.and_assoc, Bool.and_eq_true]
    exact ⟨⟨(sameTest_scheme.nonempty_all_iff scheme).mpr hscheme,
      (sameTest_token.nonempty_all_iff body).mpr hbody⟩, rfl⟩

/-- A `saslname` never contains a comma. -/
theorem Saslname.comma_notMem {name : List Char} (h : Saslname name) : ',' ∉ name :=
  ((saslChars_iff name).mp h.2).1

/-- **The authorization id of the header**, present or not. -/
theorem parseHeaderAuthzid_eq_ok {message rest : List Char} {authzid : Option (List Char)} :
    parseHeaderAuthzid message = .ok (authzid, rest) ↔
      ∃ part, AuthzidPart part authzid ∧ message = part ++ ',' :: rest := by
  unfold parseHeaderAuthzid
  constructor
  · intro h
    split at h
    · rename_i after hafter
      cases h
      have hmessage : message = [','] ++ rest := stripPrefix_eq_some.mp hafter
      exact ⟨[], .absent, hmessage⟩
    · simp only [Results.bind_eq_ok, orMalformed_eq_ok, Prod.exists, splitOnceAt_eq_some,
        stripPrefix_eq_some] at h
      obtain ⟨field, after, ⟨_, rfl⟩, name, rfl, h⟩ := h
      split at h
      · rename_i hname
        cases h
        exact ⟨_, .present ((isSaslname_iff name).mp hname), rfl⟩
      · cases h
  · rintro ⟨part, hpart, rfl⟩
    cases hpart with
    | absent => rfl
    | present hname =>
        rename_i name
        have hcut : splitOnceAt ',' ('a' :: '=' :: name ++ ',' :: rest) = some ('a' :: '=' :: name, rest) := by
          refine splitOnceAt_append fun hmem => hname.comma_notMem ?_
          simpa using hmem
        have hstrip : stripPrefix ['a', '='] ('a' :: '=' :: name) = some name := stripPrefix_append _ name
        have hcomma : stripPrefix [','] ('a' :: '=' :: name ++ ',' :: rest) = none := by
          rw [stripPrefix_eq_none]
          intro after h
          cases h
        rw [hcomma]
        simp only [Results.bind_eq_ok, orMalformed_eq_ok, Prod.exists]
        exact ⟨_, _, hcut, name, hstrip, if_pos ((isSaslname_iff name).mpr hname)⟩

/-- **The header is the production.** -/
theorem parseGs2Header_eq_ok {message rest : List Char} {authzid : Option (List Char)} :
    parseGs2Header message = .ok (authzid, rest) ↔
      ∃ part, AuthzidPart part authzid ∧ message = 'n' :: ',' :: (part ++ ',' :: kvsep :: rest) := by
  unfold parseGs2Header
  simp only [Results.bind_eq_ok, orMalformed_eq_ok, Prod.exists, stripPrefix_eq_some,
    parseHeaderAuthzid_eq_ok, Results.pure_eq_ok, Prod.mk.injEq]
  constructor
  · rintro ⟨_, rfl, authzid, _, ⟨part, hpart, rfl⟩, _, rfl, rfl, rfl⟩
    exact ⟨part, hpart, rfl⟩
  · rintro ⟨part, hpart, rfl⟩
    exact ⟨_, rfl, authzid, _, ⟨part, hpart, rfl⟩, rest, rfl, rfl, rfl⟩

/-- One kvpair. -/
theorem readPair_eq_ok {auth auth' : Option (List Char)} {pair : List Char} :
    readPair auth pair = .ok auth' ↔
      ∃ p : List Char × List Char, pair = pairText p ∧ (Key p.1 ∧ KvValue p.2) ∧
        auth' = if p.1 = authKey then some p.2 else auth := by
  unfold readPair
  simp only [Results.bind_eq_ok, orMalformed_eq_ok, Prod.exists, splitOnceAt_eq_some]
  constructor
  · rintro ⟨key, value, ⟨_, rfl⟩, h⟩
    split at h
    · cases h
    · rename_i hformed
      simp only [Bool.not_eq_true, Bool.or_eq_false_iff, Bool.not_eq_false'] at hformed
      exact ⟨key, value, rfl, ⟨isKvpairKey_iff.mp hformed.1, isKvpairValue_iff.mp hformed.2⟩,
        (Results.pure_eq_ok.mp h).symm⟩
  · rintro ⟨key, value, rfl, ⟨hkey, hvalue⟩, rfl⟩
    refine ⟨key, value, ⟨notMem_of_all hkey.2 (by decide), rfl⟩, ?_⟩
    rw [isKvpairKey_iff.mpr hkey, isKvpairValue_iff.mpr hvalue]
    rfl

/-! ## The kvpairs

A fold that keeps the last value of one key, and fails at a pair that is none. -/

/-- What the loop keeps of a kvpair. -/
def keepAuth (auth : Option (List Char)) (p : List Char × List Char) : Option (List Char) :=
  if p.1 = authKey then some p.2 else auth

/-- The pairs are read in order, and the last `auth` stays. -/
theorem foldlM_readPair_eq_ok {segs : List (List Char)} {auth auth' : Option (List Char)} :
    segs.foldlM readPair auth = .ok auth' ↔
      ∃ pairs : List (List Char × List Char), segs = pairs.map pairText ∧
        (∀ p ∈ pairs, Key p.1 ∧ KvValue p.2) ∧ auth' = pairs.foldl keepAuth auth := by
  induction segs generalizing auth with
  | nil =>
      constructor
      · intro h
        cases h
        exact ⟨[], rfl, fun p hp => absurd hp List.not_mem_nil, rfl⟩
      · rintro ⟨pairs, hpairs, _, rfl⟩
        rw [List.map_eq_nil_iff.mp hpairs.symm]
        rfl
  | cons seg segs ih =>
      rw [List.foldlM_cons, Results.bind_eq_ok]
      simp only [readPair_eq_ok, ih]
      constructor
      · rintro ⟨_, ⟨p, rfl, hp, rfl⟩, pairs, rfl, hpairs, rfl⟩
        exact ⟨p :: pairs, rfl, List.forall_mem_cons.mpr ⟨hp, hpairs⟩, rfl⟩
      · rintro ⟨pairs, hsegs, hpairs, rfl⟩
        cases pairs with
        | nil => cases hsegs
        | cons p pairs =>
            obtain ⟨rfl, rfl⟩ := List.cons.inj hsegs
            rw [List.forall_mem_cons] at hpairs
            exact ⟨_, ⟨p, rfl, hpairs.1, rfl⟩, pairs, rfl, hpairs.2, rfl⟩

/-- No pair holds the separator. -/
theorem kvsep_notMem_pairText {p : List Char × List Char} (h : Key p.1 ∧ KvValue p.2) :
    kvsep ∉ pairText p := by
  unfold pairText
  rw [List.mem_append, List.mem_cons, not_or, not_or]
  exact ⟨notMem_of_all h.1.2 (by decide), by decide, notMem_of_all h.2.2 (by decide)⟩

theorem flatMap_pairText (pairs : List (List Char × List Char)) :
    pairs.flatMap (pairText · ++ [kvsep]) = (pairs.map pairText).flatMap (· ++ [kvsep]) := by
  rw [List.flatMap_map]

/-- **The kvpairs are read one by one, whatever their values hold.** -/
theorem readPairs_eq_ok {kvpairs : List Char} {auth : Option (List Char)} :
    readPairs kvpairs = .ok auth ↔
      ∃ pairs : List (List Char × List Char), kvpairs = pairs.flatMap (pairText · ++ [kvsep]) ∧
        (∀ p ∈ pairs, Key p.1 ∧ KvValue p.2) ∧ auth = pairs.foldl keepAuth none := by
  unfold readPairs
  split
  · rename_i hempty
    rw [List.isEmpty_iff] at hempty
    subst hempty
    constructor
    · intro h
      cases h
      exact ⟨[], rfl, fun p hp => absurd hp List.not_mem_nil, rfl⟩
    · rintro ⟨pairs, hpairs, _, rfl⟩
      cases pairs with
      | nil => rfl
      | cons p pairs =>
          have hlen := congrArg List.length hpairs
          simp at hlen
  · rename_i hne
    rw [List.isEmpty_iff] at hne
    simp only [Results.bind_eq_ok, orMalformed_eq_ok, stripSuffix_eq_some, foldlM_readPair_eq_ok]
    constructor
    · rintro ⟨body, rfl, pairs, hsplit, hpairs, rfl⟩
      refine ⟨pairs, ?_, hpairs, rfl⟩
      rw [append_eq_flatMap_splitOn, hsplit, flatMap_pairText]
    · rintro ⟨pairs, rfl, hpairs, rfl⟩
      have hsegs : pairs.map pairText ≠ [] := by
        rintro hnil
        rw [List.map_eq_nil_iff.mp hnil] at hne
        exact hne rfl
      have hbody := intercalate_append kvsep hsegs
      rw [← flatMap_pairText] at hbody
      refine ⟨_, hbody.symm, pairs, ?_, hpairs, rfl⟩
      refine List.splitOn_intercalate kvsep ?_ hsegs
      intro seg hseg
      obtain ⟨p, hp, rfl⟩ := List.mem_map.mp hseg
      exact kvsep_notMem_pairText (hpairs p hp)

/-- **The last `auth` wins.** -/
theorem foldl_keepAuth_eq_some {pairs : List (List Char × List Char)} {value : List Char} :
    pairs.foldl keepAuth none = some value ↔ LastAuth pairs value :=
  Collections.foldl_overwrite_eq_some

/-! ## The message

The pieces put together, in both directions. -/

/-- **A response is accepted exactly when it is a message of the grammar whose last `auth` value is a bearer
token, and that token and the name of the header are what is returned.** -/
theorem parseClientInitialResponse_iff (bytes : List UInt8) (response : ClientInitialResponse) :
    parseClientInitialResponse bytes = .ok response ↔
      ∃ message pairs value, bytes = bytesOf message ∧ Message message response.authzid pairs ∧
        LastAuth pairs value ∧ BearerAuth value response.token := by
  unfold parseClientInitialResponse
  simp only [Results.bind_eq_ok, Results.mapError_eq_ok, orMalformed_eq_ok, Prod.exists, charsOf_eq_ok,
    parseGs2Header_eq_ok, stripSuffix_eq_some, readPairs_eq_ok, parseBearerAuth_eq_ok, Results.pure_eq_ok]
  constructor
  · rintro ⟨message, rfl, authzid, _, ⟨part, hpart, rfl⟩, _, rfl, _, ⟨pairs, rfl, hpairs, rfl⟩, value, hlast,
      token, hbearer, rfl⟩
    exact ⟨_, pairs, value, rfl, ⟨⟨part, hpart, rfl⟩, hpairs⟩, foldl_keepAuth_eq_some.mp hlast, hbearer⟩
  · rintro ⟨_, pairs, value, rfl, ⟨⟨part, hpart, rfl⟩, hpairs⟩, hlast, hbearer⟩
    exact ⟨_, rfl, response.authzid, _, ⟨part, hpart, rfl⟩, _, rfl, _, ⟨pairs, rfl, hpairs, rfl⟩, value,
      foldl_keepAuth_eq_some.mpr hlast, response.token, hbearer, rfl⟩

end Krabka.Security.OAuthBearer
