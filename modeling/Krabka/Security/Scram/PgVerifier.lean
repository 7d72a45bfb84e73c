import Krabka.Lib.Cutting
import Krabka.Security.Scram.Completeness

/-!
# `Security.Scram.PgVerifier` — credentials in PostgreSQL's textual form

`scram/pg_verifier.rs`: a SCRAM-SHA-256 credential is kept as
`SCRAM-SHA-256$<iterations>:<salt>$<stored key>:<server key>`, with the byte strings in padded base64. The
parser cuts the text at its separators and checks each field; a text it accepts is the written form of what
it returns, except that a `u32` may be spelled with a `+` or with zeros in front (`parseFields_eq_ok`). A
verifier that was generated from a password lets that password through the handshake after it has been
written and read back (`generated_authenticates`).
-/

namespace Krabka.Security.Scram

open ByteStream Text

def postgresScramSha256Prefix : List Char := "SCRAM-SHA-256".toList
def sha256KeyLen : Nat := 32

structure PgScramVerifier where
  iterations : UInt32
  salt : Bytes
  storedKey : Bytes
  serverKey : Bytes
deriving DecidableEq, Repr

inductive ScramError where
  | malformedVerifier
  | unsupportedMechanism
  | invalidIterations
  | emptySalt
  | invalidBase64
  | invalidKeyLength (field : String) (expected actual : Nat)
  | randomUnavailable
deriving DecidableEq, Repr

/-! ## Writing

The text that PostgreSQL keeps in its catalogue. -/

/-- The textual form around a spelling of the iteration count. -/
def verifierText [B64] (count : List Char) (salt storedKey serverKey : Bytes) : List Char :=
  postgresScramSha256Prefix ++ '$' :: (count ++ ':' :: B64.encode salt ++
    '$' :: (B64.encode storedKey ++ ':' :: B64.encode serverKey))

def PgScramVerifier.display [B64] (v : PgScramVerifier) : List Char :=
  verifierText (showU32 v.iterations) v.salt v.storedKey v.serverKey

/-! ## Reading

The text is cut at its separators. Every field is checked by itself, and every failure is the same error. -/

def parseIterationsAndSalt [B64] (input : List Char) : Except ScramError (UInt32 × Bytes) := do
  let (iterations, saltB64) ← Results.okOr .malformedVerifier (splitOnceAt ':' input)
  if ':' ∈ saltB64 then .error .malformedVerifier
  else do
    let iterations ← (parseU32 iterations).mapError fun _ => ScramError.malformedVerifier
    if iterations = 0 then .error .invalidIterations
    else do
      let salt ← Results.okOr .invalidBase64 (B64.decode saltB64)
      if salt.isEmpty then .error .emptySalt
      else pure (iterations, salt)

def requireKeyLen (field : String) (key : Bytes) : Except ScramError Unit :=
  if key.length = sha256KeyLen then .ok ()
  else .error (.invalidKeyLength field sha256KeyLen key.length)

def parseKeyPair [B64] (input : List Char) : Except ScramError (Bytes × Bytes) := do
  let (storedKeyB64, serverKeyB64) ← Results.okOr .malformedVerifier (splitOnceAt ':' input)
  if ':' ∈ serverKeyB64 then .error .malformedVerifier
  else do
    let storedKey ← Results.okOr .invalidBase64 (B64.decode storedKeyB64)
    let serverKey ← Results.okOr .invalidBase64 (B64.decode serverKeyB64)
    let _ ← requireKeyLen "stored_key" storedKey
    let _ ← requireKeyLen "server_key" serverKey
    pure (storedKey, serverKey)

/-- `PgScramVerifier::parse`, which `FromStr` is as well. -/
def PgScramVerifier.parseFields [B64] (verifier : List Char) : Except ScramError PgScramVerifier := do
  let (mechanism, rest) ← Results.okOr .malformedVerifier (splitOnceAt '$' verifier)
  if mechanism ≠ postgresScramSha256Prefix then .error .unsupportedMechanism
  else do
    let (iterationsAndSalt, keys) ← Results.okOr .malformedVerifier (splitOnceAt '$' rest)
    if '$' ∈ keys then .error .malformedVerifier
    else do
      let (iterations, salt) ← parseIterationsAndSalt iterationsAndSalt
      let (storedKey, serverKey) ← parseKeyPair keys
      pure ⟨iterations, salt, storedKey, serverKey⟩

/-! ## Generating

A verifier is made from a password by the key derivation of the handshake, with a salt that is drawn or given.
-/

def sha256Mechanism : ScramMechanism := ⟨.scramSha256, rfl⟩

def PgScramVerifier.fromSha256Credential (credential : ScramCredential) : PgScramVerifier :=
  ⟨credential.iterations, credential.salt, credential.storedKey, credential.serverKey⟩

def ScramCredential.fromVerifier (v : PgScramVerifier) : ScramCredential :=
  ⟨sha256Mechanism, v.salt, v.storedKey, v.serverKey, v.iterations⟩

def PgScramVerifier.generateWithSalt (prims : Primitives) (password : List Char) (iterations : UInt32)
    (salt : Bytes) : Except ScramError PgScramVerifier :=
  if iterations = 0 then .error .invalidIterations
  else if salt.isEmpty then .error .emptySalt
  else .ok (fromSha256Credential
    (hashScramPasswordWithSalt prims (bytesOf password) sha256Mechanism iterations salt))

/-- `generate`, with the sixteen bytes that the system's generator fills in as an argument. -/
def PgScramVerifier.generate (prims : Primitives) (password : List Char) (iterations : UInt32)
    (random : Option { salt : Bytes // salt.length = 16 }) : Except ScramError PgScramVerifier :=
  if iterations = 0 then .error .invalidIterations
  else do
    let salt ← Results.okOr .randomUnavailable random
    .ok (fromSha256Credential
      (hashScramPasswordWithSalt prims (bytesOf password) sha256Mechanism iterations salt.val))

/-! ## What is accepted

The separators are not in the base64 alphabet and no digits, so the cuts are where they were made. The count
alone has more than one spelling. -/

/-- The checks on the fields. -/
structure PgScramVerifier.Valid (v : PgScramVerifier) : Prop where
  iterations : v.iterations ≠ 0
  salt : v.salt ≠ []
  storedKey : v.storedKey.length = sha256KeyLen
  serverKey : v.serverKey.length = sha256KeyLen

theorem notMem_encode_of [B64] {c : Char} (hsymbol : Base64.isSymbol c = false) (hpad : c ≠ '=') (bs : Bytes) :
    c ∉ B64.encode bs := by
  intro hc
  rcases (B64.shape_encode bs).mem hc with h | h
  · rw [hsymbol] at h
    cases h
  · exact hpad h

/-- A decimal spelling holds digits and no other character but `+`. -/
theorem notMem_of_parseU32 {count : List Char} {n : UInt32} (h : parseU32 count = .ok n) {c : Char}
    (hdigit : c.isDigit = false) (hplus : c ≠ '+') : c ∉ count := by
  intro hc
  have hdigits : ∀ d ∈ digitsOf count, d.isDigit = true := (parseU32_eq_ok.mp h).2.1
  have hfound : c ∈ digitsOf count := by
    unfold digitsOf
    split
    · rcases List.mem_cons.mp hc with hc | hrest
      · exact absurd hc hplus
      · exact hrest
    · exact hc
  rw [hdigits c hfound] at hdigit
  cases hdigit

theorem requireKeyLen_eq_ok {field : String} {key : Bytes} :
    requireKeyLen field key = .ok () ↔ key.length = sha256KeyLen := by
  unfold requireKeyLen
  split_ifs with hlen <;> simp [hlen]

theorem parseIterationsAndSalt_eq_ok [B64] {input : List Char} {iterations : UInt32} {salt : Bytes} :
    parseIterationsAndSalt input = .ok (iterations, salt) ↔ iterations ≠ 0 ∧ salt ≠ [] ∧
      ∃ count, parseU32 count = .ok iterations ∧ input = count ++ ':' :: B64.encode salt := by
  unfold parseIterationsAndSalt
  simp only [Results.bind_eq_ok, Results.okOr_eq_ok, Prod.exists, splitOnceAt_eq_some]
  constructor
  · rintro ⟨count, saltB64, ⟨-, rfl⟩, h⟩
    split_ifs at h with hcolon
    obtain ⟨n, hn, h⟩ := Results.bind_eq_ok.mp h
    split_ifs at h with hzero
    obtain ⟨bytes, hbytes, h⟩ := Results.bind_eq_ok.mp h
    split_ifs at h with hempty
    cases h
    rw [Results.okOr_eq_ok, B64.decode_eq_some] at hbytes
    exact ⟨hzero, by simpa using hempty, count, Results.mapError_eq_ok.mp hn, by rw [hbytes]⟩
  · rintro ⟨hzero, hne, count, hcount, rfl⟩
    have hcolon := notMem_of_parseU32 (c := ':') hcount (by decide) (by decide)
    refine ⟨count, B64.encode salt, ⟨hcolon, rfl⟩, ?_⟩
    rw [if_neg (notMem_encode_of (by decide) (by decide) salt), hcount]
    show (if iterations = 0 then _ else _) = _
    rw [if_neg hzero, B64.decode_encode]
    show (if salt.isEmpty then _ else _) = _
    rw [if_neg (by simpa using hne)]
    rfl

theorem parseKeyPair_eq_ok [B64] {input : List Char} {storedKey serverKey : Bytes} :
    parseKeyPair input = .ok (storedKey, serverKey) ↔
      storedKey.length = sha256KeyLen ∧ serverKey.length = sha256KeyLen ∧
        input = B64.encode storedKey ++ ':' :: B64.encode serverKey := by
  unfold parseKeyPair
  simp only [Results.bind_eq_ok, Results.okOr_eq_ok, Prod.exists, splitOnceAt_eq_some]
  constructor
  · rintro ⟨storedKeyB64, serverKeyB64, ⟨-, rfl⟩, h⟩
    split_ifs at h with hcolon
    simp only [Results.bind_eq_ok, Results.okOr_eq_ok, B64.decode_eq_some] at h
    obtain ⟨stored, rfl, server, rfl, _, hstored, _, hserver, h⟩ := h
    cases h
    exact ⟨requireKeyLen_eq_ok.mp hstored, requireKeyLen_eq_ok.mp hserver, rfl⟩
  · rintro ⟨hstored, hserver, rfl⟩
    refine ⟨B64.encode storedKey, B64.encode serverKey,
      ⟨notMem_encode_of (by decide) (by decide) storedKey, rfl⟩, ?_⟩
    rw [if_neg (notMem_encode_of (by decide) (by decide) serverKey), B64.decode_encode,
      B64.decode_encode]
    simp only [Results.okOr_some, Results.ok_bind, requireKeyLen_eq_ok.mpr hstored,
      requireKeyLen_eq_ok.mpr hserver]
    rfl

/-- A written verifier is read back, whichever way its iteration count is spelled. -/
theorem PgScramVerifier.parseFields_verifierText [B64] {v : PgScramVerifier} (hv : v.Valid) {count : List Char}
    (hcount : parseU32 count = .ok v.iterations) :
    parseFields (verifierText count v.salt v.storedKey v.serverKey) = .ok v := by
  have hbase64 := notMem_encode_of (c := '$') (by decide) (by decide)
  have hfront : '$' ∉ count ++ ':' :: B64.encode v.salt := by
    simp [notMem_of_parseU32 (c := '$') hcount (by decide) (by decide), hbase64]
  have hkeys : '$' ∉ B64.encode v.storedKey ++ ':' :: B64.encode v.serverKey := by
    simp [hbase64]
  unfold parseFields
  simp only [Results.bind_eq_ok, Results.okOr_eq_ok, Prod.exists, splitOnceAt_eq_some]
  refine ⟨postgresScramSha256Prefix, _, ⟨by decide, rfl⟩, ?_⟩
  rw [if_neg (not_not.mpr rfl)]
  simp only [Results.bind_eq_ok, Results.okOr_eq_ok, Prod.exists, splitOnceAt_eq_some]
  refine ⟨_, _, ⟨hfront, rfl⟩, ?_⟩
  rw [if_neg hkeys]
  simp only [Results.bind_eq_ok, Prod.exists, parseIterationsAndSalt_eq_ok, parseKeyPair_eq_ok]
  exact ⟨v.iterations, v.salt, ⟨hv.iterations, hv.salt, count, hcount, rfl⟩, v.storedKey, v.serverKey,
    ⟨hv.storedKey, hv.serverKey, rfl⟩, rfl⟩

theorem PgScramVerifier.parseFields_display [B64] {v : PgScramVerifier} (h : v.Valid) :
    parseFields v.display = .ok v :=
  parseFields_verifierText h (parseU32_showU32 v.iterations)

/-- **The parser accepts exactly the written verifiers**, up to the spelling of the iteration count. -/
theorem PgScramVerifier.parseFields_eq_ok [B64] {text : List Char} {v : PgScramVerifier} :
    parseFields text = .ok v ↔ v.Valid ∧
      ∃ count, parseU32 count = .ok v.iterations ∧
        text = verifierText count v.salt v.storedKey v.serverKey := by
  constructor
  · unfold parseFields
    simp only [Results.bind_eq_ok, Results.okOr_eq_ok, Prod.exists, splitOnceAt_eq_some]
    rintro ⟨mechanism, rest, ⟨-, rfl⟩, h⟩
    split_ifs at h with hmechanism
    simp only [Results.bind_eq_ok, Results.okOr_eq_ok, Prod.exists, splitOnceAt_eq_some] at h
    obtain ⟨front, keys, ⟨-, rfl⟩, h⟩ := h
    split_ifs at h with hdollar
    simp only [Results.bind_eq_ok, Prod.exists, parseIterationsAndSalt_eq_ok, parseKeyPair_eq_ok] at h
    obtain ⟨iterations, salt, ⟨hiterations, hsalt, count, hcount, rfl⟩, storedKey, serverKey,
      ⟨hstored, hserver, rfl⟩, h⟩ := h
    cases h
    have hmech : mechanism = postgresScramSha256Prefix := by simpa using hmechanism
    refine ⟨⟨hiterations, hsalt, hstored, hserver⟩, count, hcount, ?_⟩
    rw [hmech]
    simp [verifierText]
  · rintro ⟨hv, count, hcount, rfl⟩
    exact parseFields_verifierText hv hcount

/-! ## What is generated

The credential of a verifier that was read back is that of the one that was generated, so the handshake
completes with it. -/

/-- A verifier that the password got, with a fresh salt or a given one. -/
def PgScramVerifier.Generated (prims : Primitives) (password : List Char) (v : PgScramVerifier) : Prop :=
  (∃ iterations random, generate prims password iterations random = .ok v) ∨
    ∃ iterations salt, generateWithSalt prims password iterations salt = .ok v

/-- Either way it holds the credential that a server hashes, and passes the parser's checks. -/
theorem PgScramVerifier.Generated.credential {prims : Primitives} {password : List Char}
    {v : PgScramVerifier} (h : v.Generated prims password)
    (hhash : ∀ data, (prims.hash .sha256 data).length = sha256KeyLen) :
    v.Valid ∧ ∃ iterations salt, ScramCredential.fromVerifier v =
      hashScramPasswordWithSalt prims (bytesOf password) sha256Mechanism iterations salt := by
  have hvalid : ∀ {iterations salt}, iterations ≠ 0 → salt ≠ [] → (fromSha256Credential
      (hashScramPasswordWithSalt prims (bytesOf password) sha256Mechanism iterations salt)).Valid :=
    fun hzero hne => ⟨hzero, hne, hhash _, prims.length_hmac _ _ _⟩
  rcases h with ⟨iterations, random, h⟩ | ⟨iterations, salt, h⟩
  · unfold generate at h
    split_ifs at h with hzero
    obtain ⟨salt, -, h⟩ := Results.bind_eq_ok.mp h
    cases h
    have hne : salt.val ≠ [] := List.ne_nil_of_length_pos (by rw [salt.property]; decide)
    exact ⟨hvalid hzero hne, iterations, salt.val, rfl⟩
  · unfold generateWithSalt at h
    split_ifs at h with hzero hempty
    cases h
    exact ⟨hvalid hzero (by simpa using hempty), iterations, salt, rfl⟩

/-- **A generated verifier authenticates its password after it has been stored as text.** -/
theorem PgScramVerifier.generated_authenticates [B64] (prims : Primitives)
    (hhash : ∀ data, (prims.hash .sha256 data).length = sha256KeyLen) (password : List Char)
    {v : PgScramVerifier} (hv : v.Generated prims password) (client : ScramClientExchange)
    (hpassword : client.password = bytesOf password) (hmechanism : client.mechanism = sha256Mechanism)
    (hname : client.username ≠ []) (hsend : Sendable client.extensions) (clientNonce serverNonce : List Char)
    (hclientNonce : isPrintable clientNonce = true)
    (hprint : isPrintable (clientNonce ++ serverNonce) = true) :
    ∃ stored, parseFields v.display = .ok stored ∧
      Completes prims client (.new client.username (.fromVerifier stored)) clientNonce serverNonce
        ⟨client.username, .saslScramSha256, []⟩ := by
  obtain ⟨hvalid, iterations, salt, hcredential⟩ := hv.credential hhash
  have hcompletes := client.completes prims hname hsend salt iterations hclientNonce hprint
  refine ⟨v, parseFields_display hvalid, ?_⟩
  rw [hcredential]
  rw [hpassword, hmechanism] at hcompletes
  exact hcompletes

/-- The password `pw` with the salt `1 2 3`, for a client that names no extension. -/
theorem PgScramVerifier.generated_authenticates_noExtension :
    ∃ v stored, PgScramVerifier.generateWithSalt sha256Primitives ['p', 'w'] 4096 [1, 2, 3] = .ok v ∧
      parseFields v.display = .ok stored ∧
      Completes sha256Primitives (.new ['a'] (bytesOf ['p', 'w']) sha256Mechanism)
        (.new ['a'] (.fromVerifier stored)) ['r', '0'] ['s', '1'] ⟨['a'], .saslScramSha256, []⟩ := by
  obtain ⟨stored, hparse, hcompletes⟩ := PgScramVerifier.generated_authenticates sha256Primitives
    (fun data => Sha256.length_sha256 data) ['p', 'w'] (v := _) (Or.inr ⟨4096, [1, 2, 3], rfl⟩)
    (.new ['a'] (bytesOf ['p', 'w']) sha256Mechanism) rfl rfl (by decide)
    ⟨fun e he => absurd he List.not_mem_nil, List.nodup_nil⟩
    ['r', '0'] ['s', '1'] (by decide) (by decide)
  exact ⟨_, stored, rfl, hparse, hcompletes⟩

end Krabka.Security.Scram
