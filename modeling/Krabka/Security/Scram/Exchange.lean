import Krabka.Security.Scram.Messages

/-!
# `Security.Scram.Exchange` — both sides of a SCRAM handshake

`scram/mod.rs`, `scram/client.rs` and `scram/server.rs`. Client and server are state machines with a type
for each phase; a random nonce is an argument, `none` when the system's generator fails. HMAC, the hash and
PBKDF2 are library primitives, the same functions on both sides.
-/

namespace Krabka.Security.Scram

open ByteStream Text

/-! ## Primitives

The hash with its length, the keyed hash and the key derivation enter as functions. Nothing is asked of them
but that both sides use the same ones. -/

inductive ScramHash where
  | sha256
  | sha512
deriving DecidableEq, Repr

def ScramHash.len : ScramHash → Nat
  | .sha256 => 32
  | .sha512 => 64

/-- The library functions, with the length that an HMAC's type gives it. -/
structure Primitives where
  hmac : ScramHash → Bytes → Bytes → Bytes
  hash : ScramHash → Bytes → Bytes
  pbkdf2 : ScramHash → Bytes → Bytes → UInt32 → Bytes
  length_hmac : ∀ h key data, (hmac h key data).length = h.len

/-- A mechanism that is SCRAM, which both constructors of the source assert. -/
abbrev ScramMechanism := { m : SaslMechanism // m.isScram = true }

def ScramMechanism.hash (m : ScramMechanism) : ScramHash :=
  if m.val = .scramSha512 then .sha512 else .sha256

/-- `a.iter().zip(b).map(|(a, b)| a ^ b)`. -/
def xorBytes (a b : Bytes) : Bytes := List.zipWith (· ^^^ ·) a b

def clientKeyLabel : Bytes := [0x43, 0x6C, 0x69, 0x65, 0x6E, 0x74, 0x20, 0x4B, 0x65, 0x79]
def serverKeyLabel : Bytes := [0x53, 0x65, 0x72, 0x76, 0x65, 0x72, 0x20, 0x4B, 0x65, 0x79]

/-! ## Credentials

What a server keeps of a password: a salt, an iteration count, and the stored and the server key. -/

structure ScramCredential where
  mechanism : ScramMechanism
  salt : Bytes
  storedKey : Bytes
  serverKey : Bytes
  iterations : UInt32

/-- The stored key and the server key. -/
def deriveKeysWith (prims : Primitives) (h : ScramHash) (salted : Bytes) : Bytes × Bytes :=
  (prims.hash h (prims.hmac h salted clientKeyLabel), prims.hmac h salted serverKeyLabel)

def hashScramPasswordWithSalt (prims : Primitives) (password : Bytes) (mechanism : ScramMechanism)
    (iterations : UInt32) (salt : Bytes) : ScramCredential :=
  let (storedKey, serverKey) :=
    deriveKeysWith prims mechanism.hash (prims.pbkdf2 mechanism.hash password salt iterations)
  ⟨mechanism, salt, storedKey, serverKey, iterations⟩

/-! ## The client

Three states, one after the other. A step takes the server's message and either fails or gives the next
message with the next state. -/

structure ScramClientExchange where
  username : List Char
  password : Bytes
  mechanism : ScramMechanism
  extensions : List Extension

structure AwaitingServerFirst where
  username : List Char
  password : Bytes
  mechanism : ScramMechanism
  clientFirstBare : List Char
  clientNonce : List Char

structure AwaitingServerFinal where
  mechanism : ScramMechanism
  username : List Char
  authMessage : List Char
  serverKey : Bytes

def ScramClientExchange.new (username : List Char) (password : Bytes) (mechanism : ScramMechanism) :
    ScramClientExchange :=
  ⟨username, password, mechanism, []⟩

/-- A repeated key keeps its first position and takes the last value. -/
def setExtension (key value : List Char) : List Extension → List Extension
  | [] => [(key, value)]
  | (k, v) :: rest => if k = key then (k, value) :: rest else (k, v) :: setExtension key value rest

def ScramClientExchange.withExtensions (c : ScramClientExchange) :
    List Extension → Except AuthError ScramClientExchange
  | [] => .ok c
  | (key, value) :: rest =>
      if !isExtension key value then .error .malformedMessage
      else withExtensions { c with extensions := setExtension key value c.extensions } rest

def ScramClientExchange.clientFirst (c : ScramClientExchange) (rng : Option (List Char)) :
    Except AuthError (Bytes × AwaitingServerFirst) := do
  let clientNonce ← orMalformed rng
  let bare := bareOf (encodeSaslname c.username) clientNonce c.extensions
  return (bytesOf (['n', ',', ','] ++ bare),
    { username := c.username
      password := c.password
      mechanism := c.mechanism
      clientFirstBare := bare
      clientNonce := clientNonce })

/-- The attributes of a server-first message found so far. -/
structure ServerFirst where
  nonce : Option (List Char) := none
  salt : Option Bytes := none
  iterations : Option UInt32 := none

def ServerFirst.read [B64] (s : ServerFirst) (attr : List Char) : Except AuthError ServerFirst :=
  match stripPrefix ['r', '='] attr with
  | some v => .ok { s with nonce := some v }
  | none =>
      match stripPrefix ['s', '='] attr with
      | some v => do
          let salt ← orMalformed (B64.decode v)
          return { s with salt := some salt }
      | none =>
          match stripPrefix ['i', '='] attr with
          | some v => do
              let iterations ← (parseU32 v).mapError fun _ => .malformedMessage
              return { s with iterations := some iterations }
          | none => .ok s

/-- `compute_proof_sha256` and `compute_proof_sha512`: the proof and the server key. -/
def computeProof (prims : Primitives) (h : ScramHash) (password salt : Bytes) (iterations : UInt32)
    (authMessage : Bytes) : Bytes × Bytes :=
  let salted := prims.pbkdf2 h password salt iterations
  let clientKey := prims.hmac h salted clientKeyLabel
  let storedKey := prims.hash h clientKey
  let serverKey := prims.hmac h salted serverKeyLabel
  let clientSignature := prims.hmac h storedKey authMessage
  (xorBytes clientKey clientSignature, serverKey)

def gs2Header : List Char := ['n', ',', ',']

def authMessageOf (clientFirstBare serverFirst clientFinalNoProof : List Char) : List Char :=
  clientFirstBare ++ [','] ++ serverFirst ++ [','] ++ clientFinalNoProof

def AwaitingServerFirst.step [B64] (prims : Primitives) (c : AwaitingServerFirst) (serverBytes : Bytes) :
    Except AuthError (Bytes × AwaitingServerFinal) := do
  let s ← readUtf8 serverBytes
  let found ← (s.splitOn ',').foldlM ServerFirst.read {}
  let combinedNonce ← orMalformed found.nonce
  let salt ← orMalformed found.salt
  let iterations ← orMalformed found.iterations
  if !c.clientNonce.isPrefixOf combinedNonce then .error .badProof
  else
    let clientFinalNoProof := withoutProofOf (bytesOf gs2Header) combinedNonce
    let authMessage := authMessageOf c.clientFirstBare s clientFinalNoProof
    let (proof, serverKey) :=
      computeProof prims c.mechanism.hash c.password salt iterations (bytesOf authMessage)
    return (bytesOf (clientFinalNoProof ++ [',', 'p', '='] ++ B64.encode proof),
      { mechanism := c.mechanism
        username := c.username
        authMessage := authMessage
        serverKey := serverKey })

def AwaitingServerFinal.verifyServerFinal [B64] (prims : Primitives) (c : AwaitingServerFinal)
    (serverBytes : Bytes) : Except AuthError Unit := do
  let s ← readUtf8 serverBytes
  let encoded ← orMalformed (stripPrefix ['v', '='] s)
  let v ← orMalformed (B64.decode encoded)
  let expected := prims.hmac c.mechanism.hash c.serverKey (bytesOf c.authMessage)
  if expected = v then return () else .error .badProof

/-! ## The server

Two states and the outcome. It looks the credential up by the name of the first message, and checks in the
second that nonce and channel binding are those it answered. -/

structure AwaitingClientFirst where
  username : List Char
  credential : ScramCredential
  principalOverride : Option Principal

structure AwaitingClientFinal where
  username : List Char
  credential : ScramCredential
  principalOverride : Option Principal
  clientFirstBare : List Char
  serverFirst : List Char

inductive ScramServerExchange where
  | awaitingClientFirst (s : AwaitingClientFirst)
  | awaitingClientFinal (s : AwaitingClientFinal)

inductive StepResult where
  | continue (response : Bytes) (next : ScramServerExchange)
  | done (principal : Principal) (serverFinal : Bytes)
  | failed (e : AuthError)
  | disconnect

def ScramServerExchange.new (username : List Char) (credential : ScramCredential) :
    ScramServerExchange :=
  .awaitingClientFirst ⟨username, credential, none⟩

/-- A step's result, or the failure that ends the exchange. -/
def StepResult.ofExcept : Except AuthError StepResult → StepResult
  | .ok r => r
  | .error e => .failed e

/-- The authorization id in the header is not the user's name. -/
def authzidDiffers (header username : List Char) : Bool :=
  ((stripPrefix ['n', ',', 'a', '='] header).bind (stripSuffix [','])).any (· != username)

def serverFirstOf [B64] (combinedNonce : List Char) (salt : Bytes) (iterations : UInt32) : List Char :=
  ['r', '='] ++ combinedNonce ++ [',', 's', '='] ++ B64.encode salt ++ [',', 'i', '='] ++
    showU32 iterations

def AwaitingClientFirst.step [B64] (s : AwaitingClientFirst) (rng : Option (List Char))
    (clientBytes : Bytes) : StepResult :=
  .ofExcept do
    let clientFirst ← ScramClientFirst.parse clientBytes
    if clientFirst.username ≠ s.username then .error .unknownUser
    else if authzidDiffers clientFirst.gs2Header clientFirst.username then
      .error .authorizationIdMismatch
    else do
      let serverNonce ← orMalformed rng
      let serverFirst := serverFirstOf (clientFirst.nonce ++ serverNonce) s.credential.salt
        s.credential.iterations
      return .continue (bytesOf serverFirst) (.awaitingClientFinal
        { username := s.username
          credential := s.credential
          principalOverride := s.principalOverride
          clientFirstBare := clientFirst.bare
          serverFirst := serverFirst })

/-- The recovered stored key, and the server signature. -/
def verifyAndSignWith (prims : Primitives) (h : ScramHash) (storedKey serverKey proof : Bytes)
    (authMessage : Bytes) : Bytes × Bytes :=
  let clientSignature := prims.hmac h storedKey authMessage
  let clientKey := xorBytes clientSignature proof
  (prims.hash h clientKey, prims.hmac h serverKey authMessage)

/-- The `r=` attribute of the server-first message, up to the first comma. -/
def expectedNonce (serverFirst : List Char) : List Char :=
  ((stripPrefix ['r', '='] serverFirst).bind fun rest => (rest.splitOn ',').head?).getD []

def AwaitingClientFinal.step [B64] (prims : Primitives) (s : AwaitingClientFinal) (clientBytes : Bytes) :
    StepResult :=
  .ofExcept do
    let clientFinal ← ScramClientFinal.parse clientBytes
    if clientFinal.nonce ≠ expectedNonce s.serverFirst then .error .malformedMessage
    else do
      let proof ← orMalformed (B64.javaDecode clientFinal.proof)
      if proof.length ≠ s.credential.mechanism.hash.len then return .disconnect
      else
        let authMessage := authMessageOf s.clientFirstBare s.serverFirst clientFinal.withoutProof
        let (computedStored, serverSignature) :=
          verifyAndSignWith prims s.credential.mechanism.hash s.credential.storedKey
            s.credential.serverKey proof (bytesOf authMessage)
        if computedStored ≠ s.credential.storedKey then .error .badProof
        else
          let principal := s.principalOverride.getD
            { name := s.username
              authMethod := AuthMethod.fromSasl s.credential.mechanism.val
              groups := [] }
          return .done principal (bytesOf (['v', '='] ++ B64.encode serverSignature))

/-- Feeds one client message. -/
def ScramServerExchange.step [B64] (prims : Primitives) (rng : Option (List Char)) :
    ScramServerExchange → Bytes → StepResult
  | .awaitingClientFirst s, clientBytes => s.step rng clientBytes
  | .awaitingClientFinal s, clientBytes => s.step prims clientBytes

end Krabka.Security.Scram
