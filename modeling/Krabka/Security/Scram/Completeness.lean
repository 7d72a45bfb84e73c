import Krabka.Lib.Sha256
import Krabka.Security.Scram.Exchange

/-!
# `Security.Scram.Completeness` — a correct password is accepted

Client and server put the signed message together on their own: the client from what it wrote, the server
from what it parsed. Each message is shown to be read as it was written, so both hold the same first
message, the same nonce and the same channel binding; the proof then recovers the client key, whatever the
primitives are.
-/

namespace Krabka.Security.Scram

open ByteStream Text

/-! ## Extensions of a client

The client sets its extensions one by one. What it holds in the end can be sent, whatever was set before. -/

theorem map_fst_setExtension (key value : List Char) (extensions : List Extension) :
    (setExtension key value extensions).map Prod.fst =
      if key ∈ extensions.map Prod.fst then extensions.map Prod.fst
      else extensions.map Prod.fst ++ [key] := by
  induction extensions with
  | nil => rfl
  | cons e rest ih =>
      obtain ⟨k, v⟩ := e
      unfold setExtension
      by_cases hk : k = key
      · rw [if_pos hk, if_pos (by rw [hk]; exact List.mem_cons_self)]
        rfl
      · rw [if_neg hk, List.map_cons, ih]
        by_cases hmem : key ∈ rest.map Prod.fst
        · rw [if_pos hmem, if_pos (by exact List.mem_cons_of_mem _ hmem)]
          rfl
        · rw [if_neg hmem, if_neg]
          · rfl
          · intro hc
            rcases List.mem_cons.mp hc with hc | hc
            · exact hk hc.symm
            · exact hmem hc

theorem mem_setExtension {key value : List Char} {extensions : List Extension} {e : Extension}
    (h : e ∈ setExtension key value extensions) : e = (key, value) ∨ e ∈ extensions := by
  induction extensions with
  | nil => exact Or.inl (List.mem_singleton.mp h)
  | cons f rest ih =>
      obtain ⟨k, v⟩ := f
      unfold setExtension at h
      split at h
      · rename_i hk
        rcases List.mem_cons.mp h with rfl | h
        · exact Or.inl (by rw [hk])
        · exact Or.inr (List.mem_cons_of_mem _ h)
      · rcases List.mem_cons.mp h with rfl | h
        · exact Or.inr List.mem_cons_self
        · exact (ih h).imp_right (List.mem_cons_of_mem _)

theorem Sendable.setExtension {extensions : List Extension} (h : Sendable extensions)
    {key value : List Char} (he : isExtension key value = true) :
    Sendable (setExtension key value extensions) := by
  constructor
  · intro e hmem
    rcases mem_setExtension hmem with rfl | hmem
    · exact he
    · exact h.grammar e hmem
  · rw [map_fst_setExtension]
    split
    · exact h.distinct
    · rename_i hkey
      exact List.nodup_append.mpr ⟨h.distinct, List.nodup_singleton _, by
        intro a ha b hb hab
        rw [List.mem_singleton.mp hb] at hab
        exact hkey (hab ▸ ha)⟩

/-- Extensions that a client accepts can be sent, and nothing else of it changes. -/
theorem ScramClientExchange.withExtensions_ok {c c' : ScramClientExchange} {extensions : List Extension}
    (h : c.withExtensions extensions = .ok c') (hc : Sendable c.extensions) :
    c'.username = c.username ∧ c'.password = c.password ∧ c'.mechanism = c.mechanism ∧
      Sendable c'.extensions := by
  induction extensions generalizing c with
  | nil =>
      cases h
      exact ⟨rfl, rfl, rfl, hc⟩
  | cons e rest ih =>
      obtain ⟨key, value⟩ := e
      unfold withExtensions at h
      split at h
      · cases h
      · rename_i he
        have hrest := ih h (hc.setExtension (by simpa using he))
        exact hrest

/-! ## The messages in between

The first message of the server holds the nonce of both, the salt and the count; the client reads back just
these. -/

theorem isPrintable_append {a b : List Char} (ha : isPrintable a = true)
    (hb : ∀ c ∈ b, 0x21 ≤ c.toNat ∧ c.toNat ≤ 0x7E ∧ c ≠ ',') : isPrintable (a ++ b) = true := by
  obtain ⟨hne, hall⟩ := isPrintable_iff.mp ha
  refine isPrintable_iff.mpr ⟨fun h => hne (List.append_eq_nil_iff.mp h).1, ?_⟩
  intro c hc
  rcases List.mem_append.mp hc with hc | hc
  · exact hall c hc
  · exact hb c hc

theorem notMem_encode [B64] (bs : Bytes) : ',' ∉ B64.encode bs := by
  intro hc
  rcases (B64.shape_encode bs).mem hc with h | h
  · revert h
    decide
  · cases h

/-- A server-first message after its `r=`, taken apart again. -/
theorem splitOn_serverFirst [B64] {first : List Char} (h : ',' ∉ first) (salt : Bytes)
    (iterations : UInt32) :
    (first ++ [',', 's', '='] ++ B64.encode salt ++ [',', 'i', '='] ++
        showU32 iterations).splitOn ',' =
      [first, ['s', '='] ++ B64.encode salt, ['i', '='] ++ showU32 iterations] := by
  have hjoin : first ++ [',', 's', '='] ++ B64.encode salt ++ [',', 'i', '='] ++ showU32 iterations =
      joinComma [first, ['s', '='] ++ B64.encode salt, ['i', '='] ++ showU32 iterations] := by
    simp [joinComma, List.intercalate]
  rw [hjoin]
  refine splitOn_joinComma (List.cons_ne_nil _ _) ?_
  intro p hp
  rcases List.mem_cons.mp hp with rfl | hp
  · exact h
  · rcases List.mem_cons.mp hp with rfl | hp
    · simp [notMem_encode salt]
    · cases List.mem_singleton.mp hp
      have hdigits : ',' ∉ showU32 iterations := by
        intro hc
        exact absurd (showU32_isDigit hc) (by decide)
      simp [hdigits]

/-- **The client finds nonce, salt and iteration count where the server wrote them.** -/
theorem ServerFirst.foldlM_read [B64] {nonce : List Char} (h : ',' ∉ nonce) (salt : Bytes)
    (iterations : UInt32) :
    ((serverFirstOf nonce salt iterations).splitOn ',').foldlM ServerFirst.read {} =
      .ok ⟨some nonce, some salt, some iterations⟩ := by
  have hsalt : ∀ s : ServerFirst, s.read (['s', '='] ++ B64.encode salt) =
      .ok { s with salt := some salt } := by
    intro s
    show (do
      let salt ← orMalformed (B64.decode (B64.encode salt))
      return { s with salt := some salt } : Except AuthError ServerFirst) = _
    rw [B64.decode_encode]
    rfl
  have hiterations : ∀ s : ServerFirst, s.read (['i', '='] ++ showU32 iterations) =
      .ok { s with iterations := some iterations } := by
    intro s
    show (do
      let iterations ← (parseU32 (showU32 iterations)).mapError fun _ => AuthError.malformedMessage
      return { s with iterations := some iterations } : Except AuthError ServerFirst) = _
    rw [parseU32_showU32]
    rfl
  have hnonce : ServerFirst.read {} (['r', '='] ++ nonce) = .ok { nonce := some nonce } := rfl
  have hfirst : ',' ∉ ['r', '='] ++ nonce := by simp [h]
  rw [serverFirstOf, splitOn_serverFirst hfirst]
  simp only [List.foldlM_cons, List.foldlM_nil, hnonce, hsalt, hiterations, Results.ok_bind]
  rfl

theorem expectedNonce_serverFirstOf [B64] {nonce : List Char} (h : ',' ∉ nonce) (salt : Bytes)
    (iterations : UInt32) : expectedNonce (serverFirstOf nonce salt iterations) = nonce := by
  have hassoc : serverFirstOf nonce salt iterations = ['r', '='] ++
      (nonce ++ [',', 's', '='] ++ B64.encode salt ++ [',', 'i', '='] ++ showU32 iterations) := by
    simp [serverFirstOf]
  unfold expectedNonce
  rw [hassoc, stripPrefix_append, Option.bind_some, splitOn_serverFirst h]
  rfl

/-! ## The proof

The proof is the client key under a mask that the server knows as well. Taking the mask off twice gives the
key back, and the hash of it is the stored key. -/

theorem xorBytes_xorBytes {a b : Bytes} (h : a.length = b.length) : xorBytes b (xorBytes a b) = a := by
  induction a generalizing b with
  | nil =>
      cases b with
      | nil => rfl
      | cons y ys => cases h
  | cons x xs ih =>
      cases b with
      | nil => cases h
      | cons y ys =>
          have hxy : y ^^^ (x ^^^ y) = x := by
            rw [UInt8.xor_comm x y, ← UInt8.xor_assoc, UInt8.xor_self, UInt8.zero_xor]
          show (y ^^^ (x ^^^ y)) :: xorBytes ys (xorBytes xs ys) = x :: xs
          rw [hxy, ih (Nat.succ.inj h)]

/-- **The proof of the right password recovers the stored key.** -/
theorem verifyAndSignWith_computeProof (prims : Primitives) (h : ScramHash) (password salt : Bytes)
    (iterations : UInt32) (authMessage : Bytes) :
    verifyAndSignWith prims h
        (deriveKeysWith prims h (prims.pbkdf2 h password salt iterations)).1
        (deriveKeysWith prims h (prims.pbkdf2 h password salt iterations)).2
        (computeProof prims h password salt iterations authMessage).1 authMessage =
      ((deriveKeysWith prims h (prims.pbkdf2 h password salt iterations)).1,
        prims.hmac h (computeProof prims h password salt iterations authMessage).2 authMessage) := by
  unfold verifyAndSignWith computeProof deriveKeysWith
  simp only
  rw [xorBytes_xorBytes (by rw [prims.length_hmac, prims.length_hmac])]

theorem length_computeProof (prims : Primitives) (h : ScramHash) (password salt : Bytes)
    (iterations : UInt32) (authMessage : Bytes) :
    (computeProof prims h password salt iterations authMessage).1.length = h.len := by
  unfold computeProof xorBytes
  rw [List.length_zipWith, prims.length_hmac, prims.length_hmac, Nat.min_self]

/-! ## The steps

One lemma for each message: what the writer sent is what the reader now has, so that the two signed messages
are the same text. -/

/-- The server answers a client-first message with its own nonce behind the client's. -/
theorem AwaitingClientFirst.step_written [B64] {s : AwaitingClientFirst} {clientNonce : List Char}
    {extensions : List Extension} (hname : s.username ≠ []) (hnonce : isPrintable clientNonce = true)
    (h : Sendable extensions) (serverNonce : List Char) :
    s.step (some serverNonce)
        (bytesOf (gs2Header ++ bareOf (encodeSaslname s.username) clientNonce extensions)) =
      .continue
        (bytesOf (serverFirstOf (clientNonce ++ serverNonce) s.credential.salt s.credential.iterations))
        (.awaitingClientFinal
          { username := s.username
            credential := s.credential
            principalOverride := s.principalOverride
            clientFirstBare := bareOf (encodeSaslname s.username) clientNonce extensions
            serverFirst := serverFirstOf (clientNonce ++ serverNonce) s.credential.salt
              s.credential.iterations }) := by
  have hheader : authzidDiffers gs2Header s.username = false := rfl
  unfold AwaitingClientFirst.step
  rw [gs2Header, ScramClientFirst.parse_written hname hnonce h]
  simp only [Results.ok_bind, ne_eq, not_true_eq_false, if_false]
  rw [if_neg (by rw [← gs2Header, hheader]; exact Bool.false_ne_true)]
  rfl

/-- The message that both sides sign when the combined nonce is `nonce`. -/
def signedMessage [B64] (bare nonce : List Char) (salt : Bytes) (iterations : UInt32) : List Char :=
  authMessageOf bare (serverFirstOf nonce salt iterations) (withoutProofOf (bytesOf gs2Header) nonce)

/-- The proof of a password over that message, and the server key. -/
def proofOf [B64] (prims : Primitives) (mechanism : ScramMechanism) (password salt : Bytes)
    (iterations : UInt32) (bare nonce : List Char) : Bytes × Bytes :=
  computeProof prims mechanism.hash password salt iterations
    (bytesOf (signedMessage bare nonce salt iterations))

/-- The client-final message with that proof. -/
def clientFinalOf [B64] (prims : Primitives) (mechanism : ScramMechanism) (password salt : Bytes)
    (iterations : UInt32) (bare nonce : List Char) : Bytes :=
  bytesOf (withoutProofOf (bytesOf gs2Header) nonce ++ [',', 'p', '='] ++
    B64.encode (proofOf prims mechanism password salt iterations bare nonce).1)

/-- The client proves its password over the message that both sides can see. -/
theorem AwaitingServerFirst.step_written [B64] {c : AwaitingServerFirst} {serverNonce : List Char}
    (prims : Primitives) (h : ',' ∉ c.clientNonce ++ serverNonce) (salt : Bytes) (iterations : UInt32) :
    c.step prims (bytesOf (serverFirstOf (c.clientNonce ++ serverNonce) salt iterations)) =
      .ok (clientFinalOf prims c.mechanism c.password salt iterations c.clientFirstBare
          (c.clientNonce ++ serverNonce),
        { mechanism := c.mechanism
          username := c.username
          authMessage := signedMessage c.clientFirstBare (c.clientNonce ++ serverNonce) salt iterations
          serverKey := (proofOf prims c.mechanism c.password salt iterations c.clientFirstBare
            (c.clientNonce ++ serverNonce)).2 }) := by
  unfold AwaitingServerFirst.step
  rw [readUtf8_bytesOf, Results.ok_bind, ServerFirst.foldlM_read h]
  simp only [Results.ok_bind, orMalformed, Results.okOr_some]
  rw [if_neg (by simp)]
  rfl

/-- The server accepts the proof of the password its credential was made from, and signs. -/
theorem AwaitingClientFinal.step_written [B64] {s : AwaitingClientFinal} {nonce : List Char}
    (prims : Primitives) (hnonce : isPrintable nonce = true) {password salt : Bytes}
    {iterations : UInt32} {mechanism : ScramMechanism}
    (hcredential : s.credential =
      hashScramPasswordWithSalt prims password mechanism iterations salt)
    (hfirst : s.serverFirst = serverFirstOf nonce salt iterations)
    (hprincipal : s.principalOverride = none) :
    s.step prims (clientFinalOf prims mechanism password salt iterations s.clientFirstBare nonce) =
      .done ⟨s.username, AuthMethod.fromSasl mechanism.val, []⟩
        (bytesOf (['v', '='] ++ B64.encode (prims.hmac mechanism.hash
          (proofOf prims mechanism password salt iterations s.clientFirstBare nonce).2
          (bytesOf (signedMessage s.clientFirstBare nonce salt iterations))))) := by
  have hcomma : ',' ∉ nonce := fun hc => ((isPrintable_iff.mp hnonce).2 ',' hc).2.2 rfl
  have hlength : (proofOf prims mechanism password salt iterations s.clientFirstBare nonce).1.length =
      mechanism.hash.len :=
    length_computeProof prims mechanism.hash password salt iterations _
  -- the server's own copy of the message is the one that was signed
  have hverify : verifyAndSignWith prims mechanism.hash
      (deriveKeysWith prims mechanism.hash
        (prims.pbkdf2 mechanism.hash password salt iterations)).1
      (deriveKeysWith prims mechanism.hash
        (prims.pbkdf2 mechanism.hash password salt iterations)).2
      (proofOf prims mechanism password salt iterations s.clientFirstBare nonce).1
      (bytesOf (authMessageOf s.clientFirstBare (serverFirstOf nonce salt iterations)
        (withoutProofOf (bytesOf gs2Header) nonce))) = _ :=
    verifyAndSignWith_computeProof prims mechanism.hash password salt iterations _
  unfold AwaitingClientFinal.step clientFinalOf
  rw [ScramClientFinal.parse_written hnonce, Results.ok_bind]
  simp only [hfirst, expectedNonce_serverFirstOf hcomma, ne_eq, not_true_eq_false, if_false,
    orMalformed, B64.javaDecode_encode, Results.okOr_some, Results.ok_bind, hcredential,
    hashScramPasswordWithSalt, hprincipal, Option.getD_none]
  rw [if_neg (not_not.mpr hlength)]
  simp only [hverify, not_true_eq_false, if_false]
  rfl

theorem AwaitingServerFinal.verifyServerFinal_written [B64] {c : AwaitingServerFinal} (prims : Primitives) :
    c.verifyServerFinal prims (bytesOf (['v', '='] ++
      B64.encode (prims.hmac c.mechanism.hash c.serverKey (bytesOf c.authMessage)))) = .ok () := by
  unfold AwaitingServerFinal.verifyServerFinal
  rw [readUtf8_bytesOf, Results.ok_bind, stripPrefix_append]
  simp only [orMalformed, Results.okOr_some, Results.ok_bind, B64.decode_encode, if_true]
  rfl

/-! ## The handshake

The four messages in a row. Both sides accept, and the server reports the name that the client meant. -/

/-- A handshake in which every step succeeds: the two sides exchange four messages, the server finishes as
`principal` and the client accepts its signature. -/
def Completes [B64] (prims : Primitives) (client : ScramClientExchange) (server : ScramServerExchange)
    (clientNonce serverNonce : List Char) (principal : Principal) : Prop :=
  ∃ clientFirst awaitingFirst serverFirst server' clientFinal awaitingFinal serverFinal,
    client.clientFirst (some clientNonce) = .ok (clientFirst, awaitingFirst) ∧
    server.step prims (some serverNonce) clientFirst = .continue serverFirst server' ∧
    awaitingFirst.step prims serverFirst = .ok (clientFinal, awaitingFinal) ∧
    server'.step prims none clientFinal = .done principal serverFinal ∧
    awaitingFinal.verifyServerFinal prims serverFinal = .ok ()

/-- A client that can send its extensions gets through to the server that holds its credential. -/
theorem ScramClientExchange.completes [B64] (prims : Primitives) (client : ScramClientExchange)
    (hname : client.username ≠ []) (hsend : Sendable client.extensions) (salt : Bytes)
    (iterations : UInt32) {clientNonce serverNonce : List Char}
    (hclientNonce : isPrintable clientNonce = true)
    (hprint : isPrintable (clientNonce ++ serverNonce) = true) :
    Completes prims client
      (.new client.username
        (hashScramPasswordWithSalt prims client.password client.mechanism iterations salt))
      clientNonce serverNonce ⟨client.username, AuthMethod.fromSasl client.mechanism.val, []⟩ := by
  have hcomma : ',' ∉ clientNonce ++ serverNonce :=
    fun hc => ((isPrintable_iff.mp hprint).2 ',' hc).2.2 rfl
  let bare := bareOf (encodeSaslname client.username) clientNonce client.extensions
  let nonce := clientNonce ++ serverNonce
  let awaitingFirst : AwaitingServerFirst :=
    { username := client.username
      password := client.password
      mechanism := client.mechanism
      clientFirstBare := bare
      clientNonce := clientNonce }
  let awaitingClientFinal : AwaitingClientFinal :=
    { username := client.username
      credential :=
        hashScramPasswordWithSalt prims client.password client.mechanism iterations salt
      principalOverride := none
      clientFirstBare := bare
      serverFirst := serverFirstOf nonce salt iterations }
  let awaitingFinal : AwaitingServerFinal :=
    { mechanism := client.mechanism
      username := client.username
      authMessage := signedMessage bare nonce salt iterations
      serverKey := (proofOf prims client.mechanism client.password salt iterations bare nonce).2 }
  refine ⟨bytesOf (gs2Header ++ bare), awaitingFirst, bytesOf (serverFirstOf nonce salt iterations),
    .awaitingClientFinal awaitingClientFinal,
    clientFinalOf prims client.mechanism client.password salt iterations bare nonce, awaitingFinal,
    bytesOf (['v', '='] ++ B64.encode (prims.hmac client.mechanism.hash awaitingFinal.serverKey
      (bytesOf awaitingFinal.authMessage))), rfl, ?_, ?_, ?_, ?_⟩
  · have hstep := AwaitingClientFirst.step_written (s :=
      ⟨client.username, hashScramPasswordWithSalt prims client.password client.mechanism iterations salt,
        none⟩) hname hclientNonce hsend serverNonce
    exact hstep
  · have hstep := AwaitingServerFirst.step_written (c := awaitingFirst) prims hcomma salt iterations
    exact hstep
  · have hstep := AwaitingClientFinal.step_written (s := awaitingClientFinal) prims hprint rfl rfl rfl
    exact hstep
  · exact AwaitingServerFinal.verifyServerFinal_written prims

/-- **SCRAM is complete.** With the credential of its password, every user name, extension list and pair
of nonces gets through: client and server sign the same message. -/
theorem handshake_completes [B64] (prims : Primitives) (mechanism : ScramMechanism) (username : List Char)
    (hname : username ≠ []) (password salt : Bytes) (iterations : UInt32) (extensions : List Extension)
    (client : ScramClientExchange)
    (hclient : (ScramClientExchange.new username password mechanism).withExtensions extensions =
      .ok client)
    (clientNonce serverNonce : List Char) (hclientNonce : isPrintable clientNonce = true)
    (hserverNonce : ∀ c ∈ serverNonce, 0x21 ≤ c.toNat ∧ c.toNat ≤ 0x7E ∧ c ≠ ',') :
    Completes prims client
      (.new username (hashScramPasswordWithSalt prims password mechanism iterations salt))
      clientNonce serverNonce ⟨username, AuthMethod.fromSasl mechanism.val, []⟩ := by
  have hnil : Sendable [] := ⟨fun e he => absurd he List.not_mem_nil, List.nodup_nil⟩
  obtain ⟨huser, hpass, hmech, hsend⟩ := ScramClientExchange.withExtensions_ok hclient hnil
  have huser' : client.username = username := huser
  have hpass' : client.password = password := hpass
  have hmech' : client.mechanism = mechanism := hmech
  subst huser' hpass' hmech'
  exact client.completes prims hname hsend salt iterations hclientNonce
    (isPrintable_append hclientNonce hserverNonce)

/-- The library functions of SCRAM-SHA-256. A handshake of that mechanism asks for no SHA-512, which only
has the right length here. -/
def sha256Primitives : Primitives where
  hmac
    | .sha256, key, data => Sha256.hmac key data
    | .sha512, key, data => Sha256.hmac key data ++ Sha256.hmac key data
  hash _ data := Sha256.sha256 data
  pbkdf2 _ password salt iterations := Sha256.pbkdf2 password salt iterations.toNat
  length_hmac h key data := by
    cases h with
    | sha256 => exact Sha256.length_hmac key data
    | sha512 => rw [List.length_append, Sha256.length_hmac]; rfl

/-- The user `a,=` with a delegation-token extension, through SCRAM-SHA-256. -/
theorem handshake_completes_escapedName :
    Completes sha256Primitives
      ⟨['a', ',', '='], [0x70, 0x77], ⟨.scramSha256, rfl⟩,
        [(['t', 'o', 'k', 'e', 'n', 'a', 'u', 't', 'h'], ['t', 'r', 'u', 'e'])]⟩
      (.new ['a', ',', '=']
        (hashScramPasswordWithSalt sha256Primitives [0x70, 0x77] ⟨.scramSha256, rfl⟩ 4096 [1, 2, 3]))
      ['r', '0'] ['s', '1'] ⟨['a', ',', '='], .saslScramSha256, []⟩ :=
  handshake_completes sha256Primitives ⟨.scramSha256, rfl⟩ ['a', ',', '='] (by decide) [0x70, 0x77]
    [1, 2, 3] 4096 [(['t', 'o', 'k', 'e', 'n', 'a', 'u', 't', 'h'], ['t', 'r', 'u', 'e'])] _ rfl
    ['r', '0'] ['s', '1'] (by decide) (by simp)

end Krabka.Security.Scram
