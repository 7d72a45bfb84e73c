import Krabka.Security.Gssapi.SecurityLayer

/-!
# `Security.Gssapi.Exchange` — both sides of a SASL/GSSAPI handshake

`gssapi/client.rs` and `gssapi/server.rs`. The GSS mechanism is a library, an acceptor on the server's side
and an initiator on the client's: it takes tokens until a security context stands and then wraps and
unwraps messages. The exchanges drive it and then negotiate the security layer.

`serves_iff` says exactly which runs end in an authenticated principal, `connects_iff` which end in the
client's choice, and `negotiation_completes` that the two exchanges, each fed what the other sends, complete
over every mechanism whose two sides establish a context.
-/

namespace Krabka.Security.Gssapi

open ByteStream Protocol Results Text

/-! ## The mechanism

A function of the token and its own state, on either side. -/

inductive GssError where
  | context (reason : String)
  | wrap (reason : String)
  | keytab (reason : String)
  | noSrcPrincipal
  deriving DecidableEq, Repr

inductive AcceptStep where
  /-- Send this token back to the client, then expect another client token. -/
  | continue (token : Bytes)
  | established (token : Option Bytes)

inductive InitStep where
  | continue (token : Bytes)
  | established (token : Option Bytes)

/-- The server side of a mechanism. Its state changes behind a mutex when it wraps and unwraps too. -/
structure GssAcceptor (σ : Type) where
  accept : σ → Bytes → Except GssError (AcceptStep × σ)
  wrap : σ → Bytes → Bool → Except GssError (Bytes × σ)
  unwrap : σ → Bytes → Except GssError (Bytes × σ)
  srcPrincipal : σ → Except GssError String

structure GssInitiator (ι : Type) where
  step : ι → Option Bytes → Except GssError (InitStep × ι)
  wrap : ι → Bytes → Bool → Except GssError (Bytes × ι)
  unwrap : ι → Bytes → Except GssError (Bytes × ι)

variable {σ ι : Type}

/-! ## The server

It accepts tokens until the context stands, offers its layers and reads the choice. -/

inductive ServerExchangeError where
  | gss (e : GssError)
  | layer (e : LayerError)
  deriving DecidableEq, Repr

inductive GssapiServerExchange (σ : Type) where
  | acceptingContext (acceptor : σ) (maxRecv : UInt64)
  | offeringLayer (acceptor : σ) (maxRecv : UInt64)
  | awaitingChoice (acceptor : σ)

inductive ServerStep (σ : Type) where
  | challenge (token : Bytes) (next : GssapiServerExchange σ)
  | done (principal : String)

namespace GssapiServerExchange

def new (acceptor : σ) (maxRecv : UInt64) : GssapiServerExchange σ := .acceptingContext acceptor maxRecv

/-- Wraps the layer offer. -/
def offer (A : GssAcceptor σ) (acceptor : σ) (maxRecv : UInt64) :
    Except ServerExchangeError (ServerStep σ) := do
  let (wrapped, acceptor) ← (A.wrap acceptor (encodeOffer .auth maxRecv) false).mapError .gss
  return .challenge wrapped (.awaitingChoice acceptor)

def accept (A : GssAcceptor σ) (acceptor : σ) (maxRecv : UInt64) (clientToken : Bytes) :
    Except ServerExchangeError (ServerStep σ) := do
  let (outcome, acceptor) ← (A.accept acceptor clientToken).mapError .gss
  match outcome with
  | .continue token => return .challenge token (.acceptingContext acceptor maxRecv)
  -- the offer goes out on the next round
  | .established (some token) => return .challenge token (.offeringLayer acceptor maxRecv)
  | .established none => offer A acceptor maxRecv

def finish (A : GssAcceptor σ) (acceptor : σ) (clientToken : Bytes) : Except ServerExchangeError String := do
  let (plaintext, acceptor) ← (A.unwrap acceptor clientToken).mapError .gss
  let _choice ← (decodeChoice plaintext).mapError .layer
  (A.srcPrincipal acceptor).mapError .gss

/-- Feeds one client token and advances the negotiation. -/
def step (A : GssAcceptor σ) : GssapiServerExchange σ → Bytes → Except ServerExchangeError (ServerStep σ)
  | .acceptingContext acceptor maxRecv, clientToken => accept A acceptor maxRecv clientToken
  | .offeringLayer acceptor maxRecv, _ => offer A acceptor maxRecv
  | .awaitingChoice acceptor, clientToken => .done <$> finish A acceptor clientToken

end GssapiServerExchange

/-! ## The client

It sends tokens until the context stands, reads the offer and chooses. -/

inductive ClientExchangeError where
  | gss (e : GssError)
  | layer (e : LayerError)
  | noCommonLayer
  deriving DecidableEq, Repr

inductive GssapiClientExchange (ι : Type) where
  | establishing (initiator : ι) (maxRecv : UInt64) (authzid : Option String)
  | awaitingOffer (initiator : ι) (maxRecv : UInt64) (authzid : Option String)

inductive ClientStep (ι : Type) where
  | token (token : Bytes) (next : GssapiClientExchange ι)
  | final (token : Bytes)

namespace GssapiClientExchange

def new (initiator : ι) (maxRecv : UInt64) (authzid : Option String) : GssapiClientExchange ι :=
  .establishing initiator maxRecv authzid

def establish (I : GssInitiator ι) (initiator : ι) (maxRecv : UInt64) (authzid : Option String)
    (serverToken : Option Bytes) : Except ClientExchangeError (ClientStep ι) := do
  let (outcome, initiator) ← (I.step initiator serverToken).mapError .gss
  match outcome with
  | .continue token => return .token token (.establishing initiator maxRecv authzid)
  -- a trailing token is sent; without one the client still has to ask for the offer
  | .established token => return .token (token.getD []) (.awaitingOffer initiator maxRecv authzid)

def choose (I : GssInitiator ι) (initiator : ι) (maxRecv : UInt64) (authzid : Option String)
    (serverToken : Bytes) : Except ClientExchangeError Bytes := do
  let (offer, initiator) ← (I.unwrap initiator serverToken).mapError .gss
  let offered ← (decodeOfferLayers offer).mapError .layer
  if offered.bits &&& SecurityLayer.auth.bits = 0 then .error .noCommonLayer
  else do
    let (wrapped, _) ← (I.wrap initiator (encodeChoice .auth maxRecv authzid) false).mapError .gss
    return wrapped

/-- Feeds one server token and advances the negotiation; `none` at the initial step. -/
def step (I : GssInitiator ι) :
    GssapiClientExchange ι → Option Bytes → Except ClientExchangeError (ClientStep ι)
  | .establishing initiator maxRecv authzid, serverToken => establish I initiator maxRecv authzid serverToken
  | .awaitingOffer _ _ _, none => .error .noCommonLayer
  | .awaitingOffer initiator maxRecv authzid, some serverToken =>
      .final <$> choose I initiator maxRecv authzid serverToken

end GssapiClientExchange

/-! ## What one step does

Every step in one equation, with no monad left in it. -/

section Server

variable {A : GssAcceptor σ} {acceptor : σ} {maxRecv : UInt64} {clientToken : Bytes} {r : ServerStep σ}

namespace GssapiServerExchange

theorem offer_eq_ok_iff : offer A acceptor maxRecv = .ok r ↔
    ∃ wrapped acceptor', A.wrap acceptor (encodeOffer .auth maxRecv) false = .ok (wrapped, acceptor') ∧
      r = .challenge wrapped (.awaitingChoice acceptor') := by
  unfold offer
  rw [bind_eq_ok]
  constructor
  · rintro ⟨⟨wrapped, acceptor'⟩, hwrap, hr⟩
    cases hr
    exact ⟨wrapped, acceptor', mapError_eq_ok.mp hwrap, rfl⟩
  · rintro ⟨wrapped, acceptor', hwrap, rfl⟩
    exact ⟨(wrapped, acceptor'), mapError_eq_ok.mpr hwrap, rfl⟩

theorem accept_eq_ok_iff : accept A acceptor maxRecv clientToken = .ok r ↔
    (∃ token acceptor', A.accept acceptor clientToken = .ok (.continue token, acceptor') ∧
      r = .challenge token (.acceptingContext acceptor' maxRecv)) ∨
    (∃ token acceptor', A.accept acceptor clientToken = .ok (.established (some token), acceptor') ∧
      r = .challenge token (.offeringLayer acceptor' maxRecv)) ∨
    ∃ acceptor', A.accept acceptor clientToken = .ok (.established none, acceptor') ∧
      offer A acceptor' maxRecv = .ok r := by
  unfold accept
  rw [bind_eq_ok]
  constructor
  · rintro ⟨⟨outcome, acceptor'⟩, haccept, hr⟩
    have haccept := mapError_eq_ok.mp haccept
    cases outcome with
    | «continue» token =>
        cases hr
        exact Or.inl ⟨token, acceptor', haccept, rfl⟩
    | established token =>
        cases token with
        | some token =>
            cases hr
            exact Or.inr (Or.inl ⟨token, acceptor', haccept, rfl⟩)
        | none => exact Or.inr (Or.inr ⟨acceptor', haccept, hr⟩)
  · rintro (⟨token, acceptor', haccept, rfl⟩ | ⟨token, acceptor', haccept, rfl⟩ | ⟨acceptor', haccept, hr⟩)
    · exact ⟨_, mapError_eq_ok.mpr haccept, rfl⟩
    · exact ⟨_, mapError_eq_ok.mpr haccept, rfl⟩
    · exact ⟨_, mapError_eq_ok.mpr haccept, hr⟩

theorem finish_eq_ok_iff {principal : String} : finish A acceptor clientToken = .ok principal ↔
    ∃ plaintext acceptor', A.unwrap acceptor clientToken = .ok (plaintext, acceptor') ∧
      (∃ choice, decodeChoice plaintext = .ok choice) ∧ A.srcPrincipal acceptor' = .ok principal := by
  unfold finish
  rw [bind_eq_ok]
  constructor
  · rintro ⟨⟨plaintext, acceptor'⟩, hunwrap, hrest⟩
    obtain ⟨choice, hchoice, hprincipal⟩ := bind_eq_ok.mp hrest
    exact ⟨plaintext, acceptor', mapError_eq_ok.mp hunwrap, ⟨choice, mapError_eq_ok.mp hchoice⟩,
      mapError_eq_ok.mp hprincipal⟩
  · rintro ⟨plaintext, acceptor', hunwrap, ⟨choice, hchoice⟩, hprincipal⟩
    exact ⟨_, mapError_eq_ok.mpr hunwrap,
      bind_eq_ok.mpr ⟨choice, mapError_eq_ok.mpr hchoice, mapError_eq_ok.mpr hprincipal⟩⟩

end GssapiServerExchange

end Server

section Client

variable {I : GssInitiator ι} {initiator : ι} {maxRecv : UInt64} {authzid : Option String}

namespace GssapiClientExchange

theorem establish_eq_ok_iff {serverToken : Option Bytes} {r : ClientStep ι} :
    establish I initiator maxRecv authzid serverToken = .ok r ↔
      (∃ token initiator', I.step initiator serverToken = .ok (.continue token, initiator') ∧
        r = .token token (.establishing initiator' maxRecv authzid)) ∨
      ∃ token initiator', I.step initiator serverToken = .ok (.established token, initiator') ∧
        r = .token (token.getD []) (.awaitingOffer initiator' maxRecv authzid) := by
  unfold establish
  rw [bind_eq_ok]
  constructor
  · rintro ⟨⟨outcome, initiator'⟩, hstep, hr⟩
    have hstep := mapError_eq_ok.mp hstep
    cases outcome with
    | «continue» token =>
        cases hr
        exact Or.inl ⟨token, initiator', hstep, rfl⟩
    | established token =>
        cases hr
        exact Or.inr ⟨token, initiator', hstep, rfl⟩
  · rintro (⟨token, initiator', hstep, rfl⟩ | ⟨token, initiator', hstep, rfl⟩)
    · exact ⟨_, mapError_eq_ok.mpr hstep, rfl⟩
    · exact ⟨_, mapError_eq_ok.mpr hstep, rfl⟩

theorem choose_eq_ok_iff {serverToken choice : Bytes} :
    choose I initiator maxRecv authzid serverToken = .ok choice ↔
      ∃ layers rest initiator' initiator'', I.unwrap initiator serverToken = .ok (layers :: rest, initiator') ∧
        layers &&& SecurityLayer.auth.bits ≠ 0 ∧
        I.wrap initiator' (encodeChoice .auth maxRecv authzid) false = .ok (choice, initiator'') := by
  unfold choose
  rw [bind_eq_ok]
  constructor
  · rintro ⟨⟨offer, initiator'⟩, hunwrap, hrest⟩
    obtain ⟨offered, hoffered, hrest⟩ := bind_eq_ok.mp hrest
    cases offer with
    | nil => cases hoffered
    | cons layers rest =>
        cases hoffered
        split at hrest
        · cases hrest
        · rename_i hauth
          obtain ⟨⟨wrapped, initiator''⟩, hwrap, hpure⟩ := bind_eq_ok.mp hrest
          cases hpure
          exact ⟨layers, rest, initiator', initiator'', mapError_eq_ok.mp hunwrap, hauth,
            mapError_eq_ok.mp hwrap⟩
  · rintro ⟨layers, rest, initiator', initiator'', hunwrap, hauth, hwrap⟩
    refine ⟨_, mapError_eq_ok.mpr hunwrap, bind_eq_ok.mpr ⟨⟨layers⟩, rfl, ?_⟩⟩
    rw [if_neg hauth]
    exact bind_eq_ok.mpr ⟨_, mapError_eq_ok.mpr hwrap, rfl⟩

end GssapiClientExchange

end Client

/-! ## Whole runs

A run is a list of tokens. `Serves` and `Connects` follow the machine, `Accepts` and `Initiates` the mechanism
alone. -/

section Runs

variable (A : GssAcceptor σ) (I : GssInitiator ι)

/-- The server takes these tokens, answers with these challenges and then reports the principal. -/
inductive Serves : GssapiServerExchange σ → List Bytes → List Bytes → String → Prop where
  | done {e : GssapiServerExchange σ} {token : Bytes} {principal : String} :
      e.step A token = .ok (.done principal) → Serves e [token] [] principal
  | challenge {e next : GssapiServerExchange σ} {token challenge : Bytes} {tokens challenges : List Bytes}
      {principal : String} : e.step A token = .ok (.challenge challenge next) →
      Serves next tokens challenges principal → Serves e (token :: tokens) (challenge :: challenges) principal

/-- The client takes these answers and sends these tokens, the last of them its choice. -/
inductive Connects : GssapiClientExchange ι → List (Option Bytes) → List Bytes → Prop where
  | final {e : GssapiClientExchange ι} {answer : Option Bytes} {token : Bytes} :
      e.step I answer = .ok (.final token) → Connects e [answer] [token]
  | token {e next : GssapiClientExchange ι} {answer : Option Bytes} {token : Bytes}
      {answers : List (Option Bytes)} {tokens : List Bytes} : e.step I answer = .ok (.token token next) →
      Connects next answers tokens → Connects e (answer :: answers) (token :: tokens)

/-- The mechanism alone, on the server's side: the tokens it takes until the context stands, its answers to
    all but the last, and its last answer if it has one. -/
inductive Accepts : σ → List Bytes → List Bytes → Option Bytes → σ → Prop where
  | established {acceptor context : σ} {token : Bytes} {trailing : Option Bytes} :
      A.accept acceptor token = .ok (.established trailing, context) →
      Accepts acceptor [token] [] trailing context
  | round {acceptor next context : σ} {token answer : Bytes} {tokens answers : List Bytes}
      {trailing : Option Bytes} : A.accept acceptor token = .ok (.continue answer, next) →
      Accepts next tokens answers trailing context →
      Accepts acceptor (token :: tokens) (answer :: answers) trailing context

/-- The mechanism alone, on the client's side. -/
inductive Initiates : ι → List (Option Bytes) → List Bytes → ι → Prop where
  | established {initiator context : ι} {answer trailing : Option Bytes} :
      I.step initiator answer = .ok (.established trailing, context) →
      Initiates initiator [answer] [trailing.getD []] context
  | round {initiator next context : ι} {answer : Option Bytes} {token : Bytes}
      {answers : List (Option Bytes)} {tokens : List Bytes} :
      I.step initiator answer = .ok (.continue token, next) → Initiates next answers tokens context →
      Initiates initiator (answer :: answers) (token :: tokens) context

/-- In an established context the server offers authentication alone, and the client's choice, unwrapped,
    is authentication, three bytes of size and the UTF-8 of an identity. -/
def Negotiates (context : σ) (maxRecv : UInt64) (offer choice : Bytes) (principal : String) : Prop :=
  ∃ offered chosen s0 s1 s2 authzid,
    A.wrap context (encodeOffer .auth maxRecv) false = .ok (offer, offered) ∧
    A.unwrap offered choice = .ok (SecurityLayer.auth.bits :: s0 :: s1 :: s2 :: utf8Bytes authzid, chosen) ∧
    A.srcPrincipal chosen = .ok principal

variable {A I}

/-- A plaintext that the server accepts as a choice. -/
theorem exists_choice_iff {plaintext : Bytes} : (∃ choice, decodeChoice plaintext = .ok choice) ↔
    ∃ s0 s1 s2 authzid, plaintext = SecurityLayer.auth.bits :: s0 :: s1 :: s2 :: utf8Bytes authzid := by
  constructor
  · rintro ⟨choice, hchoice⟩
    obtain ⟨-, -, s0, s1, s2, -, hplaintext⟩ := decodeChoice_eq_ok_iff.mp hchoice
    exact ⟨s0, s1, s2, _, hplaintext⟩
  · rintro ⟨s0, s1, s2, authzid, rfl⟩
    refine ⟨⟨.auth, u32OfBE [0, s0, s1, s2], sentAuthzid (some authzid)⟩, decodeChoice_eq_ok_iff.mpr ?_⟩
    exact ⟨rfl, sentAuthzid_ne _, s0, s1, s2, rfl, by rw [utf8Bytes_sentAuthzid, Option.getD_some]⟩

theorem serves_awaitingChoice_iff {context : σ} {tokens challenges : List Bytes} {principal : String} :
    Serves A (.awaitingChoice context) tokens challenges principal ↔
      ∃ choice, tokens = [choice] ∧ challenges = [] ∧
        GssapiServerExchange.finish A context choice = .ok principal := by
  constructor
  · rintro (⟨hstep⟩ | ⟨hstep, -⟩)
    · obtain ⟨p, hfinish, hp⟩ := map_eq_ok.mp hstep
      cases hp
      exact ⟨_, rfl, rfl, hfinish⟩
    · obtain ⟨p, -, hp⟩ := map_eq_ok.mp hstep
      cases hp
  · rintro ⟨choice, rfl, rfl, hfinish⟩
    exact .done (map_eq_ok.mpr ⟨principal, hfinish, rfl⟩)

/-- From the offer on. -/
theorem negotiates_iff {context : σ} {maxRecv : UInt64} {offer choice : Bytes} {principal : String} :
    Negotiates A context maxRecv offer choice principal ↔
      ∃ offered, A.wrap context (encodeOffer .auth maxRecv) false = .ok (offer, offered) ∧
        GssapiServerExchange.finish A offered choice = .ok principal := by
  constructor
  · rintro ⟨offered, chosen, s0, s1, s2, authzid, hwrap, hunwrap, hprincipal⟩
    exact ⟨offered, hwrap, GssapiServerExchange.finish_eq_ok_iff.mpr
      ⟨_, chosen, hunwrap, exists_choice_iff.mpr ⟨s0, s1, s2, authzid, rfl⟩, hprincipal⟩⟩
  · rintro ⟨offered, hwrap, hfinish⟩
    obtain ⟨plaintext, chosen, hunwrap, hchoice, hprincipal⟩ :=
      GssapiServerExchange.finish_eq_ok_iff.mp hfinish
    obtain ⟨s0, s1, s2, authzid, rfl⟩ := exists_choice_iff.mp hchoice
    exact ⟨offered, chosen, s0, s1, s2, authzid, hwrap, hunwrap, hprincipal⟩

theorem serves_offeringLayer_iff {context : σ} {maxRecv : UInt64} {tokens challenges : List Bytes}
    {principal : String} : Serves A (.offeringLayer context maxRecv) tokens challenges principal ↔
      ∃ asked choice offer, tokens = [asked, choice] ∧ challenges = [offer] ∧
        Negotiates A context maxRecv offer choice principal := by
  constructor
  · rintro (⟨hstep⟩ | ⟨hstep, hrest⟩)
    · obtain ⟨wrapped, offered, -, hr⟩ := GssapiServerExchange.offer_eq_ok_iff.mp hstep
      cases hr
    · obtain ⟨wrapped, offered, hwrap, hr⟩ := GssapiServerExchange.offer_eq_ok_iff.mp hstep
      cases hr
      obtain ⟨choice, rfl, rfl, hfinish⟩ := serves_awaitingChoice_iff.mp hrest
      exact ⟨_, choice, _, rfl, rfl, negotiates_iff.mpr ⟨offered, hwrap, hfinish⟩⟩
  · rintro ⟨asked, choice, offer, rfl, rfl, hnegotiates⟩
    obtain ⟨offered, hwrap, hfinish⟩ := negotiates_iff.mp hnegotiates
    exact .challenge (GssapiServerExchange.offer_eq_ok_iff.mpr ⟨offer, offered, hwrap, rfl⟩)
      (serves_awaitingChoice_iff.mpr ⟨choice, rfl, rfl, hfinish⟩)

/-- How a run goes on once the context stands. After a trailing token the client is heard once more
    before the offer, and what it says there does not matter. -/
def Completes (A : GssAcceptor σ) (context : σ) (maxRecv : UInt64) (trailing : Option Bytes)
    (tokens challenges : List Bytes) (principal : String) : Prop :=
  ∃ offer choice, Negotiates A context maxRecv offer choice principal ∧
    match trailing with
    | none => tokens = [choice] ∧ challenges = [offer]
    | some answer => ∃ asked, tokens = [asked, choice] ∧ challenges = [answer, offer]

/-- A context that the mechanism establishes and a negotiation over it are a run of the server. -/
theorem Accepts.serves {acceptor context : σ} {taken answers rest restChallenges : List Bytes}
    {trailing : Option Bytes} {maxRecv : UInt64} {principal : String}
    (h : Accepts A acceptor taken answers trailing context)
    (hcompletes : Completes A context maxRecv trailing rest restChallenges principal) :
    Serves A (.new acceptor maxRecv) (taken ++ rest) (answers ++ restChallenges) principal := by
  induction h with
  | @established acceptor context token trailing haccept =>
      obtain ⟨offer, choice, hnegotiates, hshape⟩ := hcompletes
      cases trailing with
      | none =>
          obtain ⟨rfl, rfl⟩ := hshape
          obtain ⟨offered, hwrap, hfinish⟩ := negotiates_iff.mp hnegotiates
          refine .challenge (GssapiServerExchange.accept_eq_ok_iff.mpr (Or.inr (Or.inr ⟨context, haccept, ?_⟩)))
            (serves_awaitingChoice_iff.mpr ⟨choice, rfl, rfl, hfinish⟩)
          exact GssapiServerExchange.offer_eq_ok_iff.mpr ⟨offer, offered, hwrap, rfl⟩
      | some answer =>
          obtain ⟨asked, rfl, rfl⟩ := hshape
          refine .challenge (GssapiServerExchange.accept_eq_ok_iff.mpr
            (Or.inr (Or.inl ⟨answer, context, haccept, rfl⟩))) ?_
          exact serves_offeringLayer_iff.mpr ⟨asked, choice, offer, rfl, rfl, hnegotiates⟩
  | @round acceptor next context token answer tokens answers trailing haccept _ ih =>
      exact .challenge (GssapiServerExchange.accept_eq_ok_iff.mpr (Or.inl ⟨answer, next, haccept, rfl⟩))
        (ih hcompletes)

/-- **Which runs of the server authenticate.** Whatever tokens a client sends, the server reports a
    principal exactly when the mechanism established a context from the first of them and the client's
    last token, unwrapped in that context after the offer, chooses authentication; the principal is the
    context's own, whatever identity the choice names. -/
theorem serves_iff {acceptor : σ} {maxRecv : UInt64} {tokens challenges : List Bytes} {principal : String} :
    Serves A (.new acceptor maxRecv) tokens challenges principal ↔
      ∃ taken answers trailing context rest restChallenges,
        Accepts A acceptor taken answers trailing context ∧
        Completes A context maxRecv trailing rest restChallenges principal ∧
        tokens = taken ++ rest ∧ challenges = answers ++ restChallenges := by
  constructor
  · intro h
    generalize he : GssapiServerExchange.new acceptor maxRecv = e at h
    induction h generalizing acceptor with
    | @done e token principal hstep =>
        subst he
        have haccept := hstep
        rcases GssapiServerExchange.accept_eq_ok_iff.mp haccept with
          ⟨_, _, -, hr⟩ | ⟨_, _, -, hr⟩ | ⟨_, -, hoffer⟩
        · cases hr
        · cases hr
        · obtain ⟨_, _, -, hr⟩ := GssapiServerExchange.offer_eq_ok_iff.mp hoffer
          cases hr
    | @challenge e next token challenge tokens challenges principal hstep hrest ih =>
        subst he
        rcases GssapiServerExchange.accept_eq_ok_iff.mp hstep with
          ⟨answer, acceptor', haccept, hr⟩ | ⟨answer, context, haccept, hr⟩ | ⟨context, haccept, hoffer⟩
        · -- another round of the mechanism
          cases hr
          obtain ⟨taken, answers, trailing, context, rest, restChallenges, haccepts, hcompletes, rfl, rfl⟩ :=
            ih rfl
          exact ⟨_, _, trailing, context, rest, restChallenges, .round haccept haccepts, hcompletes, rfl, rfl⟩
        · cases hr
          obtain ⟨asked, choice, offer, rfl, rfl, hnegotiates⟩ := serves_offeringLayer_iff.mp hrest
          exact ⟨[token], [], some challenge, context, [asked, choice], [challenge, offer],
            .established haccept, ⟨offer, choice, hnegotiates, asked, rfl, rfl⟩, rfl, rfl⟩
        · obtain ⟨offer, offered, hwrap, hr⟩ := GssapiServerExchange.offer_eq_ok_iff.mp hoffer
          cases hr
          obtain ⟨choice, rfl, rfl, hfinish⟩ := serves_awaitingChoice_iff.mp hrest
          exact ⟨[token], [], none, context, [choice], [challenge], .established haccept,
            ⟨challenge, choice, negotiates_iff.mpr ⟨offered, hwrap, hfinish⟩, rfl, rfl⟩, rfl, rfl⟩
  · rintro ⟨taken, answers, trailing, context, rest, restChallenges, haccepts, hcompletes, rfl, rfl⟩
    exact haccepts.serves hcompletes

/-- A context that the mechanism establishes and a choice of its offer are a run of the client. -/
theorem Initiates.connects {initiator context : ι} {taken : List (Option Bytes)} {sent : List Bytes}
    {maxRecv : UInt64} {authzid : Option String} {offer choice : Bytes}
    (h : Initiates I initiator taken sent context)
    (hchoose : GssapiClientExchange.choose I context maxRecv authzid offer = .ok choice) :
    Connects I (.new initiator maxRecv authzid) (taken ++ [some offer]) (sent ++ [choice]) := by
  induction h with
  | @established initiator context answer trailing hinit =>
      refine .token (GssapiClientExchange.establish_eq_ok_iff.mpr (Or.inr ⟨trailing, context, hinit, rfl⟩)) ?_
      exact .final (map_eq_ok.mpr ⟨choice, hchoose, rfl⟩)
  | @round initiator next context answer token answers tokens hinit _ ih =>
      exact .token (GssapiClientExchange.establish_eq_ok_iff.mpr (Or.inl ⟨token, next, hinit, rfl⟩))
        (ih hchoose)

/-- **Which runs of the client end in a choice**: those in which the mechanism established a context, the
    server's next answer, unwrapped, offers authentication among its layers, and the choice is wrapped. -/
theorem connects_iff {initiator : ι} {maxRecv : UInt64} {authzid : Option String}
    {answers : List (Option Bytes)} {tokens : List Bytes} :
    Connects I (.new initiator maxRecv authzid) answers tokens ↔
      ∃ taken sent context offer choice, Initiates I initiator taken sent context ∧
        GssapiClientExchange.choose I context maxRecv authzid offer = .ok choice ∧
        answers = taken ++ [some offer] ∧ tokens = sent ++ [choice] := by
  constructor
  · intro h
    generalize he : GssapiClientExchange.new initiator maxRecv authzid = e at h
    induction h generalizing initiator with
    | final hstep =>
        subst he
        rcases GssapiClientExchange.establish_eq_ok_iff.mp hstep with ⟨_, _, -, hr⟩ | ⟨_, _, -, hr⟩ <;> cases hr
    | @token e next answer token answers tokens hstep hrest ih =>
        subst he
        rcases GssapiClientExchange.establish_eq_ok_iff.mp hstep with
          ⟨_, initiator', hinit, hr⟩ | ⟨trailing, context, hinit, hr⟩
        · cases hr
          obtain ⟨taken, sent, context, offer, choice, hinitiates, hchoose, rfl, rfl⟩ := ih rfl
          exact ⟨_, _, context, offer, choice, .round hinit hinitiates, hchoose, rfl, rfl⟩
        · cases hr
          -- the next answer is the offer
          cases hrest with
          | @final _ answer' _ hfinal =>
              cases answer' with
              | none => cases hfinal
              | some offer =>
                  obtain ⟨choice, hchoose, hc⟩ := map_eq_ok.mp hfinal
                  cases hc
                  exact ⟨_, _, context, offer, _, .established hinit, hchoose, rfl, rfl⟩
          | @token _ _ answer' _ _ _ hstep' _ =>
              cases answer' with
              | none => cases hstep'
              | some offer =>
                  obtain ⟨choice, -, hc⟩ := map_eq_ok.mp hstep'
                  cases hc
  · rintro ⟨taken, sent, context, offer, choice, hinitiates, hchoose, rfl, rfl⟩
    exact hinitiates.connects hchoose

/-! ## Client and server together

Each is fed what the other sends. A wrapped message is unwrapped by the other side. -/

variable (A I)

/-- The two sides of the mechanism, each fed what the other sends, establish a context. The side that is
    done first is the client, whose last token the server has nothing to answer to, or the server, whose
    last answer the client takes. -/
inductive Establishes : ι → Option Bytes → σ → ι → σ → Prop where
  | clientFirst {initiator clientContext : ι} {answer trailing : Option Bytes} {acceptor serverContext : σ} :
      I.step initiator answer = .ok (.established trailing, clientContext) →
      A.accept acceptor (trailing.getD []) = .ok (.established none, serverContext) →
      Establishes initiator answer acceptor clientContext serverContext
  | serverFirst {initiator next clientContext : ι} {answer trailing : Option Bytes}
      {acceptor serverContext : σ} {token last : Bytes} :
      I.step initiator answer = .ok (.continue token, next) →
      A.accept acceptor token = .ok (.established (some last), serverContext) →
      I.step next (some last) = .ok (.established trailing, clientContext) →
      Establishes initiator answer acceptor clientContext serverContext
  | round {initiator next clientContext : ι} {answer : Option Bytes} {acceptor next' serverContext : σ}
      {token reply : Bytes} : I.step initiator answer = .ok (.continue token, next) →
      A.accept acceptor token = .ok (.continue reply, next') →
      Establishes next (some reply) next' clientContext serverContext →
      Establishes initiator answer acceptor clientContext serverContext

/-- The context carries a message of the server to the client and then one of the client to the server,
    and knows the client as `principal`. -/
def Carries (clientContext : ι) (serverContext : σ) (principal : String) : Prop :=
  ∀ offer, ∃ wrapped serverContext' clientContext',
    A.wrap serverContext offer false = .ok (wrapped, serverContext') ∧
    I.unwrap clientContext wrapped = .ok (offer, clientContext') ∧
    ∀ choice, ∃ wrapped' clientContext'' serverContext'',
      I.wrap clientContext' choice false = .ok (wrapped', clientContext'') ∧
      A.unwrap serverContext' wrapped' = .ok (choice, serverContext'') ∧
      A.srcPrincipal serverContext'' = .ok principal

variable {A I}

/-- The layer negotiation over a context that carries messages. -/
theorem negotiates_of_carries {clientContext : ι} {serverContext : σ} {principal : String}
    (h : Carries A I clientContext serverContext principal) (serverMax clientMax : UInt64)
    (authzid : Option String) :
    ∃ offer choice, Negotiates A serverContext serverMax offer choice principal ∧
      GssapiClientExchange.choose I clientContext clientMax authzid offer = .ok choice := by
  obtain ⟨offer, serverContext', clientContext', hwrap, hunwrap, hback⟩ := h (encodeOffer .auth serverMax)
  obtain ⟨choice, clientContext'', serverContext'', hwrap', hunwrap', hprincipal⟩ :=
    hback (encodeChoice .auth clientMax authzid)
  have hchoice := exists_choice_iff.mp ⟨_, decodeChoice_encodeChoice clientMax authzid⟩
  obtain ⟨s0, s1, s2, sent, hsent⟩ := hchoice
  rw [hsent] at hunwrap'
  refine ⟨offer, choice, ⟨_, _, s0, s1, s2, sent, hwrap, hunwrap', hprincipal⟩, ?_⟩
  exact GssapiClientExchange.choose_eq_ok_iff.mpr ⟨_, _, _, _, hunwrap, by decide, hwrap'⟩

/-- **The handshake completes.** Over every mechanism whose two sides establish a context that carries
    messages, after any number of rounds and whichever side is done first, the client exchange and the
    server exchange, each fed what the other sends, both end, and the server reports the principal of the
    context, whatever sizes the sides state and whatever identity the client names. -/
theorem negotiation_completes {initiator clientContext : ι} {acceptor serverContext : σ} {principal : String}
    (hestablishes : Establishes A I initiator none acceptor clientContext serverContext)
    (hcarries : Carries A I clientContext serverContext principal) (serverMax clientMax : UInt64)
    (authzid : Option String) :
    ∃ tokens challenges, Connects I (.new initiator clientMax authzid) (none :: challenges.map some) tokens ∧
      Serves A (.new acceptor serverMax) tokens challenges principal := by
  obtain ⟨offer, choice, hnegotiates, hchoose⟩ := negotiates_of_carries hcarries serverMax clientMax authzid
  generalize (none : Option Bytes) = answer at hestablishes ⊢
  induction hestablishes with
  | @clientFirst initiator clientContext answer trailing acceptor serverContext hinit haccept =>
      refine ⟨[trailing.getD [], choice], [offer], ?_, ?_⟩
      · exact (Initiates.established hinit).connects hchoose
      · exact (Accepts.established haccept).serves ⟨offer, choice, hnegotiates, rfl, rfl⟩
  | @serverFirst initiator next clientContext answer trailing acceptor serverContext token last hinit haccept
      hlast =>
      refine ⟨[token, trailing.getD [], choice], [last, offer], ?_, ?_⟩
      · exact (Initiates.round hinit (.established hlast)).connects hchoose
      · exact (Accepts.established haccept).serves ⟨offer, choice, hnegotiates, _, rfl, rfl⟩
  | @round initiator next clientContext answer acceptor next' serverContext token reply hinit haccept _ ih =>
      obtain ⟨tokens, challenges, hconnects, hserves⟩ := ih hcarries hnegotiates hchoose
      refine ⟨token :: tokens, reply :: challenges, ?_, ?_⟩
      · exact .token (GssapiClientExchange.establish_eq_ok_iff.mpr (Or.inl ⟨token, next, hinit, rfl⟩)) hconnects
      · exact .challenge (GssapiServerExchange.accept_eq_ok_iff.mpr (Or.inl ⟨reply, next', haccept, rfl⟩))
          hserves

end Runs

/-- A server side that accepts the first token, answers it and protects nothing. -/
def plainAcceptor : GssAcceptor Unit where
  accept := fun _ _ => .ok (.established (some [0x41, 0x50]), ())
  wrap := fun _ plaintext _ => .ok (plaintext, ())
  unwrap := fun _ token => .ok (token, ())
  srcPrincipal := fun _ => .ok "alice@REALM"

/-- A client side that sends one token and is done with the answer to it. -/
def plainInitiator : GssInitiator Bool where
  step := fun sent _ => .ok (if sent then .established none else .continue [0x52], true)
  wrap := fun s plaintext _ => .ok (plaintext, s)
  unwrap := fun s token => .ok (token, s)

theorem negotiation_completes_plain :
    ∃ tokens challenges,
      Connects plainInitiator (.new false 4096 (some "bob")) (none :: challenges.map some) tokens ∧
        Serves plainAcceptor (.new () 65536) tokens challenges "alice@REALM" := by
  have hestablishes : Establishes plainAcceptor plainInitiator false none () true () :=
    .serverFirst rfl rfl rfl
  have hcarries : Carries plainAcceptor plainInitiator true () "alice@REALM" := fun offer =>
    ⟨offer, (), true, rfl, rfl, fun choice => ⟨choice, true, (), rfl, rfl, rfl⟩⟩
  exact negotiation_completes hestablishes hcarries 65536 4096 (some "bob")

end Krabka.Security.Gssapi
