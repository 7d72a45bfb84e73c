import Krabka.Security.OAuthBearer.Claims

/-!
# `Security.OAuthBearer.Validators` — the three token validators

`UnsecuredJwsValidator`, the claim policy of `SignedJwsValidator`, and `IntrospectionValidator`. Sums and
differences of instants are plain `i64` arithmetic in the two JWS validators and wrap around; the
introspection validator saturates. The introspection endpoint is what a client answers for a token.
-/

namespace Krabka.Security.OAuthBearer

open FixedWidth Text ByteStream Json

/-! ## Unsecured tokens

The header names no algorithm, and the claims are checked one after the other. -/

structure UnsecuredJwsValidator extends Identification where
  allowableClockSkew : Time := 0
  validTokenType : Option (List Char) := none
  scopeClaimName : List Char := scopeKey
  requiredScope : List (List Char) := []

/-- The `typ` header is the configured one, when one is configured. -/
def hasTokenType (validTokenType : Option (List Char)) (header : Value) : Bool :=
  validTokenType.all fun expected => (header.get typKey).bind Value.asStr == some expected

/-- `iat` is a number, not in the future, and before `exp`; or it is absent. -/
def checkIssuedAt (ext : Externals) (claims : Value) (skewMs nowMs : Int64) : Except AuthError Unit :=
  match claims.get iatKey with
  | none => .ok ()
  | some iat => do
      let iatMs ← orInvalid (numericDateMs ext claims iatKey)
      rejectIf (iatMs - skewMs > nowMs)
      let issuedAtSecs ← orInvalid iat.asF64
      let expiresAtSecs ← orInvalid ((claims.get expKey).bind Value.asF64)
      rejectIf (expiresAtSecs ≤ issuedAtSecs)

def UnsecuredJwsValidator.validate (ext : Externals) (v : UnsecuredJwsValidator) (token : List Char)
    (nowMs : Int64) : Except AuthError AuthOutcome := do
  match token.splitOn '.' with
  | [headerB64, payloadB64, sig] =>
      rejectIf (!sig.isEmpty)
      let header ← decodeJsonSegment ext headerB64
      rejectIf ((header.get algKey).bind Value.asStr ≠ some ['n', 'o', 'n', 'e'])
      rejectIf (!hasTokenType v.validTokenType header)
      let claims ← decodeJsonSegment ext payloadB64
      let tokenScope ← scopeClaim ext claims v.scopeClaimName
      let skewMs := skewMillis v.allowableClockSkew
      let expMs ← orInvalid (numericDateMs ext claims expKey)
      rejectIf (expMs + skewMs ≤ nowMs)
      checkIssuedAt ext claims skewMs nowMs
      rejectIf (!passesCustomCheck v.toIdentification claims)
      let name ← orInvalid (principalName isJavaBlank v.toIdentification claims)
      let groups := groups v.toIdentification claims
      if !v.requiredScope.all tokenScope.contains then .error (.insufficientScope v.requiredScope)
      else return ⟨⟨name, .saslOAuthBearer, groups⟩, some expMs⟩
  | _ => .error .invalidToken

/-! ## Signed tokens

The claims behind a signature that holds. -/

structure SignedJwsValidator extends Identification where
  allowableClockSkew : Time := 30
  validIssuer : Option (List Char) := none
  expectedAudience : Option (List Char) := none

/-- A date that is absent, or has no millisecond count, is not checked. -/
def checkNotFuture (date : Option Int64) (skewMs nowMs : Int64) : Except AuthError Unit :=
  rejectIf (date.any fun ms => ms - skewMs > nowMs)

def SignedJwsValidator.checkClaims (ext : Externals) (v : SignedJwsValidator) (claims : Value)
    (nowMs : Int64) : Except AuthError AuthOutcome := do
  let skewMs := skewMillis v.allowableClockSkew
  let expMs ← orInvalid (numericDateMs ext claims expKey)
  rejectIf (expMs + skewMs ≤ nowMs)
  checkNotFuture (numericDateMs ext claims iatKey) skewMs nowMs
  checkNotFuture (numericDateMs ext claims nbfKey) skewMs nowMs
  rejectIf (!v.validIssuer.all fun expected => (claims.get issKey).bind Value.asStr == some expected)
  rejectIf (!v.expectedAudience.all (audienceContains claims))
  rejectIf (!passesCustomCheck v.toIdentification claims)
  let name ← orInvalid (principalName List.isEmpty v.toIdentification claims)
  return ⟨⟨name, .saslOAuthBearer, groups v.toIdentification claims⟩, some expMs⟩

/-! ## Introspection

The response of the endpoint is checked, then userinfo is fetched and merged. -/

inductive IntrospectionError where
  | transport (text : List Char)
  | status (code : UInt16)
  | parse

def IntrospectionError.message : IntrospectionError → List Char
  | .transport text => "transport: ".toList ++ text
  | .status code => "non-2xx response: ".toList ++ Nat.toDigits 10 code.toNat
  | .parse => "invalid JSON body".toList

structure IntrospectionClient where
  introspect : List Char → Except IntrospectionError Value
  userinfo : List Char → Except IntrospectionError (Option Value)

structure IntrospectionValidator extends Identification where
  client : IntrospectionClient
  callUserinfo : Bool := false
  allowableClockSkew : Time
  expectedAudience : Option (List Char) := none

/-- A `NumericDate` of whole seconds, saturated at the ends of `i64`. -/
def wholeDateMs (claims : Value) (key : List Char) : Option Int64 :=
  ((claims.get key).bind Value.asI64).map fun secs => saturatingMulI64 secs 1000

/-- A date that is absent, or is not a whole number of seconds, is not checked. -/
def checkTemporalClaims (claims : Value) (nowMs : Int64) (skew : Time) : Except AuthError Unit := do
  let skewMs := skewMillis skew
  rejectIf ((wholeDateMs claims expKey).any fun expMs => saturatingSubI64 nowMs skewMs > expMs)
  rejectIf ((wholeDateMs claims iatKey).any fun iatMs => saturatingSubI64 iatMs skewMs > nowMs)
  rejectIf ((wholeDateMs claims nbfKey).any fun nbfMs => saturatingSubI64 nbfMs skewMs > nowMs)

def reserved : List (List Char) :=
  [activeKey, expKey, iatKey, nbfKey, scopeKey, clientIdKey, subKey]

def mergeUserinfoOverIntrospection (introspection userinfo : Value) : Value :=
  match introspection, userinfo with
  | .object obj, .object uiMap =>
      .object (uiMap.foldl (fun obj m => if m.1 ∈ reserved then obj else Value.insert m.1 m.2 obj) obj)
  | _, _ => introspection

/-- The claims after userinfo, when it is asked for. -/
def IntrospectionValidator.enrich (v : IntrospectionValidator) (token : List Char) (claims : Value) :
    Except AuthError Value := do
  if v.callUserinfo then
    match ← (v.client.userinfo token).mapError fun e => .introspectionTransport e.message with
    | some ui => return mergeUserinfoOverIntrospection claims ui
    | none => return claims
  else return claims

def IntrospectionValidator.validate (ext : Externals) (v : IntrospectionValidator) (token : List Char)
    (nowMs : Int64) : Except AuthError AuthOutcome := do
  let claims ← (v.client.introspect token).mapError fun e => .introspectionTransport e.message
  rejectIf ((claims.get activeKey).bind Value.asBool ≠ some true)
  rejectIf (!v.expectedAudience.all (audienceContains claims))
  checkTemporalClaims claims nowMs v.allowableClockSkew
  let expMs ← orInvalid (numericDateMs ext claims expKey)
  let claims ← v.enrich token claims
  rejectIf (!passesCustomCheck v.toIdentification claims)
  let name ← orInvalid (principalName List.isEmpty v.toIdentification claims)
  return ⟨⟨name, .saslOAuthBearer, groups v.toIdentification claims⟩, some expMs⟩

end Krabka.Security.OAuthBearer
