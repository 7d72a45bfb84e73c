import Krabka.Security.OAuthBearer.PrincipalName

/-!
# `Security.OAuthBearer.Userinfo` — what userinfo cannot change

Userinfo is merged over the response before the principal is read, the reserved claims apart. A validator
that takes the name from reserved claims only, and has no custom check, decides on the response alone.
-/

namespace Krabka.Security.OAuthBearer

open FixedWidth Text ByteStream Json

/-! ## The merge

Reserved claims keep the value of the response, present or not. -/

theorem lookup_insert (key k : List Char) (v : Value) (members : List (List Char × Value)) :
    Value.lookup key (Value.insert k v members) = if k = key then some v else Value.lookup key members := by
  induction members with
  | nil => rfl
  | cons m members ih =>
      obtain ⟨k', v'⟩ := m
      unfold Value.insert
      by_cases hk : k' = k
      · rw [if_pos hk, hk]
        unfold Value.lookup
        split <;> rfl
      · rw [if_neg hk]
        split
        · rfl
        · show (if k' = key then some v' else Value.lookup key (Value.insert k v members)) = _
          rw [ih]
          show _ = if k = key then some v else if k' = key then some v' else Value.lookup key members
          by_cases hkey : k = key
          · rw [if_pos hkey, if_pos hkey, if_neg fun h => hk (h.trans hkey.symm)]
          · rw [if_neg hkey, if_neg hkey]

/-- One member of userinfo leaves the reserved claims alone, whatever it is. -/
theorem lookup_mergeMember {key : List Char} (hkey : key ∈ reserved) (obj : List (List Char × Value))
    (m : List Char × Value) :
    Value.lookup key (if m.1 ∈ reserved then obj else Value.insert m.1 m.2 obj) = Value.lookup key obj := by
  split
  · rfl
  · rename_i hm
    rw [lookup_insert, if_neg]
    rintro rfl
    exact hm hkey

/-- The reserved claims are those of the response. -/
theorem get_mergeUserinfoOverIntrospection {key : List Char} (hkey : key ∈ reserved)
    (introspection userinfo : Value) :
    (mergeUserinfoOverIntrospection introspection userinfo).get key = introspection.get key := by
  unfold mergeUserinfoOverIntrospection
  split
  · rename_i obj uiMap
    show Value.lookup key _ = Value.lookup key obj
    induction uiMap generalizing obj with
    | nil => rfl
    | cons m uiMap ih => rw [List.foldl_cons, ih, lookup_mergeMember hkey]
  · rfl

/-! ## The decision

Two merged claim sets agree on the reserved claims, and the decision reads nothing else. -/

/-- Two claim sets with the same reserved claims. -/
def AgreeOnReserved (claims claims' : Value) : Prop := ∀ key ∈ reserved, claims'.get key = claims.get key

/-- The claims that authorize, or that a name may be taken from without a word from userinfo. -/
def authorizationClaims : List (List Char) :=
  ["active", "exp", "iat", "nbf", "scope", "client_id", "sub"].map String.toList

/-- The merge leaves every one of them out. -/
theorem mem_reserved {key : List Char} (h : key ∈ authorizationClaims) : key ∈ reserved := by
  have hsame : authorizationClaims = reserved := by decide
  exact hsame ▸ h

/-- The name is read from such claims, and nothing else is read after userinfo. -/
structure IntrospectionValidator.ReadsReserved (v : IntrospectionValidator) : Prop where
  claimName : v.principalClaimName ∈ authorizationClaims
  fallback : ∀ key, v.fallbackUserNameClaim = some key → key ∈ authorizationClaims
  noCustom : v.customClaimCheck = none

/-- What the response alone decides: the principal's name and the expiry. -/
def IntrospectionValidator.authorize (ext : Externals) (v : IntrospectionValidator) (token : List Char)
    (nowMs : Int64) : Except AuthError (List Char × Option Int64) := do
  let claims ← (v.client.introspect token).mapError fun e => .introspectionTransport e.message
  rejectIf ((claims.get activeKey).bind Value.asBool ≠ some true)
  rejectIf (!v.expectedAudience.all (audienceContains claims))
  checkTemporalClaims claims nowMs v.allowableClockSkew
  let expMs ← orInvalid (numericDateMs ext claims expKey)
  let name ← orInvalid (principalName List.isEmpty v.toIdentification claims)
  return (name, some expMs)

/-- The principal's name and the expiry of an outcome. -/
def AuthOutcome.authorization (outcome : AuthOutcome) : List Char × Option Int64 :=
  (outcome.principal.name, outcome.expiresAtMs)

theorem textClaim_congr {isAbsent : List Char → Bool} {claims claims' : Value} {key : List Char}
    (h : claims'.get key = claims.get key) : textClaim isAbsent claims' key = textClaim isAbsent claims key := by
  rw [textClaim, h, textClaim]

theorem IntrospectionValidator.ReadsReserved.principalName_eq {v : IntrospectionValidator}
    (h : v.ReadsReserved) {claims claims' : Value} (hagree : AgreeOnReserved claims claims') :
    principalName List.isEmpty v.toIdentification claims' =
      principalName List.isEmpty v.toIdentification claims := by
  have hfallback : (v.fallbackUserNameClaim.bind fun key => textClaim List.isEmpty claims' key) =
      v.fallbackUserNameClaim.bind fun key => textClaim List.isEmpty claims key := by
    cases hkey : v.fallbackUserNameClaim with
    | none => rfl
    | some key => exact textClaim_congr (hagree key (mem_reserved (h.fallback key hkey)))
  unfold principalName
  rw [textClaim_congr (hagree _ (mem_reserved h.claimName)), hfallback]

/-- Userinfo that is obtained leaves claims with the same reserved ones. -/
theorem IntrospectionValidator.enrich_eq_ok {v : IntrospectionValidator} {token : List Char}
    {ui : Option Value} (hui : v.client.userinfo token = .ok ui) (claims : Value) :
    ∃ merged, v.enrich token claims = .ok merged ∧ AgreeOnReserved claims merged := by
  unfold enrich
  split
  · rw [hui]
    cases ui with
    | none => exact ⟨claims, rfl, fun _ _ => rfl⟩
    | some ui => exact ⟨_, rfl, fun key hkey => get_mergeUserinfoOverIntrospection hkey claims ui⟩
  · exact ⟨claims, rfl, fun _ _ => rfl⟩

theorem map_bind {ε α β γ : Type} (x : Except ε α) (f : α → Except ε β) (g : β → γ) :
    (x >>= f).map g = x >>= fun a => (f a).map g := by
  cases x <;> rfl

/-- **The decision is that of the response.** -/
theorem IntrospectionValidator.ReadsReserved.validate_eq {v : IntrospectionValidator} (h : v.ReadsReserved)
    (ext : Externals) {token : List Char} {ui : Option Value} (hui : v.client.userinfo token = .ok ui)
    (nowMs : Int64) :
    (v.validate ext token nowMs).map AuthOutcome.authorization = v.authorize ext token nowMs := by
  unfold validate authorize
  simp only [map_bind]
  refine bind_congr fun claims => bind_congr fun _ => bind_congr fun _ => bind_congr fun _ =>
    bind_congr fun expMs => ?_
  obtain ⟨merged, hmerged, hagree⟩ := enrich_eq_ok hui claims
  have hcustom : passesCustomCheck v.toIdentification merged = true := by
    rw [passesCustomCheck, h.noCustom]
    rfl
  rw [hmerged, Results.ok_bind, hcustom, h.principalName_eq hagree]
  rfl

/-- **Userinfo cannot change who is admitted, for how long, or why a token is refused.** -/
theorem userinfo_noninterference (ext : Externals) (v : IntrospectionValidator) (hv : v.ReadsReserved)
    (client : IntrospectionClient) (token : List Char) (nowMs : Int64) {ui ui' : Option Value}
    (hresponse : client.introspect token = v.client.introspect token)
    (hui : v.client.userinfo token = .ok ui) (hui' : client.userinfo token = .ok ui') :
    (IntrospectionValidator.validate ext { v with client := client } token nowMs).map
        AuthOutcome.authorization =
      (v.validate ext token nowMs).map AuthOutcome.authorization := by
  have hv' : IntrospectionValidator.ReadsReserved { v with client := client } :=
    ⟨hv.claimName, hv.fallback, hv.noCustom⟩
  rw [hv.validate_eq ext hui, hv'.validate_eq ext hui']
  unfold IntrospectionValidator.authorize
  rw [hresponse]

/-- A subject of userinfo that is not the response's. -/
def otherSubject : Value := .object [(subKey, .string ['m', 'a', 'l'])]

/-- Userinfo names another subject. -/
theorem userinfo_noninterference_sub :
    (IntrospectionValidator.validate truncatingExternals
        { fractionalValidator with
          callUserinfo := true
          client := { introspect := fun _ => .ok fractionalResponse, userinfo := fun _ => .ok (some otherSubject) } }
        [] 1000).map AuthOutcome.authorization =
      (IntrospectionValidator.validate truncatingExternals { fractionalValidator with callUserinfo := true }
        [] 1000).map AuthOutcome.authorization :=
  userinfo_noninterference truncatingExternals { fractionalValidator with callUserinfo := true }
    ⟨by decide, fun _ h => (by cases h), rfl⟩
    { introspect := fun _ => .ok fractionalResponse, userinfo := fun _ => .ok (some otherSubject) } [] 1000
    rfl rfl rfl

end Krabka.Security.OAuthBearer
