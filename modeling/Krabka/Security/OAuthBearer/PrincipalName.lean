import Krabka.Lib.Base64
import Krabka.Security.OAuthBearer.Expiry

/-!
# `Security.OAuthBearer.PrincipalName` — whom a token is for

The three validators find the principal's name by one rule: the primary claim, else the fallback claim behind
its prefix. The unsecured validator passes over a blank claim, as Kafka does. The other two pass over an
empty one only, so they give a blank name where the first gives another name or none.
-/

namespace Krabka.Security.OAuthBearer

open FixedWidth Text ByteStream Json

/-! ## The rule

One rule with the test for an absent claim as a parameter. -/

/-- Where a validator is told to find the name. -/
structure PrincipalRule where
  claimName : List Char
  fallback : Option (List Char)
  fallbackPrefix : Option (List Char)

def Identification.rule (id : Identification) : PrincipalRule :=
  ⟨id.principalClaimName, id.fallbackUserNameClaim, id.fallbackUserNamePrefix⟩

/-- A claim that is a string. -/
def stringClaim (claims : Value) (key : List Char) : Option (List Char) :=
  (claims.get key).bind Value.asStr

/-- The name that the rule derives, when a claim counts as absent by `isAbsent`. -/
inductive DerivesBy (isAbsent : List Char → Bool) (rule : PrincipalRule) (claims : Value) :
    List Char → Prop
  | primary {s : List Char} (h : stringClaim claims rule.claimName = some s) (hs : isAbsent s = false) :
      DerivesBy isAbsent rule claims s
  | fallback {key s : List Char}
      (hp : ∀ p, stringClaim claims rule.claimName = some p → isAbsent p = true)
      (hkey : rule.fallback = some key) (h : stringClaim claims key = some s) (hs : isAbsent s = false) :
      DerivesBy isAbsent rule claims (rule.fallbackPrefix.getD [] ++ s)

/-- The principal of this result has this name. -/
def Admits (result : Except AuthError AuthOutcome) (name : List Char) : Prop :=
  ∃ outcome, result = .ok outcome ∧ outcome.principal.name = name

/-- A result that admits the principal of this rule, blank claims passed over, and nobody else. -/
def NamedByRule (rule : PrincipalRule) (claims : Value) (result : Except AuthError AuthOutcome) : Prop :=
  ∀ name, Admits result name ↔ DerivesBy isJavaBlank rule claims name

/-- No claim that the rule comes to is a blank string, the empty one apart. -/
def ReadsNoBlank (rule : PrincipalRule) (claims : Value) : Prop :=
  (∀ s, stringClaim claims rule.claimName = some s → isJavaBlank s = true → s = []) ∧
    ((∀ s, stringClaim claims rule.claimName = some s → s = []) →
      ∀ key s, rule.fallback = some key → stringClaim claims key = some s → isJavaBlank s = true → s = [])

/-- A claim is taken where it is a string and not absent. -/
theorem textClaim_eq_some {isAbsent : List Char → Bool} {claims : Value} {key s : List Char} :
    textClaim isAbsent claims key = some s ↔ stringClaim claims key = some s ∧ isAbsent s = false := by
  unfold textClaim stringClaim
  rw [Option.filter_eq_some_iff, Bool.not_eq_true']

/-- A claim is passed over where it is no string or absent. -/
theorem textClaim_eq_none {isAbsent : List Char → Bool} {claims : Value} {key : List Char} :
    textClaim isAbsent claims key = none ↔
      ∀ p, stringClaim claims key = some p → isAbsent p = true := by
  unfold textClaim stringClaim
  rw [Option.filter_eq_none_iff]
  simp only [Bool.not_eq_true', Bool.not_eq_false]

/-- What all three validators compute. -/
theorem principalName_eq_some {isAbsent : List Char → Bool} {id : Identification} {claims : Value}
    {name : List Char} :
    principalName isAbsent id claims = some name ↔ DerivesBy isAbsent id.rule claims name := by
  unfold principalName
  constructor
  · intro h
    split at h
    · rename_i s hs
      cases h
      obtain ⟨hclaim, habsent⟩ := textClaim_eq_some.mp hs
      exact .primary hclaim habsent
    · rename_i hnone
      obtain ⟨raw, hraw, h⟩ := Option.map_eq_some_iff.mp h
      obtain ⟨key, hkey, hraw⟩ := Option.bind_eq_some_iff.mp hraw
      obtain ⟨hclaim, habsent⟩ := textClaim_eq_some.mp hraw
      have hname : id.rule.fallbackPrefix.getD [] ++ raw = name := by
        rw [← h]
        unfold Identification.rule
        cases id.fallbackUserNamePrefix with
        | none => rfl
        | some p => rfl
      rw [← hname]
      exact .fallback (textClaim_eq_none.mp hnone) hkey hclaim habsent
  · rintro (⟨h, hs⟩ | ⟨hp, hkey, h, hs⟩)
    · have hprimary : textClaim isAbsent claims id.principalClaimName = some name :=
        textClaim_eq_some.mpr ⟨h, hs⟩
      rw [hprimary]
    · rename_i key s
      have hprimary : textClaim isAbsent claims id.principalClaimName = none := textClaim_eq_none.mpr hp
      have hfallback : id.fallbackUserNameClaim = some key := hkey
      rw [hprimary, hfallback, Option.bind_some, textClaim_eq_some.mpr ⟨h, hs⟩]
      unfold Identification.rule
      cases id.fallbackUserNamePrefix with
      | none => rfl
      | some p => rfl

/-! ## Blank claims

Which texts Java takes for blank. An empty one is. -/

/-- Blank is what Java trims. -/
theorem isJavaBlank_iff {s : List Char} : isJavaBlank s = true ↔ ∀ c ∈ s, c.toNat ≤ 0x20 := by
  unfold isJavaBlank javaTrim
  rw [List.isEmpty_iff, trimMatches_eq_nil]
  simp only [decide_eq_true_eq]

theorem isJavaBlank_nil : isJavaBlank [] = true := rfl

/-- A name with a part that is not blank is not blank. -/
theorem isJavaBlank_append {p s : List Char} (h : isJavaBlank s = false) : isJavaBlank (p ++ s) = false := by
  rw [Bool.eq_false_iff] at h ⊢
  intro hblank
  refine h (isJavaBlank_iff.mpr fun c hc => ?_)
  exact isJavaBlank_iff.mp hblank c (List.mem_append_right p hc)

/-- Nobody is named by a blank string when blank claims are passed over. -/
theorem DerivesBy.not_blank {rule : PrincipalRule} {claims : Value} {name : List Char}
    (h : DerivesBy isJavaBlank rule claims name) : isJavaBlank name = false := by
  cases h with
  | primary _ hs => exact hs
  | fallback _ _ _ hs => exact isJavaBlank_append hs

/-- Blank and empty agree where only the empty text is blank. -/
theorem isEmpty_eq_isJavaBlank {s : List Char} (h : isJavaBlank s = true → s = []) :
    s.isEmpty = isJavaBlank s := by
  cases hblank : isJavaBlank s with
  | true => rw [h hblank, List.isEmpty_nil]
  | false =>
      cases s with
      | nil => cases hblank
      | cons c s => rfl

/-- Two tests derive the same names when they agree on the claims that the rule comes to. -/
theorem DerivesBy.of_agree {isAbsent isAbsent' : List Char → Bool} {rule : PrincipalRule} {claims : Value}
    {name : List Char} (h : DerivesBy isAbsent rule claims name)
    (hprimary : ∀ s, stringClaim claims rule.claimName = some s → isAbsent s = isAbsent' s)
    (hfallback : (∀ s, stringClaim claims rule.claimName = some s → isAbsent s = true) →
      ∀ key s, rule.fallback = some key → stringClaim claims key = some s → isAbsent s = isAbsent' s) :
    DerivesBy isAbsent' rule claims name := by
  cases h with
  | primary h hs => exact .primary h ((hprimary _ h).symm.trans hs)
  | fallback hp hkey h hs =>
      refine .fallback (fun p hclaim => ?_) hkey h ((hfallback hp _ _ hkey h).symm.trans hs)
      exact (hprimary p hclaim).symm.trans (hp p hclaim)

/-- An empty claim is the one blank claim that both tests pass over. -/
theorem derivesBy_isEmpty_iff {rule : PrincipalRule} {claims : Value} :
    (∀ name, DerivesBy List.isEmpty rule claims name ↔ DerivesBy isJavaBlank rule claims name) ↔
      ReadsNoBlank rule claims := by
  constructor
  · intro h
    constructor
    · intro s hs hblank
      by_contra hne
      have hname : DerivesBy isJavaBlank rule claims s :=
        (h s).mp (.primary hs (List.isEmpty_eq_false_iff.mpr hne))
      rw [hname.not_blank] at hblank
      cases hblank
    · intro hp key s hkey hs hblank
      by_contra hne
      have hempty : ∀ p, stringClaim claims rule.claimName = some p → p.isEmpty = true := by
        intro p hclaim
        rw [hp p hclaim, List.isEmpty_nil]
      have hname := (h _).mp (.fallback hempty hkey hs (List.isEmpty_eq_false_iff.mpr hne))
      -- the other test passes over both claims
      generalize rule.fallbackPrefix.getD [] ++ s = name at hname
      cases hname with
      | primary hclaim hs' =>
          rw [hp _ hclaim, isJavaBlank_nil] at hs'
          cases hs'
      | fallback _ hkey' hs' habsent =>
          cases hkey.symm.trans hkey'
          cases hs.symm.trans hs'
          rw [hblank] at habsent
          cases habsent
  · intro h name
    have hprimary : ∀ s, stringClaim claims rule.claimName = some s → s.isEmpty = isJavaBlank s :=
      fun s hs => isEmpty_eq_isJavaBlank (h.1 s hs)
    have hfallback : (∀ s, stringClaim claims rule.claimName = some s → s.isEmpty = true) →
        ∀ key s, rule.fallback = some key → stringClaim claims key = some s → s.isEmpty = isJavaBlank s :=
      fun hp key s hkey hs =>
        isEmpty_eq_isJavaBlank (h.2 (fun p hclaim => List.isEmpty_iff.mp (hp p hclaim)) key s hkey hs)
    constructor
    · intro hname
      exact hname.of_agree hprimary hfallback
    · intro hname
      refine hname.of_agree (fun s hs => (hprimary s hs).symm) fun hp key s hkey hs => ?_
      exact (hfallback (fun p hclaim => (hprimary p hclaim).trans (hp p hclaim)) key s hkey hs).symm

/-! ## The checks besides the name

What each validator asks besides, so that the outcome is the name alone. -/

/-- The token carries these claims and is refused for its name only. -/
structure UnsecuredJwsValidator.PassesOthers (ext : Externals) (v : UnsecuredJwsValidator)
    (token : List Char) (nowMs : Int64) (claims : Value) : Prop where
  decoded : ∃ headerB64 payloadB64 header, token.splitOn '.' = [headerB64, payloadB64, []] ∧
    decodeJsonSegment ext headerB64 = .ok header ∧
    (header.get algKey).bind Value.asStr = some ['n', 'o', 'n', 'e'] ∧
    hasTokenType v.validTokenType header = true ∧ decodeJsonSegment ext payloadB64 = .ok claims
  current : ∃ expMs, numericDateMs ext claims expKey = some expMs ∧
    ¬expMs + skewMillis v.allowableClockSkew ≤ nowMs
  issued : checkIssuedAt ext claims (skewMillis v.allowableClockSkew) nowMs = .ok ()
  custom : passesCustomCheck v.toIdentification claims = true
  scope : ∃ tokenScope, scopeClaim ext claims v.scopeClaimName = .ok tokenScope ∧
    v.requiredScope.all tokenScope.contains = true

/-- These claims are refused for their name only. -/
structure SignedJwsValidator.PassesOthers (ext : Externals) (v : SignedJwsValidator) (claims : Value)
    (nowMs : Int64) : Prop where
  current : ∃ expMs, numericDateMs ext claims expKey = some expMs ∧
    ¬expMs + skewMillis v.allowableClockSkew ≤ nowMs
  issued : checkNotFuture (numericDateMs ext claims iatKey) (skewMillis v.allowableClockSkew) nowMs = .ok ()
  started : checkNotFuture (numericDateMs ext claims nbfKey) (skewMillis v.allowableClockSkew) nowMs = .ok ()
  issuer : v.validIssuer.all (fun expected => (claims.get issKey).bind Value.asStr == some expected) = true
  audience : v.expectedAudience.all (audienceContains claims) = true
  custom : passesCustomCheck v.toIdentification claims = true

/-- The endpoint answers with these claims, userinfo is not asked for, and the answer is refused for its
name only. -/
structure IntrospectionValidator.PassesOthers (ext : Externals) (v : IntrospectionValidator)
    (token : List Char) (nowMs : Int64) (claims : Value) : Prop where
  introspected : v.client.introspect token = .ok claims
  active : (claims.get activeKey).bind Value.asBool = some true
  audience : v.expectedAudience.all (audienceContains claims) = true
  current : checkTemporalClaims claims nowMs v.allowableClockSkew = .ok ()
  expires : ∃ expMs, numericDateMs ext claims expKey = some expMs
  noUserinfo : v.callUserinfo = false
  custom : passesCustomCheck v.toIdentification claims = true

theorem rejectIf_false : rejectIf False = .ok () := rfl

theorem orInvalid_some {α : Type} (a : α) : orInvalid (some a) = .ok a := rfl

theorem mapError_ok {ε ε' α : Type} (g : ε → ε') (a : α) : (Except.ok a).mapError g = .ok a := rfl

/-- What every validator returns when the name is all that is left to find. -/
def named (found : Option (List Char)) (groups : List (List Char)) (expMs : Int64) :
    Except AuthError AuthOutcome :=
  (orInvalid found).map fun name => ⟨⟨name, .saslOAuthBearer, groups⟩, some expMs⟩

/-- The name that was found is admitted, and no other. -/
theorem admits_named {found : Option (List Char)} {groups : List (List Char)} {expMs : Int64}
    {name : List Char} : Admits (named found groups expMs) name ↔ found = some name := by
  cases found with
  | none =>
      constructor
      · rintro ⟨_, h, _⟩
        cases h
      · rintro ⟨⟩
  | some found =>
      constructor
      · rintro ⟨_, h, rfl⟩
        cases h
        rfl
      · rintro ⟨⟩
        exact ⟨_, rfl, rfl⟩

/-- Past its other checks, the unsecured validator admits the name. -/
theorem UnsecuredJwsValidator.PassesOthers.admits {ext : Externals} {v : UnsecuredJwsValidator}
    {token : List Char} {nowMs : Int64} {claims : Value} (h : v.PassesOthers ext token nowMs claims)
    {name : List Char} : Admits (v.validate ext token nowMs) name ↔
      DerivesBy isJavaBlank v.toIdentification.rule claims name := by
  obtain ⟨headerB64, payloadB64, header, hsplit, hheader, halg, htyp, hpayload⟩ := h.decoded
  obtain ⟨expMs, hexp, hcurrent⟩ := h.current
  obtain ⟨tokenScope, hscope, hrequired⟩ := h.scope
  have hresult : v.validate ext token nowMs = named (principalName isJavaBlank v.toIdentification claims)
      (groups v.toIdentification claims) expMs := by
    unfold validate
    rw [hsplit]
    simp only [List.isEmpty_nil, Bool.not_true, Bool.false_eq_true, rejectIf_false, hheader,
      Results.ok_bind, halg, ne_eq, not_true_eq_false, htyp, hpayload, hscope, hexp, orInvalid_some,
      hcurrent, h.issued, h.custom, hrequired, if_false]
    rfl
  rw [hresult, admits_named, principalName_eq_some]

/-- So does the signed one. -/
theorem SignedJwsValidator.PassesOthers.admits {ext : Externals} {v : SignedJwsValidator} {claims : Value}
    {nowMs : Int64} (h : v.PassesOthers ext claims nowMs) {name : List Char} :
    Admits (v.checkClaims ext claims nowMs) name ↔
      DerivesBy List.isEmpty v.toIdentification.rule claims name := by
  obtain ⟨expMs, hexp, hcurrent⟩ := h.current
  have hresult : v.checkClaims ext claims nowMs = named (principalName List.isEmpty v.toIdentification claims)
      (groups v.toIdentification claims) expMs := by
    unfold checkClaims
    simp only [hexp, orInvalid_some, Results.ok_bind, hcurrent, rejectIf_false, h.issued, h.started,
      h.issuer, h.audience, h.custom, Bool.not_true, Bool.false_eq_true]
    rfl
  rw [hresult, admits_named, principalName_eq_some]

/-- So does introspection. -/
theorem IntrospectionValidator.PassesOthers.admits {ext : Externals} {v : IntrospectionValidator}
    {token : List Char} {nowMs : Int64} {claims : Value} (h : v.PassesOthers ext token nowMs claims)
    {name : List Char} : Admits (v.validate ext token nowMs) name ↔
      DerivesBy List.isEmpty v.toIdentification.rule claims name := by
  obtain ⟨expMs, hexp⟩ := h.expires
  have hresult : v.validate ext token nowMs = named (principalName List.isEmpty v.toIdentification claims)
      (groups v.toIdentification claims) expMs := by
    have hclaims : v.enrich token claims = .ok claims := by
      rw [enrich, if_neg (Bool.eq_false_iff.mp h.noUserinfo)]
      rfl
    unfold validate
    rw [h.introspected]
    simp only [mapError_ok, Results.ok_bind, h.active, h.audience, h.current, hexp, orInvalid_some,
      hclaims, h.custom, ne_eq, not_true_eq_false, Bool.not_true, Bool.false_eq_true, rejectIf_false]
    rfl
  rw [hresult, admits_named, principalName_eq_some]

/-! ## All three

The names agree where no claim is blank and not empty. -/

/-- A validator that passes over empty claims only follows the rule where no claim it reads is blank. -/
theorem namedByRule_iff {rule : PrincipalRule} {claims : Value} {result : Except AuthError AuthOutcome}
    (h : ∀ name, Admits result name ↔ DerivesBy List.isEmpty rule claims name) :
    NamedByRule rule claims result ↔ ReadsNoBlank rule claims := by
  rw [← derivesBy_isEmpty_iff]
  constructor
  · intro hnamed name
    rw [← h, hnamed name]
  · intro hsame name
    rw [h, hsame name]

/-- **The three validators name the principal by one rule, unless a claim they read is blank and not
empty.** -/
theorem principals_agree_iff {ext : Externals} {rule : PrincipalRule} {claims : Value} {nowMs : Int64}
    {unsecured : UnsecuredJwsValidator} {signed : SignedJwsValidator}
    {introspection : IntrospectionValidator} {token reference : List Char}
    (hu : unsecured.toIdentification.rule = rule) (hs : signed.toIdentification.rule = rule)
    (hi : introspection.toIdentification.rule = rule)
    (hunsecured : unsecured.PassesOthers ext token nowMs claims)
    (hsigned : signed.PassesOthers ext claims nowMs)
    (hintrospection : introspection.PassesOthers ext reference nowMs claims) :
    (NamedByRule rule claims (unsecured.validate ext token nowMs) ∧
      NamedByRule rule claims (signed.checkClaims ext claims nowMs) ∧
      NamedByRule rule claims (introspection.validate ext reference nowMs)) ↔ ReadsNoBlank rule claims := by
  have hfirst : NamedByRule rule claims (unsecured.validate ext token nowMs) := by
    intro name
    rw [hunsecured.admits, hu]
  have hsecond : NamedByRule rule claims (signed.checkClaims ext claims nowMs) ↔ ReadsNoBlank rule claims :=
    namedByRule_iff fun name => by rw [hsigned.admits, hs]
  have hthird : NamedByRule rule claims (introspection.validate ext reference nowMs) ↔
      ReadsNoBlank rule claims := namedByRule_iff fun name => by rw [hintrospection.admits, hi]
  rw [hsecond, hthird, and_self, and_iff_right hfirst]

/-! ### A token

One whose primary claim is a blank. -/

def headerJson : List Char := "\x7b\"alg\":\"none\" \x7d".toList

def claimsJson (sub : List Char) : List Char :=
  "\x7b\"active\":true,\"exp\":10,\"sub\":\"".toList ++ sub ++ "\" \x7d".toList

def asciiBytes (cs : List Char) : Bytes := cs.map fun c => UInt8.ofNat c.toNat

def subClaims (sub : List Char) : Value := .object [
  (activeKey, .bool true),
  (expKey, .number (.posInt 10)),
  (subKey, .string sub)]

/-- The parser at the two documents of a token for `sub`. The url alphabet differs from the standard one
in two characters, which the tokens below do not have. -/
def subExternals (sub : List Char) : Externals :=
  { truncatingExternals with
    decodeBase64Url := Base64.decode false
    parseJson := fun text =>
      if text = asciiBytes headerJson then some (.object [(algKey, .string ['n', 'o', 'n', 'e'])])
      else if text = asciiBytes (claimsJson sub) then some (subClaims sub)
      else none }

def subToken (sub : List Char) : List Char :=
  Base64.encode (asciiBytes headerJson) ++ '.' :: Base64.encode (asciiBytes (claimsJson sub)) ++ ['.']

def subSigned : SignedJwsValidator where
  allowableClockSkew := 0

def subIntrospection (sub : List Char) : IntrospectionValidator where
  client := { introspect := fun _ => .ok (subClaims sub), userinfo := fun _ => .ok none }
  allowableClockSkew := 0

def subUnsecured : UnsecuredJwsValidator where
  allowableClockSkew := 0

theorem subUnsecured_passesOthers {sub : List Char}
    (hsplit : (subToken sub).splitOn '.' =
      [Base64.encode (asciiBytes headerJson), Base64.encode (asciiBytes (claimsJson sub)), []])
    (hdecode : decodeJsonSegment (subExternals sub) (Base64.encode (asciiBytes (claimsJson sub))) =
      .ok (subClaims sub)) :
    subUnsecured.PassesOthers (subExternals sub) (subToken sub) 1000 (subClaims sub) where
  decoded := ⟨_, _, _, hsplit, rfl, rfl, rfl, hdecode⟩
  current := ⟨10000, rfl, by show ¬10000 + skewMillis 0 ≤ 1000; rw [skewMillis_zero]; decide⟩
  issued := rfl
  custom := rfl
  scope := ⟨[], rfl, rfl⟩

theorem subSigned_passesOthers {sub : List Char} :
    subSigned.PassesOthers (subExternals sub) (subClaims sub) 1000 where
  current := ⟨10000, rfl, by show ¬10000 + skewMillis 0 ≤ 1000; rw [skewMillis_zero]; decide⟩
  issued := rfl
  started := rfl
  issuer := rfl
  audience := rfl
  custom := rfl

theorem subIntrospection_passesOthers {sub : List Char} :
    (subIntrospection sub).PassesOthers (subExternals sub) [] 1000 (subClaims sub) where
  introspected := rfl
  active := rfl
  audience := rfl
  current := by
    show checkTemporalClaims (subClaims sub) 1000 0 = .ok ()
    unfold checkTemporalClaims
    rw [skewMillis_zero]
    rfl
  expires := ⟨10000, rfl⟩
  noUserinfo := rfl
  custom := rfl

/-- A subject of two blanks: the first validator refuses the token, the second admits the blanks. -/
theorem not_principals_agree_blank :
    subUnsecured.PassesOthers (subExternals [' ', ' ']) (subToken [' ', ' ']) 1000 (subClaims [' ', ' ']) ∧
    subSigned.PassesOthers (subExternals [' ', ' ']) (subClaims [' ', ' ']) 1000 ∧
    (subIntrospection [' ', ' ']).PassesOthers (subExternals [' ', ' ']) [] 1000 (subClaims [' ', ' ']) ∧
    (∀ name, ¬Admits (subUnsecured.validate (subExternals [' ', ' ']) (subToken [' ', ' ']) 1000) name) ∧
    Admits (subSigned.checkClaims (subExternals [' ', ' ']) (subClaims [' ', ' ']) 1000) [' ', ' '] ∧
    Admits ((subIntrospection [' ', ' ']).validate (subExternals [' ', ' ']) [] 1000) [' ', ' '] := by
  have hunsecured := @subUnsecured_passesOthers [' ', ' '] (by decide) rfl
  have hderives : DerivesBy List.isEmpty subSigned.rule (subClaims [' ', ' ']) [' ', ' '] := .primary rfl rfl
  refine ⟨hunsecured, subSigned_passesOthers, subIntrospection_passesOthers, fun name h => ?_,
    subSigned_passesOthers.admits.mpr hderives, subIntrospection_passesOthers.admits.mpr hderives⟩
  cases principalName_eq_some.mpr (hunsecured.admits.mp h)

/-- All three name the subject `al`. -/
theorem principals_agree_al :
    (NamedByRule subUnsecured.rule (subClaims ['a', 'l'])
        (subUnsecured.validate (subExternals ['a', 'l']) (subToken ['a', 'l']) 1000) ∧
      NamedByRule subUnsecured.rule (subClaims ['a', 'l'])
        (subSigned.checkClaims (subExternals ['a', 'l']) (subClaims ['a', 'l']) 1000) ∧
      NamedByRule subUnsecured.rule (subClaims ['a', 'l'])
        ((subIntrospection ['a', 'l']).validate (subExternals ['a', 'l']) [] 1000)) ↔
    ReadsNoBlank subUnsecured.rule (subClaims ['a', 'l']) :=
  principals_agree_iff rfl rfl rfl (subUnsecured_passesOthers (by decide) rfl) subSigned_passesOthers
    subIntrospection_passesOthers

end Krabka.Security.OAuthBearer
