import Krabka.Security.OAuthBearer.Validators

/-!
# `Security.OAuthBearer.Expiry` — no expired token is admitted

The JWS validators compare the expiry that they report. The introspection validator compares the whole
seconds of `exp` and reports the milliseconds of any number, so a fractional expiry is reported and never
compared.
-/

namespace Krabka.Security.OAuthBearer

open FixedWidth Text ByteStream Json

/-- A token that is admitted has not expired longer ago than the skew. -/
def RespectsExpiry (result : Except AuthError AuthOutcome) (skew : Time) (nowMs : Int64) : Prop :=
  ∀ outcome e, result = .ok outcome → outcome.expiresAtMs = some e →
    nowMs.toInt ≤ e.toInt + (skewMillis skew).toInt

/-- The conversion of a fraction truncates: it is off by less than a millisecond. -/
def Externals.Truncates (ext : Externals) : Prop :=
  ∀ x ms, ext.floatMillis x = some ms → |(ms.toInt : ℚ) - x * 1000| < 1

/-! ## Arithmetic

Comparisons of clamped and wrapped sums with those of the integers. -/

theorem toInt_skewMillis_nonneg {skew : Time} (h : 0 ≤ skew) : 0 ≤ (skewMillis skew).toInt := by
  have hround : 0 ≤ roundHalfAway (skew * 1000) := by
    have hms : 0 ≤ skew * 1000 := by positivity
    unfold roundHalfAway
    rw [if_neg (not_lt.mpr hms)]
    exact Int.floor_nonneg.mpr (by positivity)
  rw [skewMillis, millisI64, roundI64, toInt_ofIntClampI64]
  omega

/-- A sum that wraps around is negative, so the check on the sum is not weaker than the exact one. -/
theorem lt_add_of_not_le {exp skew now : Int64} (hskew : 0 ≤ skew.toInt) (hnow : 0 ≤ now.toInt)
    (h : ¬exp + skew ≤ now) : now.toInt < exp.toInt + skew.toInt := by
  have hexp := exp.toInt_lt
  have hlow := exp.le_toInt
  have hs := skew.toInt_lt
  rw [Int64.le_iff_toInt_le, Int64.toInt_add, Int.bmod_def] at h
  split at h <;> omega

/-- A date of whole seconds is compared at the milliseconds that are reported. -/
theorem wholeDateMs_eq {ext : Externals} {claims : Value} {key : List Char} {ms : Int64}
    (h : numericDateMs ext claims key = some ms) {v : Value} (hv : claims.get key = some v)
    {secs : Int64} (hsecs : v.asI64 = some secs) : wholeDateMs claims key = some ms := by
  have hms : checkedMulI64 secs 1000 = some ms := by
    unfold numericDateMs at h
    simpa [hv, hsecs] using h
  unfold wholeDateMs
  rw [hv, Option.bind_some, hsecs, Option.map_some, saturatingMulI64_of_checked hms]

/-- A date that has milliseconds and is not an integer of 64 bits is a fraction: those of an integer that is
too large are too large themselves. -/
theorem float_of_numericDateMs {ext : Externals} (htrunc : ext.Truncates) {claims : Value} {key : List Char}
    {ms : Int64} (h : numericDateMs ext claims key = some ms) {v : Value} (hv : claims.get key = some v)
    (hsecs : v.asI64 = none) : ∃ x, v = .number (.float x) ∧ ext.floatMillis x = some ms := by
  have hms : v.asF64.bind ext.floatMillis = some ms := by
    unfold numericDateMs at h
    simpa [hv, hsecs] using h
  obtain ⟨x, hx, hfloat⟩ := Option.bind_eq_some_iff.mp hms
  cases v with
  | number n =>
      cases n with
      | posInt n =>
          -- beyond `i64` the milliseconds are beyond it too
          exfalso
          have hn : ¬(n.toNat : Int) < 2 ^ 63 := by
            intro hlt
            have hsome : i64OfInt n.toNat = none := hsecs
            rw [i64OfInt, if_pos ⟨by omega, hlt⟩] at hsome
            cases hsome
          have hxn : x = n.toNat := (Option.some.inj hx).symm
          have hbound := (abs_lt.mp (htrunc x ms hfloat)).1
          have hmax : ms.toInt < 2 ^ 63 := ms.toInt_lt
          have hmaxQ : (ms.toInt : ℚ) < 2 ^ 63 := by exact_mod_cast hmax
          have hnQ : (2 ^ 63 : ℚ) ≤ n.toNat := by exact_mod_cast not_lt.mp hn
          rw [hxn] at hbound
          linarith
      | negInt n => cases hsecs
      | float x =>
          cases hx
          exact ⟨_, rfl, hfloat⟩
  | null => cases hx
  | bool b => cases hx
  | string s => cases hx
  | array items => cases hx
  | object members => cases hx

/-! ## The JWS validators

They report the expiry that they have compared. -/

theorem UnsecuredJwsValidator.validate_eq_ok {ext : Externals} {v : UnsecuredJwsValidator}
    {token : List Char} {nowMs : Int64} {outcome : AuthOutcome}
    (h : v.validate ext token nowMs = .ok outcome) :
    ∃ expMs, outcome.expiresAtMs = some expMs ∧
      ¬expMs + skewMillis v.allowableClockSkew ≤ nowMs := by
  unfold validate at h
  split at h
  · simp only [Results.bind_eq_ok, orInvalid_eq_ok, rejectIf_eq_ok] at h
    obtain ⟨_, _, header, _, _, _, _, _, claims, _, scope, _, expMs, hexp, _, hnow, _, _, _, _, name, _, h⟩ := h
    split at h
    · cases h
    · cases h
      exact ⟨expMs, rfl, hnow⟩
  · cases h

theorem SignedJwsValidator.checkClaims_eq_ok {ext : Externals} {v : SignedJwsValidator}
    {claims : Value} {nowMs : Int64} {outcome : AuthOutcome}
    (h : v.checkClaims ext claims nowMs = .ok outcome) :
    ∃ expMs, outcome.expiresAtMs = some expMs ∧
      ¬expMs + skewMillis v.allowableClockSkew ≤ nowMs := by
  unfold checkClaims at h
  simp only [Results.bind_eq_ok, orInvalid_eq_ok, rejectIf_eq_ok] at h
  obtain ⟨expMs, hexp, _, hnow, _, _, _, _, _, _, _, _, _, _, name, _, h⟩ := h
  cases h
  exact ⟨expMs, rfl, hnow⟩

/-! ## The introspection validator

It compares one reading of `exp` and reports another one. -/

theorem not_any_iff {date : Option Int64} {late : Int64 → Bool} :
    ¬date.any late = true ↔ ∀ ms, date = some ms → late ms = false := by
  cases date <;> simp

/-- Each date of whole seconds is on the right side of `nowMs`. -/
theorem checkTemporalClaims_eq_ok {claims : Value} {nowMs : Int64} {skew : Time} {u : Unit} :
    checkTemporalClaims claims nowMs skew = .ok u ↔
      (∀ ms, wholeDateMs claims expKey = some ms → saturatingSubI64 nowMs (skewMillis skew) ≤ ms) ∧
      (∀ ms, wholeDateMs claims iatKey = some ms → saturatingSubI64 ms (skewMillis skew) ≤ nowMs) ∧
      (∀ ms, wholeDateMs claims nbfKey = some ms → saturatingSubI64 ms (skewMillis skew) ≤ nowMs) := by
  simp only [checkTemporalClaims, Results.bind_eq_ok, rejectIf_eq_ok, not_any_iff,
    decide_eq_false_iff_not, gt_iff_lt, Int64.not_lt, exists_and_left, exists_const]

/-- What an admitted response looks like before its expiry is reported: `claims` is the response and
`merged` has userinfo over it. -/
structure IntrospectionValidator.Admitted (v : IntrospectionValidator) (token : List Char)
    (nowMs : Int64) (claims merged : Value) : Prop where
  introspected : v.client.introspect token = .ok claims
  active : (claims.get activeKey).bind Value.asBool = some true
  audience : v.expectedAudience.all (audienceContains claims) = true
  issued : ∀ iatMs, wholeDateMs claims iatKey = some iatMs →
    saturatingSubI64 iatMs (skewMillis v.allowableClockSkew) ≤ nowMs
  started : ∀ nbfMs, wholeDateMs claims nbfKey = some nbfMs →
    saturatingSubI64 nbfMs (skewMillis v.allowableClockSkew) ≤ nowMs
  enriched : v.enrich token claims = .ok merged
  custom : passesCustomCheck v.toIdentification merged = true
  named : (principalName List.isEmpty v.toIdentification merged).isSome

/-- The defect: everything but the expiry passes, and the expiry is a fraction of the past. -/
def IntrospectionValidator.AdmitsExpired (ext : Externals) (v : IntrospectionValidator)
    (token : List Char) (nowMs : Int64) : Prop :=
  ∃ claims merged x expMs, v.Admitted token nowMs claims merged ∧
    claims.get expKey = some (.number (.float x)) ∧ ext.floatMillis x = some expMs ∧
    expMs.toInt + (skewMillis v.allowableClockSkew).toInt < nowMs.toInt

/-- The whole seconds of the expiry are compared, and no other part of it. -/
theorem IntrospectionValidator.validate_eq_ok {ext : Externals} {v : IntrospectionValidator}
    {token : List Char} {nowMs : Int64} {outcome : AuthOutcome} :
    v.validate ext token nowMs = .ok outcome ↔
      ∃ claims merged expMs name, v.Admitted token nowMs claims merged ∧
        (∀ ms, wholeDateMs claims expKey = some ms →
          saturatingSubI64 nowMs (skewMillis v.allowableClockSkew) ≤ ms) ∧
        numericDateMs ext claims expKey = some expMs ∧
        principalName List.isEmpty v.toIdentification merged = some name ∧
        outcome = ⟨⟨name, .saslOAuthBearer, groups v.toIdentification merged⟩, some expMs⟩ := by
  unfold validate
  simp only [Results.bind_eq_ok, Results.mapError_eq_ok, orInvalid_eq_ok, rejectIf_eq_ok,
    checkTemporalClaims_eq_ok, Results.pure_eq_ok]
  constructor
  · rintro ⟨claims, hclaims, _, hactive, _, haudience, _, ⟨hwhole, hissued, hstarted⟩, expMs, hexp, merged,
      hmerged, _, hcustom, name, hname, hout⟩
    exact ⟨claims, merged, expMs, name,
      ⟨hclaims, not_not.mp hactive, by simpa using haudience, hissued, hstarted, hmerged,
        by simpa using hcustom, by rw [hname]; rfl⟩, hwhole, hexp, hname, hout.symm⟩
  · rintro ⟨claims, merged, expMs, name, hadm, hwhole, hexp, hname, hout⟩
    exact ⟨claims, hadm.introspected, (), not_not.mpr hadm.active, (), by simp [hadm.audience], (),
      ⟨hwhole, hadm.issued, hadm.started⟩, expMs, hexp, merged, hadm.enriched, (),
      by simp [hadm.custom], name, hname, hout.symm⟩

/-- An expiry of whole seconds is respected. -/
theorem le_add_of_whole {nowMs expMs : Int64} {skew : Time} (hskew : 0 ≤ skew)
    (hnow : 0 ≤ nowMs.toInt) (h : saturatingSubI64 nowMs (skewMillis skew) ≤ expMs) :
    nowMs.toInt ≤ expMs.toInt + (skewMillis skew).toInt := by
  have hs := toInt_skewMillis_nonneg hskew
  have hn := nowMs.toInt_lt
  have hlt := (skewMillis skew).toInt_lt
  rw [Int64.le_iff_toInt_le, toInt_saturatingSubI64] at h
  omega

/-- **Only a fractional expiry goes unchecked.** -/
theorem IntrospectionValidator.respects_iff_not_admitsExpired {ext : Externals} (htrunc : ext.Truncates)
    {v : IntrospectionValidator} {token : List Char} {nowMs : Int64} (hskew : 0 ≤ v.allowableClockSkew)
    (hnow : 0 ≤ nowMs.toInt) :
    RespectsExpiry (v.validate ext token nowMs) v.allowableClockSkew nowMs ↔
      ¬v.AdmitsExpired ext token nowMs := by
  constructor
  · rintro h ⟨claims, merged, x, expMs, hadm, hfraction, hfloat, hpast⟩
    obtain ⟨name, hname⟩ := Option.isSome_iff_exists.mp hadm.named
    have hwhole : ∀ ms, wholeDateMs claims expKey = some ms →
        saturatingSubI64 nowMs (skewMillis v.allowableClockSkew) ≤ ms := by
      intro ms hms
      rw [wholeDateMs, hfraction] at hms
      cases hms
    have hexp : numericDateMs ext claims expKey = some expMs := by
      unfold numericDateMs
      rw [hfraction]
      exact hfloat
    have hok := validate_eq_ok.mpr ⟨claims, merged, expMs, name, hadm, hwhole, hexp, hname, rfl⟩
    have hle := h _ expMs hok rfl
    omega
  · intro h outcome e hok he
    obtain ⟨claims, merged, expMs, name, hadm, hwhole, hexp, hname, hout⟩ := validate_eq_ok.mp hok
    have hee : e = expMs := by
      rw [hout] at he
      exact (Option.some.inj he).symm
    subst hee
    obtain ⟨value, hvalue, _⟩ := Option.bind_eq_some_iff.mp hexp
    cases hsecs : value.asI64 with
    | some secs => exact le_add_of_whole hskew hnow (hwhole e (wholeDateMs_eq hexp hvalue hsecs))
    | none =>
        obtain ⟨x, hx, hfloat⟩ := float_of_numericDateMs htrunc hexp hvalue hsecs
        by_contra hlate
        exact h ⟨claims, merged, x, e, hadm, by rw [hvalue, hx], hfloat, by omega⟩

/-! ## All three

The condition is on the introspection response alone. -/

/-- **The two JWS validators admit no expired token, and the introspection validator admits exactly those
whose expiry is a fraction of the past.** -/
theorem respectsExpiry_iff (ext : Externals) (htrunc : ext.Truncates) (nowMs : Int64)
    (hnow : 0 ≤ nowMs.toInt) :
    (∀ v : UnsecuredJwsValidator, 0 ≤ v.allowableClockSkew → ∀ token,
      RespectsExpiry (v.validate ext token nowMs) v.allowableClockSkew nowMs) ∧
    (∀ v : SignedJwsValidator, 0 ≤ v.allowableClockSkew → ∀ claims,
      RespectsExpiry (v.checkClaims ext claims nowMs) v.allowableClockSkew nowMs) ∧
    (∀ v : IntrospectionValidator, 0 ≤ v.allowableClockSkew → ∀ token,
      (RespectsExpiry (v.validate ext token nowMs) v.allowableClockSkew nowMs ↔
        ¬v.AdmitsExpired ext token nowMs)) := by
  refine ⟨fun v hskew token outcome e hok he => ?_, fun v hskew claims outcome e hok he => ?_,
    fun v hskew token => IntrospectionValidator.respects_iff_not_admitsExpired htrunc hskew hnow⟩
  · obtain ⟨expMs, hexp, hcheck⟩ := UnsecuredJwsValidator.validate_eq_ok hok
    cases hexp.symm.trans he
    exact (lt_add_of_not_le (toInt_skewMillis_nonneg hskew) hnow hcheck).le
  · obtain ⟨expMs, hexp, hcheck⟩ := SignedJwsValidator.checkClaims_eq_ok hok
    cases hexp.symm.trans he
    exact (lt_add_of_not_le (toInt_skewMillis_nonneg hskew) hnow hcheck).le

/-- Exact arithmetic on fractions; no token is decoded. -/
def truncatingExternals : Externals where
  decodeBase64Url _ := none
  parseJson _ := none
  showFloat _ := []
  floatMillis x := i64OfInt (if 0 ≤ x then ⌊x * 1000⌋ else ⌈x * 1000⌉)

theorem truncates_truncatingExternals : truncatingExternals.Truncates := by
  intro x ms h
  have hms : ms.toInt = if 0 ≤ x then ⌊x * 1000⌋ else ⌈x * 1000⌉ := i64OfInt_eq_some.mp h
  rw [hms, abs_lt]
  split
  · have hle := Int.floor_le (x * 1000)
    have hlt := Int.lt_floor_add_one (x * 1000)
    constructor <;> linarith
  · have hle := Int.le_ceil (x * 1000)
    have hlt := Int.ceil_lt_add_one (x * 1000)
    constructor <;> linarith

/-- A response for Alice, active, that expired 1.5 seconds after the epoch. -/
def fractionalResponse : Value := .object [
  (activeKey, .bool true),
  (expKey, .number (.float (3 / 2))),
  (subKey, .string ['a', 'l', 'i', 'c', 'e'])]

/-- An endpoint that gives this response for every token, and a validator without skew. -/
def fractionalValidator : IntrospectionValidator where
  client := { introspect := fun _ => .ok fractionalResponse, userinfo := fun _ => .ok none }
  allowableClockSkew := 0

theorem skewMillis_zero : skewMillis 0 = 0 := by
  unfold skewMillis millisI64 roundI64 roundHalfAway
  norm_num
  rfl

/-- Ten seconds after the epoch the token is still admitted. -/
theorem not_respectsExpiry_fractional :
    ¬RespectsExpiry (fractionalValidator.validate truncatingExternals [] 10000) 0 10000 := by
  have hfloat : truncatingExternals.floatMillis (3 / 2) = some 1500 := by
    show i64OfInt _ = _
    rw [i64OfInt_eq_some]
    norm_num
    rfl
  have hadm : fractionalValidator.Admitted [] 10000 fractionalResponse fractionalResponse :=
    { introspected := rfl
      active := rfl
      audience := rfl
      issued := fun iatMs h => nomatch h
      started := fun nbfMs h => nomatch h
      enriched := rfl
      custom := rfl
      named := rfl }
  rw [show (0 : Time) = fractionalValidator.allowableClockSkew from rfl,
    IntrospectionValidator.respects_iff_not_admitsExpired truncates_truncatingExternals le_rfl (by decide),
    not_not]
  refine ⟨_, _, 3 / 2, 1500, hadm, rfl, hfloat, ?_⟩
  show Int64.toInt 1500 + (skewMillis 0).toInt < Int64.toInt 10000
  rw [skewMillis_zero]
  decide

/-- The same response one second after the epoch. -/
theorem respectsExpiry_iff_fractional :
    RespectsExpiry (fractionalValidator.validate truncatingExternals [] 1000) 0 1000 ↔
      ¬fractionalValidator.AdmitsExpired truncatingExternals [] 1000 :=
  (respectsExpiry_iff truncatingExternals truncates_truncatingExternals 1000 (by decide)).2.2
    fractionalValidator le_rfl []

end Krabka.Security.OAuthBearer
