import Krabka.Security.OAuthBearer.PrincipalName

/-!
# `Security.OAuthBearer.NotBefore` — no token is admitted before its time

The signed validator checks `iat` and `nbf` where they have a count of milliseconds in `i64`, and the
introspection check where they are integers of `i64`, with saturated milliseconds. A date that has no such
reading counts as absent: it may lie in the future, and the token is admitted all the same.
-/

namespace Krabka.Security.OAuthBearer

open FixedWidth Text ByteStream Json

/-! ## Dates as numbers

A date is an exact number of seconds; the reading in milliseconds cuts it off. -/

/-- The milliseconds of a date in seconds, towards zero. -/
def truncMillis (x : ℚ) : Int := if 0 ≤ x then ⌊x * 1000⌋ else ⌈x * 1000⌉

/-- The milliseconds of a date. Those of a fraction, and of an integer beyond `i64`, are for the library to
find. -/
def dateMillis (ext : Externals) : Number → Option Int
  | .posInt n => if n.toNat < 2 ^ 63 then some (n.toNat * 1000) else (ext.floatMillis n.toNat).map Int64.toInt
  | .negInt n => some (n.toInt * 1000)
  | .float x => (ext.floatMillis x).map Int64.toInt

/-- Fractions are converted without rounding, up to the last truncation. -/
def ExactFractions (ext : Externals) : Prop := ∀ x, ext.floatMillis x = i64OfInt (truncMillis x)

theorem truncMillis_le (x : ℚ) : x * 1000 < truncMillis x + 1 := by
  unfold truncMillis
  split
  · exact Int.lt_floor_add_one (x * 1000)
  · have hle := Int.le_ceil (x * 1000)
    linarith

theorem truncMillis_intCast (n : Int) : truncMillis n = n * 1000 := by
  have hcast : (n : ℚ) * 1000 = ((n * 1000 : Int) : ℚ) := by push_cast; rfl
  unfold truncMillis
  rw [hcast, Int.floor_intCast, Int.ceil_intCast, ite_self]

/-- A whole number of seconds is multiplied. -/
theorem numericDateMs_of_whole {ext : Externals} {claims v : Value} {key : List Char} {secs : Int64}
    (hv : claims.get key = some v) (hsecs : v.asI64 = some secs) :
    numericDateMs ext claims key = checkedMulI64 secs 1000 := by
  unfold numericDateMs
  rw [hv, Option.bind_eq_bind, Option.bind_some, hsecs]

/-- Only a number is an integer. -/
theorem exists_number_of_asI64 {v : Value} {secs : Int64} (h : v.asI64 = some secs) :
    ∃ n, v = .number n ∧ n.asI64 = some secs := by
  cases v with
  | number n => exact ⟨n, rfl, h⟩
  | null => cases h
  | bool b => cases h
  | string s => cases h
  | array items => cases h
  | object members => cases h

/-- Any other number is converted by the library. -/
theorem numericDateMs_of_fraction {ext : Externals} {claims v : Value} {key : List Char} {x : ℚ}
    (hv : claims.get key = some v) (hnone : v.asI64 = none) (hx : v.asF64 = some x) :
    numericDateMs ext claims key = ext.floatMillis x := by
  unfold numericDateMs
  rw [hv, Option.bind_eq_bind, Option.bind_some, hnone]
  simp only [hx, Option.bind_eq_bind, Option.bind_some]

theorem map_toInt_eq_some {o : Option Int64} {ms : Int64} :
    o.map Int64.toInt = some ms.toInt ↔ o = some ms := by
  rw [Option.map_eq_some_iff]
  constructor
  · rintro ⟨ms', rfl, h⟩
    rw [Int64.toInt_inj.mp h]
  · rintro rfl
    exact ⟨ms, rfl, rfl⟩

/-- An integer of 64 bits is one of `i64` where it is small enough. -/
theorem asI64_posInt {n : UInt64} :
    (Number.posInt n).asI64 = if n.toNat < 2 ^ 63 then some (Int64.ofInt n.toNat) else none := by
  show i64OfInt n.toNat = _
  split
  · rename_i hlt
    exact i64OfInt_eq_some.mpr (Int64.toInt_ofInt_of_le (by omega) (by omega))
  · rename_i hge
    exact if_neg fun h => hge (by omega)

/-- The milliseconds of a number are those of its date, where they fit. -/
theorem numericDateMs_number {ext : Externals} {claims : Value} {key : List Char} {n : Number}
    (hv : claims.get key = some (.number n)) {ms : Int64} :
    numericDateMs ext claims key = some ms ↔ dateMillis ext n = some ms.toInt := by
  cases n with
  | posInt n =>
      by_cases hlt : n.toNat < 2 ^ 63
      · have hwhole : (Value.number (.posInt n)).asI64 = some (Int64.ofInt n.toNat) := by
          show (Number.posInt n).asI64 = _
          rw [asI64_posInt, if_pos hlt]
        have hsecs : (Int64.ofInt n.toNat).toInt = n.toNat :=
          Int64.toInt_ofInt_of_le (by omega) (by omega)
        rw [numericDateMs_of_whole hv hwhole, checkedMulI64, i64OfInt_eq_some, hsecs, dateMillis, if_pos hlt,
          Option.some.injEq, eq_comm]
        rfl
      · have hnone : (Value.number (.posInt n)).asI64 = none := by
          show (Number.posInt n).asI64 = _
          rw [asI64_posInt, if_neg hlt]
        rw [numericDateMs_of_fraction hv hnone rfl, dateMillis, if_neg hlt, map_toInt_eq_some]
        rfl
  | negInt n =>
      rw [numericDateMs_of_whole hv rfl, checkedMulI64, i64OfInt_eq_some, dateMillis, Option.some.injEq, eq_comm]
      rfl
  | float x =>
      rw [numericDateMs_of_fraction hv rfl rfl, dateMillis, map_toInt_eq_some]
      rfl

/-- The milliseconds that are read are those of the number. -/
theorem numericDateMs_eq_some {ext : Externals} {claims : Value} {key : List Char} {ms : Int64} :
    numericDateMs ext claims key = some ms ↔
      ∃ n, claims.get key = some (.number n) ∧ dateMillis ext n = some ms.toInt := by
  constructor
  · intro h
    obtain ⟨v, hv, hms⟩ := Option.bind_eq_some_iff.mp h
    cases v with
    | number n => exact ⟨n, hv, (numericDateMs_number hv).mp h⟩
    | null => cases hms
    | bool b => cases hms
    | string s => cases hms
    | array items => cases hms
    | object members => cases hms
  · rintro ⟨n, hv, hms⟩
    exact (numericDateMs_number hv).mpr hms

/-- Where the library is exact, what it finds is the milliseconds of the number. -/
theorem floatMillis_eq_some {ext : Externals} (hexact : ExactFractions ext) {x : ℚ} {ms : Int64} :
    (ext.floatMillis x).map Int64.toInt = some ms.toInt ↔ ms.toInt = truncMillis x := by
  rw [map_toInt_eq_some, hexact, i64OfInt_eq_some]

/-- Exact conversion: the milliseconds are those of the exact number. -/
theorem dateMillis_eq_some {ext : Externals} (hexact : ExactFractions ext) {n : Number} {ms : Int64} :
    dateMillis ext n = some ms.toInt ↔ ms.toInt = truncMillis n.asF64 := by
  cases n with
  | posInt n =>
      rw [dateMillis]
      split
      · rw [Option.some.injEq]
        show _ ↔ ms.toInt = truncMillis (n.toNat : ℚ)
        rw [← Int.cast_natCast (R := ℚ), truncMillis_intCast, eq_comm]
      · exact floatMillis_eq_some hexact
  | negInt n =>
      rw [dateMillis, Option.some.injEq]
      show _ ↔ ms.toInt = truncMillis (n.toInt : ℚ)
      rw [truncMillis_intCast, eq_comm]
  | float x => exact floatMillis_eq_some hexact

/-! ## Dates before which the token is not valid

A date lies ahead if it is after the current time and the skew together. -/

/-- This number is the `iat` or the `nbf` of the claims. -/
def StartsAt (claims : Value) (n : Number) : Prop :=
  claims.get iatKey = some (.number n) ∨ claims.get nbfKey = some (.number n)

/-- The date has a count of milliseconds in `i64`. -/
def FitsMillis (n : Number) : Prop := -2 ^ 63 ≤ truncMillis n.asF64 ∧ truncMillis n.asF64 < 2 ^ 63

/-- The date is further ahead than the skew, the millisecond that runs included. -/
def LiesAhead (n : Number) (skewMs nowMs : Int64) : Prop :=
  (nowMs.toInt + 1 : ℚ) ≤ n.asF64 * 1000 - skewMs.toInt

/-- No date of the claims lies ahead. -/
def NotBefore (claims : Value) (skewMs nowMs : Int64) : Prop :=
  ∀ n, StartsAt claims n → n.asF64 * 1000 - skewMs.toInt < (nowMs.toInt + 1 : ℚ)

/-- Every date of the claims fits. -/
def DatesFit (claims : Value) : Prop := ∀ n, StartsAt claims n → FitsMillis n

theorem notBefore_iff_not_liesAhead {claims : Value} {skewMs nowMs : Int64} :
    NotBefore claims skewMs nowMs ↔ ∀ n, StartsAt claims n → ¬LiesAhead n skewMs nowMs := by
  unfold NotBefore LiesAhead
  simp only [not_le]

/-- A date whose milliseconds, less the skew, have come does not lie ahead. -/
theorem not_liesAhead {n : Number} {skewMs nowMs : Int64}
    (h : truncMillis n.asF64 - skewMs.toInt ≤ nowMs.toInt) : ¬LiesAhead n skewMs nowMs := by
  have htrunc := truncMillis_le n.asF64
  have hle : (truncMillis n.asF64 - skewMs.toInt : ℚ) ≤ nowMs.toInt := by exact_mod_cast h
  unfold LiesAhead
  linarith

/-! ## Signed tokens

A date that has no reading is passed over. -/

/-- These claims are refused for an `iat` or an `nbf` only. -/
structure SignedJwsValidator.PassesUndated (ext : Externals) (v : SignedJwsValidator) (claims : Value)
    (nowMs : Int64) : Prop where
  current : ∃ expMs, numericDateMs ext claims expKey = some expMs ∧
    ¬expMs + skewMillis v.allowableClockSkew ≤ nowMs
  issuer : v.validIssuer.all (fun expected => (claims.get issKey).bind Value.asStr == some expected) = true
  audience : v.expectedAudience.all (audienceContains claims) = true
  custom : passesCustomCheck v.toIdentification claims = true
  named : (principalName List.isEmpty v.toIdentification claims).isSome

/-- The signed validator refuses this date: it is in the future, by a difference that wraps around. -/
def SignedRefuses (n : Number) (skewMs nowMs : Int64) : Prop :=
  ∃ ms : Int64, ms.toInt = truncMillis n.asF64 ∧ nowMs < ms - skewMs

theorem checkNotFuture_eq_ok {ext : Externals} (hexact : ExactFractions ext) {claims : Value}
    {key : List Char} {skewMs nowMs : Int64} :
    checkNotFuture (numericDateMs ext claims key) skewMs nowMs = .ok () ↔
      ∀ n, claims.get key = some (.number n) → ¬SignedRefuses n skewMs nowMs := by
  unfold checkNotFuture
  rw [rejectIf_eq_ok, not_any_iff]
  constructor
  · rintro h n hn ⟨ms, hms, hlate⟩
    have hread := numericDateMs_eq_some.mpr ⟨n, hn, (dateMillis_eq_some hexact).mpr hms⟩
    exact of_decide_eq_false (h ms hread) hlate
  · intro h ms hread
    obtain ⟨n, hn, hms⟩ := numericDateMs_eq_some.mp hread
    exact decide_eq_false fun hlate => h n hn ⟨ms, (dateMillis_eq_some hexact).mp hms, hlate⟩

theorem SignedJwsValidator.checkClaims_isOk {ext : Externals} (hexact : ExactFractions ext)
    {v : SignedJwsValidator} {claims : Value} {nowMs : Int64} :
    (∃ outcome, v.checkClaims ext claims nowMs = .ok outcome) ↔
      v.PassesUndated ext claims nowMs ∧
        ∀ n, StartsAt claims n → ¬SignedRefuses n (skewMillis v.allowableClockSkew) nowMs := by
  constructor
  · rintro ⟨outcome, h⟩
    unfold checkClaims at h
    simp only [Results.bind_eq_ok, orInvalid_eq_ok, rejectIf_eq_ok] at h
    obtain ⟨expMs, hexp, _, hcurrent, _, hiat, _, hnbf, _, hissuer, _, haudience, _, hcustom, name, hname, _⟩ := h
    refine ⟨⟨⟨expMs, hexp, hcurrent⟩, by simpa using hissuer, by simpa using haudience,
      by simpa using hcustom, by rw [hname]; rfl⟩, ?_⟩
    rintro n (hn | hn)
    · exact (checkNotFuture_eq_ok hexact).mp hiat n hn
    · exact (checkNotFuture_eq_ok hexact).mp hnbf n hn
  · rintro ⟨h, hdates⟩
    have hiat := (checkNotFuture_eq_ok hexact).mpr fun n hn => hdates n (.inl hn)
    have hnbf := (checkNotFuture_eq_ok hexact).mpr fun n hn => hdates n (.inr hn)
    obtain ⟨name, hname⟩ := Option.isSome_iff_exists.mp h.named
    have hothers : v.PassesOthers ext claims nowMs :=
      ⟨h.current, hiat, hnbf, h.issuer, h.audience, h.custom⟩
    obtain ⟨outcome, hok, _⟩ := hothers.admits.mpr (principalName_eq_some.mp hname)
    exact ⟨outcome, hok⟩

/-- A date that fits and is not refused does not lie ahead. -/
theorem not_liesAhead_of_not_signedRefuses {n : Number} {skewMs nowMs : Int64} (hskew : 0 ≤ skewMs.toInt)
    (hnow : 0 ≤ nowMs.toInt) (hfits : FitsMillis n) (h : ¬SignedRefuses n skewMs nowMs) :
    ¬LiesAhead n skewMs nowMs := by
  apply not_liesAhead
  obtain ⟨hlow, hhigh⟩ := hfits
  have hms : (Int64.ofInt (truncMillis n.asF64)).toInt = truncMillis n.asF64 :=
    Int64.toInt_ofInt_of_le hlow hhigh
  by_contra hlate
  -- a difference that is not early cannot wrap around
  refine h ⟨_, hms, ?_⟩
  rw [Int64.lt_iff_toInt_lt, Int64.toInt_sub, hms, Int.bmod_def]
  split <;> omega

/-- **The signed validator admits a date ahead of its time exactly where a date that lies ahead does not
fit.** -/
theorem SignedJwsValidator.notBefore_iff_unread {ext : Externals} (hexact : ExactFractions ext)
    {v : SignedJwsValidator} (hskew : 0 ≤ v.allowableClockSkew) {claims : Value} {nowMs : Int64}
    (hnow : 0 ≤ nowMs.toInt) :
    ((∃ outcome, v.checkClaims ext claims nowMs = .ok outcome) →
      NotBefore claims (skewMillis v.allowableClockSkew) nowMs) ↔
    (v.PassesUndated ext claims nowMs →
      (∀ n, StartsAt claims n → ¬SignedRefuses n (skewMillis v.allowableClockSkew) nowMs) →
      ∀ n, StartsAt claims n → ¬FitsMillis n → ¬LiesAhead n (skewMillis v.allowableClockSkew) nowMs) := by
  rw [checkClaims_isOk hexact, notBefore_iff_not_liesAhead, and_imp]
  constructor
  · intro h hundated hrefuses n hn _
    exact h hundated hrefuses n hn
  · intro h hundated hrefuses n hn
    by_cases hfits : FitsMillis n
    · exact not_liesAhead_of_not_signedRefuses (toInt_skewMillis_nonneg hskew) hnow hfits (hrefuses n hn)
    · exact h hundated hrefuses n hn hfits

/-! ## Introspection

Only whole seconds are looked at. -/

/-- The response is not refused for its expiry. -/
def ExpiryAhead (claims : Value) (skewMs nowMs : Int64) : Prop :=
  ∀ ms, wholeDateMs claims expKey = some ms → saturatingSubI64 nowMs skewMs ≤ ms

/-- The introspection check refuses this date: it is an integer of `i64`, in the future by saturated
milliseconds. -/
def IntrospectionRefuses (n : Number) (skewMs nowMs : Int64) : Prop :=
  ∃ secs, n.asI64 = some secs ∧ nowMs < saturatingSubI64 (saturatingMulI64 secs 1000) skewMs

theorem wholeDateMs_le_iff {claims : Value} {key : List Char} {skewMs nowMs : Int64} :
    (∀ ms, wholeDateMs claims key = some ms → saturatingSubI64 ms skewMs ≤ nowMs) ↔
      ∀ n, claims.get key = some (.number n) → ¬IntrospectionRefuses n skewMs nowMs := by
  constructor
  · rintro h n hn ⟨secs, hsecs, hlate⟩
    have hread : wholeDateMs claims key = some (saturatingMulI64 secs 1000) := by
      rw [wholeDateMs, hn, Option.bind_some]
      show (n.asI64).map _ = _
      rw [hsecs, Option.map_some]
    exact Int64.not_lt.mpr (h _ hread) hlate
  · intro h ms hms
    obtain ⟨secs, hsecs, rfl⟩ := Option.map_eq_some_iff.mp hms
    obtain ⟨v, hv, hsecs⟩ := Option.bind_eq_some_iff.mp hsecs
    obtain ⟨n, rfl, hsecs⟩ := exists_number_of_asI64 hsecs
    exact Int64.not_lt.mp fun hlate => h n hv ⟨secs, hsecs, hlate⟩

theorem checkTemporalClaims_isOk {claims : Value} {nowMs : Int64} {skew : Time} :
    checkTemporalClaims claims nowMs skew = .ok () ↔
      ExpiryAhead claims (skewMillis skew) nowMs ∧
        ∀ n, StartsAt claims n → ¬IntrospectionRefuses n (skewMillis skew) nowMs := by
  rw [checkTemporalClaims_eq_ok, wholeDateMs_le_iff, wholeDateMs_le_iff]
  unfold StartsAt
  simp only [or_imp, forall_and]
  rfl

/-- An integer of `i64` whose milliseconds fit and that is not refused does not lie ahead. -/
theorem not_liesAhead_of_not_introspectionRefuses {n : Number} {skewMs nowMs : Int64} {secs : Int64}
    (hsecs : n.asI64 = some secs) (hskew : 0 ≤ skewMs.toInt) (hfits : FitsMillis n)
    (h : ¬IntrospectionRefuses n skewMs nowMs) : ¬LiesAhead n skewMs nowMs := by
  obtain ⟨hlow, hhigh⟩ := hfits
  have hn : n.asF64 = secs.toInt := by
    cases n with
    | posInt n =>
        have hn : secs.toInt = n.toNat := i64OfInt_eq_some.mp hsecs
        show (n.toNat : ℚ) = secs.toInt
        rw [hn, Int.cast_natCast]
    | negInt n =>
        cases hsecs
        rfl
    | float x => cases hsecs
  rw [hn, truncMillis_intCast] at hlow hhigh
  apply not_liesAhead
  rw [hn, truncMillis_intCast]
  by_contra hlate
  refine h ⟨secs, hsecs, ?_⟩
  have hmul : (saturatingMulI64 secs 1000).toInt = secs.toInt * 1000 := by
    rw [saturatingMulI64, toInt_ofIntClampI64]
    show max (min (secs.toInt * 1000) _) _ = _
    omega
  have hnow := nowMs.le_toInt
  rw [Int64.lt_iff_toInt_lt, toInt_saturatingSubI64, hmul]
  omega

/-- **The introspection check passes a date ahead of its time exactly where a date that lies ahead is not an
integer of `i64` or has no milliseconds there.** -/
theorem checkTemporalClaims_notBefore_iff {claims : Value} {nowMs : Int64} {skew : Time} (hskew : 0 ≤ skew) :
    (checkTemporalClaims claims nowMs skew = .ok () → NotBefore claims (skewMillis skew) nowMs) ↔
    (ExpiryAhead claims (skewMillis skew) nowMs →
      (∀ n, StartsAt claims n → ¬IntrospectionRefuses n (skewMillis skew) nowMs) →
      ∀ n, StartsAt claims n → n.asI64 = none ∨ ¬FitsMillis n →
        ¬LiesAhead n (skewMillis skew) nowMs) := by
  rw [checkTemporalClaims_isOk, notBefore_iff_not_liesAhead, and_imp]
  constructor
  · intro h hexp hrefuses n hn _
    exact h hexp hrefuses n hn
  · intro h hexp hrefuses n hn
    cases hsecs : n.asI64 with
    | none => exact h hexp hrefuses n hn (.inl hsecs)
    | some secs =>
        by_cases hfits : FitsMillis n
        · exact not_liesAhead_of_not_introspectionRefuses hsecs (toInt_skewMillis_nonneg hskew) hfits
            (hrefuses n hn)
        · exact h hexp hrefuses n hn (.inr hfits)

/-! ## Both

A token is refused for its dates exactly if one of them lies ahead and has a reading. -/

/-- **Both checks keep a token from being admitted before its time unless a date that they do not read lies
ahead, and pass a date that does not fit unless something else refuses the token.** -/
theorem notBefore_iff (ext : Externals) (hexact : ExactFractions ext) (nowMs : Int64)
    (hnow : 0 ≤ nowMs.toInt) (claims : Value) :
    (∀ v : SignedJwsValidator, 0 ≤ v.allowableClockSkew →
      (((∃ outcome, v.checkClaims ext claims nowMs = .ok outcome) →
          NotBefore claims (skewMillis v.allowableClockSkew) nowMs) ↔
        (v.PassesUndated ext claims nowMs →
          (∀ n, StartsAt claims n → ¬SignedRefuses n (skewMillis v.allowableClockSkew) nowMs) →
          ∀ n, StartsAt claims n → ¬FitsMillis n →
            ¬LiesAhead n (skewMillis v.allowableClockSkew) nowMs)) ∧
      (((∃ outcome, v.checkClaims ext claims nowMs = .ok outcome) → DatesFit claims) ↔
        (v.PassesUndated ext claims nowMs →
          (∀ n, StartsAt claims n → ¬SignedRefuses n (skewMillis v.allowableClockSkew) nowMs) →
          DatesFit claims))) ∧
    (∀ skew : Time, 0 ≤ skew →
      ((checkTemporalClaims claims nowMs skew = .ok () → NotBefore claims (skewMillis skew) nowMs) ↔
        (ExpiryAhead claims (skewMillis skew) nowMs →
          (∀ n, StartsAt claims n → ¬IntrospectionRefuses n (skewMillis skew) nowMs) →
          ∀ n, StartsAt claims n → n.asI64 = none ∨ ¬FitsMillis n →
            ¬LiesAhead n (skewMillis skew) nowMs)) ∧
      ((checkTemporalClaims claims nowMs skew = .ok () → DatesFit claims) ↔
        (ExpiryAhead claims (skewMillis skew) nowMs →
          (∀ n, StartsAt claims n → ¬IntrospectionRefuses n (skewMillis skew) nowMs) →
          DatesFit claims))) := by
  refine ⟨fun v hskew => ⟨v.notBefore_iff_unread hexact hskew hnow, ?_⟩,
    fun skew hskew => ⟨checkTemporalClaims_notBefore_iff hskew, ?_⟩⟩
  · rw [SignedJwsValidator.checkClaims_isOk hexact, and_imp]
  · rw [checkTemporalClaims_isOk, and_imp]

/-- Claims of Alice that expire ten seconds after the epoch and start at `nbf`. -/
def startingClaims (nbf : Number) : Value := .object [
  (expKey, .number (.posInt 10)),
  (nbfKey, .number nbf),
  (subKey, .string ['a', 'l'])]

theorem startsAt_startingClaims {nbf n : Number} (h : StartsAt (startingClaims nbf) n) : n = nbf := by
  rcases h with h | h
  · cases h
  · cases h
    rfl

theorem exactFractions_truncating : ExactFractions truncatingExternals := fun _ => rfl

theorem subSigned_passesUndated (nbf : Number) :
    subSigned.PassesUndated truncatingExternals (startingClaims nbf) 1000 where
  current := ⟨10000, rfl, by show ¬10000 + skewMillis 0 ≤ 1000; rw [skewMillis_zero]; decide⟩
  issuer := rfl
  audience := rfl
  custom := rfl
  named := rfl

/-- One second after the epoch the signed validator admits a token that starts at the largest second of
`i64`, and the introspection check passes one that starts 9.5 seconds later. -/
theorem not_notBefore :
    ¬((∃ outcome, subSigned.checkClaims truncatingExternals
          (startingClaims (.posInt 9223372036854775807)) 1000 = .ok outcome) →
        NotBefore (startingClaims (.posInt 9223372036854775807)) (skewMillis 0) 1000) ∧
    ¬(checkTemporalClaims (startingClaims (.float (21 / 2))) 1000 0 = .ok () →
        NotBefore (startingClaims (.float (21 / 2))) (skewMillis 0) 1000) := by
  have hzero : (skewMillis 0).toInt = 0 := by rw [skewMillis_zero]; rfl
  have hnow : (1000 : Int64).toInt = 1000 := by decide
  constructor
  · intro h
    have hok : ∃ outcome, subSigned.checkClaims truncatingExternals
        (startingClaims (.posInt 9223372036854775807)) 1000 = .ok outcome := by
      refine (SignedJwsValidator.checkClaims_isOk exactFractions_truncating).mpr
        ⟨subSigned_passesUndated _, ?_⟩
      rintro n hn ⟨ms, hms, _⟩
      rw [startsAt_startingClaims hn] at hms
      have hmillis : truncMillis (Number.posInt 9223372036854775807).asF64 = 9223372036854775807000 :=
        truncMillis_intCast 9223372036854775807
      have hlt := ms.toInt_lt
      omega
    have hstart := h hok _ (.inr rfl)
    rw [hzero, hnow] at hstart
    have hseconds : (Number.posInt 9223372036854775807).asF64 = 9223372036854775807 := rfl
    rw [hseconds] at hstart
    norm_num at hstart
  · intro h
    have hok : checkTemporalClaims (startingClaims (.float (21 / 2))) 1000 0 = .ok () := by
      refine checkTemporalClaims_isOk.mpr ⟨?_, ?_⟩
      · intro ms hms
        cases hms
        rw [skewMillis_zero]
        decide
      · rintro n hn ⟨secs, hsecs, _⟩
        rw [startsAt_startingClaims hn] at hsecs
        cases hsecs
    have hstart := h hok _ (.inr rfl)
    rw [hzero, hnow] at hstart
    have hseconds : (Number.float (21 / 2)).asF64 = 21 / 2 := rfl
    rw [hseconds] at hstart
    norm_num at hstart

/-- A token that starts half a second after the epoch, one second after it. -/
theorem notBefore_iff_started :
    ((∃ outcome, subSigned.checkClaims truncatingExternals (startingClaims (.float (1 / 2))) 1000 =
        .ok outcome) →
      NotBefore (startingClaims (.float (1 / 2))) (skewMillis subSigned.allowableClockSkew) 1000) ↔
    (subSigned.PassesUndated truncatingExternals (startingClaims (.float (1 / 2))) 1000 →
      (∀ n, StartsAt (startingClaims (.float (1 / 2))) n →
        ¬SignedRefuses n (skewMillis subSigned.allowableClockSkew) 1000) →
      ∀ n, StartsAt (startingClaims (.float (1 / 2))) n → ¬FitsMillis n →
        ¬LiesAhead n (skewMillis subSigned.allowableClockSkew) 1000) :=
  ((notBefore_iff truncatingExternals exactFractions_truncating 1000 (by decide)
    (startingClaims (.float (1 / 2)))).1 subSigned le_rfl).1

end Krabka.Security.OAuthBearer
