import Krabka.Security.OAuthBearer.NotBefore

/-!
# `Security.OAuthBearer.DateRange` — where the temporal checks overflow

The JWS validators add the skew to `exp` and take it from `iat` and `nbf` without a check. The dates are the
client's, up to the ends of `i64`, so a sum can leave the range. The sums of a run are listed as exact
integers, in the order in which the checks form them, and up to the first check that refuses the claims:

* `validate` reads the scope claim first, and forms no sum where it is a number;
* without milliseconds of `exp` neither validator forms a sum;
* `iat` is looked at only while `exp` is ahead, and `nbf` only where `iat` is not in the future.

`admitted_exact` connects the list with the validators: where no sum of the list leaves the range, a token that
is admitted passes the comparisons of the exact integers.
-/

namespace Krabka.Security.OAuthBearer

open FixedWidth Text ByteStream Json

def InI64 (n : Int) : Prop := -2 ^ 63 ≤ n ∧ n < 2 ^ 63

/-! ## The sums of a run

One list for each validator, along its own order of checks. -/

/-- The difference that a check of a date in the past forms. -/
def startSum (date : Option Int64) (skewMs : Int64) : List Int :=
  (date.map fun ms => ms.toInt - skewMs.toInt).toList

/-- The sum of an expiry, and the sums behind it while it is ahead. -/
def sumsFrom (expiry : Option Int64) (skewMs nowMs : Int64) (later : List Int) : List Int :=
  match expiry with
  | none => []
  | some expMs =>
      (expMs.toInt + skewMs.toInt) :: if expMs + skewMs ≤ nowMs then [] else later

/-- The sums of `UnsecuredJwsValidator::validate` on these claims. -/
def UnsecuredJwsValidator.dateSums (ext : Externals) (v : UnsecuredJwsValidator) (claims : Value)
    (nowMs : Int64) : List Int :=
  match scopeClaim ext claims v.scopeClaimName with
  -- `scope_claim(..)?` comes before the dates
  | .error _ => []
  | .ok _ =>
      let skewMs := skewMillis v.allowableClockSkew
      sumsFrom (numericDateMs ext claims expKey) skewMs nowMs
        (startSum (numericDateMs ext claims iatKey) skewMs)

/-- The sums of `SignedJwsValidator::check_claims`. -/
def SignedJwsValidator.dateSums (ext : Externals) (v : SignedJwsValidator) (claims : Value)
    (nowMs : Int64) : List Int :=
  let skewMs := skewMillis v.allowableClockSkew
  sumsFrom (numericDateMs ext claims expKey) skewMs nowMs
    (startSum (numericDateMs ext claims iatKey) skewMs ++
      -- a token from the future is refused before `nbf` is looked at
      if (numericDateMs ext claims iatKey).any fun ms => ms - skewMs > nowMs then []
      else startSum (numericDateMs ext claims nbfKey) skewMs)

/-! ## What the sums have to do with the checks

A sum that stays in range is the sum of the integers, so the check compares what it means to compare. -/

/-- A sum in range is the sum. -/
theorem toInt_add_of_inI64 {a b : Int64} (h : InI64 (a.toInt + b.toInt)) :
    (a + b).toInt = a.toInt + b.toInt := by
  obtain ⟨hlow, hhigh⟩ := h
  rw [Int64.toInt_add, Int.bmod_def]
  split <;> omega

/-- A difference in range is the difference. -/
theorem toInt_sub_of_inI64 {a b : Int64} (h : InI64 (a.toInt - b.toInt)) :
    (a - b).toInt = a.toInt - b.toInt := by
  obtain ⟨hlow, hhigh⟩ := h
  rw [Int64.toInt_sub, Int.bmod_def]
  split <;> omega

/-- The sum that a start date is compared by. -/
theorem mem_startSum {date : Option Int64} {skewMs : Int64} {s : Int} :
    s ∈ startSum date skewMs ↔ ∃ ms, date = some ms ∧ ms.toInt - skewMs.toInt = s := by
  unfold startSum
  rw [Option.mem_toList, Option.map_eq_some_iff]

/-- A difference that stays in range is compared as it is. -/
theorem sub_le_of_checkNotFuture {date : Option Int64} {skewMs nowMs : Int64}
    (h : checkNotFuture date skewMs nowMs = .ok ()) (hsums : ∀ s ∈ startSum date skewMs, InI64 s)
    {ms : Int64} (hms : date = some ms) : ms.toInt - skewMs.toInt ≤ nowMs.toInt := by
  unfold checkNotFuture at h
  rw [rejectIf_eq_ok, not_any_iff] at h
  have hle := Int64.not_lt.mp (of_decide_eq_false (h ms hms))
  rwa [Int64.le_iff_toInt_le, toInt_sub_of_inI64 (hsums _ (mem_startSum.mpr ⟨ms, hms, rfl⟩))] at hle

/-- What both validators compare first. -/
theorem lt_add_of_inI64 {expMs skewMs nowMs : Int64} (h : InI64 (expMs.toInt + skewMs.toInt)) :
    ¬expMs + skewMs ≤ nowMs ↔ nowMs.toInt < expMs.toInt + skewMs.toInt := by
  rw [Int64.not_le, Int64.lt_iff_toInt_lt, toInt_add_of_inI64 h]

/-- The check of `iat` against the clock is the same in both validators. -/
theorem checkNotFuture_of_checkIssuedAt {ext : Externals} {claims : Value} {skewMs nowMs : Int64}
    (h : checkIssuedAt ext claims skewMs nowMs = .ok ()) :
    checkNotFuture (numericDateMs ext claims iatKey) skewMs nowMs = .ok () := by
  unfold checkNotFuture
  rw [rejectIf_eq_ok, not_any_iff]
  intro ms hms
  obtain ⟨iat, hiat, _⟩ := Option.bind_eq_some_iff.mp hms
  unfold checkIssuedAt at h
  simp only [hiat, hms, Results.bind_eq_ok, orInvalid_eq_ok, rejectIf_eq_ok] at h
  obtain ⟨iatMs, hiatMs, _, hpast, _⟩ := h
  cases hiatMs
  exact decide_eq_false hpast

/-- The expiry is ahead and the dates under `keys` have come, by exact sums. -/
def DatesExact (ext : Externals) (claims : Value) (keys : List (List Char)) (skewMs nowMs : Int64) : Prop :=
  (∃ expMs, numericDateMs ext claims expKey = some expMs ∧ nowMs.toInt < expMs.toInt + skewMs.toInt) ∧
  ∀ key ∈ keys, ∀ ms, numericDateMs ext claims key = some ms → ms.toInt - skewMs.toInt ≤ nowMs.toInt

/-- The sums of the list are the ones that `validate` compares: where none of them leaves the range, a token
that is admitted passes the exact comparisons. -/
theorem UnsecuredJwsValidator.admitted_exact {ext : Externals} {v : UnsecuredJwsValidator}
    {token headerB64 payloadB64 sig : List Char} {claims : Value} {nowMs : Int64} {outcome : AuthOutcome}
    (hsplit : token.splitOn '.' = [headerB64, payloadB64, sig])
    (hclaims : decodeJsonSegment ext payloadB64 = .ok claims)
    (h : v.validate ext token nowMs = .ok outcome) (hsums : ∀ s ∈ v.dateSums ext claims nowMs, InI64 s) :
    DatesExact ext claims [iatKey] (skewMillis v.allowableClockSkew) nowMs := by
  unfold validate at h
  rw [hsplit] at h
  simp only [Results.bind_eq_ok, orInvalid_eq_ok, rejectIf_eq_ok] at h
  obtain ⟨_, _, _, _, _, _, _, _, claims', hclaims', scope, hscope, expMs, hexp, _, hcurrent, _, hiat, _⟩ := h
  cases hclaims.symm.trans hclaims'
  unfold dateSums sumsFrom at hsums
  simp only [hscope, hexp, hcurrent, if_false, List.mem_cons] at hsums
  refine ⟨⟨expMs, hexp, (lt_add_of_inI64 (hsums _ (.inl rfl))).mp hcurrent⟩, fun key hkey ms hms => ?_⟩
  rw [List.mem_singleton.mp hkey] at hms
  exact sub_le_of_checkNotFuture (checkNotFuture_of_checkIssuedAt hiat) (fun s hs => hsums s (.inr hs)) hms

/-- Where the sums are in range, the signed validator admits exactly the current tokens. -/
theorem SignedJwsValidator.admitted_exact {ext : Externals} {v : SignedJwsValidator} {claims : Value}
    {nowMs : Int64} {outcome : AuthOutcome} (h : v.checkClaims ext claims nowMs = .ok outcome)
    (hsums : ∀ s ∈ v.dateSums ext claims nowMs, InI64 s) :
    DatesExact ext claims [iatKey, nbfKey] (skewMillis v.allowableClockSkew) nowMs := by
  unfold checkClaims at h
  simp only [Results.bind_eq_ok, orInvalid_eq_ok, rejectIf_eq_ok] at h
  obtain ⟨expMs, hexp, _, hcurrent, _, hiat, _, hnbf, _⟩ := h
  have hfuture : ((numericDateMs ext claims iatKey).any fun ms =>
      ms - skewMillis v.allowableClockSkew > nowMs) = false := by
    unfold checkNotFuture at hiat
    rw [rejectIf_eq_ok, Bool.not_eq_true] at hiat
    exact hiat
  unfold dateSums sumsFrom at hsums
  simp only [hexp, hcurrent, hfuture, if_false, Bool.false_eq_true, List.mem_cons, List.mem_append] at hsums
  refine ⟨⟨expMs, hexp, (lt_add_of_inI64 (hsums _ (.inl rfl))).mp hcurrent⟩, ?_⟩
  simp only [List.forall_mem_cons]
  refine ⟨fun ms hms => ?_, fun ms hms => ?_, fun key hkey => absurd hkey List.not_mem_nil⟩
  · exact sub_le_of_checkNotFuture hiat (fun s hs => hsums s (.inr (.inl hs))) hms
  · exact sub_le_of_checkNotFuture hnbf (fun s hs => hsums s (.inr (.inr hs))) hms

/-! ## The dates for which no sum overflows

The condition on each claim, and that it is the condition on the sums. -/

/-- The claim is a date of this many milliseconds, and they fit. -/
def DateMs (ext : Externals) (claims : Value) (key : List Char) (m : Int) : Prop :=
  InI64 m ∧ ∃ n, claims.get key = some (.number n) ∧ dateMillis ext n = some m

/-- The expiry is not within the skew of the end of the range. -/
def ExpiryInReach (ext : Externals) (claims : Value) (skewMs : Int64) : Prop :=
  ∀ m, DateMs ext claims expKey m → m + skewMs.toInt < 2 ^ 63

/-- The date is not within the skew of the start of the range. -/
def StartInReach (ext : Externals) (claims : Value) (key : List Char) (skewMs : Int64) : Prop :=
  ∀ m, DateMs ext claims key m → -2 ^ 63 ≤ m - skewMs.toInt

/-- There is an expiry, and it is ahead. -/
def Unexpired (ext : Externals) (claims : Value) (skewMs nowMs : Int64) : Prop :=
  ∃ m, DateMs ext claims expKey m ∧ nowMs.toInt < m + skewMs.toInt

/-- A date in milliseconds, as the validator reads it. -/
theorem dateMs_toInt {ext : Externals} {claims : Value} {key : List Char} {ms : Int64} :
    DateMs ext claims key ms.toInt ↔ numericDateMs ext claims key = some ms := by
  rw [numericDateMs_eq_some]
  exact and_iff_right ⟨ms.le_toInt, ms.toInt_lt⟩

theorem DateMs.read {ext : Externals} {claims : Value} {key : List Char} {m : Int}
    (h : DateMs ext claims key m) : ∃ ms, numericDateMs ext claims key = some ms ∧ ms.toInt = m := by
  have hms : (Int64.ofInt m).toInt = m := Int64.toInt_ofInt_of_le h.1.1 h.1.2
  rw [← hms] at h
  exact ⟨_, dateMs_toInt.mp h, hms⟩

/-- What holds of the milliseconds of a date holds of what is read. -/
theorem forall_dateMs {ext : Externals} {claims : Value} {key : List Char} {p : Int → Prop} :
    (∀ m, DateMs ext claims key m → p m) ↔ ∀ ms, numericDateMs ext claims key = some ms → p ms.toInt := by
  constructor
  · intro h ms hms
    exact h _ (dateMs_toInt.mpr hms)
  · intro h m hm
    obtain ⟨ms, hms, rfl⟩ := hm.read
    exact h ms hms

/-- The sum of a start date is in range where the date is in reach. -/
theorem startSum_inI64_iff {ext : Externals} {claims : Value} {key : List Char} {skewMs : Int64}
    (hskew : 0 ≤ skewMs.toInt) :
    (∀ s ∈ startSum (numericDateMs ext claims key) skewMs, InI64 s) ↔
      StartInReach ext claims key skewMs := by
  unfold StartInReach
  rw [forall_dateMs]
  constructor
  · intro h ms hms
    exact (h _ (mem_startSum.mpr ⟨ms, hms, rfl⟩)).1
  · intro h s hs
    obtain ⟨ms, hms, rfl⟩ := mem_startSum.mp hs
    have hlt := ms.toInt_lt
    exact ⟨h ms hms, by omega⟩

/-- The sum of an expiry is in range where the date is in reach. -/
theorem expiry_inI64_iff {ext : Externals} {claims : Value} {skewMs expMs : Int64}
    (hexp : numericDateMs ext claims expKey = some expMs) (hskew : 0 ≤ skewMs.toInt) :
    InI64 (expMs.toInt + skewMs.toInt) ↔ ExpiryInReach ext claims skewMs := by
  unfold ExpiryInReach
  rw [forall_dateMs]
  constructor
  · intro h ms hms
    cases hexp.symm.trans hms
    exact h.2
  · intro h
    have hlow := expMs.le_toInt
    exact ⟨by omega, h expMs hexp⟩

/-- In range, the comparison of words is that of the numbers. -/
theorem unexpired_iff {ext : Externals} {claims : Value} {skewMs nowMs expMs : Int64}
    (hexp : numericDateMs ext claims expKey = some expMs) (h : InI64 (expMs.toInt + skewMs.toInt)) :
    Unexpired ext claims skewMs nowMs ↔ ¬expMs + skewMs ≤ nowMs := by
  rw [lt_add_of_inI64 h]
  constructor
  · rintro ⟨m, hm, hlt⟩
    obtain ⟨ms, hms, rfl⟩ := hm.read
    cases hexp.symm.trans hms
    exact hlt
  · intro hlt
    exact ⟨expMs.toInt, dateMs_toInt.mpr hexp, hlt⟩

/-- No expiry, no sums. -/
theorem not_dateMs {ext : Externals} {claims : Value} {key : List Char}
    (h : numericDateMs ext claims key = none) {m : Int} : ¬DateMs ext claims key m := by
  intro hm
  obtain ⟨ms, hms, _⟩ := hm.read
  rw [h] at hms
  cases hms

/-- A number is no scope, and claims with one are refused. -/
def NumberScope (claims : Value) (claimName : List Char) : Prop :=
  ∃ n, claims.get claimName = some (.number n)

/-- The scope is refused where it is a number. -/
theorem scopeClaim_eq_error {ext : Externals} {claims : Value} {claimName : List Char} {e : AuthError}
    (h : scopeClaim ext claims claimName = .error e) : NumberScope claims claimName := by
  unfold scopeClaim at h
  cases hscope : claims.get claimName with
  | none => rw [hscope] at h; cases h
  | some value =>
      rw [hscope] at h
      cases value with
      | number n => exact ⟨n, hscope⟩
      | null => cases h
      | bool b => cases h
      | string s => cases h
      | array items => cases h
      | object members => cases h

/-- A number is refused as a scope. -/
theorem scopeClaim_of_numberScope {ext : Externals} {claims : Value} {claimName : List Char}
    (h : NumberScope claims claimName) : scopeClaim ext claims claimName = .error .invalidToken := by
  obtain ⟨n, hscope⟩ := h
  unfold scopeClaim
  rw [hscope]
  rfl

/-- The dates for which `validate` forms no sum out of range. -/
def UnsecuredJwsValidator.DatesInReach (ext : Externals) (v : UnsecuredJwsValidator) (claims : Value)
    (nowMs : Int64) : Prop :=
  let skewMs := skewMillis v.allowableClockSkew
  NumberScope claims v.scopeClaimName ∨
    ExpiryInReach ext claims skewMs ∧
      (Unexpired ext claims skewMs nowMs → StartInReach ext claims iatKey skewMs)

/-- The dates for which `check_claims` forms no sum out of range. -/
def SignedJwsValidator.DatesInReach (ext : Externals) (v : SignedJwsValidator) (claims : Value)
    (nowMs : Int64) : Prop :=
  let skewMs := skewMillis v.allowableClockSkew
  ExpiryInReach ext claims skewMs ∧
    (Unexpired ext claims skewMs nowMs → StartInReach ext claims iatKey skewMs ∧
      ((∀ m, DateMs ext claims iatKey m → m - skewMs.toInt ≤ nowMs.toInt) →
        StartInReach ext claims nbfKey skewMs))

/-- Without an expiry nothing is summed, and what is behind it only while it is ahead. -/
theorem sumsFrom_inI64_iff {ext : Externals} {claims : Value} {skewMs nowMs : Int64}
    (hskew : 0 ≤ skewMs.toInt) {later : List Int} :
    (∀ s ∈ sumsFrom (numericDateMs ext claims expKey) skewMs nowMs later, InI64 s) ↔
      ExpiryInReach ext claims skewMs ∧
        (Unexpired ext claims skewMs nowMs → ∀ s ∈ later, InI64 s) := by
  unfold sumsFrom
  cases hexp : numericDateMs ext claims expKey with
  | none =>
      constructor
      · intro _
        refine ⟨fun m hm => absurd hm (not_dateMs hexp), ?_⟩
        rintro ⟨m, hm, _⟩
        exact absurd hm (not_dateMs hexp)
      · rintro _ s ⟨⟩
  | some expMs =>
      simp only [List.forall_mem_cons, expiry_inI64_iff hexp hskew]
      refine and_congr_right fun hreach => ?_
      rw [unexpired_iff hexp ((expiry_inI64_iff hexp hskew).mpr hreach)]
      split
      · rename_i hexpired
        simp [hexpired]
      · rename_i hcurrent
        rw [forall_prop_of_true hcurrent]

/-- **The sums that the unsecured validator forms are in range exactly in these cases.** -/
theorem UnsecuredJwsValidator.dateSums_inI64_iff {ext : Externals} {v : UnsecuredJwsValidator}
    (hskew : 0 ≤ v.allowableClockSkew) {claims : Value} {nowMs : Int64} :
    (∀ s ∈ v.dateSums ext claims nowMs, InI64 s) ↔ v.DatesInReach ext claims nowMs := by
  have hs := toInt_skewMillis_nonneg hskew
  unfold dateSums DatesInReach
  cases hscope : scopeClaim ext claims v.scopeClaimName with
  | error e => simp [scopeClaim_eq_error hscope]
  | ok scope =>
      have hreadable : ¬NumberScope claims v.scopeClaimName := by
        intro hnumber
        cases hscope.symm.trans (scopeClaim_of_numberScope hnumber)
      show (∀ s ∈ sumsFrom _ _ _ _, InI64 s) ↔ _
      rw [sumsFrom_inI64_iff hs, startSum_inI64_iff hs]
      exact (or_iff_right hreadable).symm

/-- A date in range that is compared in range is in the future exactly when its milliseconds say so. -/
theorem any_future_iff {ext : Externals} {claims : Value} {key : List Char} {skewMs nowMs : Int64}
    (hsums : ∀ s ∈ startSum (numericDateMs ext claims key) skewMs, InI64 s) :
    ((numericDateMs ext claims key).any fun ms => ms - skewMs > nowMs) = false ↔
      ∀ m, DateMs ext claims key m → m - skewMs.toInt ≤ nowMs.toInt := by
  rw [forall_dateMs, ← Bool.not_eq_true, not_any_iff]
  refine forall_congr' fun ms => forall_congr' fun hms => ?_
  have hsub := toInt_sub_of_inI64 (hsums _ (mem_startSum.mpr ⟨ms, hms, rfl⟩))
  rw [decide_eq_false_iff_not, gt_iff_lt, Int64.not_lt, Int64.le_iff_toInt_le, hsub]

/-- **So are those of the signed one.** -/
theorem SignedJwsValidator.dateSums_inI64_iff {ext : Externals} {v : SignedJwsValidator}
    (hskew : 0 ≤ v.allowableClockSkew) {claims : Value} {nowMs : Int64} :
    (∀ s ∈ v.dateSums ext claims nowMs, InI64 s) ↔ v.DatesInReach ext claims nowMs := by
  have hs := toInt_skewMillis_nonneg hskew
  unfold dateSums DatesInReach
  rw [sumsFrom_inI64_iff hs]
  refine and_congr_right fun _ => imp_congr_right fun _ => ?_
  rw [List.forall_mem_append, ← startSum_inI64_iff hs, ← startSum_inI64_iff hs]
  refine and_congr_right fun hiat => ?_
  rw [← any_future_iff hiat]
  cases hfuture : (numericDateMs ext claims iatKey).any fun ms =>
      ms - skewMillis v.allowableClockSkew > nowMs with
  | true => simp
  | false => simp

/-- **The temporal checks of both JWS validators stay in the range of `i64` exactly where the claims are
refused for their scope, or the expiry is not within the skew of its end and the dates that are looked at are
not within the skew of its start. There, what they compare is exact.** -/
theorem temporalSums_inI64_iff (ext : Externals) (claims : Value) (nowMs : Int64) :
    (∀ v : UnsecuredJwsValidator, 0 ≤ v.allowableClockSkew →
      ((∀ s ∈ v.dateSums ext claims nowMs, InI64 s) ↔ v.DatesInReach ext claims nowMs) ∧
      (v.DatesInReach ext claims nowMs → ∀ token headerB64 payloadB64 sig outcome,
        token.splitOn '.' = [headerB64, payloadB64, sig] → decodeJsonSegment ext payloadB64 = .ok claims →
        v.validate ext token nowMs = .ok outcome →
        DatesExact ext claims [iatKey] (skewMillis v.allowableClockSkew) nowMs)) ∧
    ∀ v : SignedJwsValidator, 0 ≤ v.allowableClockSkew →
      ((∀ s ∈ v.dateSums ext claims nowMs, InI64 s) ↔ v.DatesInReach ext claims nowMs) ∧
      (v.DatesInReach ext claims nowMs → ∀ outcome, v.checkClaims ext claims nowMs = .ok outcome →
        DatesExact ext claims [iatKey, nbfKey] (skewMillis v.allowableClockSkew) nowMs) := by
  refine ⟨fun v hskew => ?_, fun v hskew => ?_⟩
  · refine ⟨UnsecuredJwsValidator.dateSums_inI64_iff hskew, ?_⟩
    intro hreach token headerB64 payloadB64 sig outcome hsplit hclaims hok
    exact UnsecuredJwsValidator.admitted_exact hsplit hclaims hok
      ((UnsecuredJwsValidator.dateSums_inI64_iff hskew).mpr hreach)
  · refine ⟨SignedJwsValidator.dateSums_inI64_iff hskew, ?_⟩
    intro hreach outcome hok
    exact SignedJwsValidator.admitted_exact hok
      ((SignedJwsValidator.dateSums_inI64_iff hskew).mpr hreach)

/-- Claims that expire in this second. -/
def expiringClaims (secs : UInt64) : Value := .object [(expKey, .number (.posInt secs))]

/-- The default skew of 30 seconds. -/
def defaultSigned : SignedJwsValidator := {}

theorem skewMillis_thirty : skewMillis 30 = 30000 := by
  unfold skewMillis millisI64 roundI64 roundHalfAway
  norm_num
  rfl

/-- An expiry in the last second of the range: the sum is 29193 above it. -/
theorem not_temporalSums_inI64 :
    0 ≤ defaultSigned.allowableClockSkew ∧
    ¬∀ s ∈ defaultSigned.dateSums truncatingExternals (expiringClaims 9223372036854775) 1000, InI64 s := by
  refine ⟨by decide, fun h => ?_⟩
  have hmem : (9223372036854805000 : Int) ∈
      defaultSigned.dateSums truncatingExternals (expiringClaims 9223372036854775) 1000 := by
    have hskew : skewMillis defaultSigned.allowableClockSkew = 30000 := skewMillis_thirty
    unfold SignedJwsValidator.dateSums
    rw [hskew]
    decide
  have hhigh := (h _ hmem).2
  omega

/-- An expiry ten seconds after the epoch. -/
theorem temporalSums_inI64_iff_ten :
    (∀ s ∈ defaultSigned.dateSums truncatingExternals (expiringClaims 10) 1000, InI64 s) ↔
      defaultSigned.DatesInReach truncatingExternals (expiringClaims 10) 1000 :=
  ((temporalSums_inI64_iff truncatingExternals (expiringClaims 10) 1000).2 defaultSigned (by decide)).1

end Krabka.Security.OAuthBearer
