import Krabka.Lib.Collections
import Krabka.Lib.Greatest
import Krabka.Security.Gssapi.Keytab

/-!
# `Security.Gssapi.KeytabLookup` — one key or all of them

The two lookups of `keytab.rs`. One takes the greatest number over all entries, and the last of those that
tie. The other keeps a best entry for each principal, and an entry that ties does not replace it.
-/

namespace Krabka.Security.Gssapi

open Collections Greatest ByteStream

/-- An entry of the service, with the enctype. -/
def isMatch (serviceName : List Char) (enctype : UInt16) (e : KeytabKey) : Bool :=
  e.enctype = enctype ∧ e.components.head? = some serviceName

def loadServiceKey (keytabBytes : Bytes) (serviceName : List Char) (enctype : UInt16) :
    Except KeytabError KeytabKey := do
  let entries ← parseKeytab keytabBytes
  Results.okOr (.notFound serviceName enctype)
    (maxByKey (fun e => e.kvno.toNat) (entries.filter (isMatch serviceName enctype)))

/-- The best entry of each principal, with one more entry. -/
def keepBest (best : BTreeMap (List (List Char)) KeytabKey) (e : KeytabKey) :
    BTreeMap (List (List Char)) KeytabKey :=
  match best[e.components]? with
  | some existing => if existing.kvno ≥ e.kvno then best else best.insert e.components e
  | none => best.insert e.components e

def loadServiceKeys (keytabBytes : Bytes) (serviceName : List Char) (enctype : UInt16) :
    Except KeytabError (List KeytabKey) := do
  let entries ← parseKeytab keytabBytes
  let best := entries.foldl (fun best e => if isMatch serviceName enctype e then keepBest best e else best) ∅
  return best.toList.map Prod.snd

/-! ## The best of each principal

What a fold keeps under one principal, and that it keeps nothing else. -/

theorem get_keepBest_self (best : BTreeMap (List (List Char)) KeytabKey) (e : KeytabKey) :
    (keepBest best e)[e.components]? =
      best[e.components]?.elim (some e) fun c => if c.kvno.toNat < e.kvno.toNat then some e else some c := by
  unfold keepBest
  cases hbest : best[e.components]? with
  | none => exact (get_insert best _ _ _).trans (if_pos rfl)
  | some existing =>
      show (if existing.kvno ≥ e.kvno then best else best.insert e.components e)[e.components]? =
        if existing.kvno.toNat < e.kvno.toNat then some e else some existing
      by_cases hge : existing.kvno ≥ e.kvno
      · rw [if_pos hge, hbest, if_neg (Nat.not_lt.mpr (UInt32.le_iff_toNat_le.mp hge))]
      · have hlt : existing.kvno.toNat < e.kvno.toNat :=
          Nat.lt_of_not_le fun h => hge (UInt32.le_iff_toNat_le.mpr h)
        rw [if_neg hge, if_pos hlt]
        exact (get_insert best _ _ _).trans (if_pos rfl)

theorem get_keepBest_other (best : BTreeMap (List (List Char)) KeytabKey) {e : KeytabKey}
    {c : List (List Char)} (h : e.components ≠ c) : (keepBest best e)[c]? = best[c]? := by
  have hinsert : (best.insert e.components e)[c]? = best[c]? := (get_insert best _ _ _).trans (if_neg h)
  unfold keepBest
  split
  · split
    · rfl
    · exact hinsert
  · exact hinsert

/-- **The map holds, of each principal, the first entry with the greatest number.** -/
theorem get_foldl_keepBest (es : List KeytabKey) (c : List (List Char)) :
    (es.foldl keepBest ∅)[c]? = (es.filter fun e => e.components = c).argmax fun e => e.kvno.toNat := by
  induction es using List.reverseRecOn with
  | nil => exact Std.ExtTreeMap.getElem?_empty
  | append_singleton es e ih =>
      rw [List.foldl_append, List.foldl_cons, List.foldl_nil, List.filter_append]
      by_cases hc : e.components = c
      · subst hc
        have hself : [e].filter (fun a => a.components = e.components) = [e] := by simp
        rw [get_keepBest_self, ih, hself, List.argmax_concat]
        cases (es.filter fun a => a.components = e.components).argmax fun a => a.kvno.toNat with
        | none => rfl
        | some existing => rfl
      · have hnone : [e].filter (fun e => e.components = c) = [] := by simp [hc]
        rw [get_keepBest_other _ hc, ih, hnone, List.append_nil]

theorem mem_values {es : List KeytabKey} {k : KeytabKey} :
    k ∈ ((es.foldl keepBest ∅).toList.map Prod.snd) ↔
      (es.filter fun e => e.components = k.components).argmax (fun e => e.kvno.toNat) = some k := by
  simp only [List.mem_map, Prod.exists, Std.ExtTreeMap.mem_toList_iff_getElem?_eq_some, get_foldl_keepBest]
  constructor
  · rintro ⟨c, k, h, rfl⟩
    have hk := (List.mem_filter.mp (List.argmax_mem h)).2
    rwa [of_decide_eq_true hk]
  · intro h
    exact ⟨k.components, k, h, rfl⟩

theorem values_eq_nil {es : List KeytabKey} : (es.foldl keepBest ∅).toList.map Prod.snd = [] ↔ es = [] := by
  constructor
  · intro h
    by_contra hne
    obtain ⟨e, he⟩ := List.exists_mem_of_ne_nil es hne
    cases hbest : (es.filter fun a => a.components = e.components).argmax fun a => a.kvno.toNat with
    | none =>
        have hmem : e ∈ es.filter fun a => a.components = e.components := List.mem_filter.mpr ⟨he, by simp⟩
        rw [List.argmax_eq_none.mp hbest] at hmem
        cases hmem
    | some k =>
        have hk := of_decide_eq_true (List.mem_filter.mp (List.argmax_mem hbest)).2
        have hmem := mem_values.mpr (hk ▸ hbest)
        rw [h] at hmem
        cases hmem
  · rintro rfl
    rfl

/-! ## The two together

Both take a greatest number. They part where two entries of a principal have it. -/

/-- One lookup answers out of what the other does. -/
structure LookupsAgree (keytab : Bytes) (serviceName : List Char) (enctype : UInt16) : Prop where
  found : (∃ k, loadServiceKey keytab serviceName enctype = .ok k) ↔
    ∃ keys, loadServiceKeys keytab serviceName enctype = .ok keys ∧ keys ≠ []
  greatest : ∀ k keys, loadServiceKey keytab serviceName enctype = .ok k →
    loadServiceKeys keytab serviceName enctype = .ok keys → k ∈ keys ∧ ∀ k' ∈ keys, k'.kvno ≤ k.kvno
  malformed : ∀ e, parseKeytab keytab = .error e →
    loadServiceKey keytab serviceName enctype = .error e ∧
      loadServiceKeys keytab serviceName enctype = .error e

/-- The last entry with the greatest number is what the first entry of its principal with that number is. -/
def TiesAgree (es : List KeytabKey) : Prop :=
  ∀ before k after, es = before ++ k :: after → (∀ e ∈ before, e.kvno ≤ k.kvno) →
    (∀ e ∈ after, e.kvno < k.kvno) → es.find? (fun e => e.components = k.components ∧ e.kvno = k.kvno) = some k

/-- An entry with the greatest number is in the list when it is the first of its principal with it. -/
theorem mem_values_of_greatest {es : List KeytabKey} {k : KeytabKey}
    (h : maxByKey (fun e => e.kvno.toNat) es = some k) :
    k ∈ (es.foldl keepBest ∅).toList.map Prod.snd ↔
      es.find? (fun e => e.components = k.components ∧ e.kvno = k.kvno) = some k := by
  have hmem : k ∈ es.filter fun e => e.components = k.components :=
    List.mem_filter.mpr ⟨maxByKey_mem h, by simp⟩
  have hle : ∀ e ∈ es.filter (fun e => e.components = k.components), e.kvno.toNat ≤ k.kvno.toNat :=
    fun e he => le_maxByKey (f := fun e => e.kvno.toNat) (List.mem_filter.mp he).1 h
  rw [mem_values, argmax_eq_find? hle hmem rfl, List.find?_filter]
  simp only [UInt32.toNat_inj, Bool.decide_and, Bool.decide_eq_true]

theorem kvno_le_of_greatest {es : List KeytabKey} {k k' : KeytabKey}
    (h : maxByKey (fun e => e.kvno.toNat) es = some k) (hk' : k' ∈ (es.foldl keepBest ∅).toList.map Prod.snd) :
    k'.kvno ≤ k.kvno := by
  have hmem : k' ∈ es := (List.mem_filter.mp (List.argmax_mem (mem_values.mp hk'))).1
  exact UInt32.le_iff_toNat_le.mpr (le_maxByKey (f := fun e => e.kvno.toNat) hmem h)

section Parsed

variable {keytab : Bytes} {entries : List KeytabKey} (hparse : parseKeytab keytab = .ok entries)
  (serviceName : List Char) (enctype : UInt16)

include hparse

theorem loadServiceKey_eq_ok {k : KeytabKey} : loadServiceKey keytab serviceName enctype = .ok k ↔
    maxByKey (fun e => e.kvno.toNat) (entries.filter (isMatch serviceName enctype)) = some k := by
  rw [loadServiceKey, hparse]
  exact Results.okOr_eq_ok

theorem loadServiceKeys_eq : loadServiceKeys keytab serviceName enctype =
    .ok (((entries.filter (isMatch serviceName enctype)).foldl keepBest ∅).toList.map Prod.snd) := by
  rw [loadServiceKeys, hparse, List.foldl_filter]
  rfl

theorem found_iff : (∃ k, loadServiceKey keytab serviceName enctype = .ok k) ↔
    ∃ keys, loadServiceKeys keytab serviceName enctype = .ok keys ∧ keys ≠ [] := by
  rw [loadServiceKeys_eq hparse]
  simp only [loadServiceKey_eq_ok hparse]
  constructor
  · rintro ⟨k, hk⟩
    refine ⟨_, rfl, fun hnil => ?_⟩
    rw [values_eq_nil.mp hnil] at hk
    cases hk
  · rintro ⟨keys, hkeys, hne⟩
    cases hkeys
    rw [← Option.ne_none_iff_exists', Ne, maxByKey_eq_none]
    exact fun hnil => hne (values_eq_nil.mpr hnil)

end Parsed

/-- **The lookups agree exactly when their rules for a tie come to the same entry.** -/
theorem lookupsAgree_iff (keytab : Bytes) (serviceName : List Char) (enctype : UInt16) :
    LookupsAgree keytab serviceName enctype ↔
      ∀ entries, parseKeytab keytab = .ok entries →
        TiesAgree (entries.filter (isMatch serviceName enctype)) := by
  constructor
  · intro h entries hparse before k after hsplit hbefore hafter
    have hk : maxByKey (fun e => e.kvno.toNat) (entries.filter (isMatch serviceName enctype)) = some k :=
      maxByKey_eq_some_iff.mpr ⟨before, after, hsplit, fun e he => UInt32.le_iff_toNat_le.mp (hbefore e he),
        fun e he => UInt32.lt_iff_toNat_lt.mp (hafter e he)⟩
    have hmem := (h.greatest k _ ((loadServiceKey_eq_ok hparse _ _).mpr hk) (loadServiceKeys_eq hparse _ _)).1
    exact (mem_values_of_greatest hk).mp hmem
  · intro h
    cases hparse : parseKeytab keytab with
    | error e =>
        have hone : loadServiceKey keytab serviceName enctype = .error e := by
          rw [loadServiceKey, hparse]
          rfl
        have hall : loadServiceKeys keytab serviceName enctype = .error e := by
          rw [loadServiceKeys, hparse]
          rfl
        constructor
        · rw [hone, hall]
          simp
        · intro k keys hk
          rw [hone] at hk
          cases hk
        · intro e' he'
          cases hparse.symm.trans he'
          exact ⟨hone, hall⟩
    | ok entries =>
        constructor
        · exact found_iff hparse serviceName enctype
        · intro k keys hk hkeys
          have hk := (loadServiceKey_eq_ok hparse _ _).mp hk
          rw [loadServiceKeys_eq hparse] at hkeys
          cases hkeys
          obtain ⟨before, after, hsplit, hbefore, hafter⟩ := maxByKey_eq_some_iff.mp hk
          refine ⟨(mem_values_of_greatest hk).mpr ?_, fun k' hk' => kvno_le_of_greatest hk hk'⟩
          exact h entries hparse before k after hsplit (fun e he => UInt32.le_iff_toNat_le.mpr (hbefore e he))
            fun e he => UInt32.lt_iff_toNat_lt.mpr (hafter e he)
        · intro e he
          cases hparse.symm.trans he

/-- Two entries of one principal and number, with keys of one byte. -/
def tiedKeytab (key₁ key₂ : UInt8) : Bytes :=
  let entry (key : UInt8) : Bytes := [0, 0, 0, 24] ++ ([0, 1] ++ [0, 0] ++ [0, 4, 0x68, 0x6f, 0x73, 0x74] ++
    [0, 0, 0, 1] ++ [0, 0, 0, 0] ++ [7] ++ [0, 18] ++ [0, 1, key])
  [0x05, 0x02] ++ entry key₁ ++ entry key₂

/-- **The one lookup answers the second key and the other the first.** -/
theorem not_lookupsAgree : ¬LookupsAgree (tiedKeytab 1 2) ['h', 'o', 's', 't'] enctypeAes256CtsHmacSha196 := by
  intro h
  have hkey : loadServiceKey (tiedKeytab 1 2) ['h', 'o', 's', 't'] enctypeAes256CtsHmacSha196 =
      .ok ⟨[['h', 'o', 's', 't']], [], 18, 7, [2]⟩ := by decide +kernel
  have hkeys : loadServiceKeys (tiedKeytab 1 2) ['h', 'o', 's', 't'] enctypeAes256CtsHmacSha196 =
      .ok [⟨[['h', 'o', 's', 't']], [], 18, 7, [1]⟩] := by decide +kernel
  exact absurd (h.greatest _ _ hkey hkeys).1 (by decide)

end Krabka.Security.Gssapi
