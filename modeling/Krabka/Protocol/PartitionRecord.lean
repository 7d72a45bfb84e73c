import Krabka.Lib.Results
import Krabka.Protocol.Primitives

/-!
# `Protocol.PartitionRecord` — the generated codec of a partition record

`PartitionRecord.owned.rs`. A version has the fields of the versions before it: directories from 1, eligible
leaders from 2. The encoder drops what its version does not have, so a record comes back as the part of it that
the version carries (`decode_encode`).
-/

namespace Krabka.Protocol

open ByteStream Reader Output

structure PartitionRecord where
  partitionId : Int32 := -1
  topicId : Uuid := .zero
  replicas : List Int32 := []
  isr : List Int32 := []
  removingReplicas : List Int32 := []
  addingReplicas : List Int32 := []
  leader : Int32 := -1
  leaderEpoch : Int32 := -1
  partitionEpoch : Int32 := -1
  directories : List Uuid := []
  leaderRecoveryState : Int8 := 0
  eligibleLeaderReplicas : Option (List Int32) := none
  lastKnownElr : Option (List Int32) := none
  unknownTaggedFields : UnknownTaggedFields := []
deriving DecidableEq, Repr

namespace PartitionRecord

def minVersion : Int16 := 0

def maxVersion : Int16 := 2

def flexibleMin : Int16 := 0

def isFlexible (version : Int16) : Bool := flexibleMin ≤ version

/-! ## Writing

The positional fields by version, then the tagged section. -/

/-- `encode_to_bytes`: a payload is whole before the trailer is written. -/
def encodeToBytes (x : Encode) : Except ProtocolError Bytes := x.result.map fun _ => x.out

/-- The tagged field of a list that is on the wire only when there is one. -/
def listField (tag : UInt32) (present : Prop) [Decidable present] (flex : Bool)
    (value : Option (List Int32)) : Except ProtocolError (List (UInt32 × Bytes)) :=
  if present ∧ value.isSome then do
    let payload ← encodeToBytes (putNullableArray flex putI32 value)
    return [(tag, payload)]
  else return []

def taggedFields (p : PartitionRecord) (version : Int16) (flex : Bool) :
    Except ProtocolError (List (UInt32 × Bytes)) := do
  let recovery := if p.leaderRecoveryState ≠ 0 then [(0, putI8 p.leaderRecoveryState)] else []
  let eligible ← listField 1 (2 ≤ version) flex p.eligibleLeaderReplicas
  let lastKnown ← listField 2 (2 ≤ version) flex p.lastKnownElr
  return recovery ++ eligible ++ lastKnown

def encodeTaggedFields (p : PartitionRecord) (version : Int16) (flex : Bool) : Encode :=
  if flex then
    match p.taggedFields version flex with
    | .ok entries => writeTaggedFields entries p.unknownTaggedFields
    | .error e => fail e
  else pure ()

def putDirectories (p : PartitionRecord) (version : Int16) (flex : Bool) : Encode :=
  if 1 ≤ version then putArray flex putUuid p.directories else pure ()

/-- Every version in range has the first nine fields. -/
def encodeFields (p : PartitionRecord) (version : Int16) (flex : Bool) : Encode := do
  put (putI32 p.partitionId)
  put (putUuid p.topicId)
  putArray flex putI32 p.replicas
  putArray flex putI32 p.isr
  putArray flex putI32 p.removingReplicas
  putArray flex putI32 p.addingReplicas
  put (putI32 p.leader)
  put (putI32 p.leaderEpoch)
  put (putI32 p.partitionEpoch)
  p.putDirectories version flex
  p.encodeTaggedFields version flex

def encode (p : PartitionRecord) (version : Int16) : Encode :=
  if minVersion ≤ version ∧ version ≤ maxVersion then p.encodeFields version (isFlexible version)
  else fail (.schemaMismatch "PartitionRecord version out of range")

/-! ## Reading

A tag of a later version is unknown to an earlier one, and is kept as it came. -/

/-- The tagged fields found so far. -/
structure Tags where
  leaderRecoveryState : Option Int8 := none
  eligibleLeaderReplicas : Option (Option (List Int32)) := none
  lastKnownElr : Option (Option (List Int32)) := none

def readTag (version : Int16) (flex : Bool) (tag : UInt32) (s : Tags) : Decode (Option Tags) :=
  if tag = 0 then do
    let state ← getI8
    return some { s with leaderRecoveryState := some state }
  else if tag = 1 then
    if 2 ≤ version then do
      let eligible ← getNullableArray flex getI32
      return some { s with eligibleLeaderReplicas := some eligible }
    else throw (.tagNotValidForVersion 1 version)
  else if tag = 2 then
    if 2 ≤ version then do
      let lastKnown ← getNullableArray flex getI32
      return some { s with lastKnownElr := some lastKnown }
    else throw (.tagNotValidForVersion 2 version)
  else return none

def decodeTaggedFields (version : Int16) (flex : Bool) : Decode (Tags × UnknownTaggedFields) :=
  fieldIf flex (readTaggedFieldsInto (readTag version flex) {}) ({}, [])

def decodeFields (version : Int16) (flex : Bool) : Decode PartitionRecord := do
  let partitionId ← getI32
  let topicId ← getUuid
  let replicas ← getArray flex getI32
  let isr ← getArray flex getI32
  let removingReplicas ← getArray flex getI32
  let addingReplicas ← getArray flex getI32
  let leader ← getI32
  let leaderEpoch ← getI32
  let partitionEpoch ← getI32
  let directories ← fieldIf (1 ≤ version) (getArray flex getUuid) []
  let (tags, unknown) ← decodeTaggedFields version flex
  return {
    partitionId := partitionId
    topicId := topicId
    replicas := replicas
    isr := isr
    removingReplicas := removingReplicas
    addingReplicas := addingReplicas
    leader := leader
    leaderEpoch := leaderEpoch
    partitionEpoch := partitionEpoch
    directories := directories
    leaderRecoveryState := tags.leaderRecoveryState.getD 0
    eligibleLeaderReplicas := tags.eligibleLeaderReplicas.getD none
    lastKnownElr := tags.lastKnownElr.getD none
    unknownTaggedFields := unknown }

def decode (version : Int16) : Decode PartitionRecord :=
  if minVersion ≤ version ∧ version ≤ maxVersion then decodeFields version (isFlexible version)
  else throw (.schemaMismatch "PartitionRecord version out of range")

/-! ## The round trip

What a version carries is the record without the fields of later ones. -/

/-- The part of a record that a version has. -/
def carried (p : PartitionRecord) (version : Int16) : PartitionRecord :=
  { p with
    directories := if 1 ≤ version then p.directories else []
    eligibleLeaderReplicas := if 2 ≤ version then p.eligibleLeaderReplicas else none
    lastKnownElr := if 2 ≤ version then p.lastKnownElr else none }

theorem encodeToBytes_eq_ok {x : Encode} {w : Bytes} : encodeToBytes x = .ok w ↔ Wrote x w := by
  obtain ⟨out, result⟩ := x
  unfold encodeToBytes Wrote
  cases result with
  | error e => simp [Except.map]
  | ok u => simp [Except.map]

/-- At most one entry, of the given tag. -/
def AtMost (tag : UInt32) (entries : List (UInt32 × Bytes)) : Prop :=
  entries = [] ∨ ∃ payload, entries = [(tag, payload)]

theorem pairwise_of_atMost {a b c : UInt32} (hab : a < b) (hbc : b < c)
    {xs ys zs : List (UInt32 × Bytes)} (hx : AtMost a xs) (hy : AtMost b ys) (hz : AtMost c zs) :
    (xs ++ ys ++ zs).Pairwise (fun d e => d.1 < e.1) := by
  have hac : a < c := UInt32.lt_trans hab hbc
  rcases hx with rfl | ⟨_, rfl⟩ <;> rcases hy with rfl | ⟨_, rfl⟩ <;> rcases hz with rfl | ⟨_, rfl⟩ <;>
    simp [hab, hbc, hac]

/-- The list that a version carries, written as a tagged field: `set` is what its reader does with it. -/
theorem knownFields_listField {tag : UInt32} {version : Int16} {value : Option (List Int32)}
    {entries : List (UInt32 × Bytes)} (h : listField tag (2 ≤ version) true value = .ok entries)
    {s : Tags} (set : Option (Option (List Int32)) → Tags) (hset : set none = s)
    (hread : 2 ≤ version → ∀ as w, Reads (getNullableArray true getI32) w (some as) →
      readTag version true tag s w = .ok (some (set (some (some as))), [])) :
    knownFields (readTag version true) s entries =
      some (set (if 2 ≤ version then value.map some else none)) ∧ AtMost tag entries := by
  unfold listField at h
  split at h
  · rename_i hpresent
    obtain ⟨as, has⟩ := Option.isSome_iff_exists.mp hpresent.2
    obtain ⟨w, hw, h⟩ := Results.bind_eq_ok.mp h
    cases h
    rw [has, encodeToBytes_eq_ok] at hw
    have hreads := reads_putNullableArray reads_putI32 (by simp) hw
    refine ⟨?_, Or.inr ⟨w, rfl⟩⟩
    unfold knownFields
    rw [List.foldlM_cons, hread hpresent.1 as w hreads, if_pos hpresent.1, has]
    rfl
  · rename_i habsent
    cases h
    refine ⟨?_, Or.inl rfl⟩
    have hnone : (if 2 ≤ version then value.map some else none) = none := by
      split
      · rename_i hversion
        have hvalue : value = none := by simpa [hversion] using habsent
        rw [hvalue]
        rfl
      · rfl
    rw [hnone, hset]
    rfl

theorem reads_taggedFields {p : PartitionRecord} {version : Int16} {entries : List (UInt32 × Bytes)}
    (h : p.taggedFields version true = .ok entries) :
    knownFields (readTag version true) {} entries = some
        { leaderRecoveryState := if p.leaderRecoveryState ≠ 0 then some p.leaderRecoveryState else none
          eligibleLeaderReplicas := if 2 ≤ version then p.eligibleLeaderReplicas.map some else none
          lastKnownElr := if 2 ≤ version then p.lastKnownElr.map some else none } ∧
      entries.Pairwise (fun a b => a.1 < b.1) := by
  obtain ⟨eligible, he, h⟩ := Results.bind_eq_ok.mp h
  obtain ⟨lastKnown, hl, h⟩ := Results.bind_eq_ok.mp h
  cases h
  have hrecovery : knownFields (readTag version true) {}
      (if p.leaderRecoveryState ≠ 0 then [(0, putI8 p.leaderRecoveryState)] else []) = some
        { leaderRecoveryState :=
            if p.leaderRecoveryState ≠ 0 then some p.leaderRecoveryState else none } ∧
      AtMost 0 (if p.leaderRecoveryState ≠ 0 then [(0, putI8 p.leaderRecoveryState)] else []) := by
    split
    · refine ⟨?_, Or.inr ⟨_, rfl⟩⟩
      have hread : readTag version true 0 {} (putI8 p.leaderRecoveryState) =
          .ok (some { leaderRecoveryState := some p.leaderRecoveryState }, []) := by
        unfold readTag
        rw [if_pos rfl, bind_of_ok (reads_putI8 p.leaderRecoveryState).all]
        rfl
      unfold knownFields
      rw [List.foldlM_cons, hread]
      rfl
    · exact ⟨rfl, Or.inl rfl⟩
  generalize (if p.leaderRecoveryState ≠ 0 then some p.leaderRecoveryState else none) = state at *
  have heligible := knownFields_listField he
    (fun o => { leaderRecoveryState := state, eligibleLeaderReplicas := o }) rfl
    (by
      intro hversion as w hw
      unfold readTag
      rw [if_neg (by decide), if_pos rfl, if_pos hversion, bind_of_ok hw.all]
      rfl)
  generalize (if 2 ≤ version then p.eligibleLeaderReplicas.map some else none) = elr at *
  have hlast := knownFields_listField hl
    (fun o => { leaderRecoveryState := state, eligibleLeaderReplicas := elr, lastKnownElr := o }) rfl
    (by
      intro hversion as w hw
      unfold readTag
      rw [if_neg (by decide), if_neg (by decide), if_pos rfl, if_pos hversion, bind_of_ok hw.all]
      rfl)
  refine ⟨?_, pairwise_of_atMost (by decide) (by decide) hrecovery.2 heligible.2 hlast.2⟩
  have happend : ∀ (xs ys : List (UInt32 × Bytes)) (s : Tags),
      knownFields (readTag version true) s (xs ++ ys) =
        (knownFields (readTag version true) s xs).bind fun t =>
          knownFields (readTag version true) t ys := by
    intro xs ys s
    exact List.foldlM_append
  rw [happend, happend, hrecovery.1, Option.bind_some, heligible.1, Option.bind_some, hlast.1]

theorem getD_recovery (state : Int8) : (if state ≠ 0 then some state else none).getD 0 = state := by
  by_cases h : state = 0
  · rw [if_neg (not_not_intro h), h]
    rfl
  · rw [if_pos h]
    rfl

theorem getD_list {p : Prop} [Decidable p] (o : Option (List Int32)) :
    (if p then o.map some else none).getD none = if p then o else none := by
  by_cases h : p
  · rw [if_pos h, if_pos h]
    cases o <;> rfl
  · rw [if_neg h, if_neg h]
    rfl

theorem reads_putDirectories {p : PartitionRecord} {version : Int16} {w : Bytes}
    (h : Wrote (p.putDirectories version true) w) :
    Reads (fieldIf (1 ≤ version) (getArray true getUuid) []) w (p.carried version).directories := by
  unfold putDirectories at h
  unfold carried
  by_cases hversion : 1 ≤ version
  · have huuid : ∀ u : Uuid, 1 ≤ (putUuid u).length := by
      intro u
      rw [length_putUuid]
      decide
    rw [if_pos hversion] at h
    rw [fieldIf_pos hversion]
    simp only [hversion, if_true]
    exact reads_putArray reads_putUuid huuid h
  · rw [if_neg hversion] at h
    cases wrote_pure.mp h
    rw [fieldIf_neg hversion]
    simp only [hversion, if_false]
    exact Reads.pure []

/-- **A record comes back as what its version carries.** -/
theorem decode_encode {p : PartitionRecord} (hunknown : p.unknownTaggedFields = []) {version : Int16}
    {w : Bytes} (h : Wrote (p.encode version) w) : Reads (decode version) w (p.carried version) := by
  unfold encode at h
  split at h
  · rename_i hrange
    have hflex : isFlexible version = true := decide_eq_true hrange.1
    rw [hflex] at h
    unfold decode
    rw [if_pos hrange, hflex]
    obtain ⟨w₁, r₁, h₁, hr₁, rfl⟩ := wrote_bind.mp h
    obtain ⟨w₂, r₂, h₂, hr₂, rfl⟩ := wrote_bind.mp hr₁
    obtain ⟨w₃, r₃, h₃, hr₃, rfl⟩ := wrote_bind.mp hr₂
    obtain ⟨w₄, r₄, h₄, hr₄, rfl⟩ := wrote_bind.mp hr₃
    obtain ⟨w₅, r₅, h₅, hr₅, rfl⟩ := wrote_bind.mp hr₄
    obtain ⟨w₆, r₆, h₆, hr₆, rfl⟩ := wrote_bind.mp hr₅
    obtain ⟨w₇, r₇, h₇, hr₇, rfl⟩ := wrote_bind.mp hr₆
    obtain ⟨w₈, r₈, h₈, hr₈, rfl⟩ := wrote_bind.mp hr₇
    obtain ⟨w₉, r₉, h₉, hr₉, rfl⟩ := wrote_bind.mp hr₈
    obtain ⟨w₁₀, w₁₁, h₁₀, h₁₁, rfl⟩ := wrote_bind.mp hr₉
    cases wrote_put.mp h₁
    cases wrote_put.mp h₂
    cases wrote_put.mp h₇
    cases wrote_put.mp h₈
    cases wrote_put.mp h₉
    have hi32 : ∀ i : Int32, 1 ≤ (putI32 i).length := by simp
    have hdirectories := reads_putDirectories h₁₀
    unfold decodeFields
    refine (reads_putI32 p.partitionId).bind ((reads_putUuid p.topicId).bind
      ((reads_putArray reads_putI32 hi32 h₃).bind ((reads_putArray reads_putI32 hi32 h₄).bind
      ((reads_putArray reads_putI32 hi32 h₅).bind ((reads_putArray reads_putI32 hi32 h₆).bind
      ((reads_putI32 p.leader).bind ((reads_putI32 p.leaderEpoch).bind
      ((reads_putI32 p.partitionEpoch).bind (hdirectories.bind ?_)))))))))
    unfold encodeTaggedFields at h₁₁
    rw [if_pos rfl] at h₁₁
    cases hentries : p.taggedFields version true with
    | error e =>
        rw [hentries] at h₁₁
        exact absurd h₁₁ not_wrote_fail
    | ok entries =>
        rw [hentries, hunknown] at h₁₁
        obtain ⟨hknown, hsorted⟩ := reads_taggedFields hentries
        have htrailer := reads_writeTaggedFields h₁₁ hsorted hknown
        unfold decodeTaggedFields
        rw [fieldIf_pos rfl]
        refine Reads.bind_nil htrailer ?_
        have hrecord : p.carried version = {
            partitionId := p.partitionId
            topicId := p.topicId
            replicas := p.replicas
            isr := p.isr
            removingReplicas := p.removingReplicas
            addingReplicas := p.addingReplicas
            leader := p.leader
            leaderEpoch := p.leaderEpoch
            partitionEpoch := p.partitionEpoch
            directories := (p.carried version).directories
            leaderRecoveryState :=
              (if p.leaderRecoveryState ≠ 0 then some p.leaderRecoveryState else none).getD 0
            eligibleLeaderReplicas :=
              (if 2 ≤ version then p.eligibleLeaderReplicas.map some else none).getD none
            lastKnownElr := (if 2 ≤ version then p.lastKnownElr.map some else none).getD none
            unknownTaggedFields := [] } := by
          rw [getD_recovery, getD_list, getD_list, ← hunknown]
          rfl
        rw [hrecord]
        exact Reads.pure _
  · exact absurd h not_wrote_fail

end PartitionRecord

end Krabka.Protocol
