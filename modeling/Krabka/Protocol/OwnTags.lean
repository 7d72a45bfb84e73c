import Krabka.Protocol.GuardedPrimitives
import Krabka.Protocol.PartitionRecord

/-!
# `Protocol.OwnTags` — tagged fields of a record's own

A tagged field of a generated record is whole before the trailer is written (`encode_to_bytes`), and its payload
is framed with a length of its own. So it is refused for its count, and again for its payload: a list of
fixed-width elements that the count admits can still be too long for the frame (`listBytes`). `fewTags_append`
joins two such fields of one trailer.
-/

namespace Krabka.Protocol

open ByteStream Reader Output PartitionRecord

/-- A field that is on the wire only when `present`. -/
def encodeIf (present : Prop) [Decidable present] (x : Encode) : Encode := if present then x else pure ()

/-- Such a field is read back, or read as its default. -/
theorem guarded_encodeIf {α β : Type} {present : Prop} [Decidable present] {x y : Encode} {n : Nat}
    {d : Decode α} {f : α → Decode β} {a default : α} {b : β} {fits : Prop} (hx : Exact x n d a)
    (hy : Guarded fits y (f (if present then a else default)) b) :
    Guarded fits (encodeIf present x >>= fun _ => y) (fieldIf present d default >>= f) b :=
  ((Guarded.ite (.always hx)).bind hy).iff (by simp)

/-! ## The fields

A field of a list of node ids in the tagged section, and the entries that a record makes of such fields. -/

/-- A tagged field that is on the wire only when `present`. -/
def taggedField (tag : UInt32) (present : Prop) [Decidable present] (x : Encode) :
    Except ProtocolError (List (UInt32 × Bytes)) :=
  if present then do
    let payload ← encodeToBytes x
    return [(tag, payload)]
  else return []

/-- The trailer behind the fields that were written apart. -/
def writeTrailer (fields : Except ProtocolError (List (UInt32 × Bytes))) (unknown : UnknownTaggedFields) :
    Encode :=
  match fields with
  | .ok entries => writeTaggedFields entries unknown
  | .error e => fail e

/-- The bytes of an array of `n` elements of `size` bytes each. -/
def listBytes (n size : Nat) : Nat := arrayLenPrefixLen n true + n * size

/-- At most one entry, of a length that its prefix holds. -/
def FewTags (entries : List (UInt32 × Bytes)) : Prop :=
  entries.length ≤ 1 ∧ ∀ e ∈ entries, e.2.length < 2 ^ 32

/-- A payload of `n` bytes that is written whenever `n` fits its prefix. -/
structure TagPayload (x : Encode) (n : Nat) : Prop where
  length : ∀ w, Wrote x w → w.length = n
  writes : n < 2 ^ 32 → Writes x

/-- A payload that reads back can be tagged. -/
theorem payload_of_exact {α : Type} {x : Encode} {n : Nat} {d : Decode α} {a : α} {fits : Prop}
    (hx : fits → Exact x n d a) (hguarded : Guarded fits x d a) (hfits : n < 2 ^ 32 → fits) :
    TagPayload x n where
  length := by
    intro w hw
    obtain ⟨w', hw', hlen, -⟩ := hx (hguarded.writes.mp ⟨w, hw⟩)
    rw [wrote_unique hw hw', hlen]
  writes := fun hn => hguarded.writes.mpr (hfits hn)

/-- A list that fits its prefix in bytes fits it in number. -/
theorem compactFits_of_listBytes {n size : Nat} (hsize : 2 ≤ size) (h : listBytes n size < 2 ^ 32) :
    CompactFits n := by
  have hmul := Nat.mul_le_mul_left n hsize
  unfold listBytes at h
  unfold CompactFits
  omega

theorem sum_map_const {α : Type} (l : List α) (size : Nat) : (l.map fun _ => size).sum = l.length * size := by
  rw [List.map_const', List.sum_replicate, smul_eq_mul]

/-- Lists of fixed-width elements. -/
theorem payload_putArray {α γ : Type} {enc : γ → Bytes} {d : Decode α} {g : γ → α} {size : Nat}
    (hsize : 2 ≤ size) (h : ∀ c, Exact (put (enc c) : Encode) size d (g c)) (cs : List γ) :
    TagPayload (putArray true enc cs) (listBytes cs.length size) := by
  have hlen : arrayLen true (fun _ => size) cs = listBytes cs.length size := by
    unfold arrayLen listBytes
    rw [sum_map_const]
  refine payload_of_exact (fun (hfit : CompactFits cs.length) => ?_)
    (guarded_putArray (by omega) h cs) (compactFits_of_listBytes hsize)
  exact Exact.len (@exact_encodeArray _ _ true _ _ _ _ _ hfit (fun c _ => h c) fun _ _ => by omega) hlen

/-- A list of fixed size can be tagged. -/
theorem payload_putNullableArray {α γ : Type} {enc : γ → Bytes} {d : Decode α} {g : γ → α} {size : Nat}
    (hsize : 2 ≤ size) (h : ∀ c, Exact (put (enc c) : Encode) size d (g c)) (cs : List γ) :
    TagPayload (putNullableArray true enc (some cs)) (listBytes cs.length size) := by
  have hlen : nullableArrayLen true (fun _ => size) (some cs) = listBytes cs.length size := by
    show arrayLenPrefixLen cs.length true + (cs.map fun _ => size).sum = _
    rw [sum_map_const]
    rfl
  refine payload_of_exact (fun (hfit : CompactFits cs.length) => ?_)
    ((guarded_putNullableArray (by omega) h (some cs)).iff (by simp)) (compactFits_of_listBytes hsize)
  refine Exact.len (@exact_encodeNullableArray _ _ true _ _ _ _ _ (fun l hl => ?_) (fun _ _ c _ => h c)
    fun _ _ _ _ => by omega) hlen
  cases hl
  exact hfit

/-- A field is refused exactly when it is present and its payload does not fit. -/
theorem taggedField_isOk {tag : UInt32} {present : Prop} [Decidable present] {x : Encode} {n : Nat}
    (hx : present → TagPayload x n) :
    (∃ entries, taggedField tag present x = .ok entries ∧ FewTags entries) ↔ (present → n < 2 ^ 32) := by
  unfold taggedField
  by_cases hp : present
  · simp only [hp, if_true, forall_const]
    have hpayload := hx hp
    constructor
    · rintro ⟨entries, h, -, hsmall⟩
      obtain ⟨w, hw, h⟩ := Results.bind_eq_ok.mp h
      cases h
      rw [← hpayload.length w (encodeToBytes_eq_ok.mp hw)]
      exact hsmall _ List.mem_cons_self
    · intro hn
      obtain ⟨w, hw⟩ := hpayload.writes hn
      refine ⟨[(tag, w)], by rw [encodeToBytes_eq_ok.mpr hw]; rfl, le_refl 1, fun e he => ?_⟩
      cases List.mem_singleton.mp he
      rw [hpayload.length w hw]
      exact hn
  · simp only [hp, if_false, false_implies, iff_true]
    exact ⟨[], rfl, Nat.zero_le 1, fun _ he => nomatch he⟩

/-- Two fields behind a few that are always there: they fit a trailer when each of them does, since there are
    no more than three entries. -/
theorem fewTags_append {start : List (UInt32 × Bytes)} (hstart : FewTags start)
    {xs ys : Except ProtocolError (List (UInt32 × Bytes))}
    (hx : ∀ entries, xs = .ok entries → entries.length ≤ 1)
    (hy : ∀ entries, ys = .ok entries → entries.length ≤ 1) :
    (∃ entries, (do
        let a ← xs
        let b ← ys
        return start ++ a ++ b) = Except.ok entries ∧
      entries.length < 2 ^ 32 ∧ ∀ e ∈ entries, e.2.length < 2 ^ 32) ↔
      (∃ entries, xs = .ok entries ∧ FewTags entries) ∧ ∃ entries, ys = .ok entries ∧ FewTags entries := by
  constructor
  · rintro ⟨entries, h, -, hsmall⟩
    obtain ⟨a, ha, h⟩ := Results.bind_eq_ok.mp h
    obtain ⟨b, hb, h⟩ := Results.bind_eq_ok.mp h
    cases h
    exact ⟨⟨a, ha, hx a ha, fun e he => hsmall e (List.mem_append_left _ (List.mem_append_right _ he))⟩,
      ⟨b, hb, hy b hb, fun e he => hsmall e (List.mem_append_right _ he)⟩⟩
  · rintro ⟨⟨a, ha, hlen, hsmall⟩, ⟨b, hb, hlen', hsmall'⟩⟩
    refine ⟨start ++ a ++ b, by rw [ha, hb]; rfl, ?_, fun e he => ?_⟩
    · have hstartLen := hstart.1
      rw [List.length_append, List.length_append]
      omega
    · rcases List.mem_append.mp he with he | he
      · exact (List.mem_append.mp he).elim (hstart.2 e) (hsmall e)
      · exact hsmall' e he

/-- A field makes at most one entry. -/
theorem length_taggedField_le {tag : UInt32} {present : Prop} [Decidable present] {x : Encode}
    {entries : List (UInt32 × Bytes)} (h : taggedField tag present x = .ok entries) : entries.length ≤ 1 := by
  unfold taggedField at h
  split at h
  · obtain ⟨w, -, h⟩ := Results.bind_eq_ok.mp h
    cases h
    exact le_refl 1
  · cases h
    exact Nat.zero_le 1

/-- **A trailer is written where its entries are and fit.** -/
theorem writes_writeTrailer {fields : Except ProtocolError (List (UInt32 × Bytes))} :
    Writes (writeTrailer fields []) ↔ ∃ entries, fields = .ok entries ∧ entries.length < 2 ^ 32 ∧
      ∀ e ∈ entries, e.2.length < 2 ^ 32 := by
  unfold writeTrailer
  cases fields with
  | error e => simp
  | ok entries => simp [Writes, wrote_writeTaggedFields_iff]

/-! ## What the writer of a partition refuses

The lengths of its lists, and of what stands in its tagged section. -/

namespace PartitionRecord

def Fits (p : PartitionRecord) (version : Int16) : Prop :=
  CompactFits p.replicas.length ∧ CompactFits p.isr.length ∧ CompactFits p.removingReplicas.length ∧
    CompactFits p.addingReplicas.length ∧ (1 ≤ version → CompactFits p.directories.length) ∧
    (2 ≤ version → ∀ l ∈ p.eligibleLeaderReplicas, listBytes l.length 4 < 2 ^ 32) ∧
    (2 ≤ version → ∀ l ∈ p.lastKnownElr, listBytes l.length 4 < 2 ^ 32)

/-- A list field is written from version 2 on, where it fits. -/
theorem writes_listField {tag : UInt32} {version : Int16} {value : Option (List Int32)} :
    (∃ entries, listField tag (2 ≤ version) true value = .ok entries ∧ FewTags entries) ↔
      (2 ≤ version → ∀ l ∈ value, listBytes l.length 4 < 2 ^ 32) := by
  have hfield := @taggedField_isOk tag (2 ≤ version ∧ value.isSome) _ (putNullableArray true putI32 value)
    (listBytes (value.getD []).length 4) fun hpresent => by
      obtain ⟨l, hl⟩ := Option.isSome_iff_exists.mp hpresent.2
      rw [hl]
      exact payload_putNullableArray (by decide) exact_putI32 l
  refine hfield.trans ⟨fun h hversion l hl => ?_, fun h hpresent => ?_⟩
  · rw [Option.mem_def.mp hl] at h
    exact h ⟨hversion, rfl⟩
  · obtain ⟨l, hl⟩ := Option.isSome_iff_exists.mp hpresent.2
    rw [hl]
    exact h hpresent.1 l hl

/-- The tagged fields of a partition. -/
theorem writes_encodeTaggedFields {p : PartitionRecord} (hunknown : p.unknownTaggedFields = [])
    {version : Int16} : Writes (p.encodeTaggedFields version true) ↔
      (2 ≤ version → ∀ l ∈ p.eligibleLeaderReplicas, listBytes l.length 4 < 2 ^ 32) ∧
        (2 ≤ version → ∀ l ∈ p.lastKnownElr, listBytes l.length 4 < 2 ^ 32) := by
  have hrecovery : FewTags (if p.leaderRecoveryState ≠ 0 then [(0, putI8 p.leaderRecoveryState)] else []) := by
    split
    · refine ⟨le_refl 1, fun e he => ?_⟩
      cases List.mem_singleton.mp he
      simp
    · exact ⟨Nat.zero_le 1, fun _ he => nomatch he⟩
  have hsplit := @fewTags_append _ hrecovery (listField 1 (2 ≤ version) true p.eligibleLeaderReplicas)
    (listField 2 (2 ≤ version) true p.lastKnownElr) (fun _ => length_taggedField_le)
    fun _ => length_taggedField_le
  have hfields : Writes (p.encodeTaggedFields version true) ↔
      Writes (writeTrailer (p.taggedFields version true) []) := by
    unfold encodeTaggedFields
    rw [if_pos rfl, hunknown]
    cases p.taggedFields version true <;> rfl
  rw [hfields, writes_writeTrailer]
  exact hsplit.trans (and_congr writes_listField writes_listField)

/-- The directories of a partition are written from version 1 on. -/
theorem writes_putDirectories {p : PartitionRecord} {version : Int16} :
    Writes (p.putDirectories version true) ↔ (1 ≤ version → CompactFits p.directories.length) := by
  unfold putDirectories
  by_cases hversion : 1 ≤ version
  · simp only [hversion, if_true, forall_const]
    exact (guarded_putArray (by decide) exact_putUuid p.directories).writes
  · simp [hversion]

/-- **A partition is written exactly when its lengths fit.** -/
theorem writes_encode {p : PartitionRecord} (hunknown : p.unknownTaggedFields = []) {version : Int16} :
    Writes (p.encode version) ↔ (minVersion ≤ version ∧ version ≤ maxVersion) ∧ p.Fits version := by
  have hnodes : ∀ nodes : List Int32, Writes (putArray true putI32 nodes) ↔ CompactFits nodes.length :=
    fun nodes => (guarded_putArray (by decide) exact_putI32 nodes).writes
  unfold encode
  split
  · rename_i hrange
    have hflex : isFlexible version = true := decide_eq_true hrange.1
    unfold encodeFields Fits
    simp only [hflex, hrange, writes_bind, writes_put, hnodes, writes_putDirectories,
      writes_encodeTaggedFields hunknown, true_and, and_self]
  · rename_i hrange
    exact iff_of_false (not_writes_fail _) fun h => hrange h.1

end PartitionRecord

end Krabka.Protocol
