import Krabka.Protocol.Produce

/-!
# `Protocol.ProduceSlices` — the second walk over a produce request

`produce_record_slices` walks the request that `produce_framing` walks and keeps only the partitions' slices,
in one flat list. It skips what the other parses: a topic's id, and the names that nothing needs.
-/

namespace Krabka.Protocol.Produce

open ByteStream Reader

/-! ## The walk

The same fields in the same order, with nothing kept of most of them. -/

/-- `skip`. -/
def skip (n : Nat) : Decode Unit := do
  let _ ← takeBytes n
  return ()

/-- One round of the partition loop. -/
def slicePartition (version : Int16) (topicIndex partitionIndex : Nat) (out : List PartitionRecordSlice) :
    Decode (List PartitionRecordSlice) := do
  let flex : Bool := version ≥ flexibleMin
  let partition ← getI32
  let records ← readNullableBytesSlice flex
  let out := out ++ [⟨topicIndex, partitionIndex, partition, records⟩]
  let _ ← fieldIf flex (readTaggedFields noTags) []
  return out

/-- One round of the topic loop. -/
def sliceTopic (version : Int16) (topicIndex : Nat) (out : List PartitionRecordSlice) :
    Decode (List PartitionRecordSlice) := do
  let flex : Bool := version ≥ flexibleMin
  let _ ← fieldIf (version ≤ 12) (cond flex getCompactNullableStringOwned getNullableStringOwned) none
  fieldIf (version ≥ 13) (skip 16) ()
  let partitionCount ← getArrayLen flex
  let out ← loop (slicePartition version topicIndex) partitionCount 0 out
  let _ ← fieldIf flex (readTaggedFields noTags) []
  return out

def produceRecordSlices (version : Int16) : Decode (List PartitionRecordSlice) := do
  let flex : Bool := version ≥ flexibleMin
  let _ ← fieldIf (version ≥ 3) (cond flex getCompactNullableStringOwned getNullableStringOwned) none
  let _acks ← getI16
  let _timeoutMs ← getI32
  let topicCount ← getArrayLen flex
  let out ← loop (sliceTopic version) topicCount 0 []
  let _ ← fieldIf flex (readTaggedFields noTags) []
  return out

/-! ## Loops that collect

A loop that appends to one list is the flat form of a loop that makes a list of lists. -/

/-- A loop that collects, behind an array's length. -/
theorem getArrayLen_loop {α β : Type} {flex : Bool} {d : Nat → Decode α} {f : α → List β}
    {step : Nat → List β → Decode (List β)} (h : ∀ i s, step i s = (fun a => s ++ f a) <$> d i)
    (s : List β) :
    (getArrayLen flex >>= fun n => loop step n 0 s) = (fun as => s ++ as.flatMap f) <$> getArray flex d := by
  unfold getArray
  simp only [loop_eq_map_times h, List.foldl_append_eq_append, ← List.flatMap_def,
    map_eq_pure_bind, bind_assoc]

/-! ## Piece by piece

What is skipped here is parsed there, and fails in the same places. -/

/-- A field that nobody keeps is skipped. -/
theorem fieldIf_forget {α β γ : Type} {p q : Prop} [Decidable p] [Decidable q] (hpq : p ↔ q)
    {d : Decode α} {d' : Decode β} {a : α} {b : β} (h : ∀ k : Decode γ, (d >>= fun _ => k) = d' >>= fun _ => k)
    (k : Decode γ) : (fieldIf p d a >>= fun _ => k) = fieldIf q d' b >>= fun _ => k := by
  by_cases hp : p
  · rw [fieldIf_pos hp, fieldIf_pos (hpq.mp hp), h]
  · rw [fieldIf_neg hp, fieldIf_neg fun hq => hp (hpq.mpr hq), pure_bind, pure_bind]

theorem slicePartition_eq (version : Int16) (i j : Nat) (out : List PartitionRecordSlice) :
    slicePartition version i j out = (fun s => out ++ [s]) <$> framePartition version i j := by
  unfold slicePartition framePartition
  simp only [map_eq_pure_bind, bind_assoc, pure_bind]

theorem slicePartitions_eq (version : Int16) (i : Nat) (flex : Bool) (out : List PartitionRecordSlice) :
    (getArrayLen flex >>= fun n => loop (slicePartition version i) n 0 out) =
      (fun ss => out ++ ss) <$> getArray flex (framePartition version i) := by
  rw [getArrayLen_loop (f := fun s => [s]) (slicePartition_eq version i)]
  simp only [List.flatMap_singleton']

theorem sliceTopic_eq (version : Int16) (i : Nat) (out : List PartitionRecordSlice) :
    sliceTopic version i out = (fun t => out ++ t.partitions) <$> frameTopic version i := by
  have hname : version ≤ 12 ↔ ¬version > 12 := Int16.not_lt.symm
  have hforget : ∀ (x : Decode (Option String)) (k : Decode (List PartitionRecordSlice)),
      (x >>= fun _ => k) = ((Option.getD · "") <$> x) >>= fun _ => k := by
    intro x k
    rw [map_eq_pure_bind, bind_assoc]
    simp only [pure_bind]
  have hskip : ∀ k : Decode (List PartitionRecordSlice), (skip 16 >>= fun _ => k) = getUuid >>= fun _ => k := by
    intro k
    unfold skip getUuid
    simp only [bind_assoc, pure_bind]
  have hparts : ∀ (flex : Bool) (k : List PartitionRecordSlice → Decode (List PartitionRecordSlice)),
      (getArrayLen flex >>= fun n => loop (slicePartition version i) n 0 out >>= k) =
        getArray flex (framePartition version i) >>= fun ss => k (out ++ ss) := by
    intro flex k
    rw [← bind_assoc, slicePartitions_eq, map_eq_pure_bind, bind_assoc]
    simp only [pure_bind]
  unfold sliceTopic frameTopic
  simp only [map_eq_pure_bind, bind_assoc, pure_bind, hparts]
  rw [fieldIf_forget (b := "") hname (hforget _), fieldIf_forget (b := Uuid.zero) Iff.rfl hskip]
  simp only [map_eq_pure_bind]

/-- **The two produce walks agree.** On every body and at every version, the flat walk gives the slices of
the framing's topics in order, with the same rest, and fails with the same error where the framing walk
fails. -/
theorem produceRecordSlices_eq (version : Int16) (body : Bytes) :
    produceRecordSlices version body =
      (produceFraming version body).map fun p => (p.1.topics.flatMap (·.partitions), p.2) := by
  have htopics : ∀ (flex : Bool) (k : List PartitionRecordSlice → Decode (List PartitionRecordSlice)),
      (getArrayLen flex >>= fun n => loop (sliceTopic version) n 0 [] >>= k) =
        getArray flex (frameTopic version) >>= fun ts => k (ts.flatMap (·.partitions)) := by
    intro flex k
    rw [← bind_assoc, getArrayLen_loop (sliceTopic_eq version), map_eq_pure_bind, bind_assoc]
    simp only [pure_bind, List.nil_append]
  have hwalks : produceRecordSlices version =
      (fun f => f.topics.flatMap (·.partitions)) <$> produceFraming version := by
    unfold produceRecordSlices produceFraming
    simp only [map_eq_pure_bind, bind_assoc, pure_bind, htopics]
  rw [hwalks, map_eq_pure_bind]
  cases h : produceFraming version body with
  | error e => exact bind_of_error h
  | ok p => exact bind_of_ok h

end Krabka.Protocol.Produce
