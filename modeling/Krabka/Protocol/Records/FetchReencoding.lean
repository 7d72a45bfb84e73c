import Krabka.Protocol.Records.FetchLeniency
import Krabka.Protocol.Records.Reencoding

/-!
# `Protocol.Records.FetchReencoding` — a records field that was read can be written again

A reader of a records field may be handed any bytes: numbers in longer forms than they need, and for a
response a part of a batch at the end. What it makes of them is a payload that is written without an error
and in no more bytes, and that both readers then read alike (`fetched_reencodes`).
-/

namespace Krabka.Protocol.Records

open ByteStream Output Results

variable {codecs : Compression.Codecs}

/-- `w` is what the encoder makes of `b`, and it is read as `b`. -/
def Rewrites [CrcFast] (codecs : Compression.Codecs) (w : Bytes) (b : RecordBatch) : Prop :=
  b.encodeBatch codecs = .ok w ∧ Encodes codecs w b

/-- **One round after the other.** Each batch that the loop took is written again, in no more bytes than
    the loop consumed for it. -/
theorem rewrites_ownedBatches [CrcFast] {lenient : Bool} {fuel : Nat} {cur : Bytes} {bs : List RecordBatch}
    (h : ownedBatches codecs lenient fuel cur = .ok bs)
    (hplain : ∀ b ∈ bs, b.attributes.compression = .none) :
    ∃ ws : List Bytes, List.Forall₂ (Rewrites codecs) ws bs ∧ ws.flatten.length ≤ cur.length := by
  induction fuel generalizing cur bs with
  | zero =>
    cases h
    exact ⟨[], .nil, Nat.zero_le _⟩
  | succ fuel ih =>
    by_cases hne : cur = []
    · rw [hne, ownedBatches_empty] at h
      cases h
      exact ⟨[], .nil, Nat.zero_le _⟩
    · rcases hdec : decodeBatch codecs cur with ⟨e | b, rest⟩
      · obtain ⟨hfail, hstop⟩ := @ownedBatches_error codecs _ lenient fuel cur rest e hne hdec
        by_cases hc : lenient = false ∨ Corrupt e
        · rw [hfail hc] at h
          cases h
        · rw [not_or, Bool.not_eq_false] at hc
          rw [hstop hc] at h
          cases h
          exact ⟨[], .nil, Nat.zero_le _⟩
      · rw [ownedBatches_ok hdec] at h
        obtain ⟨later, hlater, rfl⟩ := map_eq_ok.mp h
        obtain ⟨hb, hrest⟩ := List.forall_mem_cons.mp hplain
        obtain ⟨ws, hws, hle⟩ := ih hlater hrest
        obtain ⟨w, hencode, hlen, hread⟩ := RecordBatch.decodeBatch_reencodes hdec hb
        have hself : Encodes codecs w b := by
          have hnil := hread []
          rwa [List.append_nil] at hnil
        refine ⟨w :: ws, .cons ⟨hencode, hself⟩ hws, ?_⟩
        rw [List.flatten_cons, List.length_append]
        omega

theorem wrote_rewrites [CrcFast] {ws : List Bytes} {bs : List RecordBatch} (h : List.Forall₂ (Rewrites codecs) ws bs) :
    Wrote ((RecordsPayload.v2 bs).encodeTo codecs) ws.flatten := by
  show Wrote (each (fun b => putResult (b.encodeBatch codecs)) bs) ws.flatten
  induction h with
  | nil => exact wrote_pure.mpr rfl
  | @cons w b ws bs hw _ ih =>
    refine wrote_bind.mpr ⟨w, ws.flatten, ?_, ih, List.flatten_cons⟩
    show Wrote (putResult (b.encodeBatch codecs)) w
    rw [hw.1]
    exact wrote_put.mpr rfl

/-- `payload_len` predicts what an uncompressed payload takes. -/
theorem length_rewrites [CrcFast] {ws : List Bytes} {bs : List RecordBatch} (h : List.Forall₂ (Rewrites codecs) ws bs)
    (hplain : ∀ b ∈ bs, b.attributes.compression = .none) :
    ws.flatten.length = (RecordsPayload.v2 bs).payloadLen := by
  show ws.flatten.length = (bs.map RecordBatch.encodedBatchLen).sum
  induction h with
  | nil => rfl
  | @cons w b ws bs hw _ ih =>
    obtain ⟨hb, hrest⟩ := List.forall_mem_cons.mp hplain
    have hlen := (RecordBatch.decodeBatch_encodeBatch hb hw.1 []).2
    rw [List.flatten_cons, List.length_append, List.map_cons, List.sum_cons, hlen, ih hrest]

/-- **What was read is written, no longer than it was, and read back.** For every records field that either
    reader takes as uncompressed batches: the payload is encoded without an error, in as many bytes as
    `payload_len` says and no more than there were, and unless there was no whole batch at all, both readers
    take what was written as the same batches. -/
theorem fetched_reencodes [CrcFast] {bytes : Bytes} {bs : List RecordBatch}
    (h : fromBytes codecs bytes = .ok (.v2 bs) ∨ fromFetchBytes codecs bytes = .ok (.v2 bs))
    (hplain : ∀ b ∈ bs, b.attributes.compression = .none) :
    ∃ out, Wrote ((RecordsPayload.v2 bs).encodeTo codecs) out ∧
      out.length = (RecordsPayload.v2 bs).payloadLen ∧ out.length ≤ bytes.length ∧
      (bs ≠ [] → fromBytes codecs out = .ok (.v2 bs) ∧ fromFetchBytes codecs out = .ok (.v2 bs)) := by
  have hloop : ∃ lenient, ownedBatches codecs lenient bytes.length bytes = .ok bs := by
    unfold fromBytes fromFetchBytes at h
    rcases h with h | h <;> split at h
    · obtain ⟨bs', hbs, heq⟩ := map_eq_ok.mp h
      cases heq
      exact ⟨false, hbs⟩
    · cases h
    · obtain ⟨bs', hbs, heq⟩ := map_eq_ok.mp h
      cases heq
      exact ⟨true, hbs⟩
    · cases h
  obtain ⟨lenient, hloop⟩ := hloop
  obtain ⟨ws, hws, hle⟩ := rewrites_ownedBatches hloop hplain
  have hencodes : List.Forall₂ (Encodes codecs) ws bs := hws.imp fun _ _ hw => hw.2
  refine ⟨ws.flatten, wrote_rewrites hws, length_rewrites hws hplain, hle, fun hne => ?_⟩
  have hwne : ws ≠ [] := by
    rintro rfl
    cases hencodes
    exact hne rfl
  obtain ⟨hfetch, hstrict⟩ := fromFetchBytes_v2 hencodes hwne []
  rw [List.append_nil] at hfetch hstrict
  rw [hfetch, hstrict, ownedBatches_empty, ownedBatches_empty]
  have hall : (fun later => RecordsPayload.v2 (bs ++ later)) <$> (.ok [] : Except RecordsError _) =
      .ok (.v2 bs) := by
    show Except.ok (RecordsPayload.v2 (bs ++ [])) = _
    rw [List.append_nil]
  exact ⟨hall, hall⟩

/-- What `oneRecordBatch` is read as. -/
def oneRecordPayload : RecordsPayload := .v2 [{ records := [{ value := some [42], headers := [⟨"k", none⟩] }] }]

/-- Behind a batch, a part of a batch: what is written is the batch alone. -/
theorem fetched_reencodes_cut :
    ∃ out, Wrote (oneRecordPayload.encodeTo Compression.Codecs.disabled) out ∧
      out.length = oneRecordPayload.payloadLen ∧
      out.length ≤ (oneRecordBatch ++ oneRecordBatch.take 20).length ∧
      fromBytes Compression.Codecs.disabled out = .ok oneRecordPayload := by
  have hfetched : fromFetchBytes Compression.Codecs.disabled (oneRecordBatch ++ oneRecordBatch.take 20) =
      .ok oneRecordPayload := by
    decide +kernel
  obtain ⟨out, hwrote, hpredicted, hle, hread⟩ := fetched_reencodes (Or.inr hfetched) (by decide)
  exact ⟨out, hwrote, hpredicted, hle, (hread (List.cons_ne_nil _ _)).1⟩

end Krabka.Protocol.Records
