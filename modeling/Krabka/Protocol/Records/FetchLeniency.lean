import Krabka.Protocol.Records.FetchFlavours

/-!
# `Protocol.Records.FetchLeniency` — what a response's records field is forgiven

Both readers of a records field take its batches one after the other. Behind whole batches there may be a
part of one more, or a batch that is all there and wrong. `from_fetch_bytes` drops the part and
`from_bytes` refuses it; the wrong batch neither takes (`fetch_forgives_truncation_only`).
-/

namespace Krabka.Protocol.Records

open ByteStream Results

variable {codecs : Compression.Codecs}

/-- `w` is the bytes of one valid batch, which is `b`. -/
def Encodes [CrcFast] (codecs : Compression.Codecs) (w : Bytes) (b : RecordBatch) : Prop :=
  decodeBatch codecs w = (.ok b, [])

/-- `c` has a header and all of the body that it declares. -/
structure Complete (c : Bytes) (hdr : RecordBatchHeader) (raw : Bytes) : Prop where
  header : RecordBatchHeader.refFromBytes (c.take headerLen) = some hdr
  length : declaredBodyLen hdr.batchLength = some raw.length
  body : c.drop headerLen = raw

/-- What can be wrong with a batch that is all there. -/
inductive Damaged [CrcFast] (codecs : Compression.Codecs) (c : Bytes) (hdr : RecordBatchHeader) (raw : Bytes) : Prop
  | magic (h : hdr.magic ≠ 2)
  | crc (h : crc32c (slice (c.take headerLen) crcCoverageStart (headerLen - crcCoverageStart) ++ raw) ≠
      hdr.crc)
  /-- The body does not decompress. -/
  | compressedBody {e : RecordsError} (h : inflate codecs .default hdr raw = .error e)
  | recordCount (h : hdr.recordsCount.toInt < 0)
  /-- A record is malformed, or the count does not say how many there are. -/
  | records {body : Bytes} (hbody : inflate codecs .default hdr raw = .ok body)
      (h : ∀ records, recordLoop hdr.recordsCount.toInt.toNat body ≠ .ok (records, []))

/-! ## Rounds of the loop

The fuel is the length of the field, and every batch takes its header. -/

/-- **The loop makes progress.** It is over before the fuel is: with more fuel it does the same. -/
theorem ownedBatches_fuel [CrcFast] {lenient : Bool} {fuel fuel' : Nat} {cur : Bytes} (h : cur.length ≤ fuel)
    (h' : cur.length ≤ fuel') :
    ownedBatches codecs lenient fuel cur = ownedBatches codecs lenient fuel' cur := by
  induction fuel generalizing fuel' cur with
  | zero =>
    cases List.length_eq_zero_iff.mp (Nat.le_zero.mp h)
    rw [ownedBatches_empty, ownedBatches_empty]
  | succ fuel ih =>
    by_cases hne : cur = []
    · subst hne
      rw [ownedBatches_empty, ownedBatches_empty]
    · have hpos := List.length_pos_of_ne_nil hne
      obtain ⟨fuel', rfl⟩ : ∃ n, fuel' = n + 1 := ⟨fuel' - 1, by omega⟩
      rcases hdec : decodeBatch codecs cur with ⟨e | b, rest⟩
      · obtain ⟨hfail, hcut⟩ := @ownedBatches_error codecs _ lenient fuel cur rest e hne hdec
        obtain ⟨hfail', hcut'⟩ := @ownedBatches_error codecs _ lenient fuel' cur rest e hne hdec
        by_cases hc : lenient = false ∨ Corrupt e
        · rw [hfail hc, hfail' hc]
        · have hc' : lenient = true ∧ ¬Corrupt e := by
            rw [not_or, Bool.not_eq_false] at hc
            exact hc
          rw [hcut hc', hcut' hc']
      · have hlt := length_lt_of_decodeBatch hdec
        rw [ownedBatches_ok hdec, ownedBatches_ok hdec, @ih fuel' rest (by omega) (by omega)]

/-! ## Whole batches in front

They are read one by one, whatever follows them. -/

/-- A batch is read in front of anything. -/
theorem Encodes.append [CrcFast] {w : Bytes} {b : RecordBatch} (h : Encodes codecs w b) (tail : Bytes) :
    decodeBatch codecs (w ++ tail) = (.ok b, tail) := by
  obtain ⟨hdr, raw, hf, hwhole, hread⟩ := decodeBatch_eq_ok.mp h
  refine decodeBatch_eq_ok.mpr ⟨hdr, raw, ?_, hwhole, hread⟩
  have htake : (w ++ tail).take headerLen = w.take headerLen := List.take_append_of_le_length hf.le_length
  refine ⟨htake ▸ hf.header, hf.magic, hf.length, ?_, htake ▸ hf.crc⟩
  rw [List.drop_append_of_le_length hf.le_length, hf.split, List.append_nil]

/-- The loop reads whole batches and goes on behind them. -/
theorem ownedBatches_append [CrcFast] {lenient : Bool} {ws : List Bytes} {bs : List RecordBatch}
    (h : List.Forall₂ (Encodes codecs) ws bs) (tail : Bytes) :
    ownedBatches codecs lenient (ws.flatten ++ tail).length (ws.flatten ++ tail) =
      (bs ++ ·) <$> ownedBatches codecs lenient tail.length tail := by
  induction h with
  | nil =>
    rw [List.flatten_nil, List.nil_append]
    exact (id_map _).symm
  | @cons w b ws bs hw hws ih =>
    rw [List.flatten_cons, List.append_assoc]
    have hdec := hw.append (ws.flatten ++ tail)
    have hlt := length_lt_of_decodeBatch hdec
    obtain ⟨fuel, hfuel⟩ : ∃ n, (w ++ (ws.flatten ++ tail)).length = n + 1 :=
      ⟨(w ++ (ws.flatten ++ tail)).length - 1, by omega⟩
    rw [hfuel, ownedBatches_ok hdec, ownedBatches_fuel (by omega) le_rfl, ih, Functor.map_map]
    rfl

theorem magic_byte {x : UInt8} (h : i8OfBE [x] = 2) : x = 2 := by
  have hx : WireInt.ofBE [x] = x.toNat := by simp [WireInt.ofBE]
  unfold i8OfBE at h
  rw [hx] at h
  have hbits := congrArg Int8.toBitVec h
  have hnat := congrArg BitVec.toNat hbits
  rw [Int8.toBitVec_ofBitVec, BitVec.toNat_ofNat, Nat.mod_eq_of_lt x.toNat_lt] at hnat
  exact UInt8.toNat_inj.mp hnat

/-- A field whose first batch is valid is read as v2. -/
theorem looksLikeV2_of_encodes [CrcFast] {w : Bytes} {b : RecordBatch} (h : Encodes codecs w b) (tail : Bytes) :
    looksLikeV2 (w ++ tail) = true := by
  obtain ⟨hdr, raw, hf, -⟩ := decodeBatch_eq_ok.mp h
  have hlen : 61 ≤ w.length := hf.le_length
  have hhdr := hf.header
  have hmagic := hf.magic
  have hget : (w ++ tail)[16]? = some w[16] := by
    rw [List.getElem?_append_left (by omega), List.getElem?_eq_getElem (by omega)]
  have hslice : slice (w.take headerLen) 16 1 = [w[16]] := by
    unfold slice headerLen
    rw [List.drop_take, List.take_take, List.drop_eq_getElem_cons (by omega)]
    rfl
  unfold RecordBatchHeader.refFromBytes at hhdr
  split at hhdr
  · cases hhdr
    rw [hslice] at hmagic
    rw [looksLikeV2, hget, magic_byte hmagic]
    rfl
  · cases hhdr

/-! ## What is behind them

A proper prefix of a batch is too short for its header or for its body. A damaged batch has all its bytes. -/

/-- A proper part of a valid batch is cut short. -/
theorem cutShort_of_properPrefix [CrcFast] {v p : Bytes} {b : RecordBatch} (h : Encodes codecs v b) (hp : p <+: v)
    (hproper : p ≠ v) (hne : p ≠ []) : CutShort p := by
  obtain ⟨hdr, raw, hf, -⟩ := decodeBatch_eq_ok.mp h
  obtain ⟨t, rfl⟩ := hp
  have ht : t ≠ [] := by
    rintro rfl
    exact hproper (List.append_nil p).symm
  refine ⟨hne, ?_⟩
  by_cases hshort : p.length < headerLen
  · exact Or.inl hshort
  · have hle : headerLen ≤ p.length := Nat.not_lt.mp hshort
    refine Or.inr ⟨hdr, raw.length, ?_, hf.magic, hf.length, ?_⟩
    · rw [← hf.header, List.take_append_of_le_length hle]
    · have hlen := congrArg List.length hf.split
      have hpos := List.length_pos_of_ne_nil ht
      simp only [List.length_drop, List.length_append, List.length_nil] at hlen ⊢
      omega

/-- A batch that is cut short gives an error that says so. -/
theorem CutShort.decodeBatch_error [CrcFast] {buf : Bytes} (h : CutShort buf) :
    ∃ e rest, decodeBatch codecs buf = (.error e, rest) ∧ ¬Corrupt e := by
  rcases hdec : decodeBatch codecs buf with ⟨e | b, rest⟩
  · exact ⟨e, rest, rfl, (cutShort_iff h.1 hdec).mp h⟩
  · obtain ⟨hdr, raw, hf, -⟩ := decodeBatch_eq_ok.mp hdec
    exact absurd h (not_cutShort_of_framed hf)

theorem Complete.header_append {c raw : Bytes} {hdr : RecordBatchHeader} (h : Complete c hdr raw)
    (tail : Bytes) : headerLen ≤ c.length ∧ (c ++ tail).take headerLen = c.take headerLen ∧
      (c ++ tail).drop headerLen = raw ++ tail := by
  have hlen := RecordBatchHeader.length_of_refFromBytes h.header
  rw [List.length_take] at hlen
  have hle : headerLen ≤ c.length := by omega
  refine ⟨hle, List.take_append_of_le_length hle, ?_⟩
  rw [List.drop_append_of_le_length hle, h.body]

/-- **A batch that is all there and wrong is corrupt, whatever follows it.** -/
theorem Damaged.decodeBatch_error [CrcFast] {c raw : Bytes} {hdr : RecordBatchHeader} (hc : Complete c hdr raw)
    (hd : Damaged codecs c hdr raw) (tail : Bytes) :
    ∃ e rest, decodeBatch codecs (c ++ tail) = (.error e, rest) ∧ Corrupt e := by
  obtain ⟨hle, htake, hdrop⟩ := hc.header_append tail
  have hhdr : RecordBatchHeader.refFromBytes ((c ++ tail).take headerLen) = some hdr := htake ▸ hc.header
  have hlong : ¬(c ++ tail).length < headerLen := by
    rw [List.length_append]
    omega
  rcases hdec : decodeBatch codecs (c ++ tail) with ⟨e | b, rest⟩
  · refine ⟨e, rest, rfl, ?_⟩
    have hne : c ++ tail ≠ [] := by
      intro hnil
      rw [hnil] at hlong
      exact hlong (by decide)
    by_contra hnot
    -- it is not cut short, since its body is there
    obtain ⟨-, n, hn, hless⟩ := (cutShort_of_header hlong hhdr).mp ((cutShort_iff hne hdec).mpr hnot)
    cases hn.symm.trans hc.length
    rw [hdrop, List.length_append] at hless
    omega
  · exfalso
    obtain ⟨hdr', raw', hf, ⟨hcount, records, hread⟩, -⟩ := decodeBatch_eq_ok.mp hdec
    cases hhdr.symm.trans hf.header
    have hraw : raw'.length = raw.length := Option.some.inj (hf.length.symm.trans hc.length)
    obtain ⟨rfl, -⟩ := List.append_inj (hf.split.symm.trans hdrop) hraw
    obtain ⟨body, hinf, hloop⟩ := bind_eq_ok.mp hread
    cases hd with
    | magic h => exact h hf.magic
    | crc h => exact h (htake ▸ hf.crc)
    | compressedBody h => cases hinf.symm.trans h
    | recordCount h => exact absurd hcount (not_le.mpr h)
    | records hbody h =>
      cases hinf.symm.trans hbody
      have hmax : max hdr.recordsCount.toInt 0 = hdr.recordsCount.toInt := max_eq_left hcount
      rw [hmax] at hloop
      exact h records hloop

/-! ## The two readers

Both run the same loop, so they differ only in the answer to a batch that is too short. -/

theorem fromFetchBytes_v2 [CrcFast] {ws : List Bytes} {bs : List RecordBatch}
    (h : List.Forall₂ (Encodes codecs) ws bs) (hws : ws ≠ []) (tail : Bytes) :
    fromFetchBytes codecs (ws.flatten ++ tail) =
        (fun later => .v2 (bs ++ later)) <$> ownedBatches codecs true tail.length tail ∧
      fromBytes codecs (ws.flatten ++ tail) =
        (fun later => .v2 (bs ++ later)) <$> ownedBatches codecs false tail.length tail := by
  have hv2 : looksLikeV2 (ws.flatten ++ tail) = true := by
    cases h with
    | nil => exact absurd rfl hws
    | cons hw hws =>
      rw [List.flatten_cons, List.append_assoc]
      exact looksLikeV2_of_encodes hw _
  constructor
  · rw [fromFetchBytes, if_pos hv2, ownedBatches_append h, Functor.map_map]
  · rw [fromBytes, if_pos hv2, ownedBatches_append h, Functor.map_map]

/-- **Fetch leniency forgives truncation and nothing else.** Behind one or more valid batches, a proper part
of another valid batch is dropped by `from_fetch_bytes` and, unless it is empty, refused by `from_bytes`.
A batch that is all there and wrong is refused by both, whatever follows it. -/
theorem fetch_forgives_truncation_only [CrcFast] (codecs : Compression.Codecs) {ws : List Bytes}
    {bs : List RecordBatch} (h : List.Forall₂ (Encodes codecs) ws bs) (hws : ws ≠ []) :
    (∀ v b p, Encodes codecs v b → p <+: v → p ≠ v →
      fromFetchBytes codecs (ws.flatten ++ p) = .ok (.v2 bs) ∧
      (p = [] → fromBytes codecs (ws.flatten ++ p) = .ok (.v2 bs)) ∧
      (p ≠ [] → ∃ e, fromBytes codecs (ws.flatten ++ p) = .error e)) ∧
    ∀ c hdr raw tail, Complete c hdr raw → Damaged codecs c hdr raw →
      (∃ e, fromFetchBytes codecs (ws.flatten ++ (c ++ tail)) = .error e) ∧
      ∃ e, fromBytes codecs (ws.flatten ++ (c ++ tail)) = .error e := by
  have hnone : (fun later => RecordsPayload.v2 (bs ++ later)) <$> (.ok [] : Except RecordsError _) =
      .ok (.v2 bs) := by
    show Except.ok (RecordsPayload.v2 (bs ++ [])) = _
    rw [List.append_nil]
  constructor
  · intro v b p hv hp hproper
    obtain ⟨hfetch, hstrict⟩ := fromFetchBytes_v2 h hws p
    rw [hfetch, hstrict]
    by_cases hne : p = []
    · subst hne
      rw [ownedBatches_empty, ownedBatches_empty]
      exact ⟨hnone, fun _ => hnone, fun hne => absurd rfl hne⟩
    · obtain ⟨e, rest, hdec, hcut⟩ : ∃ e rest, Records.decodeBatch codecs p = (.error e, rest) ∧ _ :=
        (cutShort_of_properPrefix hv hp hproper hne).decodeBatch_error
      have hpos := List.length_pos_of_ne_nil hne
      obtain ⟨n, hn⟩ : ∃ n, p.length = n + 1 := ⟨p.length - 1, by omega⟩
      rw [hn, (ownedBatches_error hne hdec).2 ⟨rfl, hcut⟩, (ownedBatches_error hne hdec).1 (Or.inl rfl)]
      exact ⟨hnone, fun hnil => absurd hnil hne, fun _ => ⟨e, rfl⟩⟩
  · intro c hdr raw tail hc hd
    obtain ⟨hfetch, hstrict⟩ := fromFetchBytes_v2 h hws (c ++ tail)
    obtain ⟨e, rest, hdec, hcorrupt⟩ := hd.decodeBatch_error hc tail
    have hlong := (hc.header_append tail).1
    have hne : c ++ tail ≠ [] := by
      intro hnil
      have hlen := congrArg List.length hnil
      rw [List.length_append, List.length_nil] at hlen
      unfold headerLen at hlong
      omega
    have hpos := List.length_pos_of_ne_nil hne
    obtain ⟨n, hn⟩ : ∃ n, (c ++ tail).length = n + 1 := ⟨(c ++ tail).length - 1, by omega⟩
    rw [hfetch, hstrict, hn, (ownedBatches_error hne hdec).1 (Or.inr hcorrupt),
      (ownedBatches_error hne hdec).1 (Or.inr hcorrupt)]
    exact ⟨⟨e, rfl⟩, e, rfl⟩

/-- The batch of `oneRecordBatch` with the last byte of its record changed. -/
def damagedBatch : Bytes := oneRecordBatch.dropLast ++ [0]

/-- Behind a batch, a part of a batch and a batch with a wrong CRC. -/
theorem fetch_forgives_cut_oneRecordBatch :
    fromFetchBytes Compression.Codecs.disabled (oneRecordBatch ++ oneRecordBatch.take 20) =
        .ok (.v2 [{ records := [{ value := some [42], headers := [⟨"k", none⟩] }] }]) ∧
      (∃ e, fromBytes Compression.Codecs.disabled (oneRecordBatch ++ oneRecordBatch.take 20) = .error e) ∧
      ∃ e, fromFetchBytes Compression.Codecs.disabled (oneRecordBatch ++ (damagedBatch ++ [7])) =
        .error e := by
  have hone : Encodes Compression.Codecs.disabled oneRecordBatch
      { records := [{ value := some [42], headers := [⟨"k", none⟩] }] } := by
    unfold Encodes
    decide +kernel
  obtain ⟨hcut, hdamaged⟩ := fetch_forgives_truncation_only Compression.Codecs.disabled
    (.cons hone .nil) (List.cons_ne_nil oneRecordBatch [])
  obtain ⟨hfetch, -, hstrict⟩ := hcut oneRecordBatch _ (oneRecordBatch.take 20) hone
    (List.take_prefix _ _) (by decide)
  have hcomplete : Complete damagedBatch
      ((RecordBatchHeader.refFromBytes (damagedBatch.take headerLen)).get (by decide))
      (damagedBatch.drop headerLen) :=
    ⟨(Option.some_get _).symm, by decide +kernel, rfl⟩
  obtain ⟨hfetch', -⟩ := hdamaged damagedBatch _ _ [7] hcomplete (.crc (by decide +kernel))
  exact ⟨hfetch, hstrict (by decide), hfetch'⟩

end Krabka.Protocol.Records
