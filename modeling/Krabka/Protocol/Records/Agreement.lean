import Krabka.Lib.Results
import Krabka.Protocol.Records.Fragmentation

/-!
# `Protocol.Records.Agreement` — three readers of one batch

The owned reader, the borrowed reader and the produce fast path find the batch at the start of a buffer in
the same way. `Framed` says what they all found: a header, a body of the declared length with the right
CRC, and the rest. What each reader does with a framed batch is then a statement about `inflate` and the
record loop, and the readers are compared there.
-/

namespace Krabka.Protocol.Records

open ByteStream Reader Krabka.Compression

variable {codecs : Codecs} {policy : RecordDecompressionPolicy}

/-- A buffer starts with a whole v2 batch whose CRC is right. -/
structure Framed [CrcFast] (buf : Bytes) (hdr : RecordBatchHeader) (raw rest : Bytes) : Prop where
  header : RecordBatchHeader.refFromBytes (buf.take headerLen) = some hdr
  magic : hdr.magic = 2
  length : declaredBodyLen hdr.batchLength = some raw.length
  split : buf.drop headerLen = raw ++ rest
  crc : crc32c (slice (buf.take headerLen) crcCoverageStart (headerLen - crcCoverageStart) ++ raw) =
    hdr.crc

/-- The record loop of a batch. -/
def recordLoop (count : Nat) (body : Bytes) : Except RecordsError (List Record × Bytes) :=
  times (fun _ => parseOneRecord) count 0 body

/-! ## What a framed buffer is

The header says how long the body is, so a buffer is framed in one way at most. -/

/-- A header is read from just its bytes. -/
theorem RecordBatchHeader.length_of_refFromBytes {bs : Bytes} {hdr : RecordBatchHeader}
    (h : RecordBatchHeader.refFromBytes bs = some hdr) : bs.length = headerLen := by
  unfold RecordBatchHeader.refFromBytes at h
  split at h
  · assumption
  · cases h

/-- A framed batch has a whole header. -/
theorem Framed.le_length [CrcFast] {buf raw rest : Bytes} {hdr : RecordBatchHeader}
    (h : Framed buf hdr raw rest) : headerLen ≤ buf.length := by
  have := RecordBatchHeader.length_of_refFromBytes h.header
  rw [List.length_take] at this
  omega

/-- The buffer is the header, the raw body and the rest. -/
theorem Framed.length_eq [CrcFast] {buf raw rest : Bytes} {hdr : RecordBatchHeader}
    (h : Framed buf hdr raw rest) : buf.length = headerLen + raw.length + rest.length := by
  have hlen := congrArg List.length h.split
  have := h.le_length
  rw [List.length_drop, List.length_append] at hlen
  omega

/-- A buffer is framed in one way only. -/
theorem Framed.unique [CrcFast] {buf raw raw' rest rest' : Bytes} {hdr hdr' : RecordBatchHeader}
    (h : Framed buf hdr raw rest) (h' : Framed buf hdr' raw' rest') :
    hdr' = hdr ∧ raw' = raw ∧ rest' = rest := by
  have hhdr : hdr' = hdr := Option.some.inj (h'.header.symm.trans h.header)
  subst hhdr
  have hlen : raw'.length = raw.length := Option.some.inj (h'.length.symm.trans h.length)
  obtain ⟨hraw, hrest⟩ := List.append_inj (h'.split.symm.trans h.split) hlen
  exact ⟨rfl, hraw, hrest⟩

/-- The checksum covers the header from its attributes on, and the raw body. -/
theorem crcCovered_eq {buf raw rest : Bytes} (hle : headerLen ≤ buf.length)
    (hsplit : buf.drop headerLen = raw ++ rest) :
    crcCovered buf raw.length =
      .ok (slice (buf.take headerLen) crcCoverageStart (headerLen - crcCoverageStart) ++ raw) := by
  have hlen := congrArg List.length hsplit
  rw [List.length_drop, List.length_append] at hlen
  unfold crcCovered getRange
  rw [if_pos ⟨by unfold crcCoverageStart headerLen; omega, by omega⟩, slice_covered, hsplit,
    List.take_left]

/-! ## The readers on a framed buffer

Each reader is brought into one form: the buffer is framed, and what the body holds passes this and that. -/

/-- A body opens where its checksum is right and it inflates. -/
theorem openBody_eq_ok [CrcFast] {hdrBytes raw body : Bytes} {hdr : RecordBatchHeader} :
    openBody codecs policy hdrBytes hdr raw = .ok body ↔
      crc32c (slice hdrBytes crcCoverageStart (headerLen - crcCoverageStart) ++ raw) = hdr.crc ∧
      inflate codecs policy hdr raw = .ok body := by
  unfold openBody verifyCrc inflate
  simp only [Option.getD_none, crc32cAppend_crc32c]
  by_cases hcrc : crc32c (slice hdrBytes crcCoverageStart (headerLen - crcCoverageStart) ++ raw) =
      hdr.crc
  · rw [if_pos hcrc]
    simp only [hcrc, true_and]
    rfl
  · rw [if_neg hcrc]
    simp only [hcrc, false_and, iff_false]
    intro h
    cases h

/-- The header checks that every reader starts with, and what it does after them. -/
def withHeader {α : Type} (buf : Bytes) (next : RecordBatchHeader → Nat → Except RecordsError α) :
    Except RecordsError α :=
  if buf.length < headerLen then .error (.headerTooShort (headerLen - buf.length))
  else match RecordBatchHeader.refFromBytes (buf.take headerLen) with
    | none => .error .zerocopyFailure
    | some hdr =>
        if hdr.magic ≠ 2 then .error (.unsupportedMagic hdr.magic)
        else match declaredBodyLen hdr.batchLength with
          | none => .error badBatchLength
          | some bodyLen => next hdr bodyLen

/-- What a reader of the header knows when it goes on. -/
theorem withHeader_eq_ok {α : Type} {buf : Bytes} {a : α}
    {next : RecordBatchHeader → Nat → Except RecordsError α} :
    withHeader buf next = .ok a ↔
      ∃ hdr n, RecordBatchHeader.refFromBytes (buf.take headerLen) = some hdr ∧ hdr.magic = 2 ∧
        declaredBodyLen hdr.batchLength = some n ∧ next hdr n = .ok a := by
  unfold withHeader
  constructor
  · intro h
    split at h
    · cases h
    · split at h
      · cases h
      · rename_i hdr hhdr
        split at h
        · cases h
        · rename_i hmagic
          split at h
          · cases h
          · rename_i n hn
            exact ⟨hdr, n, hhdr, not_not.mp hmagic, hn, h⟩
  · rintro ⟨hdr, n, hhdr, hmagic, hn, h⟩
    have hlen := RecordBatchHeader.length_of_refFromBytes hhdr
    rw [List.length_take] at hlen
    rw [if_neg (by omega)]
    simp only [hhdr, hmagic, hn, ne_eq, not_true_eq_false, if_false]
    exact h

/-- A body of `n` bytes behind the header, as the readers cut it off. -/
theorem split_of_le {rest : Bytes} {n : Nat} (h : n ≤ rest.length) :
    ∃ raw left, rest = raw ++ left ∧ n = raw.length :=
  ⟨rest.take n, rest.drop n, (List.take_append_drop n rest).symm, by rw [List.length_take]; omega⟩

theorem getRange_left (raw rest : Bytes) : getRange (raw ++ rest) 0 raw.length = some raw := by
  unfold getRange slice
  rw [if_pos ⟨Nat.zero_le _, by rw [List.length_append]; omega⟩]
  simp

theorem le_length_of_header {buf : Bytes} {hdr : RecordBatchHeader}
    (h : RecordBatchHeader.refFromBytes (buf.take headerLen) = some hdr) :
    headerLen ≤ buf.length := by
  have := RecordBatchHeader.length_of_refFromBytes h
  rw [List.length_take] at this
  omega

/-- The zero-copy walk, as it reads the header first. -/
theorem validateOneV2Batch_eq [CrcFast] (buf : Bytes) :
    validateOneV2Batch buf = withHeader buf (fun hdr bodyLen =>
      match getRange (buf.drop headerLen) 0 bodyLen with
      | none => .error (.bodyTooShort (bodyLen - (buf.drop headerLen).length))
      | some rawBody => do
          let covered ← crcCovered buf bodyLen
          let computed := crc32c covered
          if computed ≠ hdr.crc then .error (.crcMismatch hdr.crc computed)
          else return ⟨hdr, headerLen + bodyLen, rawBody⟩) := rfl

/-- The walk accepts the framed batches. -/
theorem validateOneV2Batch_eq_ok [CrcFast] {buf : Bytes} {v : ValidatedBatch} :
    validateOneV2Batch buf = .ok v ↔
      v.totalLen = headerLen + v.rawBody.length ∧ ∃ rest, Framed buf v.header v.rawBody rest := by
  rw [validateOneV2Batch_eq, withHeader_eq_ok]
  constructor
  · rintro ⟨hdr, n, hhdr, hmagic, hn, h⟩
    by_cases hle : n ≤ (buf.drop headerLen).length
    · obtain ⟨raw, rest, hsplit, rfl⟩ := split_of_le hle
      simp only [crcCovered_eq (le_length_of_header hhdr) hsplit, hsplit, getRange_left,
        Results.ok_bind] at h
      split at h
      · cases h
      · rename_i hcrc
        cases h
        exact ⟨rfl, rest, hhdr, hmagic, hn, hsplit, not_not.mp hcrc⟩
    · have hrange : getRange (buf.drop headerLen) 0 n = none := by
        unfold getRange
        rw [if_neg (fun hc => hle hc.2)]
      simp only [hrange] at h
      cases h
  · rintro ⟨htotal, rest, hf⟩
    refine ⟨v.header, v.rawBody.length, hf.header, hf.magic, hf.length, ?_⟩
    simp only [crcCovered_eq hf.le_length hf.split, hf.split, getRange_left, Results.ok_bind, hf.crc,
      ne_eq, not_true_eq_false, if_false, ← htotal]
    rfl

/-- The borrowed decoder accepts the framed batches whose bodies open. -/
theorem decodeBorrowWithPolicy_eq_ok [CrcFast] {buf rest : Bytes} {b : BorrowedBatch} :
    decodeBorrowWithPolicy codecs policy buf = .ok (b, rest) ↔
      ∃ raw, Framed buf b.header raw rest ∧ borrowBody codecs policy b.header raw = .ok b.body := by
  have hshape : decodeBorrowWithPolicy codecs policy buf = withHeader buf (fun hdr bodyLen =>
      if (buf.drop headerLen).length < bodyLen then
        .error (.bodyTooShort (bodyLen - (buf.drop headerLen).length))
      else do
        let covered ← crcCovered buf bodyLen
        let computed := crc32c covered
        if computed ≠ hdr.crc then .error (.crcMismatch hdr.crc computed)
        else
          let body ← borrowBody codecs policy hdr ((buf.drop headerLen).take bodyLen)
          return (⟨hdr, body⟩, (buf.drop headerLen).drop bodyLen)) := rfl
  rw [hshape, withHeader_eq_ok]
  constructor
  · rintro ⟨hdr, n, hhdr, hmagic, hn, h⟩
    split at h
    · cases h
    · rename_i hle
      obtain ⟨raw, left, hsplit, rfl⟩ := split_of_le (Nat.not_lt.mp hle)
      simp only [crcCovered_eq (le_length_of_header hhdr) hsplit, hsplit, List.take_left,
        List.drop_left, Results.ok_bind] at h
      split at h
      · cases h
      · rename_i hcrc
        obtain ⟨body, hbody, h⟩ := Results.bind_eq_ok.mp h
        cases h
        exact ⟨raw, ⟨hhdr, hmagic, hn, hsplit, not_not.mp hcrc⟩, hbody⟩
  · rintro ⟨raw, hf, hbody⟩
    refine ⟨b.header, raw.length, hf.header, hf.magic, hf.length, ?_⟩
    have hlen : ¬(raw ++ rest).length < raw.length := by
      rw [List.length_append]
      omega
    simp only [crcCovered_eq hf.le_length hf.split, hf.split, hlen, List.take_left, List.drop_left,
      Results.ok_bind, hf.crc, ne_eq, not_true_eq_false, if_false]
    exact Results.bind_eq_ok.mpr ⟨b.body, hbody, rfl⟩

/-- The owned decoder asks for the records as well. -/
theorem decodeContent_eq_ok [CrcFast] {buf rest : Bytes} {b : RecordBatch} :
    decodeContent codecs policy buf = (.ok b, rest) ↔
      ∃ hdr raw body records, Framed buf hdr raw rest ∧ inflate codecs policy hdr raw = .ok body ∧
        parseRecords hdr.recordsCount body = .ok records ∧ b = hdr.batch records := by
  unfold decodeContent
  constructor
  · intro h
    split at h
    · cases h
    · split at h
      · cases h
      · rename_i hdr hhdr
        split at h
        · cases h
        · rename_i hmagic
          split at h
          · cases h
          · rename_i n hn
            simp only at h
            split at h
            · cases h
            · rename_i hle
              obtain ⟨raw, left, hsplit, rfl⟩ := split_of_le (Nat.not_lt.mp hle)
              simp only [hsplit, List.take_left, List.drop_left, Prod.mk.injEq] at h
              obtain ⟨h, rfl⟩ := h
              obtain ⟨body, hbody, h⟩ := Results.bind_eq_ok.mp h
              obtain ⟨records, hrecords, h⟩ := Results.bind_eq_ok.mp h
              obtain ⟨hcrc, hinf⟩ := openBody_eq_ok.mp hbody
              exact ⟨hdr, raw, body, records, ⟨hhdr, not_not.mp hmagic, hn, hsplit, hcrc⟩, hinf,
                hrecords, (Results.pure_eq_ok.mp h).symm⟩
  · rintro ⟨hdr, raw, body, records, hf, hinf, hrecords, rfl⟩
    have hlen : ¬(raw ++ rest).length < raw.length := by
      rw [List.length_append]
      omega
    have hshort : ¬buf.length < headerLen := Nat.not_lt.mpr hf.le_length
    have hopen := openBody_eq_ok.mpr ⟨hf.crc, hinf⟩
    simp only [hshort, if_false, hf.header, hf.magic, ne_eq, not_true_eq_false, hf.length, hf.split,
      hlen, List.take_left, List.drop_left, hopen, hrecords, Results.ok_bind]
    rfl

/-- Borrowed or owned, the body holds the same bytes. -/
theorem map_bytes_borrowBody (codecs : Codecs) (policy : RecordDecompressionPolicy)
    (hdr : RecordBatchHeader) (raw : Bytes) :
    (borrowBody codecs policy hdr raw).map RecordBody.bytes = inflate codecs policy hdr raw := by
  unfold borrowBody inflate
  split
  · rfl
  · cases decompressBody codecs policy (Attributes.compression ⟨hdr.attributes⟩) raw with
    | error e => rfl
    | ok body => rfl

/-- A body is its records and nothing behind them. -/
theorem parseRecords_eq_ok {count : Int32} {body : Bytes} {records : List Record} :
    parseRecords count body = .ok records ↔
      ∃ n, FixedWidth.usizeOfI32 count = some n ∧ recordLoop n body = .ok (records, []) := by
  have hloop : ∀ n left, times (fun i => mapErr (recordError i) parseOneRecord) n 0 body =
      .ok (records, left) ↔ recordLoop n body = .ok (records, left) :=
    fun n left => times_congr (fun i bs a mid => mapErr_eq_ok)
  unfold parseRecords
  cases hn : FixedWidth.usizeOfI32 count with
  | none =>
      constructor
      · intro h; cases h
      · rintro ⟨n, hn, -⟩; cases hn
  | some n =>
      simp only [Option.some.injEq, exists_eq_left']
      rw [Results.bind_eq_ok]
      constructor
      · rintro ⟨⟨rs, left⟩, hrs, h⟩
        simp only at h
        split at h
        · rename_i hleft
          cases Results.pure_eq_ok.mp h
          rw [List.isEmpty_iff.mp hleft] at hrs
          exact (hloop n []).mp hrs
        · cases h
      · intro h
        exact ⟨(records, []), (hloop n []).mpr h, rfl⟩

/-! ## The two header sinks

One parser serves all readers. Whether it collects the headers or counts them decides nothing about what it
accepts. -/

/-- What a sink holds after the headers `hs`. -/
def HeaderSink.after {σ : Type} (sink : HeaderSink σ) (s : σ) (hs : List RecordHeader) : σ :=
  hs.foldl sink.push s

/-- A vector keeps the headers in order. -/
theorem vecSink_after (hs : List RecordHeader) : ∀ s, vecSink.after s hs = s ++ hs := by
  induction hs with
  | nil => intro s; exact (List.append_nil s).symm
  | cons h hs ih =>
      intro s
      have hstep : vecSink.after s (h :: hs) = vecSink.after (s ++ [h]) hs := rfl
      rw [hstep, ih, List.append_assoc, List.singleton_append]

/-- Whatever the headers are pushed into, the same ones are read. -/
theorem loop_pushHeader_eq_ok {σ : Type} {sink : HeaderSink σ} {s s' : σ} {n : Nat}
    {bs rest : Bytes} :
    loop (pushHeader sink) n 0 s bs = .ok (s', rest) ↔
      ∃ hs, times parseHeader n 0 bs = .ok (hs, rest) ∧ s' = sink.after s hs := by
  refine loop_eq_ok (g := sink.push) ?_
  intro i t bs t' mid
  unfold pushHeader
  rw [bind_eq_ok]
  constructor
  · rintro ⟨h, m, hh, heq⟩
    cases heq
    exact ⟨h, hh, rfl⟩
  · rintro ⟨h, hh, rfl⟩
    exact ⟨h, mid, hh, rfl⟩

/-- A record's bytes behind their number, read by `d` to their end. Both parsers frame a record so, with
    the same errors. -/
def delimited {α : Type} (d : Nat → Reader RecordsError α) : Reader RecordsError α := do
  let len ← field "record length" getVarlong
  match FixedWidth.usizeOfI64 len with
  | none =>
      throw (.recordParse ("record length negative or too large: " ++ toString len.toInt))
  | some bodyLen => do
      let body ← take bodyLen .bodyTooShort
      let (r, left) ← inside body (d bodyLen)
      if left.isEmpty then return r
      else throw (.recordParse
        ("trailing bytes inside record (left=" ++ toString left.length ++ ")"))

/-- A delimited value takes up just the length in front of it. -/
theorem delimited_eq_ok {α : Type} {d : Nat → Reader RecordsError α} {bs rest : Bytes} {a : α} :
    delimited d bs = .ok (a, rest) ↔
      ∃ len body, field "record length" getVarlong bs = .ok (len, body ++ rest) ∧
        FixedWidth.usizeOfI64 len = some body.length ∧ d body.length body = .ok (a, []) := by
  unfold delimited
  rw [bind_eq_ok]
  constructor
  · rintro ⟨len, mid, hlen, h⟩
    cases hn : FixedWidth.usizeOfI64 len with
    | none => simp [hn] at h
    | some n =>
        simp only [hn, bind_eq_ok, Prod.exists] at h
        obtain ⟨body, mid', htake, a', left, mid'', hin, h⟩ := h
        obtain ⟨rfl, rfl⟩ := take_eq_ok.mp htake
        obtain ⟨hbody, rfl⟩ := inside_eq_ok.mp hin
        split at h
        · rename_i hleft
          cases h
          rw [List.isEmpty_iff.mp hleft] at hbody
          exact ⟨len, body, hlen, hn, hbody⟩
        · cases h
  · rintro ⟨len, body, hlen, hn, hbody⟩
    refine ⟨len, body ++ rest, hlen, ?_⟩
    simp only [hn, bind_eq_ok, Prod.exists]
    exact ⟨body, rest, take_eq_ok.mpr ⟨rfl, rfl⟩, a, [], rest, inside_eq_ok.mpr ⟨hbody, rfl⟩, rfl⟩

theorem parseOneRecordInto_eq_delimited {σ : Type} (sink : HeaderSink σ) (headers : σ) :
    parseOneRecordInto sink headers = delimited fun bodyLen => parseBody sink bodyLen headers := rfl

/-- A record is its length and a body of that length. -/
theorem parseOneRecordInto_eq_ok {σ : Type} {sink : HeaderSink σ} {s : σ} {bs rest : Bytes}
    {r : RecordSummary × σ} :
    parseOneRecordInto sink s bs = .ok (r, rest) ↔
      ∃ len body, field "record length" getVarlong bs = .ok (len, body ++ rest) ∧
        FixedWidth.usizeOfI64 len = some body.length ∧
        parseBody sink body.length s body = .ok (r, []) := by
  rw [parseOneRecordInto_eq_delimited]
  exact delimited_eq_ok

section Sinks

-- reserving room never changes what a sink holds
variable {σ : Type} {sink : HeaderSink σ} (hreserve : ∀ s n, sink.reserve s n = s)

include hreserve

/-- The headers of a record are counted, and then read one by one. -/
theorem parseHeaders_eq_ok {s s' : σ} {bs rest : Bytes} {n : Nat} :
    parseHeaders sink s bs = .ok ((n, s'), rest) ↔
      ∃ len mid hs, field "header_count" getVarint bs = .ok (len, mid) ∧
        FixedWidth.usizeOfI32 len = some n ∧ times parseHeader n 0 mid = .ok (hs, rest) ∧
        s' = sink.after s hs := by
  unfold parseHeaders
  rw [bind_eq_ok]
  constructor
  · rintro ⟨len, mid, hlen, h⟩
    cases hk : FixedWidth.usizeOfI32 len with
    | none => simp [hk] at h
    | some k =>
        simp only [hk, hreserve] at h
        obtain ⟨left, mid', hrem, h⟩ := bind_eq_ok.mp h
        cases hrem
        obtain ⟨t, mid', hloop, h⟩ := bind_eq_ok.mp h
        cases h
        obtain ⟨hs, hhs, rfl⟩ := loop_pushHeader_eq_ok.mp hloop
        exact ⟨len, mid, hs, hlen, hk, hhs, rfl⟩
  · rintro ⟨len, mid, hs, hlen, hk, hhs, rfl⟩
    refine ⟨len, mid, hlen, ?_⟩
    simp only [hk, hreserve]
    have hrem : (remaining : Reader RecordsError Nat) mid = .ok (mid.length, mid) := rfl
    rw [bind_of_ok hrem, bind_of_ok (loop_pushHeader_eq_ok.mpr ⟨hs, hhs, rfl⟩)]
    rfl

/-- Any sink is handed the headers that a `Vec` collects. -/
theorem parseHeaders_eq_vec {s s' : σ} {bs rest : Bytes} {n : Nat} :
    parseHeaders sink s bs = .ok ((n, s'), rest) ↔
      ∃ hs, parseHeaders vecSink [] bs = .ok ((n, hs), rest) ∧ s' = sink.after s hs := by
  rw [parseHeaders_eq_ok hreserve]
  constructor
  · rintro ⟨len, mid, hs, hlen, hk, hhs, rfl⟩
    refine ⟨hs, (parseHeaders_eq_ok (fun _ _ => rfl)).mpr ?_, rfl⟩
    exact ⟨len, mid, hs, hlen, hk, hhs, by rw [vecSink_after, List.nil_append]⟩
  · rintro ⟨hs, hvec, rfl⟩
    obtain ⟨len, mid, hs', hlen, hk, hhs, hafter⟩ := (parseHeaders_eq_ok (fun _ _ => rfl)).mp hvec
    rw [vecSink_after, List.nil_append] at hafter
    exact ⟨len, mid, hs, hlen, hk, hafter ▸ hhs, rfl⟩

/-- The body of a record does not depend on what its headers are pushed into. -/
theorem parseBody_eq_vec {s s' : σ} {bs rest : Bytes} {bodyLen : Nat} {sm : RecordSummary} :
    parseBody sink bodyLen s bs = .ok ((sm, s'), rest) ↔
      ∃ hs, parseBody vecSink bodyLen [] bs = .ok ((sm, hs), rest) ∧ s' = sink.after s hs := by
  unfold parseBody
  simp only [bind_eq_ok, Prod.exists, parseHeaders_eq_vec hreserve]
  constructor
  · rintro ⟨a, m₁, ha, ts, m₂, hts, od, m₃, hod, key, m₄, hkey, value, m₅, hvalue, n, t, m₆,
      ⟨hs, hhs, rfl⟩, h⟩
    cases h
    exact ⟨hs, ⟨a, m₁, ha, ts, m₂, hts, od, m₃, hod, key, m₄, hkey, value, m₅, hvalue, n, hs, _,
      hhs, rfl⟩, rfl⟩
  · rintro ⟨hs, ⟨a, m₁, ha, ts, m₂, hts, od, m₃, hod, key, m₄, hkey, value, m₅, hvalue, n, hs', m₆,
      hhs, h⟩, rfl⟩
    cases h
    exact ⟨a, m₁, ha, ts, m₂, hts, od, m₃, hod, key, m₄, hkey, value, m₅, hvalue, n, _, _,
      ⟨hs, hhs, rfl⟩, rfl⟩

/-- **One record, whichever sink.** -/
theorem parseOneRecordInto_eq_vec {s s' : σ} {bs rest : Bytes} {sm : RecordSummary} :
    parseOneRecordInto sink s bs = .ok ((sm, s'), rest) ↔
      ∃ hs, parseOneRecordInto vecSink [] bs = .ok ((sm, hs), rest) ∧ s' = sink.after s hs := by
  simp only [parseOneRecordInto_eq_ok, parseBody_eq_vec hreserve]
  constructor
  · rintro ⟨len, body, hlen, hn, hs, hvec, rfl⟩
    exact ⟨hs, ⟨len, body, hlen, hn, hvec⟩, rfl⟩
  · rintro ⟨hs, ⟨len, body, hlen, hn, hvec⟩, rfl⟩
    exact ⟨len, body, hlen, hn, hs, hvec, rfl⟩

end Sinks

/-- A collected record has as many headers as its summary counts. -/
theorem headerCount_eq_length {bs rest : Bytes} {sm : RecordSummary} {hs : List RecordHeader}
    (h : parseOneRecordInto vecSink [] bs = .ok ((sm, hs), rest)) : sm.headerCount = hs.length := by
  obtain ⟨len, body, -, -, hbody⟩ := parseOneRecordInto_eq_ok.mp h
  unfold parseBody at hbody
  simp only [bind_eq_ok, Prod.exists] at hbody
  obtain ⟨a, m₁, -, ts, m₂, -, od, m₃, -, key, m₄, -, value, m₅, -, n, hs', m₆, hheaders, hret⟩ :=
    hbody
  cases hret
  obtain ⟨-, mid, hs', -, -, htimes, hafter⟩ := (parseHeaders_eq_ok (fun _ _ => rfl)).mp hheaders
  rw [vecSink_after, List.nil_append] at hafter
  rw [hafter, length_of_times htimes]

/-! ## The record walks of the fast path

The loops of the three readers over the records of a body, as the same number of rounds. -/

/-- The owned record is the summary with its headers. -/
theorem parseOneRecord_eq_ok {bs rest : Bytes} {r : Record} :
    parseOneRecord bs = .ok (r, rest) ↔
      ∃ p, parseOneRecordInto vecSink [] bs = .ok (p, rest) ∧ r = p.1.withHeaders p.2 := by
  unfold parseOneRecord
  rw [bind_eq_ok]
  constructor
  · rintro ⟨p, mid, hp, h⟩
    cases h
    exact ⟨p, hp, rfl⟩
  · rintro ⟨p, hp, rfl⟩
    exact ⟨p, rest, hp, rfl⟩

/-- The records of a body are what the collecting parser reads. -/
theorem recordLoop_eq_ok {n : Nat} {body left : Bytes} {records : List Record} :
    recordLoop n body = .ok (records, left) ↔
      ∃ ps, times (fun _ => parseOneRecordInto vecSink []) n 0 body = .ok (ps, left) ∧
        records = ps.map (fun p => p.1.withHeaders p.2) :=
  times_map (fun _ _ _ _ => parseOneRecord_eq_ok)

variable {σ : Type}

/-- The walk over the records inflates the body and parses each in turn. -/
theorem walkRecords_eq_ok {v : ValidatedBatch} {parse : σ → Reader RecordsError σ} {s s' : σ} :
    v.walkRecords codecs policy parse s = .ok s' ↔
      ∃ n body, FixedWidth.usizeOfI32 v.header.recordsCount = some n ∧
        inflate codecs policy v.header v.rawBody = .ok body ∧
        loop (fun i s => mapErr (recordError i) (parse s)) n 0 s body = .ok (s', []) := by
  unfold ValidatedBatch.walkRecords
  cases hn : FixedWidth.usizeOfI32 v.header.recordsCount with
  | none =>
      constructor
      · intro h; cases h
      · rintro ⟨n, body, hn, -⟩; cases hn
  | some n =>
      simp only [Option.some.injEq, exists_and_left, exists_eq_left']
      rw [Results.bind_eq_ok]
      constructor
      · rintro ⟨body, hbody, h⟩
        obtain ⟨⟨t, left⟩, hloop, h⟩ := Results.bind_eq_ok.mp h
        simp only at h
        split at h
        · rename_i hleft
          cases Results.pure_eq_ok.mp h
          rw [List.isEmpty_iff.mp hleft] at hloop
          exact ⟨body, hbody, hloop⟩
        · cases h
      · rintro ⟨body, hbody, hloop⟩
        refine ⟨body, hbody, ?_⟩
        rw [hloop]
        rfl

/-- The collecting walk hands its visitor the records of the body. -/
theorem validateRecordsWith_eq_ok {v : ValidatedBatch} {visit : σ → Record → σ} {s s' : σ} :
    v.validateRecordsWith codecs policy visit s = .ok s' ↔
      ∃ n body records, FixedWidth.usizeOfI32 v.header.recordsCount = some n ∧
        inflate codecs policy v.header v.rawBody = .ok body ∧
        recordLoop n body = .ok (records, []) ∧ s' = records.foldl visit s := by
  unfold ValidatedBatch.validateRecordsWith
  rw [walkRecords_eq_ok]
  have hstep : ∀ i s bs s' mid,
      mapErr (recordError i) (do let r ← parseOneRecord; return visit s r) bs = .ok (s', mid) ↔
        ∃ r, parseOneRecord bs = .ok (r, mid) ∧ s' = visit s r := by
    intro i s bs s' mid
    rw [mapErr_eq_ok, bind_eq_ok]
    constructor
    · rintro ⟨r, m, hr, h⟩
      cases h
      exact ⟨r, hr, rfl⟩
    · rintro ⟨r, hr, rfl⟩
      exact ⟨r, mid, hr, rfl⟩
  constructor
  · rintro ⟨n, body, hn, hbody, hloop⟩
    obtain ⟨records, hrecords, rfl⟩ := (loop_eq_ok hstep).mp hloop
    exact ⟨n, body, records, hn, hbody, hrecords, rfl⟩
  · rintro ⟨n, body, records, hn, hbody, hrecords, rfl⟩
    exact ⟨n, body, hn, hbody, (loop_eq_ok hstep).mpr ⟨records, hrecords, rfl⟩⟩

/-- One round of the summaries' walk. -/
theorem summaryStep_eq_ok {visit : σ → RecordSummary → σ} {i : Nat} {s : σ} {bs : Bytes} {s' : σ}
    {mid : Bytes} :
    mapErr (recordError i) (do
        let (r, _) ← parseOneRecordInto skipHeaders ()
        return visit s r) bs = .ok (s', mid) ↔
      ∃ p : RecordSummary × List RecordHeader,
        parseOneRecordInto vecSink [] bs = .ok (p, mid) ∧ s' = visit s p.1 := by
  rw [mapErr_eq_ok, bind_eq_ok]
  constructor
  · rintro ⟨⟨sm, u⟩, m, hr, h⟩
    cases h
    obtain ⟨hs, hvec, -⟩ := (parseOneRecordInto_eq_vec (fun _ _ => rfl)).mp hr
    exact ⟨(sm, hs), hvec, rfl⟩
  · rintro ⟨⟨sm, hs⟩, hvec, rfl⟩
    exact ⟨(sm, ()), mid, (parseOneRecordInto_eq_vec (fun _ _ => rfl)).mpr ⟨hs, hvec, rfl⟩, rfl⟩

/-- The summary walk hands its visitor the summaries of the same records. -/
theorem validateRecordSummariesWith_eq_ok {v : ValidatedBatch} {visit : σ → RecordSummary → σ}
    {s s' : σ} :
    v.validateRecordSummariesWith codecs policy visit s = .ok s' ↔
      ∃ n body ps, FixedWidth.usizeOfI32 v.header.recordsCount = some n ∧
        inflate codecs policy v.header v.rawBody = .ok body ∧
        times (fun _ => parseOneRecordInto vecSink []) n 0 body = .ok (ps, []) ∧
        s' = (ps.map Prod.fst).foldl visit s := by
  unfold ValidatedBatch.validateRecordSummariesWith
  rw [walkRecords_eq_ok]
  have hstep := fun i s bs s' mid => @summaryStep_eq_ok σ visit i s bs s' mid
  constructor
  · rintro ⟨n, body, hn, hbody, hloop⟩
    obtain ⟨ps, hps, rfl⟩ := (loop_eq_ok (α := RecordSummary × List RecordHeader)
      (g := fun s p => visit s p.1) hstep).mp hloop
    exact ⟨n, body, ps, hn, hbody, hps, by rw [List.foldl_map]⟩
  · rintro ⟨n, body, ps, hn, hbody, hps, rfl⟩
    refine ⟨n, body, hn, hbody, ?_⟩
    exact (loop_eq_ok (g := fun s p => visit s p.1) hstep).mpr ⟨ps, hps, by rw [List.foldl_map]⟩

/-! ## Fast path and owned reader

What the one validates the other decodes, with summaries of the same records. -/

/-- `sm` describes `r`, its headers counted. -/
structure RecordSummary.Summarizes (sm : RecordSummary) (r : Record) : Prop where
  attributes : sm.attributes = r.attributes
  timestampDelta : sm.timestampDelta = r.timestampDelta
  offsetDelta : sm.offsetDelta = r.offsetDelta
  key : sm.key = r.key
  value : sm.value = r.value
  headerCount : sm.headerCount = r.headers.length

/-- Summaries and records read by one collecting loop belong together. -/
theorem summarizes_of_times {n : Nat} {body left : Bytes}
    {ps : List (RecordSummary × List RecordHeader)}
    (h : times (fun _ => parseOneRecordInto vecSink []) n 0 body = .ok (ps, left)) :
    List.Forall₂ RecordSummary.Summarizes (ps.map Prod.fst)
      (ps.map fun p => p.1.withHeaders p.2) := by
  have hall : ∀ p ∈ ps, p.1.headerCount = p.2.length :=
    forall_of_times (fun i bs p mid hp => headerCount_eq_length hp) h
  rw [List.forall₂_map_left_iff, List.forall₂_map_right_iff, List.forall₂_same]
  intro p hp
  exact ⟨rfl, rfl, rfl, rfl, rfl, hall p hp⟩

/-- **The produce fast path accepts exactly what the owned reader accepts.** And then it has cut off the
bytes that the owned reader consumes, read the same header, and its visitors see exactly the records of
the batch, in order. -/
theorem fastPath_accepts_iff_decode [CrcFast] (codecs : Codecs) (policy : RecordDecompressionPolicy)
    (buf : Bytes) :
    ((∃ v, validateOneV2Batch buf = .ok v ∧ v.validateRecords codecs policy = .ok ()) ↔
      ∃ b, (decodeWithPolicy codecs policy buf).1 = .ok b) ∧
    ∀ v b, validateOneV2Batch buf = .ok v → (decodeWithPolicy codecs policy buf).1 = .ok b →
      v.totalLen + (decodeWithPolicy codecs policy buf).2.length = buf.length ∧
      b = v.header.batch b.records ∧
      v.header.recordsCount.toInt = b.records.length ∧
      (∀ (σ : Type) (visit : σ → Record → σ) (s : σ),
        v.validateRecordsWith codecs policy visit s = .ok (b.records.foldl visit s)) ∧
      ∃ sums, List.Forall₂ RecordSummary.Summarizes sums b.records ∧
        ∀ (σ : Type) (visit : σ → RecordSummary → σ) (s : σ),
          v.validateRecordSummariesWith codecs policy visit s = .ok (sums.foldl visit s) := by
  rw [decodeWithPolicy_slice]
  constructor
  · constructor
    · rintro ⟨v, hv, hrec⟩
      obtain ⟨-, rest, hf⟩ := validateOneV2Batch_eq_ok.mp hv
      obtain ⟨n, body, ps, hn, hbody, hps, -⟩ := validateRecordSummariesWith_eq_ok.mp hrec
      have hloop := recordLoop_eq_ok.mpr ⟨ps, hps, rfl⟩
      refine ⟨v.header.batch (ps.map fun p => p.1.withHeaders p.2), ?_⟩
      rw [decodeContent_eq_ok.mpr ⟨v.header, v.rawBody, body, _, hf, hbody,
        parseRecords_eq_ok.mpr ⟨n, hn, hloop⟩, rfl⟩]
    · rintro ⟨b, hb⟩
      obtain ⟨hdr, raw, body, records, hf, hbody, hrec, rfl⟩ := decodeContent_eq_ok.mp (Prod.ext hb rfl)
      obtain ⟨n, hn, hloop⟩ := parseRecords_eq_ok.mp hrec
      obtain ⟨ps, hps, rfl⟩ := recordLoop_eq_ok.mp hloop
      exact ⟨⟨hdr, headerLen + raw.length, raw⟩, validateOneV2Batch_eq_ok.mpr ⟨rfl, _, hf⟩,
        validateRecordSummariesWith_eq_ok.mpr ⟨n, body, ps, hn, hbody, hps, rfl⟩⟩
  · intro v b hv hb
    obtain ⟨htotal, rest, hfv⟩ := validateOneV2Batch_eq_ok.mp hv
    obtain ⟨hdr, raw, body, records, hf, hbody, hrec, rfl⟩ := decodeContent_eq_ok.mp (Prod.ext hb rfl)
    obtain ⟨rfl, rfl, rfl⟩ := hfv.unique hf
    obtain ⟨n, hn, hloop⟩ := parseRecords_eq_ok.mp hrec
    obtain ⟨ps, hps, rfl⟩ := recordLoop_eq_ok.mp hloop
    refine ⟨?_, rfl, ?_, ?_, ps.map Prod.fst, summarizes_of_times hps, ?_⟩
    · rw [htotal, hf.length_eq]
    · rw [FixedWidth.usizeOfI32_eq_some.mp hn]
      simp [RecordBatchHeader.batch, length_of_times hps]
    · intro σ visit s
      exact validateRecordsWith_eq_ok.mpr ⟨n, body, _, hn, hbody, hloop, rfl⟩
    · intro σ visit s
      exact validateRecordSummariesWith_eq_ok.mpr ⟨n, body, ps, hn, hbody, hps, rfl⟩

/-- One record with a value and a header, as a batch on the wire. -/
def oneRecordBatch : Bytes :=
  [0, 0, 0, 0, 0, 0, 0, 0, 0, 0, 0, 60, 0, 0, 0, 0, 2, 174, 188, 243, 215, 0, 0, 0, 0, 0, 0,
    0, 0, 0, 0, 0, 0, 0, 0, 0, 0, 0, 0, 0, 0, 0, 0, 255, 255, 255, 255, 255, 255, 255, 255, 255, 255,
    255, 255, 255, 255, 0, 0, 0, 1, 20, 0, 0, 0, 1, 2, 42, 2, 2, 107, 1]

theorem fastPath_accepts_oneRecordBatch :
    ∃ v, validateOneV2Batch oneRecordBatch = .ok v ∧
      v.validateRecordsWith Codecs.disabled .default (fun rs r => rs ++ [r]) [] =
        .ok [({ value := some [42], headers := [⟨"k", none⟩] } : Record)] := by
  have hb : (decodeWithPolicy Codecs.disabled .default oneRecordBatch).1 =
      .ok { records := [{ value := some [42], headers := [⟨"k", none⟩] }] } := by decide +kernel
  obtain ⟨haccepts, hsame⟩ := fastPath_accepts_iff_decode Codecs.disabled .default oneRecordBatch
  obtain ⟨v, hv, -⟩ := haccepts.mpr ⟨_, hb⟩
  obtain ⟨-, -, -, hvisit, -⟩ := hsame v _ hv hb
  exact ⟨v, hv, hvisit (List Record) (fun rs r => rs ++ [r]) []⟩

/-! ## Borrowed and owned reader

The borrowed one takes a negative count for none and does not look behind the last record, and that is the
only difference. -/

/-- `decode_borrow_with_policy` followed by `to_owned`. -/
def decodeBorrowToOwned [CrcFast] (codecs : Codecs) (policy : RecordDecompressionPolicy) :
    Reader RecordsError RecordBatch := fun buf => do
  let (b, rest) ← decodeBorrowWithPolicy codecs policy buf
  let owned ← b.toOwned
  return (owned, rest)

/-- The borrowed and the owned reader succeed alike on `buf`, with the same batch and the same rest. -/
def BorrowedAgrees [CrcFast] (codecs : Codecs) (policy : RecordDecompressionPolicy) (buf : Bytes) : Prop :=
  ∀ b rest, decodeBorrowToOwned codecs policy buf = .ok (b, rest) ↔
    decodeWithPolicy codecs policy buf = (.ok b, rest)

/-- The buffer starts with a batch that declares a negative number of records, or whose body goes on
after the declared records. -/
def UncheckedTail [CrcFast] (codecs : Codecs) (policy : RecordDecompressionPolicy) (buf : Bytes) : Prop :=
  ∃ hdr raw rest body, Framed buf hdr raw rest ∧ inflate codecs policy hdr raw = .ok body ∧
    (hdr.recordsCount.toInt < 0 ∨
      ∃ records left, recordLoop hdr.recordsCount.toInt.toNat body = .ok (records, left) ∧ left ≠ [])

/-- The borrowed decoder may leave bytes behind its records. -/
theorem decodeBorrowToOwned_eq_ok [CrcFast] {buf rest : Bytes} {b : RecordBatch} :
    decodeBorrowToOwned codecs policy buf = .ok (b, rest) ↔
      ∃ hdr raw body records left, Framed buf hdr raw rest ∧ inflate codecs policy hdr raw = .ok body ∧
        recordLoop (max hdr.recordsCount.toInt 0).toNat body = .ok (records, left) ∧
        b = hdr.batch records := by
  unfold decodeBorrowToOwned
  rw [Results.bind_eq_ok]
  constructor
  · rintro ⟨⟨bb, rest'⟩, hbb, h⟩
    obtain ⟨owned, howned, h⟩ := Results.bind_eq_ok.mp h
    cases Results.pure_eq_ok.mp h
    obtain ⟨raw, hf, hbody⟩ := decodeBorrowWithPolicy_eq_ok.mp hbb
    obtain ⟨records, hrecords, h⟩ := Results.bind_eq_ok.mp howned
    cases Results.pure_eq_ok.mp h
    obtain ⟨⟨rs, left⟩, hloop, h⟩ := Results.bind_eq_ok.mp hrecords
    cases Results.pure_eq_ok.mp h
    have hinf := map_bytes_borrowBody codecs policy bb.header raw
    rw [hbody] at hinf
    exact ⟨bb.header, raw, bb.body.bytes, records, left, hf, hinf.symm, hloop, rfl⟩
  · rintro ⟨hdr, raw, body, records, left, hf, hinf, hloop, rfl⟩
    have hmap := map_bytes_borrowBody codecs policy hdr raw
    rw [hinf] at hmap
    cases hbody : borrowBody codecs policy hdr raw with
    | error e =>
        rw [hbody] at hmap
        cases hmap
    | ok rb =>
        rw [hbody] at hmap
        have hbytes : rb.bytes = body := Except.ok.inj hmap
        refine ⟨(⟨hdr, rb⟩, rest), decodeBorrowWithPolicy_eq_ok.mpr ⟨raw, hf, hbody⟩, ?_⟩
        refine Results.bind_eq_ok.mpr ⟨hdr.batch records, ?_, rfl⟩
        refine Results.bind_eq_ok.mpr ⟨records, ?_, rfl⟩
        exact Results.bind_eq_ok.mpr ⟨(records, left), by rw [hbytes]; exact hloop, rfl⟩

/-- **The borrowed reader agrees with the owned one exactly when nothing is left unchecked.** -/
theorem borrowedAgrees_iff [CrcFast] (codecs : Codecs) (policy : RecordDecompressionPolicy) (buf : Bytes) :
    BorrowedAgrees codecs policy buf ↔ ¬UncheckedTail codecs policy buf := by
  unfold BorrowedAgrees
  simp only [decodeWithPolicy_slice]
  constructor
  · rintro hagree ⟨hdr, raw, rest, body, hf, hinf, htail⟩
    -- the borrowed reader accepts, so the owned one does, and it has checked the tail
    have howned : ∀ records left,
        recordLoop (max hdr.recordsCount.toInt 0).toNat body = .ok (records, left) →
          0 ≤ hdr.recordsCount.toInt ∧ left = [] := by
      intro records left hloop
      have hb := (hagree (hdr.batch records) rest).mp
        (decodeBorrowToOwned_eq_ok.mpr ⟨hdr, raw, body, records, left, hf, hinf, hloop, rfl⟩)
      obtain ⟨hdr', raw', body', records', hf', hinf', hrec, hbatch⟩ := decodeContent_eq_ok.mp hb
      obtain ⟨rfl, rfl, -⟩ := hf'.unique hf
      rw [hinf] at hinf'
      cases hinf'
      obtain ⟨n, hn, hl⟩ := parseRecords_eq_ok.mp hrec
      have hcount := FixedWidth.usizeOfI32_eq_some.mp hn
      have hnat : (max hdr.recordsCount.toInt 0).toNat = n := by omega
      rw [hnat, hl] at hloop
      cases hloop
      exact ⟨by omega, rfl⟩
    have hnonneg : 0 ≤ hdr.recordsCount.toInt := by
      by_contra hneg
      have hzero : (max hdr.recordsCount.toInt 0).toNat = 0 := by omega
      exact hneg (howned [] body (by rw [hzero]; rfl)).1
    rcases htail with hneg | ⟨records, left, hloop, hleft⟩
    · omega
    · have hmax : max hdr.recordsCount.toInt 0 = hdr.recordsCount.toInt := by omega
      exact hleft (howned records left (by rw [hmax]; exact hloop)).2
  · intro hclean b rest
    rw [decodeBorrowToOwned_eq_ok, decodeContent_eq_ok]
    constructor
    · rintro ⟨hdr, raw, body, records, left, hf, hinf, hloop, rfl⟩
      have hnonneg : 0 ≤ hdr.recordsCount.toInt := by
        by_contra hneg
        exact hclean ⟨hdr, raw, rest, body, hf, hinf, Or.inl (by omega)⟩
      have hmax : max hdr.recordsCount.toInt 0 = hdr.recordsCount.toInt := by omega
      rw [hmax] at hloop
      have hleft : left = [] := by
        by_contra hne
        exact hclean ⟨hdr, raw, rest, body, hf, hinf, Or.inr ⟨records, left, hloop, hne⟩⟩
      subst hleft
      refine ⟨hdr, raw, body, records, hf, hinf, parseRecords_eq_ok.mpr ⟨_, ?_, hloop⟩, rfl⟩
      rw [FixedWidth.usizeOfI32_eq_some]
      omega
    · rintro ⟨hdr, raw, body, records, hf, hinf, hrec, rfl⟩
      obtain ⟨n, hn, hloop⟩ := parseRecords_eq_ok.mp hrec
      have hcount := FixedWidth.usizeOfI32_eq_some.mp hn
      have hnat : (max hdr.recordsCount.toInt 0).toNat = n := by omega
      exact ⟨hdr, raw, body, records, [], hf, hinf, by rw [hnat]; exact hloop, rfl⟩

/-- A batch that declares no records and has one body byte, under a right CRC. -/
def trailingByteBatch : Bytes :=
  [0, 0, 0, 0, 0, 0, 0, 0, 0, 0, 0, 50, 0, 0, 0, 0, 2, 65, 198, 64, 167, 0, 0, 0, 0, 0, 0,
    0, 0, 0, 0, 0, 0, 0, 0, 0, 0, 0, 0, 0, 0, 0, 0, 255, 255, 255, 255, 255, 255, 255, 255, 255, 255,
    255, 255, 255, 255, 0, 0, 0, 0, 0]

theorem not_borrowedAgrees_trailingByte :
    ¬BorrowedAgrees Codecs.disabled .default trailingByteBatch := by
  intro hagree
  have hborrowed : decodeBorrowToOwned Codecs.disabled .default trailingByteBatch = .ok ({}, []) := by
    decide +kernel
  have howned : (decodeWithPolicy Codecs.disabled .default trailingByteBatch).1 =
      .error (.recordParse "trailing bytes after records (left=1)") := by
    decide +kernel
  rw [(hagree {} []).mp hborrowed] at howned
  cases howned

end Krabka.Protocol.Records
