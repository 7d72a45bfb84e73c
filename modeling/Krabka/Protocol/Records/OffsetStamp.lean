import Krabka.Protocol.Records.Agreement

/-!
# `Protocol.Records.OffsetStamp` — stamping a batch in place

The broker appends a produced batch as it came and writes only the assigned base offset and the leader epoch
into its header. Both lie in front of the bytes that the CRC covers, and every reader finds them where they
were written.
-/

namespace Krabka.Protocol.Records

open ByteStream Krabka.Compression

/-! ## Writing into a buffer

A copy into a range leaves every byte outside of it. -/

/-- `bs[start..start + src.len()].copy_from_slice(src)`. -/
def copyFromSlice (bs : Bytes) (start : Nat) (src : Bytes) : Bytes :=
  bs.take start ++ src ++ bs.drop (start + src.length)

section
variable {bs src : Bytes} {start : Nat}

theorem length_copyFromSlice (h : start + src.length ≤ bs.length) :
    (copyFromSlice bs start src).length = bs.length := by
  unfold copyFromSlice
  rw [List.length_append, List.length_append, List.length_take, List.length_drop]
  omega

theorem getElem?_copyFromSlice {i : Nat} (h : start + src.length ≤ bs.length)
    (hi : i < start ∨ start + src.length ≤ i) : (copyFromSlice bs start src)[i]? = bs[i]? := by
  have htake : (bs.take start).length = start := by
    rw [List.length_take]
    omega
  unfold copyFromSlice
  rw [List.append_assoc]
  rcases hi with hi | hi
  · rw [List.getElem?_append_left (by omega), List.getElem?_take_of_lt hi]
  · rw [List.getElem?_append_right (by omega), List.getElem?_append_right (by omega), List.getElem?_drop]
    congr 1
    omega

/-- Elsewhere the buffer is as it was. -/
theorem slice_copyFromSlice_of_disjoint {first n : Nat} (h : start + src.length ≤ bs.length)
    (hdisjoint : first + n ≤ start ∨ start + src.length ≤ first) :
    slice (copyFromSlice bs start src) first n = slice bs first n := by
  refine List.ext_getElem? fun i => ?_
  unfold slice
  rw [List.getElem?_take, List.getElem?_take]
  by_cases hi : i < n
  · rw [if_pos hi, if_pos hi, List.getElem?_drop, List.getElem?_drop]
    exact getElem?_copyFromSlice h (by omega)
  · rw [if_neg hi, if_neg hi]

theorem slice_copyFromSlice_self {n : Nat} (h : start + src.length ≤ bs.length) (hn : src.length = n) :
    slice (copyFromSlice bs start src) start n = src := by
  have htake : (bs.take start).length = start := by
    rw [List.length_take]
    omega
  unfold slice copyFromSlice
  rw [List.append_assoc, List.drop_left' htake, List.take_left' hn]

end

/-! ## The patch

Two ranges of the header are written. The other fields are slices that do not meet them. -/

/-- Exactly one header. -/
abbrev HeaderBytes := { bs : Bytes // bs.length = headerLen }

/-- First byte of the `base_offset` field. -/
def baseOffsetStart : Nat := 0

/-- First byte of the `partition_leader_epoch` field. -/
def leaderEpochStart : Nat := 12

theorem length_offsetWritten (buf : HeaderBytes) (baseOffset : Int64) :
    (copyFromSlice buf.1 baseOffsetStart (putI64 baseOffset)).length = 61 := by
  have hbuf : buf.1.length = 61 := buf.2
  rw [length_copyFromSlice (by rw [length_putI64, hbuf]; decide), hbuf]

def patchBaseOffsetAndLeaderEpoch (buf : HeaderBytes) (baseOffset : Int64) (leaderEpoch : Int32) :
    HeaderBytes :=
  ⟨copyFromSlice (copyFromSlice buf.1 baseOffsetStart (putI64 baseOffset)) leaderEpochStart
      (putI32 leaderEpoch), by
    have hlen := length_offsetWritten buf baseOffset
    rw [length_copyFromSlice (by rw [hlen, length_putI32]; decide), hlen, headerLen]⟩

/-- The same header with the two fields set. -/
def RecordBatchHeader.stamped (hdr : RecordBatchHeader) (baseOffset : Int64) (leaderEpoch : Int32) :
    RecordBatchHeader :=
  { hdr with baseOffset := baseOffset, partitionLeaderEpoch := leaderEpoch }

def RecordBatch.stamped (b : RecordBatch) (baseOffset : Int64) (leaderEpoch : Int32) : RecordBatch :=
  { b with baseOffset := baseOffset, partitionLeaderEpoch := leaderEpoch }

section
variable (buf : HeaderBytes) (baseOffset : Int64) (leaderEpoch : Int32)

/-- Every slice of the header that meets neither field is as it was. -/
theorem slice_patch {first n : Nat} (hoffset : 8 ≤ first) (hepoch : first + n ≤ 12 ∨ 16 ≤ first) :
    slice (patchBaseOffsetAndLeaderEpoch buf baseOffset leaderEpoch).1 first n = slice buf.1 first n := by
  have hbuf : buf.1.length = 61 := buf.2
  have hlen := length_offsetWritten buf baseOffset
  unfold patchBaseOffsetAndLeaderEpoch
  rw [slice_copyFromSlice_of_disjoint (by rw [length_putI32, hlen]; decide)
      (by rw [length_putI32]; unfold leaderEpochStart; omega),
    slice_copyFromSlice_of_disjoint (by rw [length_putI64, hbuf]; decide)
      (by rw [length_putI64]; unfold baseOffsetStart; omega)]

theorem slice_patch_baseOffset :
    slice (patchBaseOffsetAndLeaderEpoch buf baseOffset leaderEpoch).1 0 8 = putI64 baseOffset := by
  have hbuf : buf.1.length = 61 := buf.2
  have hlen := length_offsetWritten buf baseOffset
  unfold patchBaseOffsetAndLeaderEpoch
  rw [slice_copyFromSlice_of_disjoint (by rw [length_putI32, hlen]; decide) (Or.inl (by decide))]
  exact slice_copyFromSlice_self (by rw [length_putI64, hbuf]; decide) (length_putI64 _)

theorem slice_patch_leaderEpoch :
    slice (patchBaseOffsetAndLeaderEpoch buf baseOffset leaderEpoch).1 12 4 = putI32 leaderEpoch := by
  have hlen := length_offsetWritten buf baseOffset
  exact slice_copyFromSlice_self (by rw [length_putI32, hlen]; decide) (length_putI32 _)

/-- The patched header is read as the stamped one. -/
theorem refFromBytes_patch {hdr : RecordBatchHeader} (h : RecordBatchHeader.refFromBytes buf.1 = some hdr) :
    RecordBatchHeader.refFromBytes (patchBaseOffsetAndLeaderEpoch buf baseOffset leaderEpoch).1 =
      some (hdr.stamped baseOffset leaderEpoch) := by
  have hslice := fun first n => @slice_patch buf baseOffset leaderEpoch first n
  unfold RecordBatchHeader.refFromBytes at h ⊢
  rw [if_pos buf.2] at h
  cases h
  rw [if_pos (patchBaseOffsetAndLeaderEpoch buf baseOffset leaderEpoch).2, slice_patch_baseOffset,
    slice_patch_leaderEpoch, i64OfBE_putI64, i32OfBE_putI32]
  rw [hslice 8 4 (by decide) (by decide), hslice 16 1 (by decide) (by decide),
    hslice 17 4 (by decide) (by decide), hslice 21 2 (by decide) (by decide),
    hslice 23 4 (by decide) (by decide), hslice 27 8 (by decide) (by decide),
    hslice 35 8 (by decide) (by decide), hslice 43 8 (by decide) (by decide),
    hslice 51 2 (by decide) (by decide), hslice 53 4 (by decide) (by decide),
    hslice 57 4 (by decide) (by decide)]
  rfl

theorem take_headerLen (tail : Bytes) : (buf.1 ++ tail).take headerLen = buf.1 := List.take_left' buf.2

theorem drop_headerLen (tail : Bytes) : (buf.1 ++ tail).drop headerLen = tail := List.drop_left' buf.2

/-- **A framed batch stays framed**, with the stamped header and the same body. -/
theorem Framed.stamped [CrcFast] {tail raw rest : Bytes} {hdr : RecordBatchHeader}
    (h : Framed (buf.1 ++ tail) hdr raw rest) :
    Framed ((patchBaseOffsetAndLeaderEpoch buf baseOffset leaderEpoch).1 ++ tail)
      (hdr.stamped baseOffset leaderEpoch) raw rest := by
  have hheader := h.header
  have hsplit := h.split
  have hcrc := h.crc
  rw [take_headerLen] at hheader hcrc
  rw [drop_headerLen] at hsplit
  refine ⟨?_, h.magic, h.length, ?_, ?_⟩
  · rw [take_headerLen]
    exact refFromBytes_patch buf baseOffset leaderEpoch hheader
  · rw [drop_headerLen]
    exact hsplit
  · -- the CRC covers the header from its attributes on
    rw [take_headerLen, slice_patch buf baseOffset leaderEpoch (by decide) (Or.inr (by decide))]
    exact hcrc

end

/-! ## The readers

A batch that was framed is framed after the patch, with the two fields replaced. -/

/-- What the owned reader does with a framed batch, errors included. -/
theorem Framed.decodeWithPolicy [CrcFast] {codecs : Codecs} {policy : RecordDecompressionPolicy}
    {buf raw rest : Bytes} {hdr : RecordBatchHeader} (h : Framed buf hdr raw rest) :
    Records.decodeWithPolicy codecs policy buf =
      (do
        let body ← inflate codecs policy hdr raw
        let records ← parseRecords hdr.recordsCount body
        return hdr.batch records, rest) := by
  have hopen : openBody codecs policy (buf.take headerLen) hdr raw = inflate codecs policy hdr raw := by
    unfold openBody verifyCrc inflate
    simp only [Option.getD_none, crc32cAppend_crc32c, h.crc, if_true]
    rfl
  have hshort : ¬buf.length < headerLen := Nat.not_lt.mpr h.le_length
  have hbody : ¬(raw ++ rest).length < raw.length := by
    rw [List.length_append]
    omega
  rw [decodeWithPolicy_slice]
  unfold decodeContent
  simp only [hshort, if_false, h.header, h.magic, ne_eq, not_true_eq_false, h.length, h.split, hbody,
    List.take_left, List.drop_left, hopen]

/-- **Offset stamping preserves validity.** A buffer that starts with an accepted batch starts with a
header; with that header patched, the batch is accepted with the same length and the same body, its records
validate as before, and the owned reader gives what it gave before, errors included, with the two fields
set. -/
theorem stamp_preserves_validity [CrcFast] (codecs : Codecs) (policy : RecordDecompressionPolicy) {buf : Bytes}
    {v : ValidatedBatch} (h : validateOneV2Batch buf = .ok v) (baseOffset : Int64) (leaderEpoch : Int32) :
    ∃ (hdr : HeaderBytes) (tail : Bytes), buf = hdr.1 ++ tail ∧
      ∃ v', validateOneV2Batch ((patchBaseOffsetAndLeaderEpoch hdr baseOffset leaderEpoch).1 ++ tail) =
          .ok v' ∧
        v'.totalLen = v.totalLen ∧ v'.header = v.header.stamped baseOffset leaderEpoch ∧
        v'.rawBody = v.rawBody ∧
        v'.validateRecords codecs policy = v.validateRecords codecs policy ∧
        decodeWithPolicy codecs policy
            ((patchBaseOffsetAndLeaderEpoch hdr baseOffset leaderEpoch).1 ++ tail) =
          ((decodeWithPolicy codecs policy buf).1.map (·.stamped baseOffset leaderEpoch),
            (decodeWithPolicy codecs policy buf).2) := by
  obtain ⟨hlen, rest, hf⟩ := validateOneV2Batch_eq_ok.mp h
  have htake : (buf.take headerLen).length = headerLen := List.length_take_of_le hf.le_length
  refine ⟨⟨buf.take headerLen, htake⟩, buf.drop headerLen, (List.take_append_drop _ _).symm, ?_⟩
  have hf' := hf
  rw [← List.take_append_drop headerLen buf] at hf'
  have hstamped := Framed.stamped ⟨buf.take headerLen, htake⟩ baseOffset leaderEpoch hf'
  refine ⟨⟨v.header.stamped baseOffset leaderEpoch, v.totalLen, v.rawBody⟩,
    validateOneV2Batch_eq_ok.mpr ⟨hlen, rest, hstamped⟩, rfl, rfl, rfl, rfl, ?_⟩
  rw [hstamped.decodeWithPolicy, hf.decodeWithPolicy]
  refine Prod.ext ?_ rfl
  have hinf : inflate codecs policy (v.header.stamped baseOffset leaderEpoch) v.rawBody =
      inflate codecs policy v.header v.rawBody := rfl
  have hcount : (v.header.stamped baseOffset leaderEpoch).recordsCount = v.header.recordsCount := rfl
  dsimp only
  rw [hinf, hcount]
  cases inflate codecs policy v.header v.rawBody with
  | error e => rfl
  | ok body =>
    rw [Results.ok_bind, Results.ok_bind]
    cases parseRecords v.header.recordsCount body with
    | error e => rfl
    | ok records => rfl

/-- The batch of one record, stamped. -/
theorem stamp_oneRecordBatch :
    ∃ (hdr : HeaderBytes) (tail : Bytes), oneRecordBatch = hdr.1 ++ tail ∧
      ∃ v', validateOneV2Batch ((patchBaseOffsetAndLeaderEpoch hdr 9001 42).1 ++ tail) = .ok v' ∧
        v'.totalLen = 72 ∧ v'.header.baseOffset = 9001 ∧ v'.header.partitionLeaderEpoch = 42 := by
  have hlen : (validateOneV2Batch oneRecordBatch).toOption.map ValidatedBatch.totalLen = some 72 := by
    decide +kernel
  cases hv : validateOneV2Batch oneRecordBatch with
  | error e =>
    rw [hv] at hlen
    cases hlen
  | ok v =>
    rw [hv] at hlen
    obtain ⟨hdr, tail, hbuf, v', hv', htotal, hheader, -⟩ :=
      stamp_preserves_validity Codecs.disabled .default hv 9001 42
    refine ⟨hdr, tail, hbuf, v', hv', htotal.trans (Option.some.inj hlen), ?_, ?_⟩
    · rw [hheader]
      rfl
    · rw [hheader]
      rfl

end Krabka.Protocol.Records
