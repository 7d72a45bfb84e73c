import Krabka.Protocol.Records.Decode

/-!
# `Protocol.Records.Fragmentation` — the owned reader sees only the bytes

`decode_with_policy` takes one of three routes through a batch: the CRC in one pass when the batch lies
in the current chunk, the CRC continued from the header over a staged body, and a compressed body
decompressed where it lies. `decodeContent` is the batch reader without any of them, over the byte string
alone; `decodeWithPolicy_content` says that every route computes it, errors and consumption included.
-/

namespace Krabka.Protocol.Records

open ByteStream LawfulBuf Krabka.Compression

variable (codecs : Codecs) (policy : RecordDecompressionPolicy)

/-- The body that the records are parsed from, once its CRC is right. -/
def openBody [CrcFast] (hdrBytes : Bytes) (hdr : RecordBatchHeader) (body : Bytes) : Except RecordsError Bytes := do
  verifyCrc hdrBytes hdr none body
  if Attributes.compression ⟨hdr.attributes⟩ = .none then return body
  else decompressBody codecs policy (Attributes.compression ⟨hdr.attributes⟩) body

/-- The batch at the start of a byte string, and the rest of it. -/
def decodeContent [CrcFast] (bs : Bytes) : Except RecordsError RecordBatch × Bytes :=
  if bs.length < headerLen then (.error (.headerTooShort (headerLen - bs.length)), bs)
  else
    let rest := bs.drop headerLen
    match RecordBatchHeader.refFromBytes (bs.take headerLen) with
    | none => (.error .zerocopyFailure, rest)
    | some hdr =>
        if hdr.magic ≠ 2 then (.error (.unsupportedMagic hdr.magic), rest)
        else match declaredBodyLen hdr.batchLength with
          | none => (.error badBatchLength, rest)
          | some bodyLen =>
              if rest.length < bodyLen then (.error (.bodyTooShort (bodyLen - rest.length)), rest)
              else
                (do let body ← openBody codecs policy (bs.take headerLen) hdr (rest.take bodyLen)
                    let records ← parseRecords hdr.recordsCount body
                    return hdr.batch records, rest.drop bodyLen)

/-! ## The contiguous CRC is the continued one

The checksum of a concatenation is the one that is continued from its first part. -/

theorem getRange_prefix {c bs : Bytes} (h : c <+: bs) {start stop : Nat} {r : Bytes}
    (hr : getRange c start stop = some r) : getRange bs start stop = some r := by
  unfold getRange at hr ⊢
  split at hr
  · rename_i hle
    obtain ⟨t, rfl⟩ := h
    rw [if_pos ⟨hle.1, by rw [List.length_append]; omega⟩, ← hr]
    unfold slice
    rw [List.drop_append_of_le_length (by omega),
      List.take_append_of_le_length (by rw [List.length_drop]; omega)]
  · cases hr

/-- The covered region of a batch is the covered part of its header and its body. -/
theorem slice_covered (bs : Bytes) (bodyLen : Nat) :
    slice bs crcCoverageStart (headerLen + bodyLen - crcCoverageStart) =
      slice (bs.take headerLen) crcCoverageStart (headerLen - crcCoverageStart) ++
        (bs.drop headerLen).take bodyLen := by
  unfold slice headerLen crcCoverageStart
  rw [List.drop_take, List.take_take, Nat.min_self, show 61 + bodyLen - 21 = (61 - 21) + bodyLen by omega,
    List.take_add, List.drop_drop]

/-- **Both ways to the CRC agree.** A chunk that holds the whole batch gives the checksum that the
header's, continued over the body, would have given. -/
theorem contiguousCoveredCrc_eq [CrcFast] {chunk bs : Bytes} (hpre : chunk <+: bs) {hdr : RecordBatchHeader}
    {bodyLen : Nat} (hhdr : RecordBatchHeader.refFromBytes (bs.take headerLen) = some hdr)
    (hlen : declaredBodyLen hdr.batchLength = some bodyLen) {crc : UInt32}
    (h : contiguousCoveredCrc chunk = some crc) :
    crc = crc32cAppend (crc32c (slice (bs.take headerLen) crcCoverageStart
      (headerLen - crcCoverageStart))) ((bs.drop headerLen).take bodyLen) := by
  unfold contiguousCoveredCrc at h
  obtain ⟨hdrBytes, hr, h⟩ := Option.bind_eq_some_iff.mp h
  have hr' := getRange_prefix hpre hr
  have hbytes : hdrBytes = bs.take headerLen := by
    unfold getRange at hr'
    split at hr'
    · exact (Option.some.inj hr').symm
    · cases hr'
  obtain ⟨hdr', hh, h⟩ := Option.bind_eq_some_iff.mp h
  rw [hbytes, hhdr] at hh
  cases hh
  split at h
  · cases h
  · obtain ⟨n, hn, h⟩ := Option.bind_eq_some_iff.mp h
    rw [hlen] at hn
    cases hn
    obtain ⟨covered, hc, h⟩ := Option.bind_eq_some_iff.mp h
    have hc' := getRange_prefix hpre hc
    unfold getRange at hc'
    split at hc'
    · cases h
      cases hc'
      rw [slice_covered, crc32cAppend_crc32c]
    · cases hc'

/-- A verified CRC does not depend on how it was computed. -/
theorem verifyCrc_eq [CrcFast] {hdrBytes body : Bytes} {hdr : RecordBatchHeader} {crc : Option UInt32}
    (h : ∀ c ∈ crc, c = crc32cAppend (crc32c (slice hdrBytes crcCoverageStart
      (headerLen - crcCoverageStart))) body) :
    verifyCrc hdrBytes hdr crc body = verifyCrc hdrBytes hdr none body := by
  cases crc with
  | none => rfl
  | some c =>
      unfold verifyCrc
      rw [h c rfl]
      rfl

variable {β : Type} [LawfulBuf β]

/-- The body is read off the content, whichever way it is reached. -/
theorem readBody_content [CrcFast] {hdrBytes : Bytes} {hdr : RecordBatchHeader} {crc : Option UInt32}
    {bodyLen : Nat} {buf : β} (hlen : bodyLen ≤ (content buf).length)
    (hcrc : ∀ c ∈ crc, c = crc32cAppend (crc32c (slice hdrBytes crcCoverageStart
      (headerLen - crcCoverageStart))) ((content buf).take bodyLen)) :
    (readBody codecs policy hdrBytes hdr crc bodyLen buf).1 =
        openBody codecs policy hdrBytes hdr ((content buf).take bodyLen) ∧
      content (readBody codecs policy hdrBytes hdr crc bodyLen buf).2 =
        (content buf).drop bodyLen := by
  obtain ⟨hcopy, hrest⟩ := Buf.copyToSlice_spec hlen
  unfold readBody openBody
  by_cases hcodec : Attributes.compression ⟨hdr.attributes⟩ = .none
  · simp only [hcodec, ne_eq, not_true_eq_false, if_false, if_true]
    rw [hcopy, verifyCrc_eq hcrc]
    exact ⟨rfl, hrest⟩
  · simp only [hcodec, ne_eq, not_false_eq_true, if_true, if_false]
    cases hchunk : getRange (Buf.chunk buf) 0 bodyLen with
    | none =>
        simp only
        rw [hcopy, verifyCrc_eq hcrc]
        exact ⟨rfl, hrest⟩
    | some chunk =>
        -- the chunk is a prefix of the content, so its first bytes are the content's
        have hr := getRange_prefix (chunk_isPrefix buf) hchunk
        have hchunk' : chunk = (content buf).take bodyLen := by
          unfold getRange at hr
          rw [if_pos ⟨Nat.zero_le _, hlen⟩] at hr
          exact (Option.some.inj hr).symm
        simp only
        rw [hchunk', verifyCrc_eq hcrc]
        exact ⟨rfl, content_advance buf bodyLen (by rw [remaining_eq]; exact hlen)⟩

/-- **Every route computes `decodeContent`.** -/
theorem decodeWithPolicy_content [CrcFast] (buf : β) :
    ((decodeWithPolicy codecs policy buf).1, content (decodeWithPolicy codecs policy buf).2) =
      decodeContent codecs policy (content buf) := by
  unfold decodeWithPolicy decodeContent
  rw [remaining_eq]
  by_cases hshort : (content buf).length < headerLen
  · rw [if_pos hshort, if_pos hshort]
  · have hle : headerLen ≤ (content buf).length := by omega
    obtain ⟨hcopy, hrest⟩ := Buf.copyToSlice_spec (b := buf) hle
    -- from here on only what the copy says of itself is used
    generalize Buf.copyToSlice buf headerLen = copied at hcopy hrest ⊢
    obtain ⟨hdrBytes, left⟩ := copied
    simp only at hcopy hrest
    subst hcopy
    simp only [hshort, if_false, remaining_eq, hrest]
    cases hhdr : RecordBatchHeader.refFromBytes ((content buf).take headerLen) with
    | none => simp only [hrest]
    | some hdr =>
        simp only
        split
        · simp only [hrest]
        · cases hlen : declaredBodyLen hdr.batchLength with
          | none => simp only [hrest]
          | some bodyLen =>
              simp only
              split
              · simp only [hrest]
              · rename_i hfit
                have hcrc : ∀ c ∈ contiguousCoveredCrc (Buf.chunk buf), c =
                    crc32cAppend (crc32c (slice ((content buf).take headerLen) crcCoverageStart
                      (headerLen - crcCoverageStart))) ((content left).take bodyLen) := by
                  intro c hc
                  rw [hrest]
                  exact contiguousCoveredCrc_eq (chunk_isPrefix buf) hhdr hlen hc
                have hfits : bodyLen ≤ (content left).length := by
                  rw [hrest]
                  omega
                obtain ⟨hb, hr⟩ := readBody_content codecs policy hfits hcrc
                rw [hb, hr, hrest]

/-- On a slice the reader is `decodeContent`. -/
theorem decodeWithPolicy_slice [CrcFast] (bs : Bytes) :
    decodeWithPolicy codecs policy bs = decodeContent codecs policy bs := by
  have h := decodeWithPolicy_content codecs policy bs
  rwa [content_bytes, content_bytes, Prod.mk.eta] at h

/-- **Batch decoding does not depend on fragmentation.** However a byte string is cut into chunks, the
reader gives the batch or the error that it gives on the contiguous string, and leaves the same bytes
unread. -/
theorem decodeWithPolicy_fragmented [CrcFast] (parts : List Bytes) :
    (decodeWithPolicy codecs policy (Chunks.mk parts)).1 =
        (decodeWithPolicy codecs policy parts.flatten).1 ∧
      (decodeWithPolicy codecs policy (Chunks.mk parts)).2.parts.flatten =
        (decodeWithPolicy codecs policy parts.flatten).2 ∧
      Buf.remaining (decodeWithPolicy codecs policy (Chunks.mk parts)).2 =
        Buf.remaining (decodeWithPolicy codecs policy parts.flatten).2 := by
  have h := decodeWithPolicy_content codecs policy (Chunks.mk parts)
  rw [content_chunks, content_chunks, ← decodeWithPolicy_slice codecs policy] at h
  obtain ⟨hres, hleft⟩ := Prod.ext_iff.mp h
  refine ⟨hres, hleft, ?_⟩
  rw [LawfulBuf.remaining_eq, LawfulBuf.remaining_eq, content_chunks, content_bytes]
  exact congrArg List.length hleft

end Krabka.Protocol.Records
