import Krabka.Protocol.Records.RoundTrip
import Krabka.Protocol.Records.WireForm

/-!
# `Protocol.Records.Reencoding` — a batch that was read can be written again

The encoder refuses a length that its prefix cannot carry, a record count above `i32::MAX` and a body that
`batch_length` cannot count, and nothing else (`encodeBatch_ok_iff`). Whoever reads an uncompressed batch,
changes what keeps the sizes and writes it back relies on more: the reader accepts longer forms of a number
than the writer writes, so the batch that comes out is never longer than the one that went in, and no limit
is in the way (`decodeBatch_reencodes`).
-/

namespace Krabka.Protocol.Records

open ByteStream Reader Output Krabka.Compression

/-! ## What the encoder takes

The lengths of a record that was read fit, since they were read from prefixes. -/

/-- **A record is written when its lengths fit**, in its wire form. -/
theorem Record.wrote_encode_iff {r : Record} {w : Bytes} : Wrote r.encode w ↔ r.Fits ∧ w = r.wire := by
  refine ⟨Record.wrote_encode, ?_⟩
  rintro ⟨hfits, rfl⟩
  have hlen : FixedWidth.i64OfLen r.bodyLen = some (Int64.ofNat r.bodyLen) :=
    FixedWidth.i64OfLen_eq_some_ofNat.mpr ⟨hfits.body, rfl⟩
  have hheaders : Wrote (each RecordHeader.encode r.headers) (r.headers.flatMap RecordHeader.wire) := by
    have hall : ∀ h ∈ r.headers, Wrote h.encode h.wire := fun h hh =>
      RecordHeader.wrote_encode.mpr ⟨hfits.headers h hh, rfl⟩
    generalize r.headers = hs at hall
    induction hs with
    | nil => exact wrote_pure.mpr rfl
    | cons h hs ih =>
      have hrest := ih fun g hg => hall g (List.mem_cons_of_mem h hg)
      exact wrote_bind.mpr ⟨_, _, hall h List.mem_cons_self, hrest, List.flatMap_cons⟩
  have hrest : Wrote r.encodeRest (nullableWire r.value ++ (putVarint (Int32.ofNat r.headers.length) ++
      r.headers.flatMap RecordHeader.wire)) := by
    refine wrote_bind.mpr ⟨_, _, wrote_putNullable.mpr ⟨hfits.value, rfl⟩, ?_, rfl⟩
    exact wrote_bind.mpr ⟨_, _, wrote_putLen.mpr ⟨hfits.count, rfl⟩, hheaders, rfl⟩
  have hprefix : ∀ keyLen, Wrote (putPrefix (r.prefixFields keyLen)) _ := fun keyLen => by
    rw [(r.prefixFields_holds keyLen).putPrefix]
    exact wrote_put.mpr rfl
  unfold Record.encode
  rw [hlen]
  refine wrote_bind.mpr ⟨_, _, wrote_put.mpr rfl, ?_, rfl⟩
  unfold Record.encodeBody
  cases hkey : r.key with
  | none =>
    refine wrote_bind.mpr ⟨_, _, hprefix (-1), hrest, ?_⟩
    simp [Record.bodyWire, nullableWire, hkey]
  | some key =>
    have hkeyLen : FixedWidth.i32OfLen key.length = some (Int32.ofNat key.length) :=
      FixedWidth.i32OfLen_eq_some_ofNat.mpr ⟨hfits.key key hkey, rfl⟩
    simp only [hkeyLen]
    have hlong : Wrote (putLongKey key) (if smallKeyLen < key.length then key else []) := by
      unfold putLongKey
      split
      · exact wrote_put.mpr rfl
      · exact wrote_pure.mpr rfl
    refine wrote_bind.mpr ⟨_, _, hprefix _, wrote_bind.mpr ⟨_, _, hlong, hrest, rfl⟩, ?_⟩
    · -- the key went out with the prefix or right behind it
      by_cases hsmall : key.length ≤ smallKeyLen
      · rw [if_neg (by omega)]
        simp [Record.bodyWire, nullableWire, hkey, hsmall, Option.filter_some]
      · rw [if_pos (by omega)]
        simp [Record.bodyWire, nullableWire, hkey, hsmall, Option.filter_some]

/-- Records that fit are written one after the other. -/
theorem wrote_records {rs : List Record} (h : ∀ r ∈ rs, r.Fits) :
    Wrote (each Record.encode rs) (rs.flatMap Record.wire) := by
  induction rs with
  | nil => exact wrote_pure.mpr rfl
  | cons r rs ih =>
    have hr := Record.wrote_encode_iff.mpr ⟨h r List.mem_cons_self, rfl⟩
    exact wrote_bind.mpr ⟨_, _, hr, ih fun s hs => h s (List.mem_cons_of_mem r hs), List.flatMap_cons⟩

/-- The records of a batch are written where each of them fits. -/
theorem RecordBatch.encodeRecords_eq_ok {b : RecordBatch} {body : Bytes} :
    b.encodeRecords = .ok body ↔ (∀ r ∈ b.records, r.Fits) ∧ body = b.records.flatMap Record.wire := by
  refine ⟨fun h => (RecordBatch.encodeRecords_ok h).symm, ?_⟩
  rintro ⟨hfits, rfl⟩
  unfold RecordBatch.encodeRecords
  rw [show each Record.encode b.records = ⟨_, .ok ()⟩ from wrote_records hfits]

/-- Every length of a batch fits the wire: those of its records, how many they are, and what is left of
    `i32::MAX` behind the fields that `batch_length` counts. -/
structure RecordBatch.Fits (b : RecordBatch) : Prop where
  records : ∀ r ∈ b.records, r.Fits
  count : b.records.length < 2 ^ 31
  body : (b.records.map Record.encodedLen).sum + 49 < 2 ^ 31

/-- A body has a batch length below 2^31. -/
theorem batchLengthFor_isOk_iff {n : Nat} : (∃ l, batchLengthFor n = .ok l) ↔ n + 49 < 2 ^ 31 := by
  have htail : headerTailLen.toInt = 49 := by decide
  constructor
  · rintro ⟨l, hl⟩
    have hdeclared := declaredBodyLen_eq_some.mp (declaredBodyLen_batchLengthFor hl)
    have hlt := l.toInt_lt
    omega
  · intro h
    have hbind : (FixedWidth.i32OfLen n).bind (FixedWidth.checkedAddI32 headerTailLen) =
        some (Int32.ofInt (49 + n)) := by
      refine Option.bind_eq_some_iff.mpr ⟨Int32.ofInt n, FixedWidth.i32OfLen_eq_some.mpr ?_,
        FixedWidth.checkedAddI32_eq_some.mpr ?_⟩
      · rw [Int32.toInt_ofInt_of_le (by omega) (by omega)]
      · rw [htail, Int32.toInt_ofInt_of_le (by omega) (by omega), Int32.toInt_ofInt_of_le (by omega) (by omega)]
    unfold batchLengthFor
    rw [hbind]
    exact ⟨_, rfl⟩

/-- So has the number of records. -/
theorem RecordBatch.coveredHead_isOk {b : RecordBatch} (h : b.records.length < 2 ^ 31) :
    ∃ head, b.coveredHead = .ok head := by
  unfold RecordBatch.coveredHead
  rw [FixedWidth.i32OfLen_eq_some_ofNat.mpr ⟨h, rfl⟩]
  exact ⟨_, rfl⟩

variable {codecs : Codecs}

/-- **The encoder of an uncompressed batch refuses what the wire cannot carry, and nothing else.** -/
theorem RecordBatch.encodeBatch_ok_iff [CrcFast] {b : RecordBatch} (hplain : b.attributes.compression = .none) :
    (∃ out, b.encodeBatch codecs = .ok out) ↔ b.Fits := by
  constructor
  · rintro ⟨out, hout⟩
    obtain ⟨raw, body, l, head, hraw, hbody, hl, hhead, -⟩ := RecordBatch.encodeBatch_eq_ok hout
    obtain ⟨count, hcount, -⟩ := RecordBatch.coveredHead_eq_ok hhead
    have hlen := RecordBatch.length_encodeRecords hraw
    have hfit := batchLengthFor_isOk_iff.mp ⟨l, hl⟩
    rw [hplain] at hbody
    cases hbody
    exact ⟨(RecordBatch.encodeRecords_eq_ok.mp hraw).1, (FixedWidth.i32OfLen_eq_some_ofNat.mp hcount).1, by
      rw [← hlen]
      exact hfit⟩
  · intro h
    obtain ⟨head, hhead⟩ := RecordBatch.coveredHead_isOk h.count
    have hraw := RecordBatch.encodeRecords_eq_ok.mpr ⟨h.records, rfl⟩
    obtain ⟨l, hl⟩ := batchLengthFor_isOk_iff.mpr ((RecordBatch.length_encodeRecords hraw).symm ▸ h.body)
    have hwire : (List.replicate headerLen (0 : UInt8) ++ b.records.flatMap Record.wire).length - headerLen =
        (b.records.flatMap Record.wire).length := by
      rw [List.length_append, List.length_replicate, Nat.add_sub_cancel_left]
    unfold RecordBatch.encodeBatch RecordBatch.encodeUncompressed
    rw [if_pos hplain, hraw]
    simp only [Results.ok_bind, hwire, hl, hhead]
    rw [if_neg (by rw [List.length_append, List.length_replicate]; omega)]
    exact ⟨_, rfl⟩

/-- What the encoder of an uncompressed batch wrote is read back, in front of anything. -/
theorem RecordBatch.decodeBatch_encodeBatch [CrcFast] {b : RecordBatch} {out : Bytes}
    (hplain : b.attributes.compression = .none) (h : b.encodeBatch codecs = .ok out) (rest : Bytes) :
    decodeBatch codecs (out ++ rest) = (.ok b, rest) ∧ out.length = b.encodedBatchLen := by
  obtain ⟨raw, body, l, head, hraw, hbody, hl, hhead, rfl⟩ := RecordBatch.encodeBatch_eq_ok h
  rw [hplain] at hbody
  cases hbody
  constructor
  · obtain ⟨count, hcount, hframed⟩ := RecordBatch.framed_layout hl hhead rest
    have hinflate : inflate codecs .default (b.headerOf l (crc32c (head ++ raw)) count) raw = .ok raw := by
      unfold inflate
      exact if_pos hplain
    unfold decodeBatch
    rw [decodeWithPolicy_slice, decodeContent_eq_ok]
    exact ⟨_, raw, raw, b.records, hframed, hinflate, RecordBatch.parseRecords_wire hraw hcount, rfl⟩
  · rw [RecordBatch.layout, List.length_append, List.length_append, RecordBatch.length_headerPrefix,
      RecordBatch.length_coveredHead hhead, RecordBatch.length_encodeRecords hraw]
    rfl

/-! ## What the reader accepts

What it accepts holds only what the encoder can write. -/

/-- No form is shorter than the shortest. -/
theorem Varint.varintLen_le (v : Varint) : Protocol.varintLen v.value ≤ v.bytes.length := by
  have hall : getVarint v.bytes = .ok (v.value, []) := v.reads.all
  obtain ⟨x, hx, -, hlen⟩ := getVarint_eq_ok hall
  rwa [hx, List.append_nil]

/-- Nor is one of a long word. -/
theorem Varlong.varlongLen_le (v : Varlong) : Protocol.varlongLen v.value ≤ v.bytes.length := by
  have hall : getVarlong v.bytes = .ok (v.value, []) := v.reads.all
  obtain ⟨x, hx, -, hlen⟩ := getVarlong_eq_ok hall
  rwa [hx, List.append_nil]

/-- The zigzag form of a number that is not negative is twice the number. -/
theorem toNat_zigzag {n : Nat} (h : n < 2 ^ 63) :
    (WireInt.zigzag (Int64.ofNat n).toBitVec).toNat = 2 * n := by
  have hbits : (Int64.ofNat n).toBitVec = BitVec.ofNat 64 n := rfl
  have hnat : (BitVec.ofNat 64 n).toNat = n := by
    rw [BitVec.toNat_ofNat, Nat.mod_eq_of_lt (by omega)]
  have hmsb : (BitVec.ofNat 64 n).msb = false := by
    rw [BitVec.msb_eq_false_iff_two_mul_lt, hnat]
    omega
  have hsign : (BitVec.ofNat 64 n).sshiftRight 63 = 0#64 := by
    apply BitVec.eq_of_toNat_eq
    rw [BitVec.toNat_sshiftRight, hmsb, hnat]
    simp only [Bool.false_eq_true, if_false]
    rw [Nat.shiftRight_eq_div_pow, Nat.div_eq_of_lt h]
    rfl
  unfold WireInt.zigzag
  rw [hbits, hsign, BitVec.xor_zero, BitVec.toNat_shiftLeft, hnat, Nat.shiftLeft_eq,
    Nat.mod_eq_of_lt (by omega)]
  omega

/-- A smaller length takes no more bytes in front. -/
theorem varlongLen_mono {m n : Nat} (hle : m ≤ n) (h : n < 2 ^ 63) :
    Protocol.varlongLen (Int64.ofNat m) ≤ Protocol.varlongLen (Int64.ofNat n) := by
  obtain ⟨hpos, hbound⟩ :=
    (WireInt.isLeast_varintLen (by decide) (WireInt.zigzag (Int64.ofNat n).toBitVec)).1
  refine (WireInt.isLeast_varintLen (by decide) _).2 ⟨hpos, lt_of_le_of_lt ?_ hbound⟩
  rw [toNat_zigzag h, toNat_zigzag (by omega)]
  omega

/-- A field that was read fits its prefix. -/
theorem WireField.fits (f : WireField) : FieldFits f.value := by
  cases f with
  | null marker hneg =>
    rintro bs ⟨⟩
  | content len bs hfits =>
    rintro _ ⟨⟩
    have := FixedWidth.usizeOfI32_eq_some.mp hfits
    have := len.value.toInt_lt
    omega

/-- **A field is written in no more bytes than it was read from.** -/
theorem WireField.fieldLen_le (f : WireField) : fieldLen (f.value.map List.length) ≤ f.bytes.length := by
  cases f with
  | null marker hneg =>
    have hone : fieldLen none = 1 := by decide
    have hmarker := (varintLen_of_neg hneg).1
    have hbytes := marker.varintLen_le
    show fieldLen none ≤ marker.bytes.length
    omega
  | content len bs hfits =>
    have hvalue : (FixedWidth.i32OfLen bs.length).getD Int32.maxValue = len.value := by
      rw [FixedWidth.i32OfLen_eq_some.mpr (FixedWidth.usizeOfI32_eq_some.mp hfits)]
      rfl
    have hbytes := len.varintLen_le
    show fieldLen (some bs.length) ≤ (len.bytes ++ bs).length
    rw [fieldLen, hvalue, List.length_append]
    omega

/-- A header is written in no more bytes than it was read from. -/
theorem WireHeader.length_le (h : WireHeader) :
    fieldLen (some (Text.utf8Bytes h.key).length) + fieldLen (h.value.value.map List.length) ≤
      h.bytes.length := by
  have hlen : (FixedWidth.i32OfLen h.keyBytes.length).getD Int32.maxValue = h.keyLen.value := by
    rw [FixedWidth.i32OfLen_eq_some.mpr (FixedWidth.usizeOfI32_eq_some.mp h.fits)]
    rfl
  have hkey := h.keyLen.varintLen_le
  have hvalue := h.value.fieldLen_le
  rw [Text.utf8Bytes_of_fromUtf8 h.utf8, fieldLen, hlen, WireHeader.bytes, List.length_append,
    List.length_append]
  omega

/-- So is a body. -/
theorem WireBody.bodyLen_le (b : WireBody) : b.record.bodyLen ≤ b.bytes.length := by
  have hcount : (FixedWidth.i32OfLen b.headers.length).getD Int32.maxValue = b.headerCount.value := by
    rw [FixedWidth.i32OfLen_eq_some.mpr (FixedWidth.usizeOfI32_eq_some.mp b.counted)]
    rfl
  have hheaders : (b.headers.map fun h => fieldLen (some (Text.utf8Bytes h.key).length) +
      fieldLen (h.value.value.map List.length)).sum ≤ (b.headers.flatMap WireHeader.bytes).length := by
    rw [List.length_flatMap]
    exact (sum_map_eq_iff fun h _ => h.length_le).1
  have hts := b.timestampDelta.varlongLen_le
  have hod := b.offsetDelta.varintLen_le
  have hkey := b.key.fieldLen_le
  have hvalue := b.value.fieldLen_le
  have hcountLen := b.headerCount.varintLen_le
  unfold Record.bodyLen bodyLenOf WireBody.record WireBody.bytes
  simp only [List.length_map, List.map_map, Function.comp_def, WireHeader.header, hcount, List.cons_append,
    List.length_cons, List.length_append]
  omega

/-- **A record is written in no more bytes than it was read from**, and nothing in it is too long. -/
theorem WireRecord.encodedLen_le (w : WireRecord) :
    w.body.record.Fits ∧ w.body.record.encodedLen ≤ w.bytes.length := by
  have hdeclared := FixedWidth.usizeOfI64_eq_some.mp w.declared
  have hlt := w.length.value.toInt_lt
  have hbody := w.body.bodyLen_le
  have hlength := w.length.varlongLen_le
  have hfits : w.body.record.bodyLen < 2 ^ 63 := by omega
  constructor
  · refine ⟨hfits, w.body.key.fits, w.body.value.fits, ?_, ?_⟩
    · have := FixedWidth.usizeOfI32_eq_some.mp w.body.counted
      have := w.body.headerCount.value.toInt_lt
      show (w.body.headers.map WireHeader.header).length < 2 ^ 31
      rw [List.length_map]
      omega
    · intro h hh
      obtain ⟨wh, -, rfl⟩ := List.mem_map.mp hh
      refine ⟨?_, wh.value.fits⟩
      rintro bs ⟨⟩
      have := FixedWidth.usizeOfI32_eq_some.mp wh.fits
      have := wh.keyLen.value.toInt_lt
      show (Text.utf8Bytes wh.key).length < 2 ^ 31
      rw [Text.utf8Bytes_of_fromUtf8 wh.utf8]
      omega
  · have hvalue : w.length.value = Int64.ofNat w.body.bytes.length := by
      rw [← Int64.ofInt_toInt w.length.value, hdeclared]
      rfl
    have hmono := varlongLen_mono hbody (by omega : w.body.bytes.length < 2 ^ 63)
    rw [← hvalue] at hmono
    unfold Record.encodedLen FixedWidth.i64OfLen
    rw [if_pos hfits, Option.getD_some, WireRecord.bytes, List.length_append]
    omega

/-- Records that are read one after the other. -/
theorem recordLoop_encodedLen {n : Nat} {body left : Bytes} {records : List Record}
    (h : recordLoop n body = .ok (records, left)) :
    (∀ r ∈ records, r.Fits) ∧ (records.map Record.encodedLen).sum + left.length ≤ body.length := by
  unfold recordLoop at h
  generalize (0 : Nat) = i at h
  induction n generalizing i body records with
  | zero =>
    cases h
    exact ⟨fun r hr => absurd hr List.not_mem_nil, by simp⟩
  | succ n ih =>
    obtain ⟨r, mid, hr, h⟩ := bind_eq_ok.mp h
    obtain ⟨rs, mid', hrs, h⟩ := bind_eq_ok.mp h
    cases h
    obtain ⟨w, rfl, rfl⟩ := parseOneRecord_eq_wire.mp hr
    obtain ⟨hfits, hle⟩ := w.encodedLen_le
    obtain ⟨hrest, hsum⟩ := ih _ hrs
    refine ⟨List.forall_mem_cons.mpr ⟨hfits, hrest⟩, ?_⟩
    rw [List.map_cons, List.sum_cons, List.length_append]
    omega

/-- **A batch that was read is written again.** Whatever bytes an uncompressed batch was read from, the
    encoder takes it, in no more bytes than were consumed, and what it writes is read as the same batch. -/
theorem RecordBatch.decodeBatch_reencodes [CrcFast] {codecs : Codecs} {buf rest : Bytes} {b : RecordBatch}
    (h : decodeBatch codecs buf = (.ok b, rest)) (hplain : b.attributes.compression = .none) :
    ∃ out, b.encodeBatch codecs = .ok out ∧ out.length + rest.length ≤ buf.length ∧
      ∀ suffix, decodeBatch codecs (out ++ suffix) = (.ok b, suffix) := by
  unfold decodeBatch at h
  rw [decodeWithPolicy_slice, decodeContent_eq_ok] at h
  obtain ⟨hdr, raw, body, records, hframed, hinflate, hparse, rfl⟩ := h
  have hraw : body = raw := by
    have hnone : inflate codecs .default hdr raw = .ok raw := if_pos hplain
    exact Except.ok.inj (hinflate.symm.trans hnone)
  subst hraw
  obtain ⟨n, hn, hloop⟩ := parseRecords_eq_ok.mp hparse
  obtain ⟨hfits, hsum⟩ := recordLoop_encodedLen hloop
  have hcount : records.length = n := length_of_times hloop
  have hdeclared := declaredBodyLen_eq_some.mp hframed.length
  have hlen := hdr.batchLength.toInt_lt
  have hrecords := FixedWidth.usizeOfI32_eq_some.mp hn
  have hmax := hdr.recordsCount.toInt_lt
  rw [List.length_nil, Nat.add_zero] at hsum
  have hencodable : (hdr.batch records).Fits := by
    refine ⟨hfits, ?_, ?_⟩
    · show records.length < 2 ^ 31
      omega
    · show (records.map Record.encodedLen).sum + 49 < 2 ^ 31
      omega
  have hok : ∃ out, (hdr.batch records).encodeBatch codecs = .ok out :=
    (RecordBatch.encodeBatch_ok_iff hplain).mpr hencodable
  obtain ⟨out, hout⟩ := hok
  have hread := RecordBatch.decodeBatch_encodeBatch hplain hout
  refine ⟨out, hout, ?_, fun suffix => (hread suffix).1⟩
  have hbuf := hframed.length_eq
  rw [(hread []).2, hbuf]
  show headerLen + (records.map Record.encodedLen).sum + rest.length ≤ _
  omega

end Krabka.Protocol.Records
