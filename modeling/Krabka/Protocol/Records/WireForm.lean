import Krabka.Lib.ShortestVarint
import Krabka.Protocol.Records.Encode
import Krabka.Protocol.Records.OwnedRecord

/-!
# `Protocol.Records.WireForm` — a record with the varints it was read from

The parser forgets how a number was written: a varint may be longer than it needs to be, and any negative
length is null. `WireRecord` keeps every varint with its own bytes, and the parser accepts exactly the bytes
of a `WireRecord` (`parseOneRecordInto_eq_wire`). Two sizes of a record's body are compared on it, the one
that the length prefix declares and the one that `body_len` computes from the fields.
-/

namespace Krabka.Protocol.Records

open ByteStream Reader

/-! ## Varints and their bytes

A number with the bytes that it was read from, which may be more than it needs. -/

/-- A varint of the input: its bytes and what they are read as. -/
structure Varint where
  bytes : Bytes
  value : Int32
  reads : Reads getVarint bytes value

structure Varlong where
  bytes : Bytes
  value : Int64
  reads : Reads getVarlong bytes value

/-- No fewer bytes are read as the same number. -/
def Varint.Shortest (v : Varint) : Prop := ∀ bytes, Reads getVarint bytes v.value → v.bytes.length ≤ bytes.length

def Varlong.Shortest (v : Varlong) : Prop :=
  ∀ bytes, Reads getVarlong bytes v.value → v.bytes.length ≤ bytes.length

/-- What is read as a varint is one, in whatever form. -/
theorem getVarint_eq_ok {v : Int32} {bs rest : Bytes} (h : getVarint bs = .ok (v, rest)) :
    ∃ x : Varint, bs = x.bytes ++ rest ∧ x.value = v ∧ varintLen v ≤ x.bytes.length := by
  obtain ⟨z, mid, hz, h⟩ := bind_eq_ok.mp h
  cases h
  obtain ⟨used, rfl, hreads, hlen⟩ := WireInt.getVarint_eq_ok (by decide) hz
  refine ⟨⟨used, _, hreads.map fun z => Int32.ofBitVec (WireInt.unzigzag z)⟩, rfl, rfl, ?_⟩
  rwa [varintLen, Int32.toBitVec_ofBitVec, WireInt.zigzag_unzigzag (by decide)]

/-- So is a long one. -/
theorem getVarlong_eq_ok {v : Int64} {bs rest : Bytes} (h : getVarlong bs = .ok (v, rest)) :
    ∃ x : Varlong, bs = x.bytes ++ rest ∧ x.value = v ∧ varlongLen v ≤ x.bytes.length := by
  obtain ⟨z, mid, hz, h⟩ := bind_eq_ok.mp h
  cases h
  obtain ⟨used, rfl, hreads, hlen⟩ := WireInt.getVarint_eq_ok (by decide) hz
  refine ⟨⟨used, _, hreads.map fun z => Int64.ofBitVec (WireInt.unzigzag z)⟩, rfl, rfl, ?_⟩
  rwa [varlongLen, Int64.toBitVec_ofBitVec, WireInt.zigzag_unzigzag (by decide)]

/-- Bytes are shortest when they are as many as those that are written, which no accepted form undercuts. -/
theorem shortest_iff_length {α : Type} {d : Decode α} {v : α} {bytes written : Bytes} (hbytes : Reads d bytes v)
    (hwritten : Reads d written v)
    (hle : ∀ {bs rest}, d bs = .ok (v, rest) → ∃ used, bs = used ++ rest ∧ written.length ≤ used.length) :
    (∀ bs, Reads d bs v → bytes.length ≤ bs.length) ↔ bytes.length = written.length := by
  have hleast : ∀ bs, Reads d bs v → written.length ≤ bs.length := by
    intro bs hreads
    have hall := hreads []
    obtain ⟨used, hused, hlen⟩ := hle hall
    rw [List.append_nil, List.append_nil] at hused
    rwa [← hused] at hlen
  constructor
  · intro h
    exact Nat.le_antisymm (h written hwritten) (hleast bytes hbytes)
  · intro h bs hreads
    rw [h]
    exact hleast bs hreads

/-- A varint is shortest when it has the predicted length. -/
theorem Varint.shortest_iff {v : Varint} : v.Shortest ↔ v.bytes.length = varintLen v.value := by
  rw [← length_putVarint]
  refine shortest_iff_length v.reads (reads_putVarint v.value) fun h => ?_
  obtain ⟨x, hx, -, hlen⟩ := getVarint_eq_ok h
  exact ⟨x.bytes, hx, (length_putVarint v.value).le.trans hlen⟩

/-- The shortest form has the announced length. -/
theorem Varlong.shortest_iff {v : Varlong} : v.Shortest ↔ v.bytes.length = varlongLen v.value := by
  rw [← length_putVarlong]
  refine shortest_iff_length v.reads (reads_putVarlong v.value) fun h => ?_
  obtain ⟨x, hx, -, hlen⟩ := getVarlong_eq_ok h
  exact ⟨x.bytes, hx, (length_putVarlong v.value).le.trans hlen⟩

theorem field_eq_ok {α : Type} {label : String} {d : Decode α} {bs rest : Bytes} {a : α} :
    field label d bs = .ok (a, rest) ↔ d bs = .ok (a, rest) := mapErr_eq_ok

/-! ## Records with their varints

The same for every field of a record. -/

/-- A nullable field on the wire. -/
inductive WireField where
  | null (marker : Varint) (h : marker.value.toInt < 0)
  | content (len : Varint) (bytes : Bytes) (h : FixedWidth.usizeOfI32 len.value = some bytes.length)

namespace WireField

def bytes : WireField → Bytes
  | null marker _ => marker.bytes
  | content len bs _ => len.bytes ++ bs

def value : WireField → Option Bytes
  | null _ _ => none
  | content _ bs _ => some bs

def len : WireField → Varint
  | null marker _ => marker
  | content len _ _ => len

/-- The field is not null, or its null marker is one of the numbers that take one byte. -/
def ShortNull : WireField → Prop
  | null marker _ => -64 ≤ marker.value.toInt
  | content _ _ _ => True

end WireField

/-- A header on the wire. -/
structure WireHeader where
  keyLen : Varint
  keyBytes : Bytes
  key : String
  value : WireField
  fits : FixedWidth.usizeOfI32 keyLen.value = some keyBytes.length
  utf8 : Text.fromUtf8 keyBytes = .ok key

def WireHeader.bytes (h : WireHeader) : Bytes := h.keyLen.bytes ++ h.keyBytes ++ h.value.bytes

def WireHeader.header (h : WireHeader) : RecordHeader := ⟨h.key, h.value.value⟩

/-- A record's body on the wire. -/
structure WireBody where
  attributes : UInt8
  timestampDelta : Varlong
  offsetDelta : Varint
  key : WireField
  value : WireField
  headerCount : Varint
  headers : List WireHeader
  counted : FixedWidth.usizeOfI32 headerCount.value = some headers.length

namespace WireBody

def bytes (b : WireBody) : Bytes :=
  b.attributes :: b.timestampDelta.bytes ++ b.offsetDelta.bytes ++ b.key.bytes ++ b.value.bytes ++
    b.headerCount.bytes ++ b.headers.flatMap WireHeader.bytes

def record (b : WireBody) : Record where
  attributes := Int8.ofBitVec b.attributes.toBitVec
  timestampDelta := b.timestampDelta.value
  offsetDelta := b.offsetDelta.value
  key := b.key.value
  value := b.value.value
  headers := b.headers.map WireHeader.header

/-- The nullable fields of a record: its key, its value and the values of its headers. -/
def fields (b : WireBody) : List WireField := b.key :: b.value :: b.headers.map WireHeader.value

end WireBody

/-- A record on the wire, behind the length of its body. -/
structure WireRecord where
  length : Varlong
  body : WireBody
  declared : FixedWidth.usizeOfI64 length.value = some body.bytes.length

def WireRecord.bytes (w : WireRecord) : Bytes := w.length.bytes ++ w.body.bytes

/-- Every varint and varlong of the record uses its shortest encoding. -/
structure WireRecord.Shortest (w : WireRecord) : Prop where
  length : w.length.Shortest
  timestampDelta : w.body.timestampDelta.Shortest
  offsetDelta : w.body.offsetDelta.Shortest
  headerCount : w.body.headerCount.Shortest
  headerKeys : ∀ h ∈ w.body.headers, h.keyLen.Shortest
  fields : ∀ f ∈ w.body.fields, f.len.Shortest

/-- Every null of the record is written as a number that takes one byte. -/
def WireRecord.ShortNulls (w : WireRecord) : Prop := ∀ f ∈ w.body.fields, f.ShortNull

/-! ## What the parser accepts

The bytes of such a record and no others, and what it makes of them forgets the varints. -/

/-- A nullable slice, as it stands on the wire. -/
theorem readNullableSlice_eq_wire {label : SliceLabel} {bs rest : Bytes} {v : Option Bytes} :
    readNullableSlice label bs = .ok (v, rest) ↔ ∃ f : WireField, bs = f.bytes ++ rest ∧ v = f.value := by
  unfold readNullableSlice
  rw [bind_eq_ok]
  constructor
  · rintro ⟨len, mid, hlen, h⟩
    obtain ⟨x, rfl, rfl, -⟩ := getVarint_eq_ok (field_eq_ok.mp hlen)
    cases hn : FixedWidth.usizeOfI32 x.value with
    | none =>
      rw [hn] at h
      cases h
      exact ⟨.null x (FixedWidth.usizeOfI32_eq_none.mp hn), rfl, rfl⟩
    | some n =>
      rw [hn] at h
      obtain ⟨bs, mid', htake, h⟩ := bind_eq_ok.mp h
      cases h
      obtain ⟨rfl, rfl⟩ := take_eq_ok.mp htake
      exact ⟨.content x bs hn, (List.append_assoc _ _ _).symm, rfl⟩
  · rintro ⟨f, rfl, rfl⟩
    cases f with
    | null marker h =>
      refine ⟨marker.value, rest, field_eq_ok.mpr (marker.reads rest), ?_⟩
      rw [FixedWidth.usizeOfI32_eq_none.mpr h]
      rfl
    | content len bs h =>
      refine ⟨len.value, bs ++ rest, field_eq_ok.mpr ?_, ?_⟩
      · rw [WireField.bytes, List.append_assoc]
        exact len.reads _
      · rw [h]
        exact bind_eq_ok.mpr ⟨bs, rest, take_eq_ok.mpr ⟨rfl, rfl⟩, rfl⟩

/-- A header of a record, as it stands on the wire. -/
theorem parseHeader_eq_wire {i : Nat} {bs rest : Bytes} {r : RecordHeader} :
    parseHeader i bs = .ok (r, rest) ↔ ∃ h : WireHeader, bs = h.bytes ++ rest ∧ r = h.header := by
  unfold parseHeader
  rw [bind_eq_ok]
  constructor
  · rintro ⟨len, mid, hlen, h⟩
    obtain ⟨x, rfl, rfl, -⟩ := getVarint_eq_ok (field_eq_ok.mp hlen)
    cases hn : FixedWidth.usizeOfI32 x.value with
    | none =>
      rw [hn] at h
      cases h
    | some n =>
      rw [hn] at h
      obtain ⟨keyBytes, mid', htake, hkeyed⟩ := bind_eq_ok.mp h
      obtain ⟨rfl, rfl⟩ := take_eq_ok.mp htake
      cases hkey : Text.fromUtf8 keyBytes with
      | error e =>
        rw [hkey] at hkeyed
        cases hkeyed
      | ok key =>
        rw [hkey] at hkeyed
        obtain ⟨v, mid'', hv, hret⟩ := bind_eq_ok.mp hkeyed
        cases hret
        obtain ⟨f, rfl, rfl⟩ := readNullableSlice_eq_wire.mp hv
        refine ⟨⟨x, keyBytes, key, f, hn, hkey⟩, ?_, rfl⟩
        simp only [WireHeader.bytes, List.append_assoc]
  · rintro ⟨h, rfl, rfl⟩
    refine ⟨h.keyLen.value, h.keyBytes ++ (h.value.bytes ++ rest), field_eq_ok.mpr ?_, ?_⟩
    · simp only [WireHeader.bytes, List.append_assoc]
      exact h.keyLen.reads _
    · rw [h.fits]
      refine bind_eq_ok.mpr ⟨h.keyBytes, h.value.bytes ++ rest, take_eq_ok.mpr ⟨rfl, rfl⟩, ?_⟩
      rw [h.utf8]
      exact bind_eq_ok.mpr ⟨h.value.value, rest, readNullableSlice_eq_wire.mpr ⟨h.value, rfl, rfl⟩, rfl⟩

/-- A counted run takes the forms of its rounds off the front. -/
theorem parseHeader_times_eq_wire {n i : Nat} {bs rest : Bytes} {hs : List RecordHeader} :
    times parseHeader n i bs = .ok (hs, rest) ↔
      ∃ ws : List WireHeader, bs = ws.flatMap WireHeader.bytes ++ rest ∧
        hs = ws.map WireHeader.header ∧ ws.length = n := by
  induction n generalizing i bs hs with
  | zero =>
    constructor
    · intro h
      cases h
      exact ⟨[], rfl, rfl, rfl⟩
    · rintro ⟨ws, rfl, rfl, hlen⟩
      cases List.length_eq_zero_iff.mp hlen
      rfl
  | succ n ih =>
    constructor
    · intro h
      obtain ⟨r, mid, hr, h⟩ := bind_eq_ok.mp h
      obtain ⟨hs', mid', hhs, h⟩ := bind_eq_ok.mp h
      cases h
      obtain ⟨w, rfl, rfl⟩ := parseHeader_eq_wire.mp hr
      obtain ⟨ws, rfl, rfl, rfl⟩ := ih.mp hhs
      exact ⟨w :: ws, by rw [List.flatMap_cons, List.append_assoc], rfl, rfl⟩
    · rintro ⟨ws, rfl, rfl, hlen⟩
      cases ws with
      | nil => cases hlen
      | cons w ws =>
        rw [List.flatMap_cons, List.append_assoc]
        refine bind_eq_ok.mpr ⟨w.header, _, parseHeader_eq_wire.mpr ⟨w, rfl, rfl⟩, ?_⟩
        exact bind_eq_ok.mpr ⟨_, rest, ih.mpr ⟨ws, rfl, rfl, Nat.succ.inj hlen⟩, rfl⟩

/-- What the walk without headers makes of the body. -/
def WireBody.summary (b : WireBody) (bodyLen : Nat) : RecordSummary where
  attributes := Int8.ofBitVec b.attributes.toBitVec
  timestampDelta := b.timestampDelta.value
  offsetDelta := b.offsetDelta.value
  key := b.key.value
  value := b.value.value
  headerCount := b.headers.length
  bodyLen := bodyLen

/-- The body of a record, as it stands on the wire. -/
theorem parseBody_eq_wire {bodyLen : Nat} {bs rest : Bytes} {p : RecordSummary × List RecordHeader} :
    parseBody vecSink bodyLen [] bs = .ok (p, rest) ↔
      ∃ b : WireBody, bs = b.bytes ++ rest ∧ p = (b.summary bodyLen, b.record.headers) := by
  unfold parseBody
  simp only [bind_eq_ok, Prod.exists]
  constructor
  · rintro ⟨a, m₁, ha, ts, m₂, hts, od, m₃, hod, key, m₄, hkey, value, m₅, hvalue, n, hs, m₆, hheaders, h⟩
    cases h
    cases bs with
    | nil => cases ha
    | cons c bs =>
      cases ha
      obtain ⟨ts, rfl, rfl, -⟩ := getVarlong_eq_ok (field_eq_ok.mp hts)
      obtain ⟨od, rfl, rfl, -⟩ := getVarint_eq_ok (field_eq_ok.mp hod)
      obtain ⟨key, rfl, rfl⟩ := readNullableSlice_eq_wire.mp hkey
      obtain ⟨value, rfl, rfl⟩ := readNullableSlice_eq_wire.mp hvalue
      obtain ⟨len, mid, hs', hlen, hn, hhs, hafter⟩ := (parseHeaders_eq_ok (fun _ _ => rfl)).mp hheaders
      obtain ⟨count, rfl, rfl, -⟩ := getVarint_eq_ok (field_eq_ok.mp hlen)
      rw [vecSink_after, List.nil_append] at hafter
      obtain ⟨ws, rfl, rfl, rfl⟩ := parseHeader_times_eq_wire.mp hhs
      refine ⟨⟨a, ts, od, key, value, count, ws, hn⟩, ?_, ?_⟩
      · simp only [WireBody.bytes, List.append_assoc, List.cons_append]
      · rw [hafter]
        rfl
  · rintro ⟨b, rfl, rfl⟩
    simp only [WireBody.bytes, List.append_assoc, List.cons_append]
    refine ⟨b.attributes, _, rfl, b.timestampDelta.value, _, field_eq_ok.mpr (b.timestampDelta.reads _),
      b.offsetDelta.value, _, field_eq_ok.mpr (b.offsetDelta.reads _), b.key.value, _,
      readNullableSlice_eq_wire.mpr ⟨b.key, rfl, rfl⟩, b.value.value, _,
      readNullableSlice_eq_wire.mpr ⟨b.value, rfl, rfl⟩, b.headers.length, b.record.headers, rest, ?_, rfl⟩
    refine (parseHeaders_eq_ok (fun _ _ => rfl)).mpr ⟨b.headerCount.value, _, b.record.headers,
      field_eq_ok.mpr (b.headerCount.reads _), b.counted, ?_, ?_⟩
    · exact parseHeader_times_eq_wire.mpr ⟨b.headers, rfl, rfl, rfl⟩
    · rw [vecSink_after, List.nil_append]

/-- **The parser accepts the wire records**, and it reads from one what it stands for. -/
theorem parseOneRecordInto_eq_wire {bs rest : Bytes} {p : RecordSummary × List RecordHeader} :
    parseOneRecordInto vecSink [] bs = .ok (p, rest) ↔
      ∃ w : WireRecord, bs = w.bytes ++ rest ∧
        p = (w.body.summary w.body.bytes.length, w.body.record.headers) := by
  rw [parseOneRecordInto_eq_ok]
  constructor
  · rintro ⟨len, body, hlen, hn, hbody⟩
    obtain ⟨x, rfl, rfl, -⟩ := getVarlong_eq_ok (field_eq_ok.mp hlen)
    obtain ⟨b, rfl, rfl⟩ := parseBody_eq_wire.mp hbody
    rw [List.append_nil] at hn ⊢
    exact ⟨⟨x, b, hn⟩, (List.append_assoc _ _ _).symm, rfl⟩
  · rintro ⟨w, rfl, rfl⟩
    refine ⟨w.length.value, w.body.bytes, field_eq_ok.mpr ?_, w.declared, ?_⟩
    · rw [WireRecord.bytes, List.append_assoc]
      exact w.length.reads _
    · exact parseBody_eq_wire.mpr ⟨w.body, (List.append_nil _).symm, rfl⟩

/-! ## The two sizes of a body

They differ by what the varints take beyond the shortest, and by what the lengths of nulls take beyond one
byte. -/

/-- The negative numbers that take one byte are those from -64 on. -/
theorem varintLen_of_neg {v : Int32} (h : v.toInt < 0) :
    1 ≤ varintLen v ∧ (varintLen v = 1 ↔ -64 ≤ v.toInt) := by
  have hpos : 1 ≤ varintLen v := by
    rw [← length_putVarint]
    refine List.length_pos_of_ne_nil fun hnil => ?_
    have hreads := reads_putVarint v []
    rw [hnil] at hreads
    cases hreads
  -- both ranges are small enough to go through
  have hsmall : ∀ z : Fin 128, -64 ≤ (Int32.ofBitVec (WireInt.unzigzag (BitVec.ofNat 32 z))).toInt := by
    decide
  have hnear : ∀ k : Fin 64, (WireInt.zigzag (Int32.ofInt (-(k + 1 : Int))).toBitVec).toNat < 128 := by
    decide
  refine ⟨hpos, (WireInt.varintLen_eq_one (by decide)).trans ⟨fun hz => ?_, fun hv => ?_⟩⟩
  · have hv := hsmall ⟨_, hz⟩
    rwa [BitVec.ofNat_toNat, BitVec.setWidth_eq, WireInt.unzigzag_zigzag (by decide),
      Int32.ofBitVec_toBitVec] at hv
  · have hk := hnear ⟨(-v.toInt - 1).toNat, by omega⟩
    have hback : (-(((-v.toInt - 1).toNat : Int) + 1) : Int) = v.toInt := by omega
    simpa only [hback, Int32.ofInt_toInt] using hk

/-- A field whose length is shortest is at least as long as `body_len` takes it to be, and only a null is
    longer. -/
theorem WireField.length_bytes {f : WireField} (h : f.len.Shortest) :
    fieldLen (f.value.map List.length) ≤ f.bytes.length ∧
      (fieldLen (f.value.map List.length) = f.bytes.length ↔ f.ShortNull) := by
  have hlen := Varint.shortest_iff.mp h
  cases f with
  | null marker hneg =>
    have hone : fieldLen none = 1 := by decide
    have hmarker : (WireField.null marker hneg).bytes.length = varintLen marker.value := hlen
    obtain ⟨hle, hiff⟩ := varintLen_of_neg hneg
    rw [hmarker]
    show fieldLen none ≤ _ ∧ (fieldLen none = _ ↔ -64 ≤ marker.value.toInt)
    rw [hone, ← hiff]
    exact ⟨hle, eq_comm⟩
  | content len bs hfits =>
    have hvalue : (FixedWidth.i32OfLen bs.length).getD Int32.maxValue = len.value := by
      rw [FixedWidth.i32OfLen_eq_some.mpr (FixedWidth.usizeOfI32_eq_some.mp hfits)]
      rfl
    have hfield : fieldLen (some bs.length) = (len.bytes ++ bs).length := by
      have hlen' : len.bytes.length = varintLen len.value := hlen
      rw [fieldLen, hvalue, List.length_append, hlen']
    exact ⟨hfield.le, iff_of_true hfield trivial⟩

/-- Sums that are bounded term by term are equal when the terms are. -/
theorem sum_map_eq_iff {α : Type} {f g : α → Nat} {as : List α} (h : ∀ a ∈ as, f a ≤ g a) :
    (as.map f).sum ≤ (as.map g).sum ∧ ((as.map f).sum = (as.map g).sum ↔ ∀ a ∈ as, f a = g a) := by
  induction as with
  | nil => exact ⟨le_rfl, iff_of_true rfl fun a ha => absurd ha List.not_mem_nil⟩
  | cons a as ih =>
    obtain ⟨ha, has⟩ := List.forall_mem_cons.mp h
    obtain ⟨hle, hiff⟩ := ih has
    rw [List.map_cons, List.map_cons, List.sum_cons, List.sum_cons, List.forall_mem_cons, ← hiff]
    omega

/-- The bytes of a body outside its nullable fields. -/
def WireBody.fixedLen (b : WireBody) : Nat :=
  1 + b.timestampDelta.bytes.length + b.offsetDelta.bytes.length + b.headerCount.bytes.length +
    (b.headers.map fun h => h.keyLen.bytes.length + h.keyBytes.length).sum

/-- A body is its fixed part and its fields. -/
theorem WireBody.length_bytes (b : WireBody) :
    b.bytes.length = b.fixedLen + (b.fields.map fun f => f.bytes.length).sum := by
  have hheaders : (b.headers.flatMap WireHeader.bytes).length =
      (b.headers.map fun h => h.keyLen.bytes.length + h.keyBytes.length).sum +
        (b.headers.map fun h => h.value.bytes.length).sum := by
    rw [List.length_flatMap, ← List.sum_map_add]
    congr 1
    exact List.map_congr_left fun h _ => by simp only [WireHeader.bytes, List.length_append]
  unfold WireBody.bytes WireBody.fields WireBody.fixedLen
  simp only [List.cons_append, List.length_cons, List.length_append, List.map_cons, List.map_map,
    List.sum_cons, Function.comp_def, hheaders]
  omega

/-- In shortest form, a body is as long as the record announces. -/
theorem WireRecord.bodyLen_record {w : WireRecord} (h : w.Shortest) :
    w.body.record.bodyLen =
      w.body.fixedLen + (w.body.fields.map fun f => fieldLen (f.value.map List.length)).sum := by
  have hcount : (FixedWidth.i32OfLen w.body.headers.length).getD Int32.maxValue = w.body.headerCount.value := by
    rw [FixedWidth.i32OfLen_eq_some.mpr (FixedWidth.usizeOfI32_eq_some.mp w.body.counted)]
    rfl
  have hheaders : (w.body.headers.map fun h => fieldLen (some (Text.utf8Bytes h.key).length) +
        fieldLen (h.value.value.map List.length)).sum =
      (w.body.headers.map fun h => h.keyLen.bytes.length + h.keyBytes.length).sum +
        (w.body.headers.map fun h => fieldLen (h.value.value.map List.length)).sum := by
    rw [← List.sum_map_add]
    congr 1
    refine List.map_congr_left fun hd hmem => ?_
    have hlen : (FixedWidth.i32OfLen hd.keyBytes.length).getD Int32.maxValue = hd.keyLen.value := by
      rw [FixedWidth.i32OfLen_eq_some.mpr (FixedWidth.usizeOfI32_eq_some.mp hd.fits)]
      rfl
    rw [Text.utf8Bytes_of_fromUtf8 hd.utf8, fieldLen, hlen, Varint.shortest_iff.mp (h.headerKeys hd hmem)]
  unfold Record.bodyLen bodyLenOf WireBody.record WireBody.fixedLen WireBody.fields
  simp only [List.length_map, List.map_map, Function.comp_def, WireHeader.header, hheaders, hcount,
    List.map_cons, List.sum_cons, Varlong.shortest_iff.mp h.timestampDelta,
    Varint.shortest_iff.mp h.offsetDelta, Varint.shortest_iff.mp h.headerCount]
  omega

/-- **The declared size of a body is at least the computed one**, and more exactly when a null is long. -/
theorem WireRecord.bodyLen_eq_iff {w : WireRecord} (h : w.Shortest) :
    w.body.record.bodyLen ≤ w.body.bytes.length ∧
      (w.body.record.bodyLen = w.body.bytes.length ↔ w.ShortNulls) := by
  have hfields := fun f hf => WireField.length_bytes (h.fields f hf)
  obtain ⟨hle, hiff⟩ := sum_map_eq_iff fun f hf => (hfields f hf).1
  rw [WireRecord.bodyLen_record h, w.body.length_bytes, Nat.add_left_cancel_iff, hiff]
  exact ⟨Nat.add_le_add_left hle _, forall₂_congr fun f hf => (hfields f hf).2⟩

/-- **A record is read off some wire form of it.** -/
theorem parseOneRecord_eq_wire {bs rest : Bytes} {r : Record} :
    parseOneRecord bs = .ok (r, rest) ↔ ∃ w : WireRecord, bs = w.bytes ++ rest ∧ r = w.body.record := by
  rw [parseOneRecord_eq_ok]
  constructor
  · rintro ⟨p, hp, rfl⟩
    obtain ⟨w, rfl, rfl⟩ := parseOneRecordInto_eq_wire.mp hp
    exact ⟨w, rfl, rfl⟩
  · rintro ⟨w, rfl, rfl⟩
    exact ⟨_, parseOneRecordInto_eq_wire.mpr ⟨w, rfl, rfl⟩, rfl⟩

/-- **The declared body size is the computed one when no null is long.** Every accepted slice is a wire
record, and where all its varints are shortest, the size in the summary and the sizes that `body_len`
computes from the borrowed and from the owned record are equal exactly when each null is written as a number
of one byte. -/
theorem bodyLen_agrees_iff {bs rest : Bytes} {r : Record} (h : parseOneRecord bs = .ok (r, rest)) :
    (∃ w : WireRecord, bs = w.bytes ++ rest) ∧
    ∀ w : WireRecord, bs = w.bytes ++ rest → w.Shortest →
      ∃ sm r', parseOneRecordInto skipHeaders () bs = .ok ((sm, ()), rest) ∧
        Record.decode bs = .ok (r', rest) ∧
        ((sm.bodyLen = r.bodyLen ∧ r.bodyLen = r'.bodyLen) ↔ w.ShortNulls) := by
  refine ⟨?_, fun w hbs hshortest => ?_⟩
  · obtain ⟨w, hbs, -⟩ := parseOneRecord_eq_wire.mp h
    exact ⟨w, hbs⟩
  · have hvec := parseOneRecordInto_eq_wire.mpr ⟨w, hbs, rfl⟩
    have hskip : parseOneRecordInto skipHeaders () bs =
        .ok ((w.body.summary w.body.bytes.length, ()), rest) :=
      (parseOneRecordInto_eq_vec (fun _ _ => rfl)).mpr ⟨_, hvec, rfl⟩
    have hr : r = w.body.record := by
      cases h.symm.trans (parseOneRecord_eq_wire.mpr ⟨w, hbs, rfl⟩)
      rfl
    refine ⟨_, r, hskip, (alike_decode bs _).mpr h, ?_⟩
    rw [hr, ← (WireRecord.bodyLen_eq_iff hshortest).2]
    exact ⟨fun hsize => hsize.1.symm, fun hsize => ⟨hsize.symm, rfl⟩⟩

/-! ### A record with two nulls

One record in the shortest form, and one whose null has a length of two bytes. -/

def Varint.canonical (v : Int32) : Varint := ⟨putVarint v, v, reads_putVarint v⟩

def Varlong.canonical (v : Int64) : Varlong := ⟨putVarlong v, v, reads_putVarlong v⟩

/-- The form that is written is the shortest. -/
theorem Varint.shortest_canonical (v : Int32) : (Varint.canonical v).Shortest :=
  Varint.shortest_iff.mpr (length_putVarint v)

/-- So is that of a long one. -/
theorem Varlong.shortest_canonical (v : Int64) : (Varlong.canonical v).Shortest :=
  Varlong.shortest_iff.mpr (length_putVarlong v)

/-- A body without headers, its key and its value null. -/
def nullBody (key : Int32) (h : key.toInt < 0) : WireBody where
  attributes := 0
  timestampDelta := .canonical 0
  offsetDelta := .canonical 0
  key := .null (.canonical key) h
  value := .null (.canonical (-1)) (by decide)
  headerCount := .canonical 0
  headers := []
  counted := by decide

theorem shortest_nullBody {key : Int32} {h : key.toInt < 0} {len : Int64}
    {hlen : FixedWidth.usizeOfI64 (Varlong.canonical len).value = some (nullBody key h).bytes.length} :
    WireRecord.Shortest ⟨.canonical len, nullBody key h, hlen⟩ where
  length := Varlong.shortest_canonical len
  timestampDelta := Varlong.shortest_canonical 0
  offsetDelta := Varint.shortest_canonical 0
  headerCount := Varint.shortest_canonical 0
  headerKeys hd hmem := absurd hmem List.not_mem_nil
  fields f hf := by
    have hcases : f = .null (.canonical key) h ∨ f = .null (.canonical (-1)) (by decide) := by
      simpa [WireBody.fields, nullBody] using hf
    rcases hcases with rfl | rfl
    · exact Varint.shortest_canonical key
    · exact Varint.shortest_canonical (-1)

/-- The nulls that every client writes. -/
theorem bodyLen_agrees_nullBody :
    ∃ sm r', parseOneRecordInto skipHeaders () [12, 0, 0, 0, 1, 1, 0] = .ok ((sm, ()), []) ∧
      Record.decode [12, 0, 0, 0, 1, 1, 0] = .ok (r', []) ∧ sm.bodyLen = r'.bodyLen := by
  have hlen : FixedWidth.usizeOfI64 (Varlong.canonical 6).value =
      some (nullBody (-1) (by decide)).bytes.length := by decide
  have hparse : parseOneRecord [12, 0, 0, 0, 1, 1, 0] = .ok ({}, []) := by rfl
  have hbytes : [12, 0, 0, 0, 1, 1, 0] =
      (Varlong.canonical 6).bytes ++ (nullBody (-1) (by decide)).bytes ++ [] := by rfl
  obtain ⟨sm, r', hsm, hr', hiff⟩ :=
    (bodyLen_agrees_iff hparse).2 ⟨.canonical 6, nullBody (-1) (by decide), hlen⟩ hbytes shortest_nullBody
  have hshort : WireRecord.ShortNulls ⟨.canonical 6, nullBody (-1) (by decide), hlen⟩ := by
    intro f hf
    have hcases : f = .null (.canonical (-1)) (by decide) := by
      simpa [WireBody.fields, nullBody] using hf
    subst hcases
    show (-64 : Int) ≤ Int32.toInt (-1)
    decide
  obtain ⟨hborrowed, howned⟩ := hiff.mpr hshort
  exact ⟨sm, r', hsm, hr', hborrowed.trans howned⟩

/-- A null key written as -65 takes two bytes. -/
theorem not_bodyLen_agrees_longNull :
    ¬∀ (bs rest : Bytes) (r : Record) (sm : RecordSummary) (w : WireRecord),
      parseOneRecord bs = .ok (r, rest) → parseOneRecordInto skipHeaders () bs = .ok ((sm, ()), rest) →
        bs = w.bytes ++ rest → w.Shortest → sm.bodyLen = r.bodyLen := by
  intro hall
  have hlen : FixedWidth.usizeOfI64 (Varlong.canonical 7).value =
      some (nullBody (-65) (by decide)).bytes.length := by decide
  have hbytes : [14, 0, 0, 0, 129, 1, 1, 0] =
      (Varlong.canonical 7).bytes ++ (nullBody (-65) (by decide)).bytes ++ [] := by rfl
  have h := hall [14, 0, 0, 0, 129, 1, 1, 0] [] {} ⟨0, 0, 0, none, none, 0, 7⟩
    ⟨.canonical 7, nullBody (-65) (by decide), hlen⟩ rfl rfl
    hbytes shortest_nullBody
  exact absurd h (by decide)

end Krabka.Protocol.Records
