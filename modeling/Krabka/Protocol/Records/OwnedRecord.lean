import Krabka.Lib.AlikeReaders
import Krabka.Protocol.Records.Agreement

/-!
# `Protocol.Records.OwnedRecord` — the other record parser

`Record::decode` of `records/owned.rs` parses one record from any `Buf`, with bounds checks and errors of
its own. The batch readers do not use it; they parse their records with `parse_one_record`. On a byte
slice the two accept the same records and take the same bytes for them.
-/

namespace Krabka.Protocol.Records

open ByteStream Reader

/-! ## The parser

Every field has its own bounds check, and the header loop counts down. -/

/-- `decode_nullable_bytes`; a negative length is null. -/
def decodeNullableBytes (label : String) : Reader RecordsError (Option Bytes) := do
  let len ← field (label ++ " length") getVarint
  match FixedWidth.usizeOfI32 len with
  | none => return none
  | some n => do
      let v ← take n .bodyTooShort
      return some v

/-- A wire primitive of a header, whose errors are texts. -/
def headerField {α : Type} (label : String) (d : Decode α) : Reader String α :=
  mapErr (fun e => label ++ ": " ++ e.message) d

def truncated (what : String) (missing : Nat) : String :=
  what ++ " truncated (need " ++ toString missing ++ " more)"

/-- `decode_record_header`. -/
def decodeRecordHeader : Reader String RecordHeader := do
  let keyLen ← headerField "key length" getVarint
  match FixedWidth.usizeOfI32 keyLen with
  | none => throw ("non-nullable key has negative length " ++ toString keyLen.toInt)
  | some n => do
      let kv ← take n (truncated "key")
      match Text.fromUtf8 kv with
      | .error e => throw ("key utf-8: " ++ e.message)
      | .ok key => do
          let valueLen ← headerField "value length" getVarint
          match FixedWidth.usizeOfI32 valueLen with
          | none => return ⟨key, none⟩
          | some n => do
              let vv ← take n (truncated "value")
              return ⟨key, some vv⟩

/-- The failure of the `i`-th header of a record. -/
def headerError (i : Nat) (e : String) : RecordsError :=
  .recordParse ("header[" ++ toString i ++ "]: " ++ e)

def Record.decodeBody : Reader RecordsError Record := do
  let attributes ← byte (.recordParse "record body empty")
  let timestampDelta ← field "timestamp_delta" getVarlong
  let offsetDelta ← field "offset_delta" getVarint
  let key ← decodeNullableBytes "key"
  let value ← decodeNullableBytes "value"
  let headerCount ← field "header_count" getVarint
  match FixedWidth.usizeOfI32 headerCount with
  | none => throw (.recordParse ("negative header count " ++ toString headerCount.toInt))
  | some count => do
      let headers ← times (fun i => mapErr (headerError i) decodeRecordHeader) count 0
      return ⟨Int8.ofBitVec attributes.toBitVec, timestampDelta, offsetDelta, key, value, headers⟩

def Record.decode : Reader RecordsError Record := delimited fun _ => Record.decodeBody

/-! ## Piece by piece

Each piece of the one parser is compared with the same piece of the other. -/

theorem alike_field {α : Type} (label label' : String) (d : Decode α) :
    Alike (field label d) (field label' d) := .mapErr _ _ d

theorem alike_headerField {α : Type} (renamed : String → RecordsError) (label label' : String)
    (d : Decode α) : Alike (mapErr renamed (headerField label d)) (field label' d) := by
  rintro bs ⟨a, rest⟩
  unfold headerField field
  rw [mapErr_eq_ok, mapErr_eq_ok, mapErr_eq_ok]

theorem alike_decodeNullableBytes (label : String) (label' : SliceLabel) :
    Alike (decodeNullableBytes label) (readNullableSlice label') := by
  refine (alike_field _ _ getVarint).bind fun len => ?_
  cases FixedWidth.usizeOfI32 len with
  | none => exact .refl _
  | some n => exact (Alike.take n _ _).bind fun v => .refl _

/-- The value of a header, read in place, and by the reader of nullable slices. -/
theorem alike_headerValue (i : Nat) (key : String) (renamed : String → RecordsError) :
    Alike (mapErr renamed (do
        let valueLen ← headerField "value length" getVarint
        match FixedWidth.usizeOfI32 valueLen with
        | none => return (⟨key, none⟩ : RecordHeader)
        | some n => do
            let vv ← take n (truncated "value")
            return (⟨key, some vv⟩ : RecordHeader)))
      (do
        let value ← readNullableSlice (.headerValue i)
        return (⟨key, value⟩ : RecordHeader)) := by
  unfold readNullableSlice
  rw [bind_assoc, mapErr_bind]
  refine (alike_headerField renamed _ _ getVarint).bind fun len => ?_
  cases FixedWidth.usizeOfI32 len with
  | none => exact .refl _
  | some n =>
    dsimp only
    rw [bind_assoc, mapErr_bind, mapErr_take]
    exact (Alike.take n _ _).bind fun v => .refl _

theorem alike_decodeRecordHeader (i : Nat) :
    Alike (mapErr (headerError i) decodeRecordHeader) (parseHeader i) := by
  unfold decodeRecordHeader parseHeader
  rw [mapErr_bind]
  refine (alike_headerField (headerError i) _ _ getVarint).bind fun keyLen => ?_
  cases FixedWidth.usizeOfI32 keyLen with
  | none => exact .throw _ _
  | some n =>
    dsimp only
    rw [mapErr_bind, mapErr_take]
    refine (Alike.take n _ _).bind fun kv => ?_
    cases Text.fromUtf8 kv with
    | error e => exact .throw _ _
    | ok key => exact alike_headerValue i key (headerError i)

/-- The headers, collected by the loop and pushed into a `Vec`. -/
theorem alike_headers (f : List RecordHeader → Record) :
    Alike (do
        let headerCount ← field "header_count" getVarint
        match FixedWidth.usizeOfI32 headerCount with
        | none => throw (.recordParse ("negative header count " ++ toString headerCount.toInt))
        | some count => do
            let headers ← times (fun i => mapErr (headerError i) decodeRecordHeader) count 0
            return f headers)
      (parseHeaders vecSink [] >>= fun p => pure (f p.2)) := by
  rintro bs ⟨r, rest⟩
  have htimes := Alike.times alike_decodeRecordHeader
  rw [bind_eq_ok, bind_eq_ok]
  constructor
  · rintro ⟨len, mid, hlen, h⟩
    cases hn : FixedWidth.usizeOfI32 len with
    | none =>
      rw [hn] at h
      cases h
    | some n =>
      rw [hn] at h
      obtain ⟨hs, mid', hhs, h⟩ := bind_eq_ok.mp h
      cases h
      refine ⟨(n, hs), rest, (parseHeaders_eq_ok (fun _ _ => rfl)).mpr ⟨len, mid, hs, hlen, hn, ?_, ?_⟩, rfl⟩
      · exact (htimes n 0 mid _).mp hhs
      · rw [vecSink_after, List.nil_append]
  · rintro ⟨⟨n, hs⟩, mid', hheaders, h⟩
    cases h
    obtain ⟨len, mid, hs', hlen, hn, hhs, rfl⟩ := (parseHeaders_eq_ok (fun _ _ => rfl)).mp hheaders
    refine ⟨len, mid, hlen, ?_⟩
    rw [hn, vecSink_after, List.nil_append]
    exact bind_eq_ok.mpr ⟨hs', rest, (htimes n 0 mid _).mpr hhs, rfl⟩

theorem alike_decodeBody (bodyLen : Nat) :
    Alike Record.decodeBody (parseBody vecSink bodyLen [] >>= fun p => pure (p.1.withHeaders p.2)) := by
  unfold Record.decodeBody parseBody
  simp only [bind_assoc]
  exact (Alike.refl _).bind fun attributes =>
    (Alike.refl _).bind fun timestampDelta =>
    (Alike.refl _).bind fun offsetDelta =>
    (alike_decodeNullableBytes _ _).bind fun key =>
    (alike_decodeNullableBytes _ _).bind fun value => alike_headers _

/-! ## One record

The pieces in a row. The errors differ, the records do not. -/

/-- **Both parsers read the same records.** -/
theorem alike_decode : Alike Record.decode parseOneRecord := by
  rintro bs ⟨r, rest⟩
  unfold Record.decode
  rw [delimited_eq_ok, parseOneRecord_eq_ok]
  simp only [parseOneRecordInto_eq_ok]
  constructor
  · rintro ⟨len, body, hlen, hn, hbody⟩
    obtain ⟨p, mid, hp, h⟩ := bind_eq_ok.mp ((alike_decodeBody body.length body _).mp hbody)
    cases h
    exact ⟨p, ⟨len, body, hlen, hn, hp⟩, rfl⟩
  · rintro ⟨p, ⟨len, body, hlen, hn, hp⟩, rfl⟩
    exact ⟨len, body, hlen, hn, (alike_decodeBody body.length body _).mpr (bind_eq_ok.mpr ⟨p, [], hp, rfl⟩)⟩

/-- **The owned and the borrowed record parser agree.** They accept the same byte slices, read the same
record from one and leave the same rest; and the walk that keeps no headers accepts these slices too, with
the same rest, and counts the headers. -/
theorem record_parsers_agree (bs : Bytes) :
    (∀ r rest, Record.decode bs = .ok (r, rest) ↔ parseOneRecord bs = .ok (r, rest)) ∧
    (∀ r rest, parseOneRecord bs = .ok (r, rest) →
      ∃ sm, parseOneRecordInto skipHeaders () bs = .ok ((sm, ()), rest)) ∧
    ∀ sm rest, parseOneRecordInto skipHeaders () bs = .ok ((sm, ()), rest) →
      ∃ r, parseOneRecord bs = .ok (r, rest) ∧ sm.Summarizes r := by
  have hskip := fun sm rest => @parseOneRecordInto_eq_vec Unit skipHeaders (fun _ _ => rfl) () () bs rest sm
  refine ⟨fun r rest => alike_decode bs (r, rest), ?_, ?_⟩
  · intro r rest h
    obtain ⟨⟨sm, hs⟩, hvec, -⟩ := parseOneRecord_eq_ok.mp h
    exact ⟨sm, (hskip sm rest).mpr ⟨hs, hvec, rfl⟩⟩
  · intro sm rest h
    obtain ⟨hs, hvec, -⟩ := (hskip sm rest).mp h
    exact ⟨sm.withHeaders hs, parseOneRecord_eq_ok.mpr ⟨(sm, hs), hvec, rfl⟩, rfl, rfl, rfl, rfl, rfl,
      headerCount_eq_length hvec⟩

end Krabka.Protocol.Records
