import Krabka.Protocol.Records.PayloadReader

/-!
# `Protocol.Records.FetchFlavours` — the records field of a response, owned and borrowed

The owned decoder of a response reads its records field with `from_fetch_bytes`, which drops a last batch
that the fetch byte budget cut. The borrowed decoder is the same for requests and responses, and its
`from_slice` refuses such a field; its batches in turn do not check that their bodies end with their
records.

A field is taken apart into framed batches (`BatchRun`). What each flavour accepts is then a condition on
those batches and on what is left behind them, and the two agree exactly on the fields that are neither
cut (`CutTail`) nor loose (`LooseEnd`): `fetchFlavours_agree_iff`.
-/

namespace Krabka.Protocol.Records

open ByteStream Results

variable {codecs : Compression.Codecs}

/-! ## The two decoders

What a response makes of the bytes of its records field in either flavour. -/

/-- `RecordsPayloadBorrowed::from_slice`, then `to_owned`. -/
def fromSliceToOwned [CrcFast] (codecs : Compression.Codecs) (bytes : Bytes) : Except RecordsError RecordsPayload :=
  RecordsPayloadBorrowed.fromSlice codecs bytes >>= RecordsPayloadBorrowed.toOwned

/-- The two flavours accept alike, with equal payloads. -/
def FetchFlavoursAgree [CrcFast] (codecs : Compression.Codecs) (bytes : Bytes) : Prop :=
  ∀ p, fromFetchBytes codecs bytes = .ok p ↔ fromSliceToOwned codecs bytes = .ok p

/-! ## A field as a run of framed batches

A field that starts with a framed batch is that batch and a shorter field. What is left in the end is no
framed batch. -/

/-- `buf` is the framed batches, each with the header and the raw body it is listed with, and then
    `rest`. -/
inductive BatchRun [CrcFast] : Bytes → List (RecordBatchHeader × Bytes) → Bytes → Prop
  | nil (buf : Bytes) : BatchRun buf [] buf
  | cons {buf mid rest raw : Bytes} {hdr : RecordBatchHeader} {frames : List (RecordBatchHeader × Bytes)}
      (hf : Framed buf hdr raw mid) (hrun : BatchRun mid frames rest) :
      BatchRun buf ((hdr, raw) :: frames) rest

/-- A batch begins and the buffer ends before it: not even a header is there, or a good header declares a
    longer body. -/
def CutShort (buf : Bytes) : Prop :=
  buf ≠ [] ∧ (buf.length < headerLen ∨
    ∃ hdr n, RecordBatchHeader.refFromBytes (buf.take headerLen) = some hdr ∧ hdr.magic = 2 ∧
      declaredBodyLen hdr.batchLength = some n ∧ (buf.drop headerLen).length < n)

/-- The records of a framed batch, and what its body holds behind them. A negative count is no
    records. -/
def framedRecords (codecs : Compression.Codecs) (f : RecordBatchHeader × Bytes) :
    Except RecordsError (List Record × Bytes) := do
  let body ← inflate codecs .default f.1 f.2
  recordLoop (max f.1.recordsCount.toInt 0).toNat body

/-- The records of the batch can be parsed. -/
def Readable (codecs : Compression.Codecs) (f : RecordBatchHeader × Bytes) : Prop :=
  ∃ records left, framedRecords codecs f = .ok (records, left)

/-- The body is the declared records and nothing else. -/
def Whole (codecs : Compression.Codecs) (f : RecordBatchHeader × Bytes) : Prop :=
  0 ≤ f.1.recordsCount.toInt ∧ ∃ records, framedRecords codecs f = .ok (records, [])

/-- Behind whole batches the field was cut. -/
def CutTail [CrcFast] (codecs : Compression.Codecs) (bytes : Bytes) : Prop :=
  ∃ frames rest, BatchRun bytes frames rest ∧ (∀ f ∈ frames, Whole codecs f) ∧ CutShort rest

/-- The field is a run of batches whose records can be parsed, and one of them has a negative count or a
    body that goes on behind its records. -/
def LooseEnd [CrcFast] (codecs : Compression.Codecs) (bytes : Bytes) : Prop :=
  ∃ frames, BatchRun bytes frames [] ∧ (∀ f ∈ frames, Readable codecs f) ∧
    ∃ f ∈ frames, ¬Whole codecs f

/-- A framed batch and what both flavours make of it. -/
def ReadsBatch (codecs : Compression.Codecs) (f : RecordBatchHeader × Bytes) (b : RecordBatch) : Prop :=
  ∃ records left, framedRecords codecs f = .ok (records, left) ∧ b = f.1.batch records

/-- No batch is framed in nothing. -/
theorem not_framed_nil [CrcFast] {hdr : RecordBatchHeader} {raw rest : Bytes} : ¬Framed [] hdr raw rest := by
  intro h
  have hlen := h.le_length
  exact absurd hlen (by decide)

theorem BatchRun.of_nil [CrcFast] {frames : List (RecordBatchHeader × Bytes)} {rest : Bytes}
    (h : BatchRun [] frames rest) : frames = [] ∧ rest = [] := by
  cases h with
  | nil => exact ⟨rfl, rfl⟩
  | cons hf _ => exact absurd hf not_framed_nil

/-- A buffer has one run of each length. -/
theorem BatchRun.unique [CrcFast] {buf rest : Bytes} {frames : List (RecordBatchHeader × Bytes)}
    (h : BatchRun buf frames rest) : ∀ {frames' rest'}, BatchRun buf frames' rest' →
      frames'.length = frames.length → frames' = frames ∧ rest' = rest := by
  induction h with
  | nil buf =>
    intro frames' rest' h' hlen
    cases h' with
    | nil => exact ⟨rfl, rfl⟩
    | cons hf _ => cases hlen
  | cons hf hrun ih =>
    intro frames' rest' h' hlen
    cases h' with
    | nil => cases hlen
    | cons hf' hrun' =>
      obtain ⟨rfl, rfl, rfl⟩ := hf.unique hf'
      obtain ⟨rfl, rfl⟩ := ih hrun' (Nat.succ.inj hlen)
      exact ⟨rfl, rfl⟩

/-- A batch whose body ends with its records is readable. -/
theorem Whole.readable {f : RecordBatchHeader × Bytes} (h : Whole codecs f) : Readable codecs f := by
  obtain ⟨-, records, hrecords⟩ := h
  exact ⟨records, [], hrecords⟩

/-- Batches that are read are readable. -/
theorem readable_of_reads {frames : List (RecordBatchHeader × Bytes)} {bs : List RecordBatch}
    (h : List.Forall₂ (ReadsBatch codecs) frames bs) : ∀ f ∈ frames, Readable codecs f := by
  intro f hf
  obtain ⟨b, -, records, left, hrecords, -⟩ := exists_of_forall₂_left h hf
  exact ⟨records, left, hrecords⟩

/-- The batches of a run that can be parsed. -/
theorem exists_batches {frames : List (RecordBatchHeader × Bytes)}
    (h : ∀ f ∈ frames, Readable codecs f) : ∃ bs, List.Forall₂ (ReadsBatch codecs) frames bs := by
  refine exists_forall₂ fun f hf => ?_
  obtain ⟨records, left, hrecords⟩ := h f hf
  exact ⟨f.1.batch records, records, left, hrecords, rfl⟩

/-! ## One batch

What the owned reader and the borrowed one ask of a framed batch, and what they refuse at the end of a field.
-/

/-- **The owned decoder** takes framed batches that are whole. -/
theorem decodeBatch_eq_ok [CrcFast] {buf rest : Bytes} {b : RecordBatch} :
    decodeBatch codecs buf = (.ok b, rest) ↔
      ∃ hdr raw, Framed buf hdr raw rest ∧ Whole codecs (hdr, raw) ∧ ReadsBatch codecs (hdr, raw) b := by
  unfold decodeBatch
  rw [decodeWithPolicy_slice, decodeContent_eq_ok]
  constructor
  · rintro ⟨hdr, raw, body, records, hf, hinf, hrec, rfl⟩
    obtain ⟨n, hn, hloop⟩ := parseRecords_eq_ok.mp hrec
    have hcount := FixedWidth.usizeOfI32_eq_some.mp hn
    have hnat : (max hdr.recordsCount.toInt 0).toNat = n := by omega
    have hread : framedRecords codecs (hdr, raw) = .ok (records, []) :=
      bind_eq_ok.mpr ⟨body, hinf, by rw [hnat]; exact hloop⟩
    have hnonneg : 0 ≤ hdr.recordsCount.toInt := by omega
    exact ⟨hdr, raw, hf, ⟨hnonneg, records, hread⟩, records, [], hread, rfl⟩
  · rintro ⟨hdr, raw, hf, ⟨hcount, records, hread⟩, records', left, hread', rfl⟩
    cases hread.symm.trans hread'
    obtain ⟨body, hinf, hloop⟩ := bind_eq_ok.mp hread
    have hmax : max hdr.recordsCount.toInt 0 = hdr.recordsCount.toInt := max_eq_left hcount
    have hnonneg : 0 ≤ hdr.recordsCount.toInt := hcount
    rw [hmax] at hloop
    refine ⟨hdr, raw, body, records, hf, hinf, parseRecords_eq_ok.mpr ⟨_, ?_, hloop⟩, rfl⟩
    rw [FixedWidth.usizeOfI32_eq_some]
    omega

/-- **The borrowed decoder** takes framed batches, whole or not. -/
theorem decodeBorrow_eq_ok [CrcFast] {buf rest : Bytes} {b : RecordBatch} :
    decodeBorrowToOwned codecs .default buf = .ok (b, rest) ↔
      ∃ hdr raw, Framed buf hdr raw rest ∧ ReadsBatch codecs (hdr, raw) b := by
  rw [decodeBorrowToOwned_eq_ok]
  constructor
  · rintro ⟨hdr, raw, body, records, left, hf, hinf, hloop, rfl⟩
    exact ⟨hdr, raw, hf, records, left, bind_eq_ok.mpr ⟨body, hinf, hloop⟩, rfl⟩
  · rintro ⟨hdr, raw, hf, records, left, hread, rfl⟩
    obtain ⟨body, hinf, hloop⟩ := bind_eq_ok.mp hread
    exact ⟨hdr, raw, body, records, left, hf, hinf, hloop, rfl⟩

/-- The errors that do not say that the buffer was too short. -/
def Corrupt : RecordsError → Prop
  | .headerTooShort _ => False
  | .bodyTooShort _ => False
  | _ => True

/-- Records fail as corrupt. -/
theorem corrupt_parseRecords (count : Int32) (body : Bytes) :
    FailsAs Corrupt (parseRecords count body) := by
  unfold parseRecords
  split
  · exact FailsAs.error trivial
  · refine FailsAs.bind ?_ (fun p _ => ?_)
    · intro e he
      -- a record's own error is wrapped, whatever it is
      obtain ⟨j, mid, he⟩ := Reader.exists_of_times_eq_error he
      obtain ⟨e', -, rfl⟩ := Reader.mapErr_eq_error.mp he
      trivial
    · obtain ⟨records, left⟩ := p
      dsimp only
      split
      · exact FailsAs.ok records
      · exact FailsAs.error trivial

/-- So does a body. -/
theorem corrupt_openBody [CrcFast] (hdrBytes : Bytes) (hdr : RecordBatchHeader) (body : Bytes) :
    FailsAs Corrupt (openBody codecs .default hdrBytes hdr body) := by
  unfold openBody
  refine FailsAs.bind ?_ (fun _ _ => ?_)
  · unfold verifyCrc
    dsimp only
    split
    · exact FailsAs.ok ()
    · exact FailsAs.error trivial
  · split
    · exact FailsAs.ok body
    · exact FailsAs.mapError (fun _ => trivial) _

/-- A buffer with a header is cut short when the header is good and the body is not all there. -/
theorem cutShort_of_header {buf : Bytes} {hdr : RecordBatchHeader} (hlong : ¬buf.length < headerLen)
    (hhdr : RecordBatchHeader.refFromBytes (buf.take headerLen) = some hdr) :
    CutShort buf ↔ hdr.magic = 2 ∧
      ∃ n, declaredBodyLen hdr.batchLength = some n ∧ (buf.drop headerLen).length < n := by
  constructor
  · rintro ⟨-, hshort | ⟨hdr', n, hhdr', hmagic, hn, hless⟩⟩
    · exact absurd hshort hlong
    · cases hhdr.symm.trans hhdr'
      exact ⟨hmagic, n, hn, hless⟩
  · rintro ⟨hmagic, n, hn, hless⟩
    refine ⟨?_, Or.inr ⟨hdr, n, hhdr, hmagic, hn, hless⟩⟩
    rintro rfl
    exact hlong (by decide)

/-- A reader that is not out of bytes fails as corrupt, and one that is, does not. -/
theorem cutShort_iff [CrcFast] {buf rest : Bytes} {e : RecordsError} (hne : buf ≠ [])
    (h : decodeBatch codecs buf = (.error e, rest)) : CutShort buf ↔ ¬Corrupt e := by
  unfold decodeBatch at h
  rw [decodeWithPolicy_slice] at h
  unfold decodeContent at h
  split at h
  · rename_i hshort
    cases h
    exact ⟨fun _ hc => hc, fun _ => ⟨hne, Or.inl hshort⟩⟩
  · rename_i hlong
    split at h
    · rename_i hnone
      cases h
      refine iff_of_false ?_ (fun hc => hc trivial)
      rintro ⟨-, hshort | ⟨hdr, n, hsome, -⟩⟩
      · exact hlong hshort
      · cases hnone.symm.trans hsome
    · rename_i hdr hhdr
      rw [cutShort_of_header hlong hhdr]
      split at h
      · rename_i hmagic
        cases h
        exact iff_of_false (fun hcut => hmagic hcut.1) (fun hc => hc trivial)
      · rename_i hmagic
        split at h
        · rename_i hnone
          cases h
          refine iff_of_false ?_ (fun hc => hc trivial)
          rintro ⟨-, n, hn, -⟩
          cases hnone.symm.trans hn
        · rename_i n hn
          dsimp only at h
          split at h
          · rename_i hbody
            cases h
            exact ⟨fun _ hc => hc, fun _ => ⟨not_not.mp hmagic, n, hn, hbody⟩⟩
          · rename_i hbody
            obtain ⟨he, -⟩ := Prod.mk.inj h
            -- the batch is all there, so whatever is wrong with it is corruption
            have hcorrupt : Corrupt e :=
              (FailsAs.bind (corrupt_openBody _ hdr _) (fun body _ =>
                FailsAs.bind (corrupt_parseRecords hdr.recordsCount body) (fun records _ =>
                  FailsAs.ok (hdr.batch records)))) e he
            refine iff_of_false ?_ (fun hc => hc hcorrupt)
            rintro ⟨-, n', hn', hless⟩
            cases hn.symm.trans hn'
            exact hbody hless

/-- A framed batch is not cut. -/
theorem not_cutShort_of_framed [CrcFast] {buf raw rest : Bytes} {hdr : RecordBatchHeader}
    (h : Framed buf hdr raw rest) : ¬CutShort buf := by
  rw [cutShort_of_header (Nat.not_lt.mpr h.le_length) h.header]
  rintro ⟨-, n, hn, hless⟩
  cases hn.symm.trans h.length
  rw [h.split, List.length_append] at hless
  omega

/-- A batch takes its header off the buffer. -/
theorem length_lt_of_framed [CrcFast] {buf raw rest : Bytes} {hdr : RecordBatchHeader}
    (h : Framed buf hdr raw rest) : rest.length < buf.length := by
  have hlen := h.length_eq
  unfold headerLen at hlen
  omega

theorem ne_nil_of_decodeBatch [CrcFast] {buf rest : Bytes} {b : RecordBatch}
    (h : decodeBatch codecs buf = (.ok b, rest)) : buf ≠ [] := by
  obtain ⟨hdr, raw, hf, -⟩ := decodeBatch_eq_ok.mp h
  rintro rfl
  exact not_framed_nil hf

/-- A batch takes some bytes. -/
theorem length_lt_of_decodeBatch [CrcFast] {buf rest : Bytes} {b : RecordBatch}
    (h : decodeBatch codecs buf = (.ok b, rest)) : rest.length < buf.length := by
  obtain ⟨hdr, raw, hf, -⟩ := decodeBatch_eq_ok.mp h
  exact length_lt_of_framed hf

/-! ## The two loops

Each loop reads batches while there are any, and then decides about the rest. -/

/-- Nothing is read from nothing. -/
theorem ownedBatches_empty [CrcFast] (lenient : Bool) (fuel : Nat) : ownedBatches codecs lenient fuel [] = .ok [] := by
  cases fuel with
  | zero => rfl
  | succ fuel => rfl

/-- A round that reads a batch. -/
theorem ownedBatches_ok [CrcFast] {lenient : Bool} {fuel : Nat} {cur rest : Bytes} {b : RecordBatch}
    (h : decodeBatch codecs cur = (.ok b, rest)) :
    ownedBatches codecs lenient (fuel + 1) cur = (b :: ·) <$> ownedBatches codecs lenient fuel rest := by
  have hempty : cur.isEmpty ≠ true := fun hnil => ne_nil_of_decodeBatch h (List.isEmpty_iff.mp hnil)
  rw [ownedBatches, if_neg hempty, h]

/-- A round that fails ends the loop: the lenient one returns at an error that says that the bytes ran
    out. -/
theorem ownedBatches_error [CrcFast] {lenient : Bool} {fuel : Nat} {cur rest : Bytes} {e : RecordsError}
    (hne : cur ≠ []) (h : decodeBatch codecs cur = (.error e, rest)) :
    (lenient = false ∨ Corrupt e → ownedBatches codecs lenient (fuel + 1) cur = .error e) ∧
      (lenient = true ∧ ¬Corrupt e → ownedBatches codecs lenient (fuel + 1) cur = .ok []) := by
  have hempty : cur.isEmpty ≠ true := fun hnil => hne (List.isEmpty_iff.mp hnil)
  rw [ownedBatches, if_neg hempty, h]
  cases e with
  | headerTooShort n =>
    refine ⟨fun hfail => ?_, fun hcut => by rw [hcut.1]; rfl⟩
    rw [hfail.resolve_right fun hc => hc]
    rfl
  | bodyTooShort n =>
    refine ⟨fun hfail => ?_, fun hcut => by rw [hcut.1]; rfl⟩
    rw [hfail.resolve_right fun hc => hc]
    rfl
  | unsupportedMagic found => exact ⟨fun _ => rfl, fun hcut => absurd trivial hcut.2⟩
  | crcMismatch expected computed => exact ⟨fun _ => rfl, fun hcut => absurd trivial hcut.2⟩
  | recordParse text => exact ⟨fun _ => rfl, fun hcut => absurd trivial hcut.2⟩
  | compression error => exact ⟨fun _ => rfl, fun hcut => absurd trivial hcut.2⟩
  | zerocopyFailure => exact ⟨fun _ => rfl, fun hcut => absurd trivial hcut.2⟩

/-- One round of the lenient loop. -/
theorem ownedBatches_succ [CrcFast] {fuel : Nat} {cur : Bytes} {bs : List RecordBatch} (hne : cur ≠ []) :
    ownedBatches codecs true (fuel + 1) cur = .ok bs ↔
      (CutShort cur ∧ bs = []) ∨
        ∃ b rest bs', decodeBatch codecs cur = (.ok b, rest) ∧
          ownedBatches codecs true fuel rest = .ok bs' ∧ bs = b :: bs' := by
  rcases hdec : decodeBatch codecs cur with ⟨e | b, rest⟩
  · have hno : ¬∃ b rest' bs', ((.error e : Except RecordsError RecordBatch), rest) = (.ok b, rest') ∧
        ownedBatches codecs true fuel rest' = .ok bs' ∧ bs = b :: bs' := by
      rintro ⟨b, rest', bs', h, -⟩
      cases h
    rw [or_iff_left hno, cutShort_iff hne hdec]
    obtain ⟨hfail, hstop⟩ := @ownedBatches_error codecs _ true fuel cur rest e hne hdec
    by_cases hcorrupt : Corrupt e
    · rw [hfail (Or.inr hcorrupt)]
      exact iff_of_false (fun h => by cases h) (fun h => h.1 hcorrupt)
    · rw [hstop ⟨rfl, hcorrupt⟩]
      exact ⟨fun h => ⟨hcorrupt, (Except.ok.inj h).symm⟩, fun h => by rw [h.2]⟩
  · obtain ⟨hdr, raw, hf, -⟩ := decodeBatch_eq_ok.mp hdec
    rw [or_iff_right fun h => not_cutShort_of_framed hf h.1, ownedBatches_ok hdec, map_eq_ok]
    constructor
    · rintro ⟨bs', hbs', rfl⟩
      exact ⟨b, rest, bs', rfl, hbs', rfl⟩
    · rintro ⟨b', rest', bs', h, hbs', rfl⟩
      cases h
      exact ⟨bs', hbs', rfl⟩

theorem ownedBatches_nil [CrcFast] {fuel : Nat} {bs : List RecordBatch} :
    ownedBatches codecs true fuel [] = .ok bs ↔
      ∃ frames rest, BatchRun [] frames rest ∧ List.Forall₂ (ReadsBatch codecs) frames bs ∧
        (∀ f ∈ frames, Whole codecs f) ∧ (rest = [] ∨ CutShort rest) := by
  rw [ownedBatches_empty]
  constructor
  · intro h
    cases h
    exact ⟨[], [], .nil [], .nil, fun f hf => absurd hf List.not_mem_nil, Or.inl rfl⟩
  · rintro ⟨frames, rest, hrun, hbs, -, -⟩
    obtain ⟨rfl, -⟩ := hrun.of_nil
    cases hbs
    rfl

/-- **What the owned flavour reads:** the whole batches, up to the end or to where the field was cut. -/
theorem ownedBatches_eq_ok [CrcFast] {fuel : Nat} {cur : Bytes} {bs : List RecordBatch}
    (hfuel : cur.length ≤ fuel) :
    ownedBatches codecs true fuel cur = .ok bs ↔
      ∃ frames rest, BatchRun cur frames rest ∧ List.Forall₂ (ReadsBatch codecs) frames bs ∧
        (∀ f ∈ frames, Whole codecs f) ∧ (rest = [] ∨ CutShort rest) := by
  induction fuel generalizing cur bs with
  | zero =>
    have hnil : cur = [] := List.length_eq_zero_iff.mp (Nat.le_zero.mp hfuel)
    subst hnil
    exact ownedBatches_nil
  | succ fuel ih =>
    by_cases hne : cur = []
    · subst hne
      exact ownedBatches_nil
    · rw [ownedBatches_succ hne]
      constructor
      · rintro (⟨hcut, rfl⟩ | ⟨b, rest, bs', hdec, hrest, rfl⟩)
        · exact ⟨[], cur, .nil cur, .nil, fun f hf => absurd hf List.not_mem_nil, Or.inr hcut⟩
        · obtain ⟨hdr, raw, hf, hwhole, hread⟩ := decodeBatch_eq_ok.mp hdec
          have hlt := length_lt_of_framed hf
          obtain ⟨frames, end', hrun, hbs, hall, hend⟩ := (ih (by omega)).mp hrest
          exact ⟨(hdr, raw) :: frames, end', .cons hf hrun, .cons hread hbs,
            List.forall_mem_cons.mpr ⟨hwhole, hall⟩, hend⟩
      · rintro ⟨frames, rest, hrun, hbs, hall, hend⟩
        cases hrun with
        | nil =>
          cases hbs
          rcases hend with hend | hend
          · exact absurd hend hne
          · exact Or.inl ⟨hend, rfl⟩
        | cons hf hrun =>
          obtain ⟨hwhole, hall⟩ := List.forall_mem_cons.mp hall
          cases hbs with
          | cons hread hbs =>
            have hlt := length_lt_of_framed hf
            exact Or.inr ⟨_, _, _, decodeBatch_eq_ok.mpr ⟨_, _, hf, hwhole, hread⟩,
              (ih (by omega)).mpr ⟨_, rest, hrun, hbs, hall, hend⟩, rfl⟩

/-- The batches of `from_slice`, each converted. -/
def borrowedBatches [CrcFast] (codecs : Compression.Codecs) (cur : Bytes) : Except RecordsError (List RecordBatch) :=
  borrowBatches codecs cur >>= (·.mapM BorrowedBatch.toOwned)

/-- One round of the borrowed loop. -/
theorem borrowedBatches_cons [CrcFast] {cur : Bytes} {bs : List RecordBatch} (hne : cur ≠ []) :
    borrowedBatches codecs cur = .ok bs ↔
      ∃ b rest bs', decodeBorrowToOwned codecs .default cur = .ok (b, rest) ∧
        borrowedBatches codecs rest = .ok bs' ∧ bs = b :: bs' := by
  have hempty : cur.isEmpty ≠ true := fun h => hne (List.isEmpty_iff.mp h)
  unfold borrowedBatches decodeBorrowToOwned
  rw [borrowBatches, if_neg hempty]
  simp only [bind_eq_ok]
  constructor
  · rintro ⟨bbs, hbbs, hmap⟩
    split at hbbs
    · cases hbbs
    · rename_i bb rest hdec
      obtain ⟨bbs', hbbs', rfl⟩ := map_eq_ok.mp hbbs
      rw [mapM_eq_ok] at hmap
      cases hmap with
      | cons hb hmap =>
        exact ⟨_, rest, _, ⟨(bb, rest), hdec, _, hb, rfl⟩, ⟨bbs', hbbs', mapM_eq_ok.mpr hmap⟩, rfl⟩
  · rintro ⟨b, rest, bs', ⟨⟨bb, rest'⟩, hdec, owned, howned, h⟩, ⟨bbs', hbbs', hmap⟩, rfl⟩
    cases h
    refine ⟨bb :: bbs', ?_, mapM_eq_ok.mpr (.cons howned (mapM_eq_ok.mp hmap))⟩
    split
    · rename_i e he
      cases hdec.symm.trans he
    · rename_i bb' rest' hdec'
      cases hdec.symm.trans hdec'
      exact map_eq_ok.mpr ⟨bbs', hbbs', rfl⟩

/-- **What the borrowed flavour reads:** batches whose records can be parsed, to the end. -/
theorem borrowedBatches_eq_ok [CrcFast] {cur : Bytes} {bs : List RecordBatch} :
    borrowedBatches codecs cur = .ok bs ↔
      ∃ frames, BatchRun cur frames [] ∧ List.Forall₂ (ReadsBatch codecs) frames bs := by
  -- by induction on the bytes that are left
  induction hn : cur.length using Nat.strong_induction_on generalizing cur bs with
  | _ n ih =>
    by_cases hne : cur = []
    · subst hne
      constructor
      · intro h
        rw [borrowedBatches, borrowBatches] at h
        cases h
        exact ⟨[], .nil [], .nil⟩
      · rintro ⟨frames, hrun, hbs⟩
        obtain ⟨rfl, -⟩ := hrun.of_nil
        cases hbs
        rw [borrowedBatches, borrowBatches]
        rfl
    · rw [borrowedBatches_cons hne]
      constructor
      · rintro ⟨b, rest, bs', hdec, hrest, rfl⟩
        obtain ⟨hdr, raw, hf, hread⟩ := decodeBorrow_eq_ok.mp hdec
        have hlt := length_lt_of_framed hf
        obtain ⟨frames, hrun, hbs⟩ := (ih _ (by omega) rfl).mp hrest
        exact ⟨(hdr, raw) :: frames, .cons hf hrun, .cons hread hbs⟩
      · rintro ⟨frames, hrun, hbs⟩
        cases hrun with
        | nil => exact absurd rfl hne
        | cons hf hrun =>
          cases hbs with
          | cons hread hbs =>
            have hlt := length_lt_of_framed hf
            exact ⟨_, _, _, decodeBorrow_eq_ok.mpr ⟨_, _, hf, hread⟩,
              (ih _ (by omega) rfl).mpr ⟨_, hrun, hbs⟩, rfl⟩

/-! ## Where they agree

The conditions of both loops are compared over the same run. -/

/-- Of batches, the two readers agree where their loops do. -/
theorem fetchFlavoursAgree_v2 [CrcFast] {bytes : Bytes} (hv2 : looksLikeV2 bytes = true) :
    FetchFlavoursAgree codecs bytes ↔
      ∀ bs, ownedBatches codecs true bytes.length bytes = .ok bs ↔
        borrowedBatches codecs bytes = .ok bs := by
  have howned : ∀ p, fromFetchBytes codecs bytes = .ok p ↔
      ∃ bs, ownedBatches codecs true bytes.length bytes = .ok bs ∧ RecordsPayload.v2 bs = p := by
    intro p
    rw [fromFetchBytes, if_pos hv2, map_eq_ok]
  have hborrowed : ∀ p, fromSliceToOwned codecs bytes = .ok p ↔
      ∃ bs, borrowedBatches codecs bytes = .ok bs ∧ RecordsPayload.v2 bs = p := by
    intro p
    rw [fromSliceToOwned, RecordsPayloadBorrowed.fromSlice, if_pos hv2, bind_eq_ok]
    constructor
    · rintro ⟨q, hq, hp⟩
      obtain ⟨bbs, hbbs, rfl⟩ := map_eq_ok.mp hq
      obtain ⟨bs, hbs, rfl⟩ := map_eq_ok.mp hp
      exact ⟨bs, bind_eq_ok.mpr ⟨bbs, hbbs, hbs⟩, rfl⟩
    · rintro ⟨bs, hbs, rfl⟩
      obtain ⟨bbs, hbbs, hmap⟩ := bind_eq_ok.mp hbs
      exact ⟨.v2 bbs, map_eq_ok.mpr ⟨bbs, hbbs, rfl⟩, map_eq_ok.mpr ⟨bs, hmap, rfl⟩⟩
  unfold FetchFlavoursAgree
  constructor
  · intro hagree bs
    have h := hagree (.v2 bs)
    rw [howned, hborrowed] at h
    simpa using h
  · intro hagree p
    rw [howned, hborrowed]
    simp only [hagree]

/-- **The flavours of a response's records field.** They agree on a field exactly when it is a legacy
    message set, or neither cut short behind whole batches nor a run of parsable batches of which one is
    loose. -/
theorem fetchFlavours_agree_iff [CrcFast] (codecs : Compression.Codecs) (bytes : Bytes) :
    FetchFlavoursAgree codecs bytes ↔
      (looksLikeV2 bytes = true → ¬CutTail codecs bytes ∧ ¬LooseEnd codecs bytes) := by
  by_cases hv2 : looksLikeV2 bytes = true
  · rw [fetchFlavoursAgree_v2 hv2]
    constructor
    · rintro hagree -
      constructor
      · rintro ⟨frames, rest, hrun, hall, hcut⟩
        -- the owned flavour stops at the cut, so the borrowed one would have to reach the end there
        obtain ⟨bs, hbs⟩ := exists_batches (fun f hf => (hall f hf).readable)
        have howned := (ownedBatches_eq_ok le_rfl).mpr ⟨frames, rest, hrun, hbs, hall, Or.inr hcut⟩
        obtain ⟨frames', hrun', hbs'⟩ := borrowedBatches_eq_ok.mp ((hagree bs).mp howned)
        have hlen : frames'.length = frames.length := hbs'.length_eq.trans hbs.length_eq.symm
        exact hcut.1 (hrun.unique hrun' hlen).2.symm
      · rintro ⟨frames, hrun, hall, f, hf, hloose⟩
        obtain ⟨bs, hbs⟩ := exists_batches hall
        have hborrowed := borrowedBatches_eq_ok.mpr ⟨frames, hrun, hbs⟩
        obtain ⟨frames', rest', hrun', hbs', hall', -⟩ :=
          (ownedBatches_eq_ok le_rfl).mp ((hagree bs).mpr hborrowed)
        have hlen : frames'.length = frames.length := hbs'.length_eq.trans hbs.length_eq.symm
        obtain ⟨rfl, -⟩ := hrun.unique hrun' hlen
        exact hloose (hall' f hf)
    · intro hclean bs
      obtain ⟨hcut, hloose⟩ := hclean hv2
      rw [ownedBatches_eq_ok le_rfl, borrowedBatches_eq_ok]
      constructor
      · rintro ⟨frames, rest, hrun, hbs, hall, rfl | hshort⟩
        · exact ⟨frames, hrun, hbs⟩
        · exact absurd ⟨frames, rest, hrun, hall, hshort⟩ hcut
      · rintro ⟨frames, hrun, hbs⟩
        refine ⟨frames, [], hrun, hbs, fun f hf => ?_, Or.inl rfl⟩
        by_contra hnot
        exact hloose ⟨frames, hrun, readable_of_reads hbs, f, hf, hnot⟩
  · have hlegacy : FetchFlavoursAgree codecs bytes := by
      intro p
      rw [fromFetchBytes, fromSliceToOwned, RecordsPayloadBorrowed.fromSlice, if_neg hv2, if_neg hv2]
      rfl
    exact iff_of_true hlegacy (fun h => absurd h hv2)

/-- A batch of one record, and the first 20 bytes of the next one. -/
def cutField : Bytes := oneRecordBatch ++ oneRecordBatch.take 20

/-- The owned flavour reads the batch in front of the cut, the borrowed one refuses the field. -/
theorem not_fetchFlavoursAgree_cutField :
    fromFetchBytes Compression.Codecs.disabled cutField =
      .ok (.v2 [{ records := [{ value := some [42], headers := [⟨"k", none⟩] }] }]) ∧
    (∃ text, fromSliceToOwned Compression.Codecs.disabled cutField = .error (.recordParse text)) ∧
    ¬FetchFlavoursAgree Compression.Codecs.disabled cutField := by
  have howned : fromFetchBytes Compression.Codecs.disabled cutField =
      .ok (.v2 [{ records := [{ value := some [42], headers := [⟨"k", none⟩] }] }]) := by
    decide +kernel
  have hborrowed : fromSliceToOwned Compression.Codecs.disabled cutField = .error (.recordParse
      ("borrowed v2 decode: " ++ (RecordsError.headerTooShort 41).protocol.message)) := by
    decide +kernel
  refine ⟨howned, ⟨_, hborrowed⟩, fun hagree => ?_⟩
  cases hborrowed.symm.trans ((hagree _).mp howned)

end Krabka.Protocol.Records
