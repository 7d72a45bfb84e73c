import Krabka.Compression
import Krabka.Lib.FixedWidth
import Krabka.Lib.Results
import Krabka.Lib.Scratch
import Krabka.Lib.WhileLoop
import Krabka.Lib.WireInt

/-!
# `Compression.Snappy` — xerial framing over raw snappy blocks

The raw codec of the `snap` crate is a parameter: an encoder and a decoder, each with the state that it carries
from call to call. `Framed` says which pieces a run of chunks stands for. The loop of `decompress` reads any such
run as its pieces, as long as they stay within the limit (`decompressLoop_of_framed`), and what it reads is such a
run (`framed_of_decompressLoop`), so the limit decides nothing but whether there is a result.
-/

namespace Krabka.Compression.Snappy

open ByteStream Results Scratch WhileLoop WireInt

/-- `snap::raw`: `Encoder` with state `σ`, `Decoder` with state `δ`. -/
structure SnapRaw (σ δ : Type) where
  newEncoder : σ
  newDecoder : δ
  maxCompressLen : Nat → Nat
  compress : σ → Bytes → (scratch : Bytes) → Except String (Filled scratch) × σ
  decompressLen : Bytes → Except String Nat
  decompress : δ → Bytes → (scratch : Bytes) → Except String (Filled scratch) × δ

def xerialHeader : Bytes :=
  [0x82, 0x53, 0x4E, 0x41, 0x50, 0x50, 0x59, 0x00, 0x00, 0x00, 0x00, 0x01, 0x00, 0x00, 0x00, 0x01]

def xerialChunk : Nat := 32 * 1024

/-- What the crate promises. A block is at most `32 + input + input/6` bytes. -/
structure SnapRaw.Lawful {σ δ : Type} (raw : SnapRaw σ δ) : Prop where
  maxCompressLen_le : ∀ n, raw.maxCompressLen n ≤ 32 + n + n / 6
  compress_fits : ∀ encoder chunk (scratch : Bytes), chunk ≠ [] → chunk.length ≤ xerialChunk →
    scratch.length = raw.maxCompressLen chunk.length →
      ∃ w, (raw.compress encoder chunk scratch).1 = .ok w ∧ w.count ≤ raw.maxCompressLen chunk.length
  decompress_compress : ∀ encoder decoder chunk (scratch out : Bytes) w,
    (raw.compress encoder chunk scratch).1 = .ok w → out.length = chunk.length →
      raw.decompressLen w.written = .ok chunk.length ∧
        ∃ w', (raw.decompress decoder w.written out).1 = .ok w' ∧ w'.written = chunk
  decompress_count : ∀ decoder block (scratch : Bytes) len w, raw.decompressLen block = .ok len →
    (raw.decompress decoder block scratch).1 = .ok w → w.count = len

variable {σ δ : Type} (raw : SnapRaw σ δ)

/-! ## `compress`

A chunk is a length and a block. A chunk may grow by the worst case of the raw codec. -/

/-- One turn of the loop over the chunks, on the output so far and the encoder. -/
def compressChunk (s : Bytes × σ) (chunk : Bytes) : Except CompressionError (Bytes × σ) := do
  let max := raw.maxCompressLen chunk.length
  let header := s.1.length
  let (out, _, scratch) ← okOr (.invalidData "snappy encode: scratch space too short")
    (splitSlot (resize s.1 (header + 4 + max)) header)
  let (written, encoder) := raw.compress s.2 chunk scratch
  let w ← written.mapError fun e => .invalidData ("snappy encode: " ++ e)
  let len ← okOr (.invalidData ("snappy chunk of " ++ toString w.count ++ " bytes exceeds u32"))
    (FixedWidth.u32OfLen w.count)
  .ok ((out ++ putBE 4 len.toNat ++ w.bytes).take (header + 4 + w.count), encoder)

def compress (data : Bytes) : Except CompressionError Bytes := do
  let (out, _) ← (chunks xerialChunk data).foldlM (compressChunk raw) (xerialHeader, raw.newEncoder)
  .ok out

/-! ## `decompress`

The state of the loop is the input that is left and the output so far. Every turn takes at least the length of
a chunk. -/

/-- `a.checked_add(b)` in a `usize`. -/
def checkedAdd (a b : Nat) : Option Nat := if a + b < 2 ^ 64 then some (a + b) else none

/-- The variables of the loop. -/
structure Decompressing (δ : Type) where
  rest : Bytes
  out : Bytes
  decoder : δ

/-- One turn of the loop. `capacity()` is zero only for an empty buffer, so the first allocation puts an empty
    buffer in the place of an empty one. -/
def decompressChunk (maxOutput : UInt64) (s : Decompressing δ) : Except CompressionError (Decompressing δ) := do
  let (len, tail) ← okOr (.invalidData "snappy chunk header truncated") (splitAtChecked 4 s.rest)
  let (block, tail) ← okOr (.invalidData "snappy chunk body truncated") (splitAtChecked (ofBE len) tail)
  let maxOut ← (raw.decompressLen block).mapError fun e => .invalidData ("snappy decode_len: " ++ e)
  let stop ← okOr (.tooLarge maxOutput.toNat) (checkedAdd s.out.length maxOut)
  if stop > maxOutput.toNat then .error (.tooLarge maxOutput.toNat)
  else
    let start := s.out.length
    let out := resize s.out stop
    let (before, scratch) ← okOr (.invalidData "snappy decode: output buffer too short")
      (splitAtChecked start out)
    let (written, decoder) := raw.decompress s.decoder block scratch
    let w ← written.mapError fun e => .invalidData ("snappy decode: " ++ e)
    .ok { rest := tail, out := (before ++ w.bytes).take (start + w.count), decoder }

/-- `while !rest.is_empty()`. -/
def moreChunks (s : Decompressing δ) : Bool := !s.rest.isEmpty

section
variable {raw} {maxOutput : UInt64} {len block tail out : Bytes} {decoder : δ} {maxOut : Nat}

/-- The turn on a chunk with a readable length: the limit is looked at first, then the block is decoded. -/
theorem decompressChunk_of_block (hlen : len.length = 4) (hblock : block.length = ofBE len)
    (hsize : raw.decompressLen block = .ok maxOut) :
    decompressChunk raw maxOutput ⟨len ++ (block ++ tail), out, decoder⟩ =
      if maxOutput.toNat < out.length + maxOut then .error (.tooLarge maxOutput.toNat)
      else
        ((raw.decompress decoder block (List.replicate maxOut 0)).1.mapError
            fun e => .invalidData ("snappy decode: " ++ e)).map
          fun w => ⟨tail, out ++ w.written, (raw.decompress decoder block (List.replicate maxOut 0)).2⟩ := by
  have hhead : splitAtChecked 4 (len ++ (block ++ tail)) = some (len, block ++ tail) :=
    splitAtChecked_eq_some.mpr ⟨rfl, hlen⟩
  have hbody : splitAtChecked (ofBE len) (block ++ tail) = some (block, tail) :=
    splitAtChecked_eq_some.mpr ⟨rfl, hblock⟩
  have hscratch : splitAtChecked out.length (out ++ List.replicate maxOut (0 : UInt8)) =
      some (out, List.replicate maxOut 0) := splitAtChecked_eq_some.mpr ⟨rfl, rfl⟩
  have hcap := maxOutput.toNat_lt
  unfold decompressChunk checkedAdd
  simp only [hhead, hbody, hsize, okOr_some, ok_bind, Except.mapError]
  by_cases hmax : maxOutput.toNat < out.length + maxOut
  · rw [if_pos hmax]
    by_cases hfits : out.length + maxOut < 2 ^ 64
    · rw [if_pos hfits, okOr_some, ok_bind, if_pos hmax]
    · rw [if_neg hfits]
      rfl
  · rw [if_neg hmax, if_pos (by omega), okOr_some, ok_bind, if_neg hmax, resize_add, hscratch, okOr_some,
      ok_bind]
    cases hw : (raw.decompress decoder block (List.replicate maxOut 0)).1 with
    | error e => rfl
    | ok w =>
        show Except.ok _ = Except.ok _
        rw [List.take_length_add_append]
        rfl

/-- What a turn that succeeds has read and done. -/
theorem exists_of_decompressChunk {s t : Decompressing δ} (h : decompressChunk raw maxOutput s = .ok t) :
    ∃ len block maxOut w, s.rest = len ++ (block ++ t.rest) ∧ len.length = 4 ∧ block.length = ofBE len ∧
      raw.decompressLen block = .ok maxOut ∧ s.out.length + maxOut ≤ maxOutput.toNat ∧
      raw.decompress s.decoder block (List.replicate maxOut 0) = (.ok w, t.decoder) ∧
      t.out = s.out ++ w.written := by
  obtain ⟨rest, out, decoder⟩ := s
  have hinv := h
  unfold decompressChunk at hinv
  obtain ⟨⟨len, tail⟩, hhead, hinv⟩ := bind_eq_ok.mp hinv
  obtain ⟨rfl, hlen⟩ := splitAtChecked_eq_some.mp (okOr_eq_ok.mp hhead)
  obtain ⟨⟨block, tail'⟩, hbody, hinv⟩ := bind_eq_ok.mp hinv
  obtain ⟨rfl, hblock⟩ := splitAtChecked_eq_some.mp (okOr_eq_ok.mp hbody)
  obtain ⟨maxOut, hsize, -⟩ := bind_eq_ok.mp hinv
  rw [mapError_eq_ok] at hsize
  rw [decompressChunk_of_block hlen hblock hsize] at h
  by_cases hmax : maxOutput.toNat < out.length + maxOut
  · rw [if_pos hmax] at h
    cases h
  · rw [if_neg hmax] at h
    cases hw : raw.decompress decoder block (List.replicate maxOut 0) with
    | mk written decoder' =>
        rw [hw] at h
        cases written with
        | error e => cases h
        | ok w =>
            cases h
            exact ⟨len, block, maxOut, w, rfl, hlen, hblock, hsize, Nat.le_of_not_lt hmax, hw, rfl⟩

end

/-- A turn takes a chunk away, and a chunk has a length. -/
theorem decompressChunk_falls (maxOutput : UInt64) :
    Falls moreChunks (decompressChunk raw maxOutput) (fun s => s.rest.length) := by
  intro s t _ h
  obtain ⟨len, block, maxOut, w, hrest, hlen, -⟩ := exists_of_decompressChunk h
  show t.rest.length < s.rest.length
  rw [hrest, List.length_append, List.length_append]
  omega

def decompressLoop (maxOutput : UInt64) (s : Decompressing δ) : Except CompressionError (Decompressing δ) :=
  whileLoop moreChunks (decompressChunk raw maxOutput) (fun s => s.rest.length)
    (decompressChunk_falls raw maxOutput) s

def decompress (data : Bytes) (maxOutput : UInt64) : Except CompressionError Bytes := do
  let (header, rest) ← okOr (.invalidData "snappy payload too short for xerial header")
    (splitAtChecked xerialHeader.length data)
  if header.take 8 ≠ xerialHeader.take 8 then .error (.invalidData "snappy missing xerial magic")
  else
    let s ← decompressLoop raw maxOutput ⟨rest, [], raw.newDecoder⟩
    .ok s.out

/-! ## What the chunks stand for

The relation between the bytes of a run of chunks and the pieces that they decode to. -/

/-- The chunks of `rest` decode to the pieces, each with the decoder as the one before left it. -/
inductive Framed : δ → Bytes → List Bytes → Prop where
  | nil {decoder : δ} : Framed decoder [] []
  | chunk {decoder decoder' : δ} {len block tail : Bytes} {maxOut : Nat}
      {w : Filled (List.replicate maxOut 0)} {pieces : List Bytes} :
      len.length = 4 → block.length = ofBE len → raw.decompressLen block = .ok maxOut →
      raw.decompress decoder block (List.replicate maxOut 0) = (.ok w, decoder') →
      Framed decoder' tail pieces → Framed decoder (len ++ (block ++ tail)) (w.written :: pieces)

section
variable {raw} {maxOutput : UInt64}

/-- **The limit is looked at, and nothing else.** -/
theorem decompressLoop_of_framed (h : raw.Lawful) {decoder : δ} {rest : Bytes} {pieces : List Bytes}
    (hframed : Framed raw decoder rest pieces) (out : Bytes) (hout : out.length ≤ maxOutput.toNat) :
    (decompressLoop raw maxOutput ⟨rest, out, decoder⟩).map Decompressing.out =
      if (out ++ pieces.flatten).length ≤ maxOutput.toNat then .ok (out ++ pieces.flatten)
      else .error (.tooLarge maxOutput.toNat) := by
  induction hframed generalizing out with
  | nil =>
      rw [List.flatten_nil, List.append_nil, if_pos hout]
      unfold decompressLoop
      rw [whileLoop_stop rfl]
      rfl
  | @chunk decoder decoder' len block tail maxOut w pieces hlen hblock hsize hw hrest ih =>
      have hcount : w.written.length = maxOut := by
        have hcount := h.decompress_count decoder block _ maxOut w hsize (by rw [hw])
        rw [w.length_written (by rw [hcount, List.length_replicate]), hcount]
      have hmore : moreChunks ⟨len ++ (block ++ tail), out, decoder⟩ = true := by
        cases len with
        | nil => cases hlen
        | cons b bs => rfl
      have hturn : decompressChunk raw maxOutput ⟨len ++ (block ++ tail), out, decoder⟩ = _ :=
        decompressChunk_of_block hlen hblock hsize
      rw [hw] at hturn
      unfold decompressLoop
      by_cases hmax : maxOutput.toNat < out.length + maxOut
      · rw [if_pos hmax] at hturn
        rw [whileLoop_fail hmore hturn, if_neg]
        · rfl
        · simp only [List.length_append, List.flatten_cons]
          omega
      · rw [if_neg hmax] at hturn
        have hrun := ih (out ++ w.written) (by rw [List.length_append]; omega)
        unfold decompressLoop at hrun
        rw [whileLoop_turn hmore hturn, hrun, List.flatten_cons, List.append_assoc]

/-- What the loop has read is a run of chunks. -/
theorem framed_of_decompressLoop {s t : Decompressing δ} (h : decompressLoop raw maxOutput s = .ok t) :
    ∃ pieces, Framed raw s.decoder s.rest pieces := by
  obtain ⟨n, hends⟩ := whileLoop_ends (decompressChunk_falls raw maxOutput) s
  unfold decompressLoop at h
  rw [h] at hends
  generalize hr : (Except.ok t : Except CompressionError (Decompressing δ)) = r at hends
  clear h
  induction hends with
  | @stop s hstop =>
      unfold moreChunks at hstop
      rw [Bool.not_eq_false', List.isEmpty_iff] at hstop
      rw [hstop]
      exact ⟨[], .nil⟩
  | fail _ _ => cases hr
  | turn _ hbody _ ih =>
      obtain ⟨len, block, maxOut, w, hrest, hlen, hblock, hsize, -, hw, -⟩ := exists_of_decompressChunk hbody
      obtain ⟨pieces, hpieces⟩ := ih hr
      rw [hrest]
      exact ⟨_, .chunk hlen hblock hsize hw hpieces⟩

end

/-! ## Round trip and limit

The limit is on the sum of the pieces, so what is accepted is never longer. -/

section
variable {raw} {maxOutput : UInt64}

theorem decompress_of_framed (h : raw.Lawful) {header rest : Bytes} {pieces : List Bytes}
    (hlen : header.length = xerialHeader.length) (hmagic : header.take 8 = xerialHeader.take 8)
    (hframed : Framed raw raw.newDecoder rest pieces) :
    decompress raw (header ++ rest) maxOutput =
      if pieces.flatten.length ≤ maxOutput.toNat then .ok pieces.flatten
      else .error (.tooLarge maxOutput.toNat) := by
  have hcut : splitAtChecked xerialHeader.length (header ++ rest) = some (header, rest) :=
    splitAtChecked_eq_some.mpr ⟨rfl, hlen⟩
  have hloop := decompressLoop_of_framed h hframed [] (Nat.zero_le maxOutput.toNat)
  rw [List.nil_append] at hloop
  rw [← hloop]
  unfold decompress
  simp only [hcut, okOr_some, ok_bind]
  rw [if_neg (not_not_intro hmagic)]
  cases decompressLoop raw maxOutput ⟨rest, [], raw.newDecoder⟩ with
  | error e => rfl
  | ok s => rfl

theorem exists_of_decompress {data out : Bytes} (h : decompress raw data maxOutput = .ok out) :
    ∃ header rest s, data = header ++ rest ∧ header.length = xerialHeader.length ∧
      header.take 8 = xerialHeader.take 8 ∧
      decompressLoop raw maxOutput ⟨rest, [], raw.newDecoder⟩ = .ok s ∧ out = s.out := by
  unfold decompress at h
  obtain ⟨⟨header, rest⟩, hcut, hrun⟩ := bind_eq_ok.mp h
  obtain ⟨hdata, hlen⟩ := splitAtChecked_eq_some.mp (okOr_eq_ok.mp hcut)
  dsimp only at hrun
  by_cases hmagic : header.take 8 = xerialHeader.take 8
  · rw [if_neg (not_not_intro hmagic)] at hrun
    obtain ⟨s, hs, hout⟩ := bind_eq_ok.mp hrun
    exact ⟨header, rest, s, hdata, hlen, hmagic, hs, (Except.ok.inj hout).symm⟩
  · rw [if_pos hmagic] at hrun
    cases hrun

/-- A turn writes no more than the length it has checked against the limit. -/
theorem decompressChunk_within {s t : Decompressing δ} (h : decompressChunk raw maxOutput s = .ok t) :
    t.out.length ≤ maxOutput.toNat := by
  obtain ⟨len, block, maxOut, w, -, -, -, -, hmax, -, hout⟩ := exists_of_decompressChunk h
  have hwritten : w.written.length ≤ maxOut := by
    unfold Filled.written
    rw [List.length_take, w.length_bytes, List.length_replicate]
    exact Nat.min_le_right _ _
  rw [hout, List.length_append]
  omega

theorem length_le_of_decompress {data out : Bytes} (h : decompress raw data maxOutput = .ok out) :
    out.length ≤ maxOutput.toNat := by
  obtain ⟨header, rest, s, -, -, -, hs, rfl⟩ := exists_of_decompress h
  obtain ⟨n, hends⟩ := whileLoop_ends (decompressChunk_falls raw maxOutput) ⟨rest, [], raw.newDecoder⟩
  refine hends.invariant (fun s => s.out.length ≤ maxOutput.toNat) ?_ (Nat.zero_le _) hs
  intro s t _ _ hturn
  exact decompressChunk_within hturn

theorem compressChunk_framed (h : raw.Lawful) {chunk : Bytes} (hne : chunk ≠ [])
    (hle : chunk.length ≤ xerialChunk) (out : Bytes) (encoder : σ) :
    ∃ body encoder', compressChunk raw (out, encoder) chunk = .ok (out ++ body, encoder') ∧
      ∀ decoder, ∃ decoder', ∀ tail pieces, Framed raw decoder' tail pieces →
        Framed raw decoder (body ++ tail) (chunk :: pieces) := by
  have hscratch := List.length_replicate (n := raw.maxCompressLen chunk.length) (a := (0 : UInt8))
  obtain ⟨w, hw, hcount⟩ := h.compress_fits encoder chunk _ hne hle hscratch
  have hbound := h.maxCompressLen_le chunk.length
  have hu32 : w.count < 2 ^ 32 := by
    unfold xerialChunk at hle
    omega
  have hsome : FixedWidth.u32OfLen w.count = some (UInt32.ofNat w.count) := if_pos hu32
  have hnat := FixedWidth.u32OfLen_eq_some.mp hsome
  refine ⟨putBE 4 w.count ++ w.written,
    (raw.compress encoder chunk (List.replicate (raw.maxCompressLen chunk.length) 0)).2, ?_, fun decoder => ?_⟩
  · unfold compressChunk
    simp only [splitSlot_resize, okOr_some, ok_bind, hw, Except.mapError, hsome, hnat]
    rw [take_slot (length_putBE 4 w.count), List.append_assoc]
    rfl
  · obtain ⟨hsize, w', hw', hchunk⟩ := h.decompress_compress encoder decoder chunk _
      (List.replicate chunk.length 0) w hw List.length_replicate
    refine ⟨(raw.decompress decoder w.written (List.replicate chunk.length 0)).2, fun tail pieces htail => ?_⟩
    have hlen : w.written.length = ofBE (putBE 4 w.count) := by
      rw [ofBE_putBE, Nat.mod_eq_of_lt (show w.count < 256 ^ 4 from hu32),
        w.length_written (by rw [hscratch]; exact hcount)]
    have hone : Framed raw decoder (putBE 4 w.count ++ (w.written ++ tail)) (w'.written :: pieces) :=
      .chunk (length_putBE 4 w.count) hlen hsize (Prod.ext hw' rfl) htail
    rw [hchunk, ← List.append_assoc] at hone
    exact hone

theorem compressChunks_framed (h : raw.Lawful) {pieces : List Bytes}
    (hpieces : ∀ chunk ∈ pieces, chunk ≠ [] ∧ chunk.length ≤ xerialChunk) (out : Bytes) (encoder : σ) :
    ∃ body encoder', pieces.foldlM (compressChunk raw) (out, encoder) = .ok (out ++ body, encoder') ∧
      ∀ decoder, Framed raw decoder body pieces := by
  induction pieces generalizing out encoder with
  | nil =>
      refine ⟨[], encoder, ?_, fun decoder => .nil⟩
      rw [List.append_nil]
      rfl
  | cons chunk pieces ih =>
      obtain ⟨hne, hle⟩ := hpieces chunk List.mem_cons_self
      obtain ⟨body, encoder', hone, hframed⟩ := compressChunk_framed h hne hle out encoder
      obtain ⟨body', encoder'', hrest, htail⟩ := ih
        (fun chunk' hchunk => hpieces chunk' (List.mem_cons_of_mem _ hchunk)) (out ++ body) encoder'
      refine ⟨body ++ body', encoder'', ?_, fun decoder => ?_⟩
      · rw [List.foldlM_cons, hone, ok_bind, hrest, List.append_assoc]
      · obtain ⟨decoder', hdecoder⟩ := hframed decoder
        exact hdecoder body' pieces (htail decoder')

theorem exists_compress (h : raw.Lawful) (data : Bytes) :
    ∃ body, compress raw data = .ok (xerialHeader ++ body) ∧
      Framed raw raw.newDecoder body (chunks xerialChunk data) := by
  obtain ⟨body, encoder, hfold, hframed⟩ := compressChunks_framed h
    (fun chunk hchunk => bounds_of_mem_chunks hchunk) xerialHeader raw.newEncoder
  refine ⟨body, ?_, hframed raw.newDecoder⟩
  unfold compress
  rw [hfold]
  rfl

end

/-- **The framing loses nothing, and the limit is a filter on the result.** The loop ends after at most as many
    turns as there are bytes. -/
theorem framing_roundTrip (h : raw.Lawful) :
    (∀ data, ∃ payload, compress raw data = .ok payload ∧
      ∀ maxOutput : UInt64, decompress raw payload maxOutput =
        if data.length ≤ maxOutput.toNat then .ok data else .error (.tooLarge maxOutput.toNat)) ∧
    (∀ payload limit out, decompress raw payload limit = .ok out →
      ∀ maxOutput : UInt64, decompress raw payload maxOutput =
        if out.length ≤ maxOutput.toNat then .ok out else .error (.tooLarge maxOutput.toNat)) ∧
    (∀ payload (maxOutput : UInt64) out, decompress raw payload maxOutput = .ok out →
      out.length ≤ maxOutput.toNat) ∧
    (∀ maxOutput s, ∃ turns ≤ s.rest.length, ∃ r,
      Ends moreChunks (decompressChunk raw maxOutput) turns s r ∧ decompressLoop raw maxOutput s = r) := by
  refine ⟨fun data => ?_, fun payload limit out hok maxOutput => ?_, fun payload maxOutput out hok => ?_,
    fun maxOutput s => ?_⟩
  · obtain ⟨body, hcompress, hframed⟩ := exists_compress h data
    refine ⟨xerialHeader ++ body, hcompress, fun maxOutput => ?_⟩
    rw [decompress_of_framed h rfl rfl hframed, flatten_chunks (by decide)]
  · obtain ⟨header, rest, s, rfl, hlen, hmagic, hs, rfl⟩ := exists_of_decompress hok
    obtain ⟨pieces, hframed⟩ := framed_of_decompressLoop hs
    rw [decompress_of_framed h hlen hmagic hframed] at hok ⊢
    by_cases hle : pieces.flatten.length ≤ limit.toNat
    · rw [if_pos hle] at hok
      rw [← Except.ok.inj hok]
    · rw [if_neg hle] at hok
      cases hok
  · exact length_le_of_decompress hok
  · obtain ⟨n, hends⟩ := whileLoop_ends (decompressChunk_falls raw maxOutput) s
    refine ⟨n, hends.turns_le (decompressChunk_falls raw maxOutput) ?_, _, hends, rfl⟩
    intro t hmore
    unfold moreChunks at hmore
    rw [Bool.not_eq_true', List.isEmpty_eq_false_iff] at hmore
    exact List.length_pos_of_ne_nil hmore

/-! ## A codec that only writes literals

For a chunk in which nothing repeats, a block is the length of the chunk and one literal. -/

def literalTag (n : Nat) : Bytes :=
  if n = 0 then []
  else if n ≤ 60 then [UInt8.ofNat ((n - 1) * 4)]
  else 0xFC :: (putBE 4 (n - 1)).reverse

def literalBlock (chunk : Bytes) : Bytes :=
  putVarint (BitVec.ofNat 32 chunk.length) ++ (literalTag chunk.length ++ chunk)

def readLength : Reader String (BitVec 32) := getVarint "corrupt" "corrupt" 5

def readLiteral (block : Bytes) : Except String Bytes := do
  let (len, rest) ← readLength block
  let tag := literalTag len.toNat
  let data := rest.drop tag.length
  if rest.take tag.length = tag ∧ data.length = len.toNat then .ok data else .error "corrupt"

def literalCodec : SnapRaw Unit Unit where
  newEncoder := ()
  newDecoder := ()
  maxCompressLen n := 32 + n + n / 6
  compress _ chunk scratch :=
    (if h : chunk.length < 2 ^ 32 ∧ (literalBlock chunk).length ≤ scratch.length then
      .ok (.ofBytes scratch (literalBlock chunk) h.2)
    else .error "buffer too small", ())
  decompressLen block := (readLength block).map fun read => read.1.toNat
  decompress _ block scratch :=
    (match readLiteral block with
    | .error e => .error e
    | .ok data =>
        if h : data.length ≤ scratch.length then .ok (.ofBytes scratch data h)
        else .error "buffer too small", ())

theorem length_literalBlock_le (chunk : Bytes) : (literalBlock chunk).length ≤ 10 + chunk.length := by
  have hvarint : (putVarint (BitVec.ofNat 32 chunk.length)).length ≤ 5 := by
    rw [length_putVarint (by decide)]
    unfold varintLen
    split <;> omega
  have htag : (literalTag chunk.length).length ≤ 5 := by
    unfold literalTag
    split
    · exact Nat.zero_le _
    · split
      · rw [List.length_singleton]
        omega
      · rw [List.length_cons, List.length_reverse, length_putBE]
  unfold literalBlock
  rw [List.length_append, List.length_append]
  omega

theorem readLength_literalBlock (chunk : Bytes) :
    readLength (literalBlock chunk) = .ok (BitVec.ofNat 32 chunk.length, literalTag chunk.length ++ chunk) :=
  reads_putVarint "corrupt" "corrupt" (by decide) (by decide) _ _

theorem readLiteral_literalBlock {chunk : Bytes} (h : chunk.length < 2 ^ 32) :
    readLiteral (literalBlock chunk) = .ok chunk := by
  have hnat : (BitVec.ofNat 32 chunk.length).toNat = chunk.length := by
    rw [BitVec.toNat_ofNat, Nat.mod_eq_of_lt h]
  unfold readLiteral
  simp only [readLength_literalBlock, ok_bind, hnat, List.take_left, List.drop_left, and_self, if_true]

theorem decompressLen_of_readLiteral {block data : Bytes} (h : readLiteral block = .ok data) :
    literalCodec.decompressLen block = .ok data.length := by
  unfold readLiteral at h
  obtain ⟨⟨len, rest⟩, hread, h⟩ := bind_eq_ok.mp h
  dsimp only at h
  split at h
  · rename_i hdata
    rw [← Except.ok.inj h, hdata.2]
    show (readLength block).map _ = _
    rw [hread]
    rfl
  · cases h

theorem literalCodec_lawful : literalCodec.Lawful where
  maxCompressLen_le _ := Nat.le_refl _
  compress_fits encoder chunk scratch _ hle hscratch := by
    have hlen := length_literalBlock_le chunk
    have hmax : scratch.length = 32 + chunk.length + chunk.length / 6 := hscratch
    have hfits : chunk.length < 2 ^ 32 ∧ (literalBlock chunk).length ≤ scratch.length := by
      unfold xerialChunk at hle
      omega
    refine ⟨_, dif_pos hfits, ?_⟩
    show (literalBlock chunk).length ≤ 32 + chunk.length + chunk.length / 6
    omega
  decompress_compress encoder decoder chunk scratch out w hw hout := by
    by_cases hfits : chunk.length < 2 ^ 32 ∧ (literalBlock chunk).length ≤ scratch.length
    · have hok : (literalCodec.compress encoder chunk scratch).1 =
          .ok (.ofBytes scratch (literalBlock chunk) hfits.2) := dif_pos hfits
      have hread := readLiteral_literalBlock hfits.1
      rw [← Except.ok.inj (hok.symm.trans hw), Filled.written_ofBytes]
      refine ⟨decompressLen_of_readLiteral hread, .ofBytes out chunk (Nat.le_of_eq hout.symm), ?_,
        Filled.written_ofBytes _⟩
      unfold literalCodec
      simp only [hread]
      exact dif_pos (Nat.le_of_eq hout.symm)
    · have herr : (literalCodec.compress encoder chunk scratch).1 = .error "buffer too small" := dif_neg hfits
      cases herr.symm.trans hw
  decompress_count decoder block scratch len w hsize hw := by
    cases hread : readLiteral block with
    | error e =>
        unfold literalCodec at hw
        simp only [hread] at hw
        cases hw
    | ok data =>
        have hlen := Except.ok.inj ((decompressLen_of_readLiteral hread).symm.trans hsize)
        unfold literalCodec at hw
        simp only [hread] at hw
        by_cases hfits : data.length ≤ scratch.length
        · rw [dif_pos hfits] at hw
          rw [← Except.ok.inj hw]
          exact hlen
        · rw [dif_neg hfits] at hw
          cases hw

/-- `hello` comes back under a limit of five bytes, and under one of four does not. -/
theorem framing_roundTrip_hello :
    compress literalCodec [0x68, 0x65, 0x6C, 0x6C, 0x6F] =
      .ok (xerialHeader ++ [0, 0, 0, 7, 5, 16, 0x68, 0x65, 0x6C, 0x6C, 0x6F]) ∧
    decompress literalCodec (xerialHeader ++ [0, 0, 0, 7, 5, 16, 0x68, 0x65, 0x6C, 0x6C, 0x6F]) 5 =
      .ok [0x68, 0x65, 0x6C, 0x6C, 0x6F] ∧
    decompress literalCodec (xerialHeader ++ [0, 0, 0, 7, 5, 16, 0x68, 0x65, 0x6C, 0x6C, 0x6F]) 4 =
      .error (.tooLarge 4) := by
  have hpayload : compress literalCodec [0x68, 0x65, 0x6C, 0x6C, 0x6F] =
      .ok (xerialHeader ++ [0, 0, 0, 7, 5, 16, 0x68, 0x65, 0x6C, 0x6C, 0x6F]) := by
    unfold compress
    rw [chunks_of_length_le (by decide) (by decide)]
    rfl
  obtain ⟨payload, hcompress, hdecompress⟩ :=
    (framing_roundTrip literalCodec literalCodec_lawful).1 [0x68, 0x65, 0x6C, 0x6C, 0x6F]
  have hsame := Except.ok.inj (hcompress.symm.trans hpayload)
  rw [hsame] at hdecompress
  refine ⟨hpayload, ?_, ?_⟩
  · exact (hdecompress 5).trans (if_pos (by decide))
  · exact (hdecompress 4).trans (if_neg (by decide))

end Krabka.Compression.Snappy
