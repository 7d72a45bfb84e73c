import Krabka.Compression
import Krabka.Lib.FixedWidth
import Krabka.Lib.Results
import Krabka.Lib.Scratch
import Krabka.Lib.WireInt

/-!
# `Compression.Lz4` — the LZ4 frame around the blocks

The block compressors are parameters: the fast one of `lz4rip`, without and with the thread's own table, and the
HC one of `lzzzz`. A block of the frame is a size and the bytes stored under it; `StoredAs` says what makes it a
block for a chunk of the input. Every way `write_block` has to store a chunk makes such a block
(`writeBlock_storedAs`), and a reader that walks over such blocks finds the chunks again (`walk_of_storedAs`).
-/

namespace Krabka.Compression.Lz4

open ByteStream Results Scratch WireInt

def defaultLevel : Int32 := 9

def blockSizeMax : Nat := 64 * 1024

def minCompressibleBlock : Nat := 13

def blockUncompressedBit : UInt32 := 0x80000000

def frameHeader : Bytes := [0x04, 0x22, 0x4D, 0x18, 0x60, 0x40, 0x82]

def liblz4HcClevelMax : Int32 := 12

/-- The block compressors, with the worst case of either path, and the block decoder of a consumer. `σ` is the
    table that `CompressorRef` keeps for the thread. -/
structure BlockCodecs (σ : Type) where
  getMaximumOutputSize : Nat → Nat
  compressInto : Bytes → (scratch : Bytes) → Except String (Filled scratch)
  compressorRef : σ → Bytes → (scratch : Bytes) → Except String (Filled scratch × σ)
  maxCompressedSize : Nat → Nat
  hcCompress : Bytes → (scratch : Bytes) → Int32 → Except String (Filled scratch)
  decode : Bytes → Option Bytes

/-- What a call on `block` has written is at least a byte, fits, and decodes to the block where it is shorter. -/
def Faithful (decode : Bytes → Option Bytes) (block : Bytes) {scratch : Bytes} (w : Filled scratch) : Prop :=
  1 ≤ w.count ∧ w.count ≤ scratch.length ∧ (w.count < block.length → decode w.written = some block)

structure BlockCodecs.Lawful {σ : Type} (codecs : BlockCodecs σ) : Prop where
  le_getMaximumOutputSize : ∀ n ≤ blockSizeMax, n ≤ codecs.getMaximumOutputSize n
  le_maxCompressedSize : ∀ n ≤ blockSizeMax, n ≤ codecs.maxCompressedSize n
  compressInto_faithful : ∀ block scratch, block.length ≤ blockSizeMax →
    scratch.length = codecs.getMaximumOutputSize block.length →
      ∃ w, codecs.compressInto block scratch = .ok w ∧ Faithful codecs.decode block w
  compressorRef_faithful : ∀ table block scratch, block.length ≤ blockSizeMax →
    scratch.length = codecs.getMaximumOutputSize block.length →
      ∃ w table', codecs.compressorRef table block scratch = .ok (w, table') ∧ Faithful codecs.decode block w
  hcCompress_faithful : ∀ block scratch level, block.length ≤ blockSizeMax →
    scratch.length = codecs.maxCompressedSize block.length →
      ∃ w, codecs.hcCompress block scratch level = .ok w ∧ Faithful codecs.decode block w

/-! ## Writing a frame

A block that does not shrink is stored as it is, with a bit of its size set. -/

/-- `u32::to_le_bytes`. -/
def toLeBytes (v : UInt32) : Bytes := (putBE 4 v.toNat).reverse

def blockSize (len : Nat) : Except CompressionError UInt32 :=
  okOr (.invalidData ("lz4 block of " ++ toString len ++ " bytes exceeds u32")) (FixedWidth.u32OfLen len)

def scratchError (len : Nat) : CompressionError :=
  .invalidData ("lz4 scratch space too short for a " ++ toString len ++ "-byte block")

/-- What to store of a block after `compress` has filled the scratch area: the size field, the area and how much
    of it. A compression that does not shrink the block is overwritten in place. -/
def storeBlock (block : Bytes) {scratch : Bytes} (w : Filled scratch) :
    Except CompressionError (UInt32 × Bytes × Nat) :=
  if w.count < block.length then do
    let size ← blockSize w.count
    .ok (size, w.bytes, w.count)
  else do
    let (_, behind) ← okOr (scratchError block.length) (splitAtChecked block.length w.bytes)
    let size ← blockSize block.length
    .ok (size ||| blockUncompressedBit, block ++ behind, block.length)

section
variable {σ : Type}

/-- One block, on the output so far and the thread's table. -/
def writeBlock (s : Bytes × σ) (block : Bytes) (maxCompressed : Nat)
    (compress : σ → (scratch : Bytes) → Except CompressionError (Filled scratch × σ)) :
    Except CompressionError (Bytes × σ) :=
  if block.length < minCompressibleBlock then do
    let size ← blockSize block.length
    .ok (s.1 ++ toLeBytes (size ||| blockUncompressedBit) ++ block, s.2)
  else do
    let header := s.1.length
    let (out, _, scratch) ← okOr (scratchError block.length)
      (splitSlot (resize s.1 (header + 4 + maxCompressed)) header)
    let (w, table) ← compress s.2 scratch
    let (size, area, stored) ← storeBlock block w
    .ok ((out ++ toLeBytes size ++ area).take (header + 4 + stored), table)

variable (codecs : BlockCodecs σ)

/-- The closure of `compress`. From 65,535 bytes on the thread's table is used. -/
def fastBlock (block : Bytes) (table : σ) (scratch : Bytes) : Except CompressionError (Filled scratch × σ) :=
  let compressed :=
    if block.length ≥ 65535 then codecs.compressorRef table block scratch
    else (codecs.compressInto block scratch).map fun w => (w, table)
  compressed.mapError fun e => .invalidData ("lz4 compress: " ++ e)

def compress (table : σ) (data : Bytes) : Except CompressionError (Bytes × σ) := do
  let (out, table) ← (chunks blockSizeMax data).foldlM
    (fun s block => writeBlock s block (codecs.getMaximumOutputSize block.length) (fastBlock codecs block))
    (frameHeader, table)
  .ok (out ++ toLeBytes 0, table)

def writeHcBlock (s : Bytes × σ) (block : Bytes) (level : Int32) : Except CompressionError (Bytes × σ) :=
  let level := if level ≤ liblz4HcClevelMax then level else liblz4HcClevelMax
  writeBlock s block (codecs.maxCompressedSize block.length) fun table scratch =>
    ((codecs.hcCompress block scratch level).map fun w => (w, table)).mapError
      fun e => .invalidData ("lz4 hc compress: " ++ e)

def compressWithLevel (table : σ) (data : Bytes) (level : Int32) : Except CompressionError (Bytes × σ) :=
  if level = defaultLevel then compress codecs table data
  else do
    let (out, table) ← (chunks blockSizeMax data).foldlM (fun s block => writeHcBlock codecs s block level)
      (frameHeader, table)
    .ok (out ++ toLeBytes 0, table)

end

/-! ## Reading a frame

The walk needs the sizes only. It ends at the size zero. -/

/-- `u32::from_le_bytes`. -/
def fromLeBytes (bs : Bytes) : UInt32 := UInt32.ofNat (ofBE bs.reverse)

theorem length_toLeBytes (v : UInt32) : (toLeBytes v).length = 4 := by
  unfold toLeBytes
  rw [List.length_reverse, length_putBE]

/-- A little-endian word is read back. -/
theorem fromLeBytes_toLeBytes (v : UInt32) : fromLeBytes (toLeBytes v) = v := by
  unfold fromLeBytes toLeBytes
  rw [List.reverse_reverse, ofBE_putBE, Nat.mod_eq_of_lt (show v.toNat < 256 ^ 4 from v.toNat_lt),
    UInt32.ofNat_toNat]

/-- The high bit of a size: the block is stored as it is. -/
def storedRaw (size : UInt32) : Bool := size &&& blockUncompressedBit != 0

/-- The size without its high bit: how many bytes are stored. -/
def storedLen (size : UInt32) : Nat := (size &&& ~~~blockUncompressedBit).toNat

/-- What a consumer does with the blocks: it stops at the first size that is zero. -/
def walk (decode : Bytes → Option Bytes) (rest : Bytes) : Option Bytes :=
  match _hsize : splitAtChecked 4 rest with
  | none => none
  | some (sizeBytes, tail) =>
      let size := fromLeBytes sizeBytes
      if size = 0 then some []
      else
        match _hblock : splitAtChecked (storedLen size) tail with
        | none => none
        | some (stored, tail') => do
            let block ← if storedRaw size then some stored else decode stored
            let blocks ← walk decode tail'
            some (block ++ blocks)
termination_by rest.length
decreasing_by
  obtain ⟨rfl, hlen⟩ := splitAtChecked_eq_some.mp _hsize
  obtain ⟨rfl, -⟩ := splitAtChecked_eq_some.mp _hblock
  rw [List.length_append, List.length_append]
  omega

/-! ## What the blocks stand for

Each way to store a chunk makes a block for it, and the frame is the header and the blocks of the chunks, with
a size of zero behind them. -/

structure FrameBlock where
  size : UInt32
  stored : Bytes

def FrameBlock.encode (b : FrameBlock) : Bytes := toLeBytes b.size ++ b.stored

/-- The block of a frame for a chunk of the input. -/
structure StoredAs (decode : Bytes → Option Bytes) (chunk : Bytes) (b : FrameBlock) : Prop where
  size_ne_zero : b.size ≠ 0
  storedLen_le : storedLen b.size ≤ blockSizeMax
  length_stored : b.stored.length = storedLen b.size
  length_le : b.stored.length ≤ chunk.length
  raw_iff : storedRaw b.size = true ↔ b.stored = chunk
  decode_stored : storedRaw b.size = false → decode b.stored = some chunk

/-- The high bit is apart from every length. -/
theorem toNat_or_uncompressedBit {n : Nat} (h : n ≤ blockSizeMax) :
    (UInt32.ofNat n ||| blockUncompressedBit).toNat = 2 ^ 31 + n := by
  have hlt : n < 2 ^ 31 := Nat.lt_of_le_of_lt h (by decide)
  rw [UInt32.toNat_or, UInt32.toNat_ofNat_of_lt' (Nat.lt_trans hlt (by decide)), Nat.or_comm]
  exact (Nat.two_pow_add_eq_or_of_lt hlt 1).symm

/-- The stored length is the word without its top bit. -/
theorem storedLen_eq (size : UInt32) : storedLen size = size.toNat % 2 ^ 31 := by
  unfold storedLen
  rw [UInt32.toNat_and]
  exact Nat.and_two_pow_sub_one_eq_mod size.toNat 31

/-- The top bit says that the block is raw. -/
theorem storedRaw_iff (size : UInt32) : storedRaw size = true ↔ 2 ^ 31 ≤ size.toNat := by
  have hlt := size.toNat_lt
  have hand : (size &&& blockUncompressedBit).toNat = (size.toNat.testBit 31).toNat * 2 ^ 31 := by
    rw [UInt32.toNat_and]
    exact Nat.and_two_pow size.toNat 31
  unfold storedRaw
  rw [bne_iff_ne, ne_eq, ← UInt32.toNat_inj, hand, Nat.testBit_eq_decide_div_mod_eq]
  by_cases hhigh : 2 ^ 31 ≤ size.toNat
  · have hdiv : size.toNat / 2 ^ 31 % 2 = 1 := by omega
    rw [hdiv]
    exact iff_of_true (by decide) hhigh
  · have hdiv : size.toNat / 2 ^ 31 % 2 = 0 := by omega
    rw [hdiv]
    exact iff_of_false (by decide) hhigh

/-- The size field of a block stored compressed in `n` bytes. -/
theorem size_compressed {n : Nat} (hpos : 1 ≤ n) (h : n ≤ blockSizeMax) :
    UInt32.ofNat n ≠ 0 ∧ storedLen (UInt32.ofNat n) = n ∧ storedRaw (UInt32.ofNat n) = false := by
  have hlt : n < 2 ^ 31 := Nat.lt_of_le_of_lt h (by decide)
  have hnat : (UInt32.ofNat n).toNat = n := UInt32.toNat_ofNat_of_lt' (Nat.lt_trans hlt (by decide))
  refine ⟨?_, ?_, ?_⟩
  · rw [ne_eq, ← UInt32.toNat_inj, hnat]
    exact Nat.ne_of_gt hpos
  · rw [storedLen_eq, hnat, Nat.mod_eq_of_lt hlt]
  · rw [Bool.eq_false_iff, ne_eq, storedRaw_iff, hnat]
    exact Nat.not_le_of_gt hlt

/-- The size field of a block of `n` bytes stored as it is. -/
theorem size_raw {n : Nat} (h : n ≤ blockSizeMax) :
    UInt32.ofNat n ||| blockUncompressedBit ≠ 0 ∧ storedLen (UInt32.ofNat n ||| blockUncompressedBit) = n ∧
      storedRaw (UInt32.ofNat n ||| blockUncompressedBit) = true := by
  have hlt : n < 2 ^ 31 := Nat.lt_of_le_of_lt h (by decide)
  have hnat := toNat_or_uncompressedBit h
  refine ⟨?_, ?_, ?_⟩
  · rw [ne_eq, ← UInt32.toNat_inj, hnat]
    show ¬2 ^ 31 + n = 0
    omega
  · rw [storedLen_eq, hnat, Nat.add_mod_left, Nat.mod_eq_of_lt hlt]
  · rw [storedRaw_iff, hnat]
    exact Nat.le_add_right _ _

/-- A block of the largest size still has a word. -/
theorem blockSize_of_le {n : Nat} (h : n ≤ blockSizeMax) : blockSize n = .ok (UInt32.ofNat n) := by
  have hlt : n < 2 ^ 32 := Nat.lt_of_le_of_lt h (by decide)
  unfold blockSize FixedWidth.u32OfLen
  rw [if_pos hlt, okOr_some]

section
variable {decode : Bytes → Option Bytes} {chunk : Bytes}

/-- A block that got smaller is stored compressed. -/
theorem storedAs_compressed (hle : chunk.length ≤ blockSizeMax) {stored : Bytes} (hpos : 1 ≤ stored.length)
    (hlt : stored.length < chunk.length) (hdecode : decode stored = some chunk) :
    StoredAs decode chunk ⟨UInt32.ofNat stored.length, stored⟩ := by
  obtain ⟨hne, hlen, hraw⟩ := size_compressed hpos (Nat.le_trans (Nat.le_of_lt hlt) hle)
  refine ⟨hne, ?_, hlen.symm, Nat.le_of_lt hlt, ?_, fun _ => hdecode⟩
  · show storedLen (UInt32.ofNat stored.length) ≤ blockSizeMax
    rw [hlen]
    exact Nat.le_trans (Nat.le_of_lt hlt) hle
  · show storedRaw (UInt32.ofNat stored.length) = true ↔ stored = chunk
    rw [hraw]
    constructor
    · intro h
      cases h
    · rintro rfl
      exact absurd hlt (Nat.lt_irrefl _)

/-- A block that did not is stored as it is. -/
theorem storedAs_raw (hle : chunk.length ≤ blockSizeMax) :
    StoredAs decode chunk ⟨UInt32.ofNat chunk.length ||| blockUncompressedBit, chunk⟩ := by
  obtain ⟨hne, hlen, hraw⟩ := size_raw hle
  refine ⟨hne, ?_, hlen.symm, Nat.le_refl _, ⟨fun _ => rfl, fun _ => hraw⟩, fun h => ?_⟩
  · show storedLen (UInt32.ofNat chunk.length ||| blockUncompressedBit) ≤ blockSizeMax
    rw [hlen]
    exact hle
  · cases hraw.symm.trans h

/-- **Whichever way a block is stored, it is a block for its chunk.** -/
theorem writeBlock_storedAs {σ : Type} {maxCompressed : Nat} {table : σ}
    {compress : σ → (scratch : Bytes) → Except CompressionError (Filled scratch × σ)}
    (hle : chunk.length ≤ blockSizeMax) (hmax : chunk.length ≤ maxCompressed)
    (hcompress : ∀ scratch, scratch.length = maxCompressed →
      ∃ w table', compress table scratch = .ok (w, table') ∧ Faithful decode chunk w) (out : Bytes) :
    ∃ b table', writeBlock (out, table) chunk maxCompressed compress = .ok (out ++ b.encode, table') ∧
      StoredAs decode chunk b := by
  unfold writeBlock
  by_cases hsmall : chunk.length < minCompressibleBlock
  · refine ⟨⟨UInt32.ofNat chunk.length ||| blockUncompressedBit, chunk⟩, table, ?_, storedAs_raw hle⟩
    rw [if_pos hsmall, blockSize_of_le hle, ok_bind, List.append_assoc]
    rfl
  · rw [if_neg hsmall]
    obtain ⟨w, table', hw, hpos, hcount, hdecode⟩ :=
      hcompress (List.replicate maxCompressed 0) List.length_replicate
    simp only [splitSlot_resize, okOr_some, ok_bind, hw]
    unfold storeBlock
    by_cases hshrinks : w.count < chunk.length
    · have hlen := w.length_written hcount
      refine ⟨⟨UInt32.ofNat w.count, w.written⟩, table', ?_, ?_⟩
      · rw [if_pos hshrinks, blockSize_of_le (by omega)]
        simp only [ok_bind]
        rw [take_slot (length_toLeBytes _), List.append_assoc]
        rfl
      · rw [← hlen]
        exact storedAs_compressed hle (by omega) (by omega) (hdecode hshrinks)
    · refine ⟨⟨UInt32.ofNat chunk.length ||| blockUncompressedBit, chunk⟩, table', ?_, storedAs_raw hle⟩
      have hcut : splitAtChecked chunk.length w.bytes =
          some (w.bytes.take chunk.length, w.bytes.drop chunk.length) :=
        if_pos (by rw [w.length_bytes, List.length_replicate]; exact hmax)
      rw [if_neg hshrinks, hcut, blockSize_of_le hle]
      simp only [okOr_some, ok_bind]
      rw [take_slot (length_toLeBytes _), List.take_left, List.append_assoc]
      rfl

end

section
variable {decode : Bytes → Option Bytes} {σ : Type}

/-- What the turns of a loop over the chunks write, when each writes a block for its chunk. -/
theorem writeBlocks_storedAs (decode : Bytes → Option Bytes)
    (turn : Bytes × σ → Bytes → Except CompressionError (Bytes × σ))
    (hturn : ∀ chunk, chunk.length ≤ blockSizeMax → ∀ out table, ∃ b table',
      turn (out, table) chunk = .ok (out ++ b.encode, table') ∧ StoredAs decode chunk b)
    {pieces : List Bytes} (hpieces : ∀ chunk ∈ pieces, chunk.length ≤ blockSizeMax) (out : Bytes) (table : σ) :
    ∃ blocks table', pieces.foldlM turn (out, table) = .ok (out ++ blocks.flatMap FrameBlock.encode, table') ∧
      List.Forall₂ (StoredAs decode) pieces blocks := by
  induction pieces generalizing out table with
  | nil =>
      refine ⟨[], table, ?_, .nil⟩
      rw [List.flatMap_nil, List.append_nil]
      rfl
  | cons chunk pieces ih =>
      obtain ⟨b, table', hone, hstored⟩ := hturn chunk (hpieces chunk List.mem_cons_self) out table
      obtain ⟨blocks, table'', hrest, hblocks⟩ := ih
        (fun chunk' hchunk => hpieces chunk' (List.mem_cons_of_mem _ hchunk)) (out ++ b.encode) table'
      refine ⟨b :: blocks, table'', ?_, .cons hstored hblocks⟩
      rw [List.foldlM_cons, hone, ok_bind, hrest, List.flatMap_cons, List.append_assoc]

/-- A stored block is walked to its chunk. -/
theorem walk_block {b : FrameBlock} {chunk : Bytes} (h : StoredAs decode chunk b) (tail : Bytes) :
    walk decode (b.encode ++ tail) = (walk decode tail).map (chunk ++ ·) := by
  have hsize : splitAtChecked 4 (b.encode ++ tail) = some (toLeBytes b.size, b.stored ++ tail) :=
    splitAtChecked_eq_some.mpr ⟨List.append_assoc _ _ _, length_toLeBytes b.size⟩
  have hstored : splitAtChecked (storedLen (fromLeBytes (toLeBytes b.size))) (b.stored ++ tail) =
      some (b.stored, tail) := by
    rw [fromLeBytes_toLeBytes]
    exact splitAtChecked_eq_some.mpr ⟨rfl, h.length_stored⟩
  rw [walk.eq_def, hsize]
  dsimp only
  rw [hstored]
  dsimp only
  rw [fromLeBytes_toLeBytes, if_neg h.size_ne_zero]
  cases hraw : storedRaw b.size with
  | true =>
      rw [h.raw_iff.mp hraw, if_pos rfl]
      cases walk decode tail with
      | none => rfl
      | some blocks => rfl
  | false =>
      rw [h.decode_stored hraw, if_neg Bool.false_ne_true]
      cases walk decode tail with
      | none => rfl
      | some blocks => rfl

/-- The walk stops at the first size that is zero. -/
theorem walk_end (tail : Bytes) : walk decode (toLeBytes 0 ++ tail) = some [] := by
  have hsize : splitAtChecked 4 (toLeBytes 0 ++ tail) = some (toLeBytes 0, tail) :=
    splitAtChecked_eq_some.mpr ⟨rfl, length_toLeBytes 0⟩
  rw [walk.eq_def, hsize]
  simp only [fromLeBytes_toLeBytes, if_true]

/-- So are all of them, up to the end mark. -/
theorem walk_of_storedAs {pieces : List Bytes} {blocks : List FrameBlock}
    (h : List.Forall₂ (StoredAs decode) pieces blocks) (tail : Bytes) :
    walk decode (blocks.flatMap FrameBlock.encode ++ (toLeBytes 0 ++ tail)) = some pieces.flatten := by
  induction h with
  | nil => exact walk_end tail
  | cons hone _ ih =>
      rw [List.flatMap_cons, List.append_assoc, walk_block hone, ih, List.flatten_cons]
      rfl

end

/-- A frame for the input: the header, a block for each chunk, and the end mark. -/
def IsFrame (decode : Bytes → Option Bytes) (data out : Bytes) : Prop :=
  ∃ blocks : List FrameBlock, out = frameHeader ++ (blocks.flatMap FrameBlock.encode ++ toLeBytes 0) ∧
    List.Forall₂ (StoredAs decode) (chunks blockSizeMax data) blocks

/-- **A frame is walked to its data.** -/
theorem walk_of_isFrame {decode : Bytes → Option Bytes} {data out : Bytes} (h : IsFrame decode data out) :
    walk decode (out.drop frameHeader.length) = some data := by
  obtain ⟨blocks, rfl, hblocks⟩ := h
  have hwalk := walk_of_storedAs hblocks []
  rw [List.append_nil, flatten_chunks (by decide)] at hwalk
  rw [List.drop_left]
  exact hwalk

section
variable {σ : Type} {codecs : BlockCodecs σ}

/-- The fast compressor stores a block that decodes to it. -/
theorem fastBlock_faithful (h : codecs.Lawful) {block scratch : Bytes} (hle : block.length ≤ blockSizeMax)
    (hscratch : scratch.length = codecs.getMaximumOutputSize block.length) (table : σ) :
    ∃ w table', fastBlock codecs block table scratch = .ok (w, table') ∧ Faithful codecs.decode block w := by
  unfold fastBlock
  by_cases hbig : block.length ≥ 65535
  · obtain ⟨w, table', hw, hfaithful⟩ := h.compressorRef_faithful table block scratch hle hscratch
    refine ⟨w, table', ?_, hfaithful⟩
    simp only [if_pos hbig, hw]
    rfl
  · obtain ⟨w, hw, hfaithful⟩ := h.compressInto_faithful block scratch hle hscratch
    refine ⟨w, table, ?_, hfaithful⟩
    simp only [if_neg hbig, hw]
    rfl

/-- It writes a frame of the data. -/
theorem compress_isFrame (h : codecs.Lawful) (table : σ) (data : Bytes) :
    ∃ out table', compress codecs table data = .ok (out, table') ∧ IsFrame codecs.decode data out := by
  obtain ⟨blocks, table', hfold, hblocks⟩ := writeBlocks_storedAs codecs.decode
    (fun s block => writeBlock s block (codecs.getMaximumOutputSize block.length) (fastBlock codecs block))
    (fun chunk hle out table => writeBlock_storedAs hle (h.le_getMaximumOutputSize _ hle)
      (fun scratch hscratch => fastBlock_faithful h hle hscratch table) out)
    (fun chunk hchunk => (bounds_of_mem_chunks hchunk).2) frameHeader table
  refine ⟨_, table', ?_, blocks, rfl, hblocks⟩
  unfold compress
  rw [hfold, ← List.append_assoc]
  rfl

/-- So does the slower compressor, block by block. -/
theorem writeHcBlock_storedAs (h : codecs.Lawful) {chunk : Bytes} (hle : chunk.length ≤ blockSizeMax)
    (level : Int32) (out : Bytes) (table : σ) :
    ∃ b table', writeHcBlock codecs (out, table) chunk level = .ok (out ++ b.encode, table') ∧
      StoredAs codecs.decode chunk b := by
  unfold writeHcBlock
  refine writeBlock_storedAs hle (h.le_maxCompressedSize _ hle) (fun scratch hscratch => ?_) out
  obtain ⟨w, hw, hfaithful⟩ := h.hcCompress_faithful chunk scratch
    (if level ≤ liblz4HcClevelMax then level else liblz4HcClevelMax) hle hscratch
  refine ⟨w, table, ?_, hfaithful⟩
  rw [hw]
  rfl

/-- At every level. -/
theorem compressWithLevel_isFrame (h : codecs.Lawful) (table : σ) (data : Bytes) (level : Int32) :
    ∃ out table', compressWithLevel codecs table data level = .ok (out, table') ∧
      IsFrame codecs.decode data out := by
  unfold compressWithLevel
  by_cases hlevel : level = defaultLevel
  · rw [if_pos hlevel]
    exact compress_isFrame h table data
  · rw [if_neg hlevel]
    obtain ⟨blocks, table', hfold, hblocks⟩ := writeBlocks_storedAs codecs.decode
      (fun s block => writeHcBlock codecs s block level)
      (fun chunk hle out table => writeHcBlock_storedAs h hle level out table)
      (fun chunk hchunk => (bounds_of_mem_chunks hchunk).2) frameHeader table
    refine ⟨_, table', ?_, blocks, rfl, hblocks⟩
    rw [hfold, ← List.append_assoc]
    rfl

end

/-- **The frame is well formed, and a consumer that walks over its blocks gets the input back.** -/
theorem frame_wellFormed {σ : Type} (codecs : BlockCodecs σ) (h : codecs.Lawful) (table : σ) (data : Bytes)
    (level : Int32) :
    (∃ out table', compress codecs table data = .ok (out, table') ∧ IsFrame codecs.decode data out ∧
      walk codecs.decode (out.drop frameHeader.length) = some data) ∧
    (∃ out table', compressWithLevel codecs table data level = .ok (out, table') ∧
      IsFrame codecs.decode data out ∧ walk codecs.decode (out.drop frameHeader.length) = some data) := by
  refine ⟨?_, ?_⟩
  · obtain ⟨out, table', hout, hframe⟩ := compress_isFrame h table data
    exact ⟨out, table', hout, hframe, walk_of_isFrame hframe⟩
  · obtain ⟨out, table', hout, hframe⟩ := compressWithLevel_isFrame h table data level
    exact ⟨out, table', hout, hframe, walk_of_isFrame hframe⟩

/-! ## Compressors that know one match

LZ4 writes twenty zero bytes as one literal, a match of fourteen at distance one and the last five bytes. The
compressors here know this one block and write everything else as literals, behind the length of a run. -/

def zeros : Bytes := List.replicate 20 0

def zerosBlock : Bytes := [0x1A, 0, 1, 0, 0x50, 0, 0, 0, 0, 0]

/-- The token and the length bytes of `n` literals. -/
def literalToken (n : Nat) : Bytes :=
  if n < 15 then [UInt8.ofNat (n * 16)]
  else 0xF0 :: (List.replicate ((n - 15) / 255) 0xFF ++ [UInt8.ofNat ((n - 15) % 255)])

def oneMatchBlock (block : Bytes) : Bytes :=
  if block = zeros then zerosBlock else literalToken block.length ++ block

def oneMatchCompress (block scratch : Bytes) : Except String (Filled scratch) :=
  if h : (oneMatchBlock block).length ≤ scratch.length then .ok (.ofBytes scratch (oneMatchBlock block) h)
  else .error "output is too small"

def oneMatchCodecs : BlockCodecs Unit where
  getMaximumOutputSize n := n + n / 255 + 16
  compressInto := oneMatchCompress
  compressorRef table block scratch := (oneMatchCompress block scratch).map fun w => (w, table)
  maxCompressedSize n := n + n / 255 + 16
  hcCompress block scratch _ := oneMatchCompress block scratch
  decode stored := if stored = zerosBlock then some zeros else none

theorem oneMatchCompress_faithful (block scratch : Bytes)
    (hscratch : scratch.length = block.length + block.length / 255 + 16) :
    ∃ w, oneMatchCompress block scratch = .ok w ∧ Faithful oneMatchCodecs.decode block w := by
  by_cases hzeros : block = zeros
  · have hblock : oneMatchBlock block = zerosBlock := if_pos hzeros
    have hfits : (oneMatchBlock block).length ≤ scratch.length := by
      rw [hblock, hscratch, hzeros]
      decide
    refine ⟨_, dif_pos hfits, ?_, hfits, fun _ => ?_⟩
    · show 1 ≤ (oneMatchBlock block).length
      rw [hblock]
      decide
    · rw [Filled.written_ofBytes, hblock, hzeros]
      show (if zerosBlock = zerosBlock then some zeros else none) = some zeros
      exact if_pos rfl
  · have hblock : oneMatchBlock block = literalToken block.length ++ block := if_neg hzeros
    have htoken : 1 ≤ (literalToken block.length).length ∧
        (literalToken block.length).length ≤ block.length / 255 + 2 := by
      unfold literalToken
      split
      · exact ⟨Nat.le_refl 1, Nat.le_add_left 1 _⟩
      · rw [List.length_cons, List.length_append, List.length_replicate, List.length_singleton]
        omega
    have hlen : (oneMatchBlock block).length = (literalToken block.length).length + block.length := by
      rw [hblock, List.length_append]
    have hfits : (oneMatchBlock block).length ≤ scratch.length := by omega
    refine ⟨_, dif_pos hfits, ?_, hfits, fun hlt => ?_⟩
    · show 1 ≤ (oneMatchBlock block).length
      omega
    · exact absurd hlt (by show ¬(oneMatchBlock block).length < block.length; omega)

theorem oneMatchCodecs_lawful : oneMatchCodecs.Lawful where
  le_getMaximumOutputSize n _ := by
    show n ≤ n + n / 255 + 16
    omega
  le_maxCompressedSize n _ := by
    show n ≤ n + n / 255 + 16
    omega
  compressInto_faithful block scratch _ hscratch := oneMatchCompress_faithful block scratch hscratch
  compressorRef_faithful table block scratch _ hscratch := by
    obtain ⟨w, hw, hfaithful⟩ := oneMatchCompress_faithful block scratch hscratch
    refine ⟨w, table, ?_, hfaithful⟩
    show (oneMatchCompress block scratch).map _ = _
    rw [hw]
    rfl
  hcCompress_faithful block scratch _ _ hscratch := oneMatchCompress_faithful block scratch hscratch

/-- The frame of twenty zero bytes, at the first level of HC. -/
theorem frame_wellFormed_zeros :
    compressWithLevel oneMatchCodecs () zeros 1 =
      .ok (frameHeader ++ [10, 0, 0, 0] ++ zerosBlock ++ [0, 0, 0, 0], ()) ∧
    walk oneMatchCodecs.decode ([10, 0, 0, 0] ++ zerosBlock ++ [0, 0, 0, 0]) = some zeros := by
  have hframe : compressWithLevel oneMatchCodecs () zeros 1 =
      .ok (frameHeader ++ [10, 0, 0, 0] ++ zerosBlock ++ [0, 0, 0, 0], ()) := by
    unfold compressWithLevel
    rw [if_neg (by decide), chunks_of_length_le (by decide) (by decide)]
    rfl
  obtain ⟨-, out, table, hout, -, hwalk⟩ := frame_wellFormed oneMatchCodecs oneMatchCodecs_lawful () zeros 1
  have hsame := (Prod.mk.inj (Except.ok.inj (hout.symm.trans hframe))).1
  rw [hsame] at hwalk
  exact ⟨hframe, hwalk⟩

end Krabka.Compression.Lz4
