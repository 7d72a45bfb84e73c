import Krabka.Security.Gssapi.Keytab

/-!
# `Security.Gssapi.KeytabFormat` — the parser inverts the format

The documented format as a writer: entries whose strings and keys fit their counts, holes of freed space,
and padding too short for a size. The parser answers the entries of every such file, in order. On any bytes
at all its loop ends, since a round that goes on reads a size.
-/

namespace Krabka.Security.Gssapi

open FixedWidth Text ByteStream Reader Protocol

/-! ## The writer

The fields of an entry, its size in front, and what may lie between entries. -/

def putU16 (v : UInt16) : Bytes := WireInt.putBE 2 v.toBitVec.toNat

def putU8 (v : UInt8) : Bytes := WireInt.putBE 1 v.toBitVec.toNat

/-- A string that fits its count. -/
structure Counted where
  text : List Char
  fits : (bytesOf text).length < 2 ^ 16

/-- `u16 len + bytes`. -/
def putCounted (bytes : Bytes) : Bytes := putU16 (UInt16.ofNat bytes.length) ++ bytes

def Counted.encode (s : Counted) : Bytes := putCounted (bytesOf s.text)

/-- What an entry says. Without a `kvno32` fewer than four unknown bytes are behind the key. -/
structure EntrySpec where
  realm : Counted
  components : List Counted
  componentsFit : components.length < 2 ^ 16
  nameType : UInt32
  timestamp : UInt32
  kvno8 : UInt8
  enctype : UInt16
  key : Bytes
  keyFits : key.length < 2 ^ 16
  kvno32 : Option UInt32
  trailing : Bytes
  trailingFits : kvno32 = none → trailing.length < 4

namespace EntrySpec

variable (e : EntrySpec)

def encodeFields : Bytes :=
  putU16 (UInt16.ofNat e.components.length) ++ (e.realm.encode ++ (e.components.flatMap Counted.encode ++
    (putU32 e.nameType ++ (putU32 e.timestamp ++ (putU8 e.kvno8 ++ (putU16 e.enctype ++ putCounted e.key))))))

/-- The entry behind its size. -/
def encodeBody : Bytes := e.encodeFields ++ ((e.kvno32.map putU32).getD [] ++ e.trailing)

def fields : Fields :=
  ⟨e.realm.text, e.components.map Counted.text, e.nameType, e.timestamp, e.kvno8, e.enctype, e.key⟩

/-- `kvno32` when present and `kvno8` otherwise. -/
def kvno : UInt32 := e.kvno32.getD e.kvno8.toUInt32

def toKey : KeytabKey := e.fields.toKey e.kvno

end EntrySpec

/-- An entry whose size is an `i32`. -/
structure Entry extends EntrySpec where
  sizeFits : toEntrySpec.encodeBody.length < 2 ^ 31

/-- Freed space: a size that is not positive, and as many bytes. -/
structure Hole where
  size : Int32
  freed : Bytes
  notPositive : size.toInt ≤ 0
  filled : freed.length = size.toInt.natAbs

inductive Item where
  | entry (e : Entry)
  | hole (h : Hole)

def Item.encode : Item → Bytes
  | .entry e => putI32 (Int32.ofInt e.encodeBody.length) ++ e.encodeBody
  | .hole h => putI32 h.size ++ h.freed

def Item.toKey? : Item → Option KeytabKey
  | .entry e => some e.toKey
  | .hole _ => none

def magicBytes : Bytes := [0x05, 0x02]

def serialize (items : List Item) (padding : Bytes) : Bytes :=
  magicBytes ++ (items.flatMap Item.encode ++ padding)

/-! ## Fields

Each is read back in front of anything. -/

theorem length_putU16 (v : UInt16) : (putU16 v).length = 2 := WireInt.length_putBE _ _

theorem length_putU8 (v : UInt8) : (putU8 v).length = 1 := WireInt.length_putBE _ _

theorem reads_u16 (len : Nat) (v : UInt16) : Reads (u16 len) (putU16 v) v := by
  have htake : Reads (take len 2) (putU16 v) (putU16 v) := Reads.take (length_putU16 v)
  have h := htake.map u16OfBE
  rwa [u16OfBE, putU16, WireInt.ofNat_ofBE_putBE (by decide), UInt16.ofBitVec_toBitVec] at h

theorem reads_u8 (len : Nat) (v : UInt8) : Reads (u8 len) (putU8 v) v := by
  have htake : Reads (take len 1) (putU8 v) (putU8 v) := Reads.take (length_putU8 v)
  have h := htake.map u8OfBE
  rwa [u8OfBE, putU8, WireInt.ofNat_ofBE_putBE (by decide), UInt8.ofBitVec_toBitVec] at h

theorem reads_u32 (len : Nat) (v : UInt32) : Reads (u32 len) (putU32 v) v := by
  have htake : Reads (take len 4) (putU32 v) (putU32 v) := Reads.take (length_putU32 v)
  have h := htake.map u32OfBE
  rwa [u32OfBE_putU32] at h

/-- A count and its bytes. -/
theorem reads_putCounted (len : Nat) {bytes : Bytes} (h : bytes.length < 2 ^ 16) :
    Reads (u16 len >>= fun n => take len n.toNat) (putCounted bytes) bytes := by
  refine (reads_u16 len _).bind (Reads.take ?_)
  rw [UInt16.toNat_ofNat', Nat.mod_eq_of_lt h]

/-- A counted text is read back. -/
theorem reads_counted (len : Nat) (s : Counted) : Reads (countedStr len) s.encode s.text := by
  have h := (reads_putCounted len s.fits).map fromUtf8Lossy
  rw [fromUtf8Lossy_bytesOf, bind_assoc] at h
  exact h

/-- So are the components of a name. -/
theorem reads_components (len : Nat) (cs : List Counted) (i : Nat) :
    Reads (times (fun _ => countedStr len) cs.length i) (cs.flatMap Counted.encode) (cs.map Counted.text) := by
  induction cs generalizing i with
  | nil => exact Reads.pure []
  | cons c cs ih =>
      rw [List.flatMap_cons]
      exact (reads_counted len c).bind ((ih (i + 1)).map (c.text :: ·))

/-- **The fields come back.** -/
theorem EntrySpec.reads_fields (len : Nat) (e : EntrySpec) :
    Reads (Gssapi.fields len) e.encodeFields e.fields := by
  have hcount : (UInt16.ofNat e.components.length).toNat = e.components.length := by
    rw [UInt16.toNat_ofNat', Nat.mod_eq_of_lt e.componentsFit]
  have hcomponents := reads_components len e.components 0
  rw [← hcount] at hcomponents
  refine (reads_u16 len _).bind ((reads_counted len e.realm).bind
    (hcomponents.bind ((reads_u32 len _).bind ((reads_u32 len _).bind
      ((reads_u8 len _).bind ((reads_u16 len _).bind ?_))))))
  have h := (reads_putCounted len e.keyFits).map fun key =>
    (⟨e.realm.text, e.components.map Counted.text, e.nameType, e.timestamp, e.kvno8, e.enctype, key⟩ : Fields)
  rw [bind_assoc] at h
  exact h

theorem length_encodeFields_pos (e : EntrySpec) : 0 < e.encodeFields.length := by
  unfold EntrySpec.encodeFields
  rw [List.length_append, length_putU16]
  omega

/-- What is behind the fields. -/
def EntrySpec.behind (e : EntrySpec) : Bytes := (e.kvno32.map putU32).getD [] ++ e.trailing

/-- The number behind an entry, if there is one, is its version. -/
theorem kvnoOf_behind (e : EntrySpec) : kvnoOf e.fields e.behind = e.kvno := by
  unfold kvnoOf EntrySpec.kvno EntrySpec.behind
  cases hk : e.kvno32 with
  | none =>
      have hshort := e.trailingFits hk
      exact if_neg (by simpa using hshort)
  | some k =>
      show (if 4 ≤ (putU32 k ++ e.trailing).length then u32OfBE ((putU32 k ++ e.trailing).take 4) else _) = k
      rw [if_pos (by rw [List.length_append, length_putU32]; omega), List.take_left' (length_putU32 k),
        u32OfBE_putU32]

/-- An entry is read back from its own bytes. -/
theorem entry_encodeBody (len : Nat) (e : EntrySpec) (rest : Bytes) :
    ∃ left, entry len e.encodeBody.length (e.encodeBody ++ rest) = .ok (e.toKey, left) := by
  have hbody : e.encodeBody = e.encodeFields ++ e.behind := rfl
  have hfields : fields len (e.encodeBody ++ rest) = .ok (e.fields, e.behind ++ rest) := by
    rw [hbody, List.append_assoc]
    exact e.reads_fields len _
  have hle : e.behind.length ≤ e.encodeBody.length := by
    rw [hbody, List.length_append]
    omega
  obtain ⟨left, hentry⟩ := entry_of_fields hfields hle
  rw [kvnoOf_behind] at hentry
  exact ⟨left, hentry⟩

/-! ## Rounds

An entry is a round of the loop, and so is a hole. -/

/-- A positive size is that of an entry. -/
theorem entrySize_ofLength {n : Nat} (hpos : 0 < n) (h : n < 2 ^ 31) : entrySize (Int32.ofInt n) = some n := by
  have hn : usizeOfI32 (Int32.ofInt n) = some n :=
    usizeOfI32_eq_some.mpr (Int32.toInt_ofInt_of_le (by omega) (by omega))
  rw [entrySize, hn, Option.filter_some, if_pos (by simpa using hpos)]

/-- Any other is that of a hole. -/
theorem entrySize_of_notPositive {size : Int32} (h : size.toInt ≤ 0) : entrySize size = none := by
  unfold entrySize
  rw [Option.filter_eq_none_iff]
  intro n hn
  have hn := usizeOfI32_eq_some.mp hn
  simp
  omega

/-- **A turn reads an entry as its key.** -/
theorem round_entry (len : Nat) (e : Entry) (rest : Bytes) :
    round len ((Item.entry e).encode ++ rest) = .ok (.key e.toKey rest) := by
  have hpos : 0 < e.encodeBody.length := by
    rw [EntrySpec.encodeBody, List.length_append]
    have hfields := length_encodeFields_pos e.toEntrySpec
    omega
  obtain ⟨left, hentry⟩ := entry_encodeBody len e.toEntrySpec rest
  rw [Item.encode, List.append_assoc, round_of_size (length_putI32 _), i32OfBE_putI32,
    entrySize_ofLength hpos e.sizeFits]
  show (if (e.encodeBody ++ rest).length < e.encodeBody.length then _ else _) = _
  rw [if_neg (by rw [List.length_append]; omega), hentry, List.drop_left]
  rfl

/-- A turn passes over a hole. -/
theorem round_hole (len : Nat) (h : Hole) (rest : Bytes) :
    round len ((Item.hole h).encode ++ rest) = .ok (.hole rest) := by
  have htake : take len h.size.toInt.natAbs (h.freed ++ rest) = .ok (h.freed, rest) :=
    take_eq_ok.mpr ⟨rfl, h.filled⟩
  rw [Item.encode, List.append_assoc, round_of_size (length_putI32 _), i32OfBE_putI32,
    entrySize_of_notPositive h.notPositive]
  show (take len h.size.toInt.natAbs (h.freed ++ rest)).map _ = _
  rw [htake]
  rfl

/-! ## Files

An induction over the items of the file. -/

/-- **The loop answers the entries, in order.** -/
theorem entries_encode (len : Nat) (items : List Item) {padding : Bytes} (h : padding.length ≤ 3) :
    entries len (items.flatMap Item.encode ++ padding) = .ok (items.filterMap Item.toKey?) := by
  induction items with
  | nil => exact entries_stop (round_of_short (Nat.lt_succ_of_le h))
  | cons item items ih =>
      rw [List.flatMap_cons, List.append_assoc]
      cases item with
      | entry e =>
          rw [entries_key (round_entry len e _), ih]
          rfl
      | hole hole =>
          rw [entries_hole (round_hole len hole _), ih]
          rfl

/-- **The parser inverts the format, and its loop ends on any bytes.** -/
theorem parseKeytab_serialize :
    (∀ (items : List Item) (padding : Bytes), padding.length ≤ 3 →
      parseKeytab (serialize items padding) = .ok (items.filterMap Item.toKey?)) ∧
    ∀ len : Nat, WellFounded fun next rest : Bytes => ∃ r, round len rest = .ok r ∧ r.next? = some next := by
  constructor
  · intro items padding h
    have hmagic : u16 (serialize items padding).length (serialize items padding) =
        .ok (0x0502, items.flatMap Item.encode ++ padding) := reads_u16 _ 0x0502 _
    unfold parseKeytab
    rw [hmagic, Results.ok_bind]
    exact entries_encode _ items h
  · intro len
    refine Subrelation.wf ?_ (measure List.length).wf
    rintro next rest ⟨r, hr, hnext⟩
    exact length_lt_of_round hr hnext

/-- A principal without components, its second number behind the key. -/
def smallEntry : Entry where
  realm := ⟨['R'], by decide +kernel⟩
  components := []
  componentsFit := by decide
  nameType := 1
  timestamp := 0
  kvno8 := 7
  enctype := enctypeAes256CtsHmacSha196
  key := [9, 9]
  keyFits := by decide
  kvno32 := some 263
  trailing := [0]
  trailingFits := by
    intro h
    cases h
  sizeFits := by decide +kernel

/-- Two bytes of freed space. -/
def smallHole : Hole where
  size := -2
  freed := [1, 1]
  notPositive := by decide
  filled := by decide

theorem parseKeytab_serialize_small :
    parseKeytab (serialize [.hole smallHole, .entry smallEntry] [0]) = .ok [smallEntry.toKey] ∧
    ∀ len : Nat, WellFounded fun next rest : Bytes => ∃ r, round len rest = .ok r ∧ r.next? = some next :=
  ⟨parseKeytab_serialize.1 [.hole smallHole, .entry smallEntry] [0] (by decide), parseKeytab_serialize.2⟩

end Krabka.Security.Gssapi
