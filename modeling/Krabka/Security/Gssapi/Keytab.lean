import Krabka.Lib.LossyText
import Krabka.Protocol.Primitives
import Krabka.Security.Principal

/-!
# `Security.Gssapi.Keytab` — the keytab parser

The parser of `keytab.rs`. A cursor is what is left of the file; its offset follows from the length of the
file. The fields of an entry are read with a cursor that only the file bounds, and the cursor is then put at
the end that the entry's size declares.
-/

namespace Krabka.Security.Gssapi

open FixedWidth Text ByteStream Reader Protocol

def enctypeAes256CtsHmacSha196 : UInt16 := 18

structure KeytabKey where
  components : List (List Char)
  realm : List Char
  enctype : UInt16
  kvno : UInt32
  key : Bytes
deriving DecidableEq, Repr

inductive KeytabError where
  | badMagic (magic : UInt16)
  | truncated (offset needed : Nat)
  | notFound (service : List Char) (enctype : UInt16)
deriving DecidableEq, Repr

/-! ## The cursor

Every read takes bytes off the front, or fails at the end of the file. -/

/-- A reader of a file of `len` bytes. -/
abbrev Cursor (α : Type) := ByteStream.Reader KeytabError α

variable (len : Nat)

/-- `n` bytes. The offset of an error is where the read starts. -/
def take (n : Nat) : Cursor Bytes := ByteStream.Reader.take n fun lack => .truncated (len - (n - lack)) n

def u16OfBE (bs : Bytes) : UInt16 := UInt16.ofBitVec (BitVec.ofNat 16 (WireInt.ofBE bs))

def u8OfBE (bs : Bytes) : UInt8 := UInt8.ofBitVec (BitVec.ofNat 8 (WireInt.ofBE bs))

def u8 : Cursor UInt8 := do return u8OfBE (← take len 1)

def u16 : Cursor UInt16 := do return u16OfBE (← take len 2)

def i32 : Cursor Int32 := do return i32OfBE (← take len 4)

def u32 : Cursor UInt32 := do return u32OfBE (← take len 4)

def countedStr : Cursor (List Char) := do
  let n ← u16 len
  let bytes ← take len n.toNat
  return fromUtf8Lossy bytes

/-! ## One entry

The fields in their order. A number of 32 bits behind them replaces the one of 8, if it is there and not zero.
-/

/-- The fields of an entry that every keytab has. -/
structure Fields where
  realm : List Char
  components : List (List Char)
  nameType : UInt32
  timestamp : UInt32
  kvno8 : UInt8
  enctype : UInt16
  key : Bytes

def fields : Cursor Fields := do
  let numComponents ← u16 len
  let realm ← countedStr len
  let components ← times (fun _ => countedStr len) numComponents.toNat 0
  let nameType ← u32 len
  let timestamp ← u32 len
  let kvno8 ← u8 len
  let enctype ← u16 len
  let keyLen ← u16 len
  let key ← take len keyLen.toNat
  return ⟨realm, components, nameType, timestamp, kvno8, enctype, key⟩

def Fields.toKey (f : Fields) (kvno : UInt32) : KeytabKey :=
  ⟨f.components, f.realm, f.enctype, kvno, f.key⟩

/-- An entry of `size` bytes, with the cursor at its start. The optional `kvno32` is there when four bytes
of the entry remain behind its fields. -/
def entry (size : Nat) : Cursor KeytabKey := do
  let atStart ← remaining
  let f ← fields len
  let atEnd ← remaining
  let kvno ← if 4 ≤ size - (atStart - atEnd) then u32 len else pure f.kvno8.toUInt32
  return f.toKey kvno

/-! ## The file

A round reads a size. A positive one is an entry, a negative one a hole, and a zero ends the file. -/

/-- What one round of the loop comes to, with the cursor behind it. -/
inductive Round where
  | stop
  | hole (rest : Bytes)
  | key (key : KeytabKey) (rest : Bytes)

/-- A size of the rest of the file, as `usize::try_from` and the guard read it: `none` is a hole. -/
def entrySize (size : Int32) : Option Nat := (usizeOfI32 size).filter fun n => 0 < n

def round (rest : Bytes) : Except KeytabError Round :=
  if rest = [] then .ok .stop
  else
    match i32 len rest with
    | .error (.truncated _ _) => .ok .stop
    | .error e => .error e
    | .ok (size, body) =>
        match entrySize size with
        | none => (take len size.toInt.natAbs body).map fun p => .hole p.2
        | some n =>
            if body.length < n then .error (.truncated (len - body.length) n)
            else (entry len n body).map fun p => .key p.1 (body.drop n)

/-- A reader of a fixed number of bytes. -/
theorem take_map_eq_ok {len n : Nat} {α : Type} {f : Bytes → α} {rest left : Bytes} {a : α} :
    (take len n >>= fun w => pure (f w) : Cursor α) rest = .ok (a, left) ↔
      ∃ w, rest = w ++ left ∧ w.length = n ∧ f w = a := by
  unfold take
  rw [ByteStream.Reader.bind_eq_ok]
  simp only [take_eq_ok]
  constructor
  · rintro ⟨w, mid, ⟨rfl, hw⟩, h⟩
    cases h
    exact ⟨w, rfl, hw, rfl⟩
  · rintro ⟨w, rfl, hw, rfl⟩
    exact ⟨w, left, ⟨rfl, hw⟩, rfl⟩

theorem i32_eq_ok {len : Nat} {rest body : Bytes} {size : Int32} :
    i32 len rest = .ok (size, body) ↔ ∃ w, rest = w ++ body ∧ w.length = 4 ∧ i32OfBE w = size :=
  take_map_eq_ok

theorem u32_append (len : Nat) {left : Bytes} (h : 4 ≤ left.length) (tail : Bytes) :
    u32 len (left ++ tail) = .ok (u32OfBE (left.take 4), left.drop 4 ++ tail) := by
  refine take_map_eq_ok.mpr ⟨left.take 4, ?_, List.length_take_of_le h, rfl⟩
  rw [← List.append_assoc, List.take_append_drop]

/-- The number that the bytes behind the key leave. -/
def kvnoOf (f : Fields) (left : Bytes) : UInt32 :=
  if 4 ≤ left.length then u32OfBE (left.take 4) else f.kvno8.toUInt32

/-- **An entry whose fields leave `left` of it.** What remains decides which number counts. -/
theorem entry_of_fields {len : Nat} {own left tail : Bytes} {f : Fields}
    (h : fields len (own ++ tail) = .ok (f, left ++ tail)) (hle : left.length ≤ own.length) :
    ∃ rest, entry len own.length (own ++ tail) = .ok (f.toKey (kvnoOf f left), rest) := by
  have hremaining (bs : Bytes) : (remaining : Cursor Nat) bs = .ok (bs.length, bs) := rfl
  have hleft : own.length - ((own ++ tail).length - (left ++ tail).length) = left.length := by
    simp only [List.length_append]
    omega
  unfold entry kvnoOf
  rw [bind_of_ok (hremaining _), bind_of_ok h, bind_of_ok (hremaining _), hleft]
  split
  · rename_i hlong
    exact ⟨_, by rw [bind_of_ok (u32_append len hlong tail)]; rfl⟩
  · exact ⟨left ++ tail, rfl⟩

/-- A round that reads a size. -/
theorem round_of_size {len : Nat} {w : Bytes} (hw : w.length = 4) (body : Bytes) :
    round len (w ++ body) =
      match entrySize (i32OfBE w) with
      | none => (take len (i32OfBE w).toInt.natAbs body).map fun p => .hole p.2
      | some n =>
          if body.length < n then .error (.truncated (len - body.length) n)
          else (entry len n body).map fun p => .key p.1 (body.drop n) := by
  have hne : w ++ body ≠ [] := by
    intro h
    rw [(List.append_eq_nil_iff.mp h).1] at hw
    cases hw
  have hsize : i32 len (w ++ body) = .ok (i32OfBE w, body) := i32_eq_ok.mpr ⟨w, rfl, hw, rfl⟩
  unfold round
  rw [if_neg hne, hsize]

/-- Fewer than four bytes are padding. -/
theorem round_of_short {len : Nat} {rest : Bytes} (h : rest.length < 4) : round len rest = .ok .stop := by
  unfold round
  split
  · rfl
  · have hshort : i32 len rest = .error (.truncated (len - (4 - (4 - rest.length))) 4) := by
      refine bind_of_error ?_
      unfold take ByteStream.Reader.take
      rw [if_pos h]
    rw [hshort]

/-- The cursor behind a round that goes on. -/
def Round.next? : Round → Option Bytes
  | .stop => none
  | .hole rest => some rest
  | .key _ rest => some rest

/-- A round that goes on has read a size, at least. -/
theorem length_next {len : Nat} {rest next : Bytes} {r : Round} (h : round len rest = .ok r)
    (hnext : r.next? = some next) : next.length + 4 ≤ rest.length := by
  unfold round at h
  split at h
  · cases h
    cases hnext
  · split at h
    · cases h
      cases hnext
    · cases h
    · rename_i size body hsize
      obtain ⟨w, rfl, hw, _⟩ := i32_eq_ok.mp hsize
      rw [List.length_append, hw]
      split at h
      · obtain ⟨⟨skipped, after⟩, htake, rfl⟩ := Results.map_eq_ok.mp h
        obtain ⟨hbody, _⟩ := take_eq_ok.mp htake
        cases hnext
        rw [hbody, List.length_append]
        show after.length + 4 ≤ _
        omega
      · split at h
        · cases h
        · obtain ⟨_, _, rfl⟩ := Results.map_eq_ok.mp h
          cases hnext
          rw [List.length_drop]
          omega

theorem length_lt_of_round {len : Nat} {rest next : Bytes} {r : Round} (h : round len rest = .ok r)
    (hnext : r.next? = some next) : next.length < rest.length := by
  have hlen := length_next h hnext
  omega

def entries (len : Nat) (rest : Bytes) : Except KeytabError (List KeytabKey) :=
  match _ : round len rest with
  | .error e => .error e
  | .ok .stop => .ok []
  | .ok (.hole next) => entries len next
  | .ok (.key key next) => (entries len next).map (key :: ·)
termination_by rest.length
decreasing_by
  · exact length_lt_of_round ‹_› rfl
  · exact length_lt_of_round ‹_› rfl

theorem entries_stop {len : Nat} {rest : Bytes} (h : round len rest = .ok .stop) :
    entries len rest = .ok [] := by
  rw [entries]
  split <;> simp_all

theorem entries_hole {len : Nat} {rest next : Bytes} (h : round len rest = .ok (.hole next)) :
    entries len rest = entries len next := by
  rw [entries]
  split <;> simp_all

theorem entries_key {len : Nat} {rest next : Bytes} {key : KeytabKey}
    (h : round len rest = .ok (.key key next)) :
    entries len rest = (entries len next).map (key :: ·) := by
  rw [entries]
  split <;> simp_all

theorem entries_error {len : Nat} {rest : Bytes} {e : KeytabError} (h : round len rest = .error e) :
    entries len rest = .error e := by
  rw [entries]
  split <;> simp_all

def parseKeytab (bytes : Bytes) : Except KeytabError (List KeytabKey) := do
  let (magic, rest) ← u16 bytes.length bytes
  if magic ≠ 0x0502 then .error (.badMagic magic) else entries bytes.length rest

end Krabka.Security.Gssapi
