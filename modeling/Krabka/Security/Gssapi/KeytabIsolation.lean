import Krabka.Lib.LocalReader
import Krabka.Security.Gssapi.Keytab

/-!
# `Security.Gssapi.KeytabIsolation` — what an entry's key is made of

An entry whose fields end within its declared size gives the key that its own bytes spell, whatever is
around it. The parser bounds the fields by the file and not by the entry: fields that reach past the entry
take bytes of what follows, and these are then parsed a second time as the next record.
-/

namespace Krabka.Security.Gssapi

open FixedWidth Text ByteStream Reader Protocol

/-! ## Records

The file is cut at the declared sizes alone, without a look at what is inside. -/

/-- A record of the file, as the sizes alone delimit it. -/
inductive Record where
  | hole (n : Nat)
  | entry (own : Bytes)
deriving DecidableEq, Repr

/-- The first record, and the rest of the file behind it. -/
def nextRecord (rest : Bytes) : Option (Record × Bytes) :=
  if rest.length < 4 then none
  else
    let size := i32OfBE (rest.take 4)
    let body := rest.drop 4
    match entrySize size with
    | none => some (.hole size.toInt.natAbs, body.drop size.toInt.natAbs)
    | some n => some (.entry (body.take n), body.drop n)

theorem length_nextRecord {rest next : Bytes} {r : Record} (h : nextRecord rest = some (r, next)) :
    next.length < rest.length := by
  unfold nextRecord at h
  split at h
  · cases h
  · have hdrop (n : Nat) : ((rest.drop 4).drop n).length < rest.length := by
      rw [List.length_drop, List.length_drop]
      omega
    dsimp only at h
    split at h
    · cases h
      exact hdrop _
    · cases h
      exact hdrop _

def records (rest : Bytes) : List Record :=
  match _ : nextRecord rest with
  | none => []
  | some (r, next) => r :: records next
termination_by rest.length
decreasing_by exact length_nextRecord ‹_›

/-- The record's own bytes, for an entry. -/
def Record.own? : Record → Option Bytes
  | .hole _ => none
  | .entry own => some own

/-- What a record is to the sizes around it. -/
def Record.shape : Record → Bool × Nat
  | .hole n => (false, n)
  | .entry own => (true, own.length)

/-- The records of a file, behind its magic. -/
def fileRecords (bytes : Bytes) : List Record := records (bytes.drop 2)

/-- The own bytes of the entries of a file. -/
def ownBytes (bytes : Bytes) : List Bytes := (fileRecords bytes).filterMap Record.own?

/-- The same records, up to what is in the entries and the holes. -/
def SameBoundaries (bytes bytes' : Bytes) : Prop :=
  (fileRecords bytes').map Record.shape = (fileRecords bytes).map Record.shape

/-- The counted strings and the key block end within the entry. -/
def Contained (own : Bytes) : Prop := ∃ f left, fields own.length own = .ok (f, left)

/-- The key that an entry's bytes spell, read alone. -/
def keyOf (own : Bytes) : Option KeytabKey :=
  (fields own.length own).toOption.map fun p => p.1.toKey (kvnoOf p.1 p.2)

/-! ## The claims of the format

A key depends on the bytes of its own record, and a record whose fields do not fit is refused. -/

/-- Each key is the entry's own: another file with the same boundaries and the same bytes in that entry has
the same key in its place. -/
def Isolated (bytes : Bytes) (keys : List KeytabKey) : Prop :=
  ∀ (bytes' : Bytes) (keys' : List KeytabKey), parseKeytab bytes' = .ok keys' → SameBoundaries bytes bytes' →
    ∀ (i : Nat) (own : Bytes), (ownBytes bytes)[i]? = some own → (ownBytes bytes')[i]? = some own →
      keys'[i]? = keys[i]?

/-- An entry whose fields reach past its end is an error. -/
def RefusesOverlong (bytes : Bytes) : Prop :=
  ∀ own ∈ ownBytes bytes, ¬Contained own →
    ∃ offset needed, parseKeytab bytes = .error (.truncated offset needed)

/-! ## The fields alone

The readers of the fields are local: what they took they take again in front of anything. -/

/-- Taking bytes looks at nothing behind them. -/
theorem local_take (len n : Nat) : Local (take len n) := Local.take n _

/-- One byte. -/
theorem local_u8 (len : Nat) : Local (u8 len) := (local_take len 1).bind fun _ => Local.pure _

/-- Two bytes. -/
theorem local_u16 (len : Nat) : Local (u16 len) := (local_take len 2).bind fun _ => Local.pure _

/-- Four bytes. -/
theorem local_u32 (len : Nat) : Local (u32 len) := (local_take len 4).bind fun _ => Local.pure _

/-- A counted text. -/
theorem local_countedStr (len : Nat) : Local (countedStr len) :=
  (local_u16 len).bind fun _ => (local_take len _).bind fun _ => Local.pure _

/-- **The fields of an entry are read off their own bytes.** -/
theorem local_fields (len : Nat) : Local (fields len) :=
  (local_u16 len).bind fun _ => (local_countedStr len).bind fun _ =>
    (Local.times (fun _ => local_countedStr len) _ 0).bind fun _ => (local_u32 len).bind fun _ =>
      (local_u32 len).bind fun _ => (local_u8 len).bind fun _ => (local_u16 len).bind fun _ =>
        (local_u16 len).bind fun _ => (local_take len _).bind fun _ => Local.pure _

/-- The length of the file is for the errors only. -/
theorem alike_take (len len' n : Nat) : Alike (take len n) (take len' n) := Alike.take n _ _

theorem alike_countedStr (len len' : Nat) : Alike (countedStr len) (countedStr len') :=
  ((alike_take len len' 2).bind fun _ => Alike.refl _).bind fun n =>
    (alike_take len len' n.toNat).bind fun _ => Alike.refl _

theorem alike_u32 (len len' : Nat) : Alike (u32 len) (u32 len') :=
  (alike_take len len' 4).bind fun _ => Alike.refl _

theorem alike_u16 (len len' : Nat) : Alike (u16 len) (u16 len') :=
  (alike_take len len' 2).bind fun _ => Alike.refl _

/-- They are read alike in a file of any length. -/
theorem alike_fields (len len' : Nat) : Alike (fields len) (fields len') :=
  (alike_u16 len len').bind fun _ => (alike_countedStr len len').bind fun _ =>
    (Alike.times (fun _ => alike_countedStr len len') _ 0).bind fun _ => (alike_u32 len len').bind fun _ =>
      (alike_u32 len len').bind fun _ => ((alike_take len len' 1).bind fun _ => Alike.refl _).bind fun _ =>
        (alike_u16 len len').bind fun _ => (alike_u16 len len').bind fun _ =>
          (alike_take len len' _).bind fun _ => Alike.refl _

/-- **An entry that contains its fields gives the key it spells**, in any file and before anything. -/
theorem entry_contained {own : Bytes} (h : Contained own) (len : Nat) (tail : Bytes) :
    ∃ key left, keyOf own = some key ∧ entry len own.length (own ++ tail) = .ok (key, left) := by
  obtain ⟨f, left, hf⟩ := h
  have hfields : fields len (own ++ tail) = .ok (f, left ++ tail) :=
    (local_fields len).append ((alike_fields own.length len own (f, left)).mp hf) tail
  have hle : left.length ≤ own.length := by
    obtain ⟨w, hown, _⟩ := local_fields own.length own f left hf
    rw [hown, List.length_append]
    omega
  obtain ⟨rest, hentry⟩ := entry_of_fields hfields hle
  exact ⟨_, rest, by rw [keyOf, hf]; rfl, hentry⟩

/-! ## The loop follows the records

A round ends where the declared size says, whatever the fields took. -/

/-- A record is its size and as many bytes as that says. -/
theorem nextRecord_of_size {w : Bytes} (hw : w.length = 4) (body : Bytes) :
    nextRecord (w ++ body) =
      match entrySize (i32OfBE w) with
      | none => some (.hole (i32OfBE w).toInt.natAbs, body.drop (i32OfBE w).toInt.natAbs)
      | some n => some (.entry (body.take n), body.drop n) := by
  unfold nextRecord
  rw [if_neg (by rw [List.length_append, hw]; omega), List.take_left' hw, List.drop_left' hw]

/-- What a round answers of the record in front of it. -/
def Round.Follows (len : Nat) (rest : Bytes) : Round → Prop
  | .stop => nextRecord rest = none
  | .hole next => ∃ n, nextRecord rest = some (.hole n, next)
  | .key k next => ∃ own left, nextRecord rest = some (.entry own, next) ∧
      entry len own.length (own ++ next) = .ok (k, left)

/-- A turn of the parser follows the record that it meets. -/
theorem round_follows {len : Nat} {rest : Bytes} {r : Round} (h : round len rest = .ok r) :
    r.Follows len rest := by
  by_cases hshort : rest.length < 4
  · rw [round_of_short hshort] at h
    cases h
    exact if_pos hshort
  · obtain ⟨w, body, hw, rfl⟩ : ∃ w body, w.length = 4 ∧ rest = w ++ body :=
      ⟨rest.take 4, rest.drop 4, List.length_take_of_le (by omega), (List.take_append_drop 4 rest).symm⟩
    have hnext := nextRecord_of_size hw body
    rw [round_of_size hw] at h
    cases hsize : entrySize (i32OfBE w) with
    | none =>
        rw [hsize] at h hnext
        obtain ⟨⟨skipped, after⟩, htake, rfl⟩ := Results.map_eq_ok.mp h
        obtain ⟨rfl, hlen⟩ := take_eq_ok.mp htake
        rw [List.drop_left' hlen] at hnext
        exact ⟨_, hnext⟩
    | some n =>
        rw [hsize] at h hnext
        dsimp only at h
        split at h
        · cases h
        · rename_i hfits
          obtain ⟨⟨key, left⟩, hentry, rfl⟩ := Results.map_eq_ok.mp h
          refine ⟨body.take n, left, hnext, ?_⟩
          rwa [List.take_append_drop, List.length_take_of_le (by omega)]

/-- Behind the last record there is none. -/
theorem records_none {rest : Bytes} (h : nextRecord rest = none) : records rest = [] := by
  rw [records]
  split <;> simp_all

/-- A record is followed by those behind it. -/
theorem records_some {rest next : Bytes} {r : Record} (h : nextRecord rest = some (r, next)) :
    records rest = r :: records next := by
  rw [records]
  split <;> simp_all

/-- The key in an entry's place, when the entry spells one. -/
def Spells (key : KeytabKey) (own : Bytes) : Prop := Contained own → keyOf own = some key

/-- **Each entry has its key in its place**, and every contained one has the key it spells. -/
theorem entries_spell {len : Nat} {rest : Bytes} {keys : List KeytabKey} (h : entries len rest = .ok keys) :
    List.Forall₂ Spells keys ((records rest).filterMap Record.own?) := by
  induction hn : rest.length using Nat.strongRecOn generalizing rest keys with
  | ind n ih =>
      cases hround : round len rest with
      | error e =>
          rw [entries_error hround] at h
          cases h
      | ok r =>
          have hfollows := round_follows hround
          cases r with
          | stop =>
              rw [entries_stop hround] at h
              cases h
              rw [records_none hfollows]
              exact .nil
          | hole next =>
              obtain ⟨k, hnext⟩ := hfollows
              rw [entries_hole hround] at h
              rw [records_some hnext]
              exact ih next.length (hn ▸ length_nextRecord hnext) h rfl
          | key key next =>
              obtain ⟨own, left, hnext, hentry⟩ := hfollows
              rw [entries_key hround] at h
              obtain ⟨keys', hkeys', rfl⟩ := Results.map_eq_ok.mp h
              rw [records_some hnext]
              refine .cons ?_ (ih next.length (hn ▸ length_nextRecord hnext) hkeys' rfl)
              intro hcontained
              obtain ⟨key', left', hkey', hentry'⟩ := entry_contained hcontained len next
              rw [hentry] at hentry'
              cases hentry'
              exact hkey'

/-- **The keys that are parsed are spelled by the entries**, one by one. -/
theorem parseKeytab_spell {bytes : Bytes} {keys : List KeytabKey} (h : parseKeytab bytes = .ok keys) :
    List.Forall₂ Spells keys (ownBytes bytes) := by
  obtain ⟨⟨magic, rest⟩, hmagic, h⟩ := Results.bind_eq_ok.mp h
  obtain ⟨w, rfl, hw, _⟩ := take_map_eq_ok.mp hmagic
  unfold ownBytes fileRecords
  rw [List.drop_left' hw]
  dsimp only at h
  split at h
  · cases h
  · exact entries_spell h

/-- The key in the place of a contained entry. -/
theorem key_of_contained {bytes own : Bytes} {keys : List KeytabKey} {i : Nat}
    (h : parseKeytab bytes = .ok keys) (hi : (ownBytes bytes)[i]? = some own) (hcontained : Contained own) :
    keys[i]? = keyOf own := by
  have hspell := parseKeytab_spell h
  obtain ⟨hbound, rfl⟩ := List.getElem?_eq_some_iff.mp hi
  have hkeys : i < keys.length := hspell.length_eq ▸ hbound
  rw [List.getElem?_eq_getElem hkeys]
  exact (hspell.get hkeys hbound hcontained).symm

/-! ## The condition

The fields of every record end within it. -/

/-- **The keys are isolated and overlong entries refused exactly when no entry is overlong.** -/
theorem isolated_iff {bytes : Bytes} {keys : List KeytabKey} (h : parseKeytab bytes = .ok keys) :
    (Isolated bytes keys ∧ RefusesOverlong bytes) ↔ ∀ own ∈ ownBytes bytes, Contained own := by
  constructor
  · rintro ⟨-, hrefuses⟩ own hown
    by_contra hover
    obtain ⟨offset, needed, herror⟩ := hrefuses own hown hover
    rw [h] at herror
    cases herror
  · intro hall
    constructor
    · intro bytes' keys' h' _ i own hi hi'
      have hcontained := hall own (List.mem_of_getElem? hi)
      rw [key_of_contained h hi hcontained, key_of_contained h' hi' hcontained]
    · intro own hown hover
      exact absurd (hall own hown) hover

/-- An entry with two bytes for a key of `keyLen`. -/
def bareEntry (keyLen : UInt8) : Bytes :=
  [0, 0, 0, 0] ++ [0, 0, 0, 1] ++ [0, 0, 0, 0] ++ [7] ++ [0, 18] ++ [0, keyLen] ++ [9, 9]

/-- That entry, and a hole with two bytes of freed space behind it. -/
def entryAndHole (keyLen freed : UInt8) : Bytes :=
  [0x05, 0x02] ++ ([0, 0, 0, 19] ++ bareEntry keyLen) ++ ([0xff, 0xff, 0xff, 0xfe] ++ [freed, freed])

theorem isolated_iff_contained :
    (Isolated (entryAndHole 2 1) [⟨[], [], 18, 7, [9, 9]⟩] ∧ RefusesOverlong (entryAndHole 2 1)) ↔
      ∀ own ∈ ownBytes (entryAndHole 2 1), Contained own :=
  isolated_iff (by decide +kernel)

/-- What the parser makes of a key that claims the size of the hole and the freed space. -/
def absorbed (freed : UInt8) : KeytabKey := ⟨[], [], 18, 7, [9, 9, 0xff, 0xff, 0xff, 0xfe, freed, freed]⟩

/-- **A key of eight bytes is read out of the record behind its entry**, and changes with what was freed. -/
theorem not_isolated :
    parseKeytab (entryAndHole 8 1) = .ok [absorbed 1] ∧ ¬Isolated (entryAndHole 8 1) [absorbed 1] ∧
      ¬RefusesOverlong (entryAndHole 8 1) := by
  have hparse : parseKeytab (entryAndHole 8 1) = .ok [absorbed 1] := by decide +kernel
  have hother : parseKeytab (entryAndHole 8 2) = .ok [absorbed 2] := by decide +kernel
  have hrecords : fileRecords (entryAndHole 8 1) = [.entry (bareEntry 8), .hole 2] := by decide +kernel
  have hrecords' : fileRecords (entryAndHole 8 2) = [.entry (bareEntry 8), .hole 2] := by decide +kernel
  have hown : ownBytes (entryAndHole 8 1) = [bareEntry 8] := by
    rw [ownBytes, hrecords]
    rfl
  have hown' : ownBytes (entryAndHole 8 2) = [bareEntry 8] := by
    rw [ownBytes, hrecords']
    rfl
  refine ⟨hparse, fun hisolated => ?_, fun hrefuses => ?_⟩
  · have hsame : SameBoundaries (entryAndHole 8 1) (entryAndHole 8 2) := by
      rw [SameBoundaries, hrecords, hrecords']
    have hkey := hisolated _ _ hother hsame 0 (bareEntry 8) (by rw [hown]; rfl) (by rw [hown']; rfl)
    exact absurd hkey (by decide)
  · have hover : ¬Contained (bareEntry 8) := by
      rintro ⟨f, left, hf⟩
      have herror : (fields (bareEntry 8).length (bareEntry 8)).isOk = false := by decide +kernel
      rw [hf] at herror
      cases herror
    obtain ⟨offset, needed, herror⟩ := hrefuses (bareEntry 8) (by rw [hown]; simp) hover
    rw [hparse] at herror
    cases herror

end Krabka.Security.Gssapi
