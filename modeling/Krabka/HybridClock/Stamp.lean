import Krabka.HybridClock.Causality
import Krabka.Lib.BigEndian
import Krabka.Lib.Results

/-!
# `HybridClock.Stamp` — stamps on record headers

The header value of a stamp has 16 bytes and one form only: `decode` reads a stamp from exactly the bytes that
`encode` writes for it (`decode_eq_ok_iff`). A record carries the stamp of its last `krabka.hlc` header, as long
as that header can be read (`extractFromHeaders_eq_some`). Nodes that stamp the records they produce and
observe the stamps of the records they consume are therefore nodes that pass stamps by value:
`carried_ordered` takes a run of the former to a run of the latter.
-/

namespace Krabka.HybridClock

open ByteStream Causality Results Transition WireInt

/-! ## The encoded stamp

Three numbers, big-endian, one after the other. -/

def hlcEncodedLen : Nat := 16

/-- The errors of `encode` and `decode`. -/
inductive StampError where
  | length (len : Nat)
  | nodeIdTooLarge (node : UInt64)
deriving DecidableEq, Repr

/-- Wall time in 8 bytes, counter in 4, node id in 4. -/
def Hlc.encode (s : Hlc) : Except StampError Bytes :=
  if s.node.toNat < 2 ^ 32 then
    .ok (putBE 8 s.wall.toBitVec.toNat ++ (putBE 4 s.counter.toNat ++ putBE 4 s.node.toNat))
  else .error (.nodeIdTooLarge s.node)

def Hlc.decode (bytes : Bytes) : Except StampError Hlc :=
  if bytes.length = hlcEncodedLen then
    .ok {
      wall := Int64.ofBitVec (BitVec.ofNat 64 (ofBE (bytes.take 8)))
      counter := UInt32.ofNat (ofBE ((bytes.drop 8).take 4))
      node := UInt64.ofNat (ofBE ((bytes.drop 8).drop 4)) }
  else .error (.length bytes.length)

/-- A stamp takes its fixed length. -/
theorem length_eq_of_encode {s : Hlc} {bytes : Bytes} (h : s.encode = .ok bytes) :
    bytes.length = hlcEncodedLen := by
  unfold Hlc.encode at h
  split at h
  · cases h
    simp [hlcEncodedLen]
  · cases h

/-- A stamp is read back. -/
theorem decode_encode {s : Hlc} {bytes : Bytes} (h : s.encode = .ok bytes) : Hlc.decode bytes = .ok s := by
  have hlength := length_eq_of_encode h
  unfold Hlc.decode
  rw [if_pos hlength]
  unfold Hlc.encode at h
  split at h
  · rename_i hnode
    cases h
    rw [List.take_left' (length_putBE 8 _), List.drop_left' (length_putBE 8 _),
      List.take_left' (length_putBE 4 _), List.drop_left' (length_putBE 4 _)]
    have hwall : BitVec.ofNat 64 (ofBE (putBE 8 s.wall.toBitVec.toNat)) = s.wall.toBitVec :=
      ofNat_ofBE_putBE (by decide : 8 * 8 = 64) s.wall.toBitVec
    have hcounter : ofBE (putBE 4 s.counter.toNat) = s.counter.toNat := by
      rw [ofBE_putBE]
      exact Nat.mod_eq_of_lt s.counter.toNat_lt
    have hid : ofBE (putBE 4 s.node.toNat) = s.node.toNat := by
      rw [ofBE_putBE]
      exact Nat.mod_eq_of_lt hnode
    rw [hwall, hcounter, hid, UInt32.ofNat_toNat, UInt64.ofNat_toNat]
    rfl
  · cases h

/-- What is read as a stamp is how it is written. -/
theorem encode_decode {s : Hlc} {bytes : Bytes} (h : Hlc.decode bytes = .ok s) : s.encode = .ok bytes := by
  unfold Hlc.decode at h
  split at h
  · rename_i hlength
    cases h
    have hlength : bytes.length = 16 := hlength
    have hwall : (bytes.take 8).length = 8 := by
      rw [List.length_take]
      omega
    have hcounter : ((bytes.drop 8).take 4).length = 4 := by
      rw [List.length_take, List.length_drop]
      omega
    have hnode : ((bytes.drop 8).drop 4).length = 4 := by
      rw [List.length_drop, List.length_drop]
      omega
    have hcounterLt := ofBE_lt ((bytes.drop 8).take 4)
    have hnodeLt := ofBE_lt ((bytes.drop 8).drop 4)
    rw [hcounter] at hcounterLt
    have hnodeLt : ofBE ((bytes.drop 8).drop 4) < 2 ^ 32 := by rwa [hnode] at hnodeLt
    have hid : (UInt64.ofNat (ofBE ((bytes.drop 8).drop 4))).toNat = ofBE ((bytes.drop 8).drop 4) := by
      rw [UInt64.toNat_ofNat']
      exact Nat.mod_eq_of_lt (hnodeLt.trans (by decide))
    have hcount : (UInt32.ofNat (ofBE ((bytes.drop 8).take 4))).toNat = ofBE ((bytes.drop 8).take 4) := by
      rw [UInt32.toNat_ofNat']
      exact Nat.mod_eq_of_lt hcounterLt
    unfold Hlc.encode
    simp only [hid, hcount]
    rw [if_pos hnodeLt]
    have h8 := putBE_toNat_ofBE hwall (rfl : 8 * 8 = 64)
    have h4 := putBE_ofBE ((bytes.drop 8).take 4)
    have h4' := putBE_ofBE ((bytes.drop 8).drop 4)
    rw [hcounter] at h4
    rw [hnode] at h4'
    show Except.ok (putBE 8 (BitVec.ofNat 64 (ofBE (bytes.take 8))).toNat ++ _) = _
    rw [h8, h4, h4', List.take_append_drop, List.take_append_drop]
  · cases h

/-- **One form only.** A stamp is read from the bytes that it is written as, and from no others. -/
theorem decode_eq_ok_iff {s : Hlc} {bytes : Bytes} : Hlc.decode bytes = .ok s ↔ s.encode = .ok bytes :=
  ⟨encode_decode, decode_encode⟩

/-! ## The header

Of several headers of the name the last one counts. -/

def hlcHeader : String := "krabka.hlc"

def Hlc.header (s : Hlc) : Except StampError (String × Bytes) := do
  let value ← s.encode
  return (hlcHeader, value)

/-- The stamp of the last header with the key, if it can be read. -/
def extractFromHeaders (headers : List (String × Bytes)) : Option Hlc := do
  let value ← ((headers.filter (fun h => h.1 == hlcHeader)).map (·.2)).getLast?
  (Hlc.decode value).toOption

theorem toOption_eq_some {ε α : Type} {x : Except ε α} {a : α} : x.toOption = some a ↔ x = .ok a := by
  cases x <;> simp [Except.toOption]

/-- The value of the last header with the key. -/
theorem lastHeader_eq_some {headers : List (String × Bytes)} {value : Bytes} :
    ((headers.filter (fun h => h.1 == hlcHeader)).map (·.2)).getLast? = some value ↔
      ∃ front back, headers = front ++ (hlcHeader, value) :: back ∧ ∀ h ∈ back, h.1 ≠ hlcHeader := by
  simp only [List.getLast?_map, List.getLast?_filter, Option.map_eq_some_iff, List.find?_eq_some_iff_append]
  constructor
  · rintro ⟨entry, ⟨hkey, back, front, heq, hback⟩, rfl⟩
    have hkey : entry.1 = hlcHeader := by simpa using hkey
    refine ⟨front.reverse, back.reverse, ?_, fun h hh => ?_⟩
    · rw [← hkey, ← List.reverse_reverse headers, heq]
      simp
    · simpa using hback h (List.mem_reverse.mp hh)
  · rintro ⟨front, back, rfl, hback⟩
    refine ⟨(hlcHeader, value), ⟨by simp, back.reverse, front.reverse, by simp, fun h hh => ?_⟩, rfl⟩
    simpa using hback h (List.mem_reverse.mp hh)

/-- **What a record carries.** It carries a stamp exactly when the value of its last header with the key is the
    bytes of that stamp. -/
theorem extractFromHeaders_eq_some {headers : List (String × Bytes)} {s : Hlc} :
    extractFromHeaders headers = some s ↔
      ∃ front value back, headers = front ++ (hlcHeader, value) :: back ∧
        (∀ h ∈ back, h.1 ≠ hlcHeader) ∧ s.encode = .ok value := by
  simp only [extractFromHeaders, Option.bind_eq_bind, Option.bind_eq_some_iff, lastHeader_eq_some,
    toOption_eq_some, decode_eq_ok_iff]
  constructor
  · rintro ⟨value, ⟨front, back, heq, hback⟩, henc⟩
    exact ⟨front, value, back, heq, hback, henc⟩
  · rintro ⟨front, value, back, heq, hback, henc⟩
    exact ⟨value, ⟨front, back, heq, hback⟩, henc⟩

/-- A header behind all others is the one that is read. -/
theorem extractFromHeaders_concat {s : Hlc} {header : String × Bytes} (h : s.header = .ok header)
    (headers : List (String × Bytes)) : extractFromHeaders (headers ++ [header]) = some s := by
  obtain ⟨value, henc, h⟩ := bind_eq_ok.mp h
  cases h
  refine Option.bind_eq_some_iff.mpr ⟨value, ?_, toOption_eq_some.mpr (decode_encode henc)⟩
  exact lastHeader_eq_some.mpr ⟨headers, [], rfl, fun h hh => absurd hh List.not_mem_nil⟩

/-! ## Producers and consumers

A record carries the stamp that its producer minted for it, and a consumer observes it. So every step of
producers and consumers is a step of the nodes. -/

variable {ι : Type}

/-- A record behind its producer: who wrote it, the stamp that the writer's clock gave for it, and its headers.
    Only the headers travel; the other two are what the run remembers of the step. -/
structure Produced (ι : Type) where
  producer : ι
  minted : Hlc
  headers : List (String × Bytes)

/-- The event of the clock that a record was stamped at. -/
def Produced.event (r : Produced ι) : Event ι Hlc := ⟨r.producer, none, r.minted⟩

/-- The nodes, and every record produced so far. -/
structure Carried (ι : Type) where
  system : System ι
  records : List (Produced ι)

inductive CarriedAction (ι : Type) where
  /-- The node stamps a record that has headers of its own. -/
  | produce (node : ι) (physical : Int64) (headers : List (String × Bytes))
  /-- The node merges the stamp of a record, if it has one. -/
  | consume (node : ι) (physical : Int64) (record : Nat)

structure Carried.Initial (c : Carried ι) : Prop where
  system : c.system.Initial
  records : c.records = []

variable [DecidableEq ι]

/-- The record that `now` and then `header` make of some headers, if neither fails. -/
def Carried.stamped (c : Carried ι) (node : ι) (physical : Int64) (headers : List (String × Bytes)) :
    Option (Produced ι) := do
  let stamp ← ((c.system.clocks node).now physical).1.toOption
  let header ← stamp.header.toOption
  return ⟨node, stamp, headers ++ [header]⟩

/-- The stamp that a consumer extracts. -/
def Carried.stampOf (c : Carried ι) (record : Nat) : Option Hlc :=
  c.records[record]?.bind fun r => extractFromHeaders r.headers

/-- A producer writes the header behind the record's own, and no record when it got none. A consumer merges the
    stamp that it extracts. -/
def Carried.next (c : Carried ι) : CarriedAction ι → Carried ι
  | .produce node physical headers =>
    { system := c.system.next ⟨node, .now physical⟩
      records := c.records ++ (c.stamped node physical headers).toList }
  | .consume node physical record =>
    match c.stampOf record with
    | none => c
    | some stamp => { c with system := c.system.next ⟨node, .observe physical stamp⟩ }

/-- A consumer observes the stamp of the record, or nothing happens. -/
theorem Carried.consume_cases (c : Carried ι) (node : ι) (physical : Int64) (record : Nat) :
    c.next (.consume node physical record) = c ∨
      ∃ stamp, c.stampOf record = some stamp ∧
        c.next (.consume node physical record) =
          { c with system := c.system.next ⟨node, .observe physical stamp⟩ } := by
  simp only [Carried.next]
  split
  · exact Or.inl rfl
  · rename_i stamp hread
    exact Or.inr ⟨stamp, hread, rfl⟩

/-- Every record carries its stamp, and the stamps were minted by the producers, in the order of the records. -/
structure Carried.Stamped (c : Carried ι) : Prop where
  carries : ∀ r ∈ c.records, extractFromHeaders r.headers = some r.minted
  minted : List.Sublist (c.records.map Produced.event) c.system.log

/-- The log only grows. -/
theorem System.log_sublist_next (s : System ι) (a : Action ι) : List.Sublist s.log (s.next a).log := by
  unfold System.next
  cases ((s.clocks a.node).call a.call).1 with
  | ok stamp => exact List.sublist_append_left _ _
  | error _ => exact List.Sublist.refl _

/-- A record that is produced carries the stamp of its producer. -/
theorem Carried.Stamped.produce {c : Carried ι} (h : c.Stamped) (node : ι) (physical : Int64)
    (headers : List (String × Bytes)) : (c.next (.produce node physical headers)).Stamped := by
  have hgrows := h.minted.trans (c.system.log_sublist_next ⟨node, .now physical⟩)
  cases hstamped : c.stamped node physical headers with
  | none =>
      have hrecords : (c.next (.produce node physical headers)).records = c.records := by
        simp only [Carried.next, hstamped, Option.toList_none, List.append_nil]
      exact ⟨hrecords ▸ h.carries, hrecords ▸ hgrows⟩
  | some r =>
      have hrecords : (c.next (.produce node physical headers)).records = c.records ++ [r] := by
        simp only [Carried.next, hstamped, Option.toList_some]
      obtain ⟨stamp, hnow, hstamped⟩ := Option.bind_eq_some_iff.mp hstamped
      obtain ⟨header, hheader, hstamped⟩ := Option.bind_eq_some_iff.mp hstamped
      cases hstamped
      -- the clock's answer is the last event of the log, and the record is stamped with it
      have hcall : (c.system.clocks node).call (.now physical) =
          (.ok stamp, ((c.system.clocks node).now physical).2) :=
        Prod.ext (toOption_eq_some.mp hnow) rfl
      have hlog := @System.next_log_ok _ _ c.system ⟨node, .now physical⟩ _ stamp hcall
      refine ⟨?_, ?_⟩
      · rw [hrecords]
        refine List.forall_mem_append.mpr ⟨h.carries, List.forall_mem_singleton.mpr ?_⟩
        exact extractFromHeaders_concat (toOption_eq_some.mp hheader) headers
      · rw [hrecords, List.map_append]
        show List.Sublist _ (c.system.next ⟨node, .now physical⟩).log
        rw [hlog]
        exact h.minted.append (List.Sublist.refl _)

/-- Every step leaves the records stamped. -/
theorem Carried.Stamped.next {c : Carried ι} (h : c.Stamped) (a : CarriedAction ι) : (c.next a).Stamped := by
  cases a with
  | produce node physical headers => exact h.produce node physical headers
  | consume node physical record =>
      rcases c.consume_cases node physical record with heq | ⟨stamp, -, heq⟩ <;> rw [heq]
      · exact h
      · exact ⟨h.carries, h.minted.trans (c.system.log_sublist_next _)⟩

omit [DecidableEq ι] in
/-- A stamp that was read off a record was minted. -/
theorem Carried.Stamped.exists_event {c : Carried ι} (h : c.Stamped) {record : Nat} {stamp : Hlc}
    (hread : c.stampOf record = some stamp) : ∃ e ∈ c.system.log, e.stamp = stamp := by
  obtain ⟨r, hr, hstamp⟩ := Option.bind_eq_some_iff.mp hread
  have hmem := List.mem_of_getElem? hr
  rw [h.carries r hmem] at hstamp
  exact ⟨r.event, h.minted.subset (List.mem_map_of_mem hmem), Option.some.inj hstamp⟩

abbrev Carried.Run (c : Carried ι) : Prop := Reach Carried.Initial (fun _ _ => True) Carried.next c

/-- A run over headers is a run in which stamps are passed by value. -/
theorem Carried.Run.refines {c : Carried ι} (h : c.Run) :
    Reach System.Initial System.Minted System.next c.system ∧ c.Stamped := by
  refine @Reach.invariant _ _ _ _ _
    (fun c => Reach System.Initial System.Minted System.next c.system ∧ c.Stamped) ?_ ?_ c h
  · intro c hinit
    refine ⟨.init hinit.system, ?_, ?_⟩ <;> rw [hinit.records]
    · exact fun r hr => nomatch hr
    · exact List.nil_sublist _
  · rintro c a ⟨hreach, hstamped⟩ -
    refine ⟨?_, hstamped.next a⟩
    cases a with
    | produce node physical headers =>
        refine .step hreach ?_
        rintro peer ⟨⟩
    | consume node physical record =>
        rcases c.consume_cases node physical record with heq | ⟨stamp, hread, heq⟩ <;> rw [heq]
        · exact hreach
        · refine .step hreach ?_
          rintro peer ⟨⟩
          exact hstamped.exists_event hread

/-- **Stamps on record headers order every run.** Whatever records the nodes produce and consume, and in
    whatever order, each record carries the stamp that its producer minted for it, no two records carry the
    same, and what happened before has the smaller stamp. -/
theorem carried_ordered {c : Carried ι} (h : c.Run) :
    (∀ r ∈ c.records, extractFromHeaders r.headers = some r.minted) ∧
    List.Sublist (c.records.map Produced.event) c.system.log ∧
    (c.records.map fun r => extractFromHeaders r.headers).Nodup ∧
    ∀ e f, HappensBefore c.system.log e f → e.stamp.key < f.stamp.key := by
  obtain ⟨hreach, hstamped⟩ := h.refines
  have hordered := System.Ordered.reach hreach
  refine ⟨hstamped.carries, hstamped.minted, ?_, fun e f => hordered.clock.lt_of_happensBefore⟩
  have hstamps : (c.system.log.map Event.stamp).Nodup := by
    refine hordered.clock.stamps_nodup fun e he f hf heq => hordered.distinct ?_
    show (c.system.clocks e.node).node = (c.system.clocks f.node).node
    rw [← hordered.origin e he, ← hordered.origin f hf, heq]
  have hminted : (c.records.map Produced.minted).Nodup := by
    have hevents := (hstamped.minted.map Event.stamp).nodup hstamps
    rwa [List.map_map] at hevents
  have hextracted : (c.records.map fun r => extractFromHeaders r.headers) =
      (c.records.map Produced.minted).map some := by
    rw [List.map_map]
    exact List.map_congr_left hstamped.carries
  rw [hextracted]
  exact hminted.map (Option.some_injective Hlc)

/-- The first node produces a record with a header of its own; the second consumes it and produces another. -/
def carriedRun : Carried Bool :=
  ((Carried.next ⟨twoNodes, []⟩ (.produce true 7 [("trace", [1])])).next (.consume false 2 0)).next
    (.produce false 3 [])

theorem carriedRun_run : carriedRun.Run := by
  have hinit : System.Initial twoNodes := by
    refine ⟨fun i => ?_, by decide, rfl⟩
    cases i with
    | true => exact ⟨1, 5, 10, rfl⟩
    | false => exact ⟨2, 0, 10, rfl⟩
  exact .step (.step (.step (.init ⟨hinit, rfl⟩) trivial) trivial) trivial

theorem carried_ordered_carriedRun :
    carriedRun.records.map (fun r => (r.producer, extractFromHeaders r.headers)) =
        [(true, some ⟨7, 0, 1⟩), (false, some ⟨7, 2, 2⟩)] ∧
      (carriedRun.records.map fun r => extractFromHeaders r.headers).Nodup :=
  ⟨by decide, (carried_ordered carriedRun_run).2.2.1⟩

end Krabka.HybridClock
