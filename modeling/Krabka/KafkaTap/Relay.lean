import Krabka.KafkaTap.Frame
import Krabka.Lib.FixedWidth
import Krabka.Lib.Framing
import Krabka.Lib.Transition

/-!
# `KafkaTap.Relay` — one relayed connection

Two threads run `pump` on one connection: one copies the client's requests to the broker, the other the
broker's responses to the client, and both share the pending map and the recorder. A step of the system is
one system call, one critical section or one recorder call of one pump, or something a peer does: it
sends bytes, it closes its end, or a call on its socket fails. Any order of steps is a run.

`relay_forwards` is what every run keeps in each direction: what was written on is a prefix of what was
sent, at most one frame is held back, and a pump that ends in order has written on every whole frame.
-/

namespace Krabka.KafkaTap

open ByteStream FixedWidth Protocol Transition

/-! ## The code

A pump is a state for every call that it makes, and the step of a state is that call. -/

inductive Direction where
  | request
  | response
  deriving DecidableEq, Repr

def Direction.isRequest : Direction → Bool
  | .request => true
  | .response => false

/-- The receiving end of a socket: what its peer has sent so far, and how much of that was read. -/
structure Inbox where
  sent : Bytes
  taken : Nat
  closed : Bool
  deriving Repr

inductive IoError where
  | unexpectedEof
  | other
  deriving DecidableEq, Repr

inductive ReadExact where
  /-- The bytes have not arrived, and the peer may still send them. -/
  | blocks
  | eof
  | full (bytes : Bytes) (inbox : Inbox)

def Inbox.unread (i : Inbox) : Bytes := i.sent.drop i.taken

def Inbox.readExact (i : Inbox) (n : Nat) : ReadExact :=
  if n ≤ i.unread.length then .full (i.unread.take n) { i with taken := i.taken + n }
  else if i.closed then .eof
  else .blocks

/-- Where a pump stands in its loop. -/
inductive Pc where
  | readLen
  | checkLen (lenBuf : Bytes)
  | readBody (lenBuf : Bytes) (n : Nat)
  | classify (lenBuf body : Bytes)
  | tell (lenBuf body : Bytes) (frame : CapturedFrame)
  | writeLen (lenBuf body : Bytes)
  | writeBody (lenBuf body : Bytes)
  | flush (lenBuf body : Bytes)
  deriving Repr

/-- A pump, the end it reads and the bytes it has written to the other end. -/
structure Pump where
  inbox : Inbox
  outbox : Bytes
  pc : Pc
  result : Option (Except IoError Unit)

/-- One step of `pump`: the pump and the pending map after it, and the frames it tells the recorder. -/
def Pump.step (d : Direction) (p : Pump) (pending : Pending) : Pump × Pending × List CapturedFrame :=
  match p.pc with
  | .readLen =>
      match p.inbox.readExact 4 with
      | .blocks => (p, pending, [])
      | .eof => ({ p with result := some (.ok ()) }, pending, [])
      | .full lenBuf inbox => ({ p with inbox, pc := .checkLen lenBuf }, pending, [])
  | .checkLen lenBuf =>
      match usizeOfI32 (i32OfBE lenBuf) with
      | none => ({ p with result := some (.ok ()) }, pending, [])
      | some n => ({ p with pc := .readBody lenBuf n }, pending, [])
  | .readBody lenBuf n =>
      match p.inbox.readExact n with
      | .blocks => (p, pending, [])
      | .eof => ({ p with result := some (.error .unexpectedEof) }, pending, [])
      | .full body inbox => ({ p with inbox, pc := .classify lenBuf body }, pending, [])
  | .classify lenBuf body =>
      if d.isRequest then
        match parseRequestPrefix body with
        | none => ({ p with pc := .writeLen lenBuf body }, pending, [])
        | some q =>
            let frame : CapturedFrame :=
              { apiKey := q.apiKey, version := q.apiVersion, isRequest := true, body }
            ({ p with pc := .tell lenBuf body frame },
              pending.record q.correlationId q.apiKey q.apiVersion, [])
      else
        match readCorrelationId body with
        | none => ({ p with pc := .writeLen lenBuf body }, pending, [])
        | some corr =>
            match pending.take corr with
            | (none, rest) => ({ p with pc := .writeLen lenBuf body }, rest, [])
            | (some (apiKey, version), rest) =>
                let frame : CapturedFrame := { apiKey, version, isRequest := false, body }
                ({ p with pc := .tell lenBuf body frame }, rest, [])
  | .tell lenBuf body frame => ({ p with pc := .writeLen lenBuf body }, pending, [frame])
  | .writeLen lenBuf body =>
      ({ p with outbox := p.outbox ++ lenBuf, pc := .writeBody lenBuf body }, pending, [])
  | .writeBody lenBuf body =>
      ({ p with outbox := p.outbox ++ body, pc := .flush lenBuf body }, pending, [])
  | .flush _ _ => ({ p with pc := .readLen }, pending, [])

/-- The bytes of the `write_all` a pump stands at. -/
def Pc.writing : Pc → Bytes
  | .writeLen lenBuf _ => lenBuf
  | .writeBody _ body => body
  | _ => []

/-- A relayed connection: its two pumps, the pending map and what the recorder was told, in order. -/
structure Conn where
  pump : Direction → Pump
  pending : Pending
  recorded : List CapturedFrame

inductive Action where
  /-- The peer that direction `d` reads from sends bytes. -/
  | send (d : Direction) (bytes : Bytes)
  | close (d : Direction)
  | step (d : Direction)
  /-- A call of pump `d` fails; a failing `write_all` has written `n` of its bytes. -/
  | fail (d : Direction) (n : Nat)

def Pump.send (p : Pump) (bytes : Bytes) : Pump :=
  { p with inbox := { p.inbox with sent := p.inbox.sent ++ bytes } }

def Pump.close (p : Pump) : Pump := { p with inbox := { p.inbox with closed := true } }

def Pump.fail (p : Pump) (n : Nat) : Pump :=
  { p with outbox := p.outbox ++ p.pc.writing.take n, result := some (.error .other) }

def Conn.next (c : Conn) : Action → Conn
  | .send d bytes => { c with pump := Function.update c.pump d ((c.pump d).send bytes) }
  | .close d => { c with pump := Function.update c.pump d (c.pump d).close }
  | .fail d n => { c with pump := Function.update c.pump d ((c.pump d).fail n) }
  | .step d =>
      let (pump, pending, told) := (c.pump d).step d c.pending
      { pump := Function.update c.pump d pump, pending, recorded := c.recorded ++ told }

/-- A peer sends nothing once it has closed, and a pump that has returned takes no step. A `write_all`
    that fails has not written everything. -/
def Conn.guard (c : Conn) : Action → Prop
  | .send d _ => (c.pump d).inbox.closed = false
  | .close _ => True
  | .step d => (c.pump d).result = none
  | .fail d n => (c.pump d).result = none ∧ (n = 0 ∨ n < (c.pump d).pc.writing.length)

def Pump.start : Pump :=
  { inbox := { sent := [], taken := 0, closed := false }, outbox := [], pc := .readLen, result := none }

/-- `handle_conn` on two fresh sockets. -/
def Conn.start : Conn where
  pump := fun _ => .start
  pending := .default
  recorded := []

/-! ## What one step of a pump can do

One relation with a constructor for each outcome, so that a proof need not unfold the step. -/

/-- A short read meets the end of a closed stream. -/
theorem Inbox.readExact_eof {i : Inbox} {n : Nat} (h : i.readExact n = .eof) :
    i.closed = true ∧ i.unread.length < n := by
  unfold readExact at h
  split at h
  · cases h
  · rename_i hn
    split at h
    · rename_i hclosed
      exact ⟨hclosed, Nat.lt_of_not_le hn⟩
    · cases h

/-- A full read takes what it was asked for. -/
theorem Inbox.readExact_full {i i' : Inbox} {n : Nat} {bytes : Bytes} (h : i.readExact n = .full bytes i') :
    i' = { i with taken := i.taken + n } ∧ bytes.length = n ∧ bytes <+: i.unread := by
  unfold readExact at h
  split at h
  · rename_i hn
    cases h
    exact ⟨rfl, by rw [List.length_take, Nat.min_eq_left hn], List.take_prefix n _⟩
  · split at h <;> cases h

/-- The frames of the wire: four bytes of length, which a negative number does not state. -/
def wireFraming : Framing where
  headerLen := 4
  size := fun lenBuf => usizeOfI32 (i32OfBE lenBuf)
  headerLen_pos := by decide

/-- What the recorder is told of a request. -/
def capturedRequest (q : RequestPrefix) (body : Bytes) : CapturedFrame :=
  { apiKey := q.apiKey, version := q.apiVersion, isRequest := true, body }

/-- What the recorder is told of the response to a request with this api key and version. -/
def capturedResponse (of : ApiKey × ApiVersion) (body : Bytes) : CapturedFrame :=
  { apiKey := of.1, version := of.2, isRequest := false, body }

/-- The steps of a pump, by what they need and what they change. -/
inductive Pump.Move (d : Direction) (p : Pump) (pending : Pending) :
    Pump × Pending × List CapturedFrame → Prop where
  | waits (hpc : p.pc = .readLen ∨ ∃ lenBuf n, p.pc = .readBody lenBuf n) : Move d p pending (p, pending, [])
  | atEnd (hpc : p.pc = .readLen) (hclosed : p.inbox.closed = true) (hshort : p.inbox.unread.length < 4) :
      Move d p pending ({ p with result := some (.ok ()) }, pending, [])
  | gotLen {lenBuf : Bytes} (hpc : p.pc = .readLen) (hlen : lenBuf.length = 4)
      (hread : lenBuf <+: p.inbox.unread) :
      Move d p pending
        ({ p with inbox := { p.inbox with taken := p.inbox.taken + 4 }, pc := .checkLen lenBuf }, pending, [])
  | negative {lenBuf : Bytes} (hpc : p.pc = .checkLen lenBuf) (hsize : wireFraming.size lenBuf = none) :
      Move d p pending ({ p with result := some (.ok ()) }, pending, [])
  | sized {lenBuf : Bytes} {n : Nat} (hpc : p.pc = .checkLen lenBuf)
      (hsize : wireFraming.size lenBuf = some n) :
      Move d p pending ({ p with pc := .readBody lenBuf n }, pending, [])
  | cutOff {lenBuf : Bytes} {n : Nat} (hpc : p.pc = .readBody lenBuf n) :
      Move d p pending ({ p with result := some (.error .unexpectedEof) }, pending, [])
  | gotBody {lenBuf body : Bytes} (hpc : p.pc = .readBody lenBuf body.length)
      (hread : body <+: p.inbox.unread) :
      Move d p pending
        ({ p with inbox := { p.inbox with taken := p.inbox.taken + body.length }, pc := .classify lenBuf body },
          pending, [])
  | unknown {lenBuf body : Bytes} (hpc : p.pc = .classify lenBuf body)
      (hid : d = .request → parseRequestPrefix body = none)
      (hcorr : d = .response → readCorrelationId body = none) :
      Move d p pending ({ p with pc := .writeLen lenBuf body }, pending, [])
  | request {lenBuf body : Bytes} {q : RequestPrefix} (hd : d = .request) (hpc : p.pc = .classify lenBuf body)
      (hq : parseRequestPrefix body = some q) :
      Move d p pending
        ({ p with pc := .tell lenBuf body (capturedRequest q body) },
          pending.record q.correlationId q.apiKey q.apiVersion, [])
  | unasked {lenBuf body : Bytes} {corr : Int32} (hd : d = .response) (hpc : p.pc = .classify lenBuf body)
      (hcorr : readCorrelationId body = some corr) (hnone : pending.map[corr]? = none) :
      Move d p pending ({ p with pc := .writeLen lenBuf body }, (pending.take corr).2, [])
  | answer {lenBuf body : Bytes} {corr : Int32} {of : ApiKey × ApiVersion} (hd : d = .response)
      (hpc : p.pc = .classify lenBuf body) (hcorr : readCorrelationId body = some corr)
      (hsome : pending.map[corr]? = some of) :
      Move d p pending
        ({ p with pc := .tell lenBuf body (capturedResponse of body) }, (pending.take corr).2, [])
  | told {lenBuf body : Bytes} {frame : CapturedFrame} (hpc : p.pc = .tell lenBuf body frame) :
      Move d p pending ({ p with pc := .writeLen lenBuf body }, pending, [frame])
  | wroteLen {lenBuf body : Bytes} (hpc : p.pc = .writeLen lenBuf body) :
      Move d p pending ({ p with outbox := p.outbox ++ lenBuf, pc := .writeBody lenBuf body }, pending, [])
  | wroteBody {lenBuf body : Bytes} (hpc : p.pc = .writeBody lenBuf body) :
      Move d p pending ({ p with outbox := p.outbox ++ body, pc := .flush lenBuf body }, pending, [])
  | flushed {lenBuf body : Bytes} (hpc : p.pc = .flush lenBuf body) :
      Move d p pending ({ p with pc := .readLen }, pending, [])

/-- Every step is one of the moves. -/
theorem Pump.move_step (d : Direction) (p : Pump) (pending : Pending) :
    Move d p pending (p.step d pending) := by
  obtain ⟨inbox, outbox, pc, result⟩ := p
  cases pc with
  | readLen =>
      simp only [Pump.step]
      cases hread : inbox.readExact 4 with
      | blocks => exact .waits (Or.inl rfl)
      | eof =>
          obtain ⟨hclosed, hshort⟩ := Inbox.readExact_eof hread
          exact .atEnd rfl hclosed hshort
      | full lenBuf inbox' =>
          obtain ⟨rfl, hlen, hpre⟩ := Inbox.readExact_full hread
          exact .gotLen rfl hlen hpre
  | checkLen lenBuf =>
      simp only [Pump.step]
      cases hsize : usizeOfI32 (i32OfBE lenBuf) with
      | none => exact .negative rfl hsize
      | some n => exact .sized rfl hsize
  | readBody lenBuf n =>
      simp only [Pump.step]
      cases hread : inbox.readExact n with
      | blocks => exact .waits (Or.inr ⟨lenBuf, n, rfl⟩)
      | eof => exact .cutOff rfl
      | full body inbox' =>
          obtain ⟨rfl, rfl, hpre⟩ := Inbox.readExact_full hread
          exact .gotBody rfl hpre
  | classify lenBuf body =>
      simp only [Pump.step]
      cases d with
      | request =>
          cases hq : parseRequestPrefix body with
          | none => exact .unknown rfl (fun _ => hq) (fun h => nomatch h)
          | some q => exact .request rfl rfl hq
      | response =>
          cases hcorr : readCorrelationId body with
          | none => exact .unknown rfl (fun h => nomatch h) (fun _ => hcorr)
          | some corr =>
              cases hsome : pending.map[corr]? with
              | none =>
                  simp only [Direction.isRequest, Pending.take, hsome]
                  exact .unasked rfl rfl hcorr hsome
              | some of =>
                  simp only [Direction.isRequest, Pending.take, hsome]
                  exact .answer rfl rfl hcorr hsome
  | tell lenBuf body frame => exact .told rfl
  | writeLen lenBuf body => exact .wroteLen rfl
  | writeBody lenBuf body => exact .wroteBody rfl
  | flush lenBuf body => exact .flushed rfl

/-! ## What a pump has written on

The frames that are through, and the part of the next one that is in hand. -/

/-- The bytes of the frame in hand that were read. A frame that is written on whole is in hand no more. -/
def Pc.held : Pc → Bytes
  | .checkLen lenBuf => lenBuf
  | .readBody lenBuf _ => lenBuf
  | .classify lenBuf body => lenBuf ++ body
  | .tell lenBuf body _ => lenBuf ++ body
  | .writeLen lenBuf body => lenBuf ++ body
  | .writeBody lenBuf body => lenBuf ++ body
  | _ => []

/-- The bytes of the frame in hand that were written on. -/
def Pc.written : Pc → Bytes
  | .writeBody lenBuf _ => lenBuf
  | _ => []

/-- The frame that the step at hand writes on whole. -/
def Pc.completes : Pc → List Frame
  | .writeBody lenBuf body => [⟨lenBuf, body⟩]
  | _ => []

def Pc.Sound : Pc → Prop
  | .checkLen lenBuf => lenBuf.length = 4
  | .readBody lenBuf n => lenBuf.length = 4 ∧ wireFraming.size lenBuf = some n
  | .classify lenBuf body => wireFraming.Sound ⟨lenBuf, body⟩
  | .tell lenBuf body _ => wireFraming.Sound ⟨lenBuf, body⟩
  | .writeLen lenBuf body => wireFraming.Sound ⟨lenBuf, body⟩
  | .writeBody lenBuf body => wireFraming.Sound ⟨lenBuf, body⟩
  | _ => True

/-- The frames `done` were written on whole, and behind them `part` of the write that failed. -/
structure Pump.Forwards (p : Pump) (done : List Frame) (part : Bytes) : Prop where
  sound : ∀ f ∈ done, wireFraming.Sound f
  taken_le : p.inbox.taken ≤ p.inbox.sent.length
  read : p.inbox.sent.take p.inbox.taken = wire done ++ p.pc.held
  pc : p.pc.Sound
  wrote : p.outbox = wire done ++ (p.pc.written ++ part)
  failed : part = [] ∨ part <+: p.pc.writing ∧ part.length < p.pc.writing.length
  running : p.result = none → part = []
  ended : p.result = some (.ok ()) → part = [] ∧
    (p.pc = .readLen ∧ p.inbox.closed = true ∧ p.inbox.unread.length < 4 ∨
      ∃ lenBuf, p.pc = .checkLen lenBuf ∧ wireFraming.size lenBuf = none)

/-- What is read next is the next of what was sent. -/
theorem Inbox.take_of_unread {i : Inbox} {bs : Bytes} (hle : i.taken ≤ i.sent.length)
    (h : bs <+: i.unread) :
    i.taken + bs.length ≤ i.sent.length ∧
      i.sent.take (i.taken + bs.length) = i.sent.take i.taken ++ bs := by
  have hfit := h.length_le
  rw [unread, List.length_drop] at hfit
  refine ⟨by omega, ?_⟩
  rw [List.take_add, ← unread, ← List.prefix_iff_eq_take.mp h]

/-- At the start nothing was forwarded. -/
theorem Pump.start_forwards : Pump.start.Forwards [] [] where
  sound := fun _ hf => absurd hf List.not_mem_nil
  taken_le := Nat.le_refl 0
  read := rfl
  pc := trivial
  wrote := rfl
  failed := Or.inl rfl
  running := fun _ => rfl
  ended := fun h => by cases h

/-- Bytes that arrive change nothing that was forwarded. -/
theorem Pump.Forwards.send {p : Pump} {done : List Frame} {part : Bytes} (h : p.Forwards done part)
    (hopen : p.inbox.closed = false) (bytes : Bytes) : (p.send bytes).Forwards done part where
  sound := h.sound
  taken_le := by
    show p.inbox.taken ≤ (p.inbox.sent ++ bytes).length
    rw [List.length_append]
    exact Nat.le_add_right_of_le h.taken_le
  read := by
    show (p.inbox.sent ++ bytes).take p.inbox.taken = _
    rw [List.take_append_of_le_length h.taken_le]
    exact h.read
  pc := h.pc
  wrote := h.wrote
  failed := h.failed
  running := h.running
  ended := fun hend => by
    obtain ⟨hpart, ⟨-, hclosed, -⟩ | hneg⟩ := h.ended hend
    · rw [hopen] at hclosed
      cases hclosed
    · exact ⟨hpart, Or.inr hneg⟩

/-- Nor does the end of the stream. -/
theorem Pump.Forwards.close {p : Pump} {done : List Frame} {part : Bytes} (h : p.Forwards done part) :
    p.close.Forwards done part where
  sound := h.sound
  taken_le := h.taken_le
  read := h.read
  pc := h.pc
  wrote := h.wrote
  failed := h.failed
  running := h.running
  ended := fun hend => by
    obtain ⟨hpart, ⟨hpc, -, hshort⟩ | hneg⟩ := h.ended hend
    · exact ⟨hpart, Or.inl ⟨hpc, rfl, hshort⟩⟩
    · exact ⟨hpart, Or.inr hneg⟩

/-- A write that fails leaves a part of one frame. -/
theorem Pump.Forwards.fail {p : Pump} {done : List Frame} (h : p.Forwards done []) {n : Nat}
    (hn : n = 0 ∨ n < p.pc.writing.length) : (p.fail n).Forwards done (p.pc.writing.take n) where
  sound := h.sound
  taken_le := h.taken_le
  read := h.read
  pc := h.pc
  wrote := by
    show p.outbox ++ _ = _
    rw [h.wrote, List.append_nil, List.append_assoc]
    rfl
  failed := by
    rcases hn with rfl | hn
    · exact Or.inl List.take_zero
    · exact Or.inr ⟨List.take_prefix n _, by
        show (p.pc.writing.take n).length < p.pc.writing.length
        rw [List.length_take, Nat.min_eq_left (Nat.le_of_lt hn)]
        exact hn⟩
  running := fun hrun => by cases hrun
  ended := fun hend => by cases hend

/-- A step that completes no frame keeps what was forwarded. -/
theorem Pump.Forwards.step_of_completes_nil {p : Pump} {done : List Frame} (h : p.Forwards done [])
    (hrun : p.result = none) (hcompletes : p.pc.completes = []) {d : Direction} {pending : Pending}
    {r : Pump × Pending × List CapturedFrame} (hmove : p.Move d pending r) : r.1.Forwards done [] := by
  have hnone : ∀ {P : Prop}, p.result = some (.ok ()) → P := fun hend => by rw [hrun] at hend; cases hend
  have hread := h.read
  have hpc := h.pc
  have hwrote := h.wrote
  cases hmove with
  | waits _ => exact h
  | atEnd hat hclosed hshort =>
      exact ⟨h.sound, h.taken_le, hread, hpc, hwrote, h.failed, fun _ => rfl,
        fun _ => ⟨rfl, Or.inl ⟨hat, hclosed, hshort⟩⟩⟩
  | @gotLen lenBuf hat hlen hpre =>
      obtain ⟨hle, htake⟩ := Inbox.take_of_unread h.taken_le hpre
      rw [hlen] at hle htake
      rw [hat] at hread hwrote
      refine ⟨h.sound, hle, ?_, hlen, hwrote, Or.inl rfl, fun _ => rfl, hnone⟩
      show p.inbox.sent.take (p.inbox.taken + 4) = wire done ++ lenBuf
      rw [htake, hread]
      simp [Pc.held]
  | negative hat hsize =>
      exact ⟨h.sound, h.taken_le, hread, hpc, hwrote, h.failed, fun _ => rfl,
        fun _ => ⟨rfl, Or.inr ⟨_, hat, hsize⟩⟩⟩
  | sized hat hsize =>
      rw [hat] at hread hpc hwrote
      exact ⟨h.sound, h.taken_le, hread, ⟨hpc, hsize⟩, hwrote, Or.inl rfl, fun _ => rfl, hnone⟩
  | cutOff hat =>
      exact ⟨h.sound, h.taken_le, hread, hpc, hwrote, h.failed, fun _ => rfl, fun hend => by cases hend⟩
  | @gotBody lenBuf body hat hpre =>
      obtain ⟨hle, htake⟩ := Inbox.take_of_unread h.taken_le hpre
      rw [hat] at hread hpc hwrote
      obtain ⟨hlen, hsize⟩ := hpc
      refine ⟨h.sound, hle, ?_, ⟨hlen, hsize⟩, hwrote, Or.inl rfl, fun _ => rfl, hnone⟩
      show p.inbox.sent.take (p.inbox.taken + body.length) = wire done ++ (lenBuf ++ body)
      rw [htake, hread, List.append_assoc]
      rfl
  | unknown hat _ _ =>
      rw [hat] at hread hpc hwrote
      exact ⟨h.sound, h.taken_le, hread, hpc, hwrote, Or.inl rfl, fun _ => rfl, hnone⟩
  | request _ hat _ =>
      rw [hat] at hread hpc hwrote
      exact ⟨h.sound, h.taken_le, hread, hpc, hwrote, Or.inl rfl, fun _ => rfl, hnone⟩
  | unasked _ hat _ _ =>
      rw [hat] at hread hpc hwrote
      exact ⟨h.sound, h.taken_le, hread, hpc, hwrote, Or.inl rfl, fun _ => rfl, hnone⟩
  | answer _ hat _ _ =>
      rw [hat] at hread hpc hwrote
      exact ⟨h.sound, h.taken_le, hread, hpc, hwrote, Or.inl rfl, fun _ => rfl, hnone⟩
  | told hat =>
      rw [hat] at hread hpc hwrote
      exact ⟨h.sound, h.taken_le, hread, hpc, hwrote, Or.inl rfl, fun _ => rfl, hnone⟩
  | @wroteLen lenBuf body hat =>
      rw [hat] at hread hpc hwrote
      refine ⟨h.sound, h.taken_le, hread, hpc, ?_, Or.inl rfl, fun _ => rfl, hnone⟩
      show p.outbox ++ lenBuf = wire done ++ (lenBuf ++ [])
      rw [hwrote]
      simp [Pc.written]
  | wroteBody hat =>
      rw [hat] at hcompletes
      cases hcompletes
  | flushed hat =>
      rw [hat] at hread hpc hwrote
      exact ⟨h.sound, h.taken_le, hread, trivial, hwrote, Or.inl rfl, fun _ => rfl, hnone⟩

/-- A body that is written completes its frame. -/
theorem Pump.Forwards.wroteBody {p : Pump} {done : List Frame} {lenBuf body : Bytes} (h : p.Forwards done [])
    (hrun : p.result = none) (hat : p.pc = .writeBody lenBuf body) :
    ({ p with outbox := p.outbox ++ body, pc := .flush lenBuf body } : Pump).Forwards
      (done ++ [⟨lenBuf, body⟩]) [] := by
  have hread := h.read
  have hpc := h.pc
  have hwrote := h.wrote
  rw [hat] at hread hpc hwrote
  refine ⟨?_, h.taken_le, ?_, trivial, ?_, Or.inl rfl, fun _ => rfl, fun hend => ?_⟩
  · intro f hf
    rcases List.mem_append.mp hf with hf | hf
    · exact h.sound f hf
    · obtain rfl := List.mem_singleton.mp hf
      exact hpc
  · show p.inbox.sent.take p.inbox.taken = wire (done ++ [⟨lenBuf, body⟩]) ++ []
    rw [hread]
    simp [Pc.held, Frame.wire]
  · show p.outbox ++ body = wire (done ++ [⟨lenBuf, body⟩]) ++ ([] ++ [])
    rw [hwrote]
    simp [Pc.written, Frame.wire]
  · rw [hrun] at hend
    cases hend

/-- **One step of a pump** keeps the account, and moves on by the frame whose body it writes. -/
theorem Pump.Forwards.step {p : Pump} {done : List Frame} (h : p.Forwards done []) (hrun : p.result = none)
    (d : Direction) (pending : Pending) : (p.step d pending).1.Forwards (done ++ p.pc.completes) [] := by
  have hmove := p.move_step d pending
  cases hat : p.pc with
  | writeBody lenBuf body =>
      simp only [Pump.step, hat]
      exact h.wroteBody hrun hat
  | _ =>
      rw [show Pc.completes _ = [] from rfl, List.append_nil]
      exact h.step_of_completes_nil hrun (by rw [hat]; rfl) hmove

/-! ## Every run

A step of the system is a step of one direction, and leaves the other one alone. -/

def Action.direction : Action → Direction
  | .send d _ => d
  | .close d => d
  | .step d => d
  | .fail d _ => d

/-- An action on one direction leaves the other alone. -/
theorem Conn.pump_next_of_ne {c : Conn} {a : Action} {d : Direction} (h : d ≠ a.direction) :
    (c.next a).pump d = c.pump d := by
  cases a <;> exact Function.update_of_ne h _ _

@[simp] theorem Conn.pump_next_send (c : Conn) (d : Direction) (bytes : Bytes) :
    (c.next (.send d bytes)).pump d = (c.pump d).send bytes := Function.update_self _ _ _

@[simp] theorem Conn.pump_next_close (c : Conn) (d : Direction) :
    (c.next (.close d)).pump d = (c.pump d).close := Function.update_self _ _ _

@[simp] theorem Conn.pump_next_fail (c : Conn) (d : Direction) (n : Nat) :
    (c.next (.fail d n)).pump d = (c.pump d).fail n := Function.update_self _ _ _

@[simp] theorem Conn.pump_next_step (c : Conn) (d : Direction) :
    (c.next (.step d)).pump d = ((c.pump d).step d c.pending).1 := Function.update_self _ _ _

/-- Both pumps have an account of what they forwarded. -/
def Conn.Accounted (c : Conn) : Prop := ∀ d, ∃ done part, (c.pump d).Forwards done part

/-- Every pump keeps its account, whatever the peers and the other pump do. -/
theorem Conn.accounted_next {c : Conn} {a : Action} (h : c.Accounted) (hguard : c.guard a) :
    (c.next a).Accounted := by
  intro d
  obtain ⟨done, part, hd⟩ := h d
  by_cases hne : d = a.direction
  · subst hne
    cases a with
    | send d bytes =>
        rw [Action.direction, Conn.pump_next_send]
        exact ⟨done, part, hd.send hguard bytes⟩
    | close d =>
        rw [Action.direction, Conn.pump_next_close]
        exact ⟨done, part, hd.close⟩
    | fail d n =>
        obtain rfl := hd.running hguard.1
        rw [Action.direction, Conn.pump_next_fail]
        exact ⟨done, _, hd.fail hguard.2⟩
    | step d =>
        obtain rfl := hd.running hguard
        rw [Action.direction, Conn.pump_next_step]
        exact ⟨_, [], hd.step hguard d c.pending⟩
  · refine ⟨done, part, ?_⟩
    rw [Conn.pump_next_of_ne hne]
    exact hd

/-- The states of a connection, whatever its peers do. -/
abbrev Reachable (c : Conn) : Prop := Reach (· = Conn.start) Conn.guard Conn.next c

/-- Every run accounts for its bytes. -/
theorem Reachable.accounted {c : Conn} (h : Reachable c) : c.Accounted := by
  refine Reach.invariant ?_ ?_ h
  · rintro c rfl d
    exact ⟨[], [], Pump.start_forwards⟩
  · intro c a hc hguard
    exact Conn.accounted_next hc hguard

/-! ### What the account says

The conclusions that are read off the account. -/

section Account

variable {p : Pump} {done : List Frame} {part : Bytes}

/-- Nothing but an empty frame stands behind the frames that were written whole. -/
theorem Pump.Forwards.body_eq_nil (h : p.Forwards done part) :
    ∀ f ∈ wireFraming.frames (p.pc.written ++ part), f.body = [] := by
  have hpc := h.pc
  have hfailed := h.failed
  cases hat : p.pc with
  | writeLen lenBuf body =>
      rw [hat] at hpc hfailed
      have hlen : lenBuf.length = 4 := hpc.header
      have hshort : part.length < 4 := by
        rcases hfailed with rfl | ⟨-, hlt⟩
        · exact Nat.zero_lt_succ 3
        · exact hlen ▸ hlt
      have hcut : wireFraming.cut ([] ++ part) = none := Framing.cut_of_short hshort
      intro f hf
      change f ∈ wireFraming.frames ([] ++ part) at hf
      rw [Framing.frames_of_cut_none hcut] at hf
      cases hf
  | writeBody lenBuf body =>
      rw [hat] at hpc hfailed
      intro f hf
      cases body with
      | nil =>
          -- the length of an empty frame is the whole frame
          obtain rfl : part = [] := by
            rcases hfailed with rfl | ⟨-, hlt⟩
            · rfl
            · exact absurd hlt (Nat.not_lt_zero _)
          have hwhole : wireFraming.frames (lenBuf ++ []) = [⟨lenBuf, []⟩] := Framing.frames_wire hpc
          rw [Pc.written, hwhole, List.mem_singleton] at hf
          rw [hf]
      | cons b body =>
          have hlt : part.length < (b :: body).length := by
            rcases hfailed with rfl | ⟨-, hlt⟩
            · exact Nat.zero_lt_succ _
            · exact hlt
          rw [Pc.written, Framing.frames_of_cut_none (Framing.cut_of_body_short hpc.header hpc.body hlt)] at hf
          cases hf
  | _ =>
      rw [hat] at hfailed
      obtain rfl : part = [] := by
        rcases hfailed with rfl | ⟨-, hlt⟩
        · rfl
        · exact absurd hlt (Nat.not_lt_zero _)
      intro f hf
      cases hf

/-- What a pump has written on of the frame in hand is a prefix of it. -/
theorem Pump.Forwards.written_isPrefix (h : p.Forwards done part) : p.pc.written ++ part <+: p.pc.held := by
  have hfailed := h.failed
  cases hat : p.pc with
  | writeLen lenBuf body =>
      rw [hat] at hfailed
      rcases hfailed with rfl | ⟨hpre, -⟩
      · exact List.nil_prefix
      · exact hpre.trans (List.prefix_append _ _)
  | writeBody lenBuf body =>
      rw [hat] at hfailed
      show lenBuf ++ part <+: lenBuf ++ body
      rw [List.prefix_append_right_inj]
      rcases hfailed with rfl | ⟨hpre, -⟩
      · exact List.nil_prefix
      · exact hpre
  | _ =>
      rw [hat] at hfailed
      rcases hfailed with rfl | ⟨-, hlt⟩
      · exact List.nil_prefix
      · exact absurd hlt (Nat.not_lt_zero _)

/-- **What is written on is a prefix of what was sent.** -/
theorem Pump.Forwards.outbox_isPrefix (h : p.Forwards done part) : p.outbox <+: p.inbox.sent := by
  have htaken : p.outbox <+: p.inbox.sent.take p.inbox.taken := by
    rw [h.wrote, h.read, List.prefix_append_right_inj]
    exact h.written_isPrefix
  exact htaken.trans (List.take_prefix _ _)

/-- The frame in hand is at most one. -/
theorem Pump.Forwards.held_frames_le (h : p.Forwards done part) :
    (wireFraming.frames p.pc.held).length ≤ 1 := by
  have hpc := h.pc
  have hwhole : ∀ {f : Frame}, wireFraming.Sound f → (wireFraming.frames f.wire).length ≤ 1 := by
    intro f hf
    rw [Framing.frames_wire hf]
    exact Nat.le_refl 1
  have hheader : ∀ {lenBuf : Bytes}, lenBuf.length = 4 → (wireFraming.frames lenBuf).length ≤ 1 := by
    intro lenBuf hlen
    have hle : 4 * (wireFraming.frames lenBuf).length ≤ lenBuf.length :=
      Framing.headerLen_mul_length_frames_le (F := wireFraming) lenBuf
    omega
  cases hat : p.pc with
  | readLen => exact Nat.zero_le 1
  | checkLen lenBuf => exact hheader (by rw [hat] at hpc; exact hpc)
  | readBody lenBuf n => exact hheader (by rw [hat] at hpc; exact hpc.1)
  | classify lenBuf body => exact hwhole (by rw [hat] at hpc; exact hpc)
  | tell lenBuf body frame => exact hwhole (by rw [hat] at hpc; exact hpc)
  | writeLen lenBuf body => exact hwhole (by rw [hat] at hpc; exact hpc)
  | writeBody lenBuf body => exact hwhole (by rw [hat] at hpc; exact hpc)
  | flush lenBuf body => exact Nat.zero_le 1

/-- The frames that are done are frames of it. -/
theorem Pump.Forwards.isPrefix_frames (h : p.Forwards done part) : done <+: wireFraming.frames p.outbox := by
  rw [h.wrote, Framing.frames_wire_append h.sound]
  exact List.prefix_append _ _

end Account

/-- **What the relay writes on.** In every run, whatever the peers send, however the two pumps take turns
    and whichever calls fail: a direction has written on a prefix of what it was sent, byte for byte; a
    pump that runs has read at most one frame more than it has written on; and a pump that returned in
    order has written on exactly the whole frames. -/
theorem relay_forwards {c : Conn} (h : Reachable c) (d : Direction) :
    (c.pump d).outbox <+: (c.pump d).inbox.sent ∧
      (wireFraming.frames ((c.pump d).inbox.sent.take (c.pump d).inbox.taken)).length ≤
        (wireFraming.frames (c.pump d).outbox).length + 1 ∧
      ((c.pump d).result = some (.ok ()) →
        (c.pump d).outbox = wire (wireFraming.frames (c.pump d).inbox.sent)) := by
  obtain ⟨done, part, hd⟩ := h.accounted d
  refine ⟨hd.outbox_isPrefix, ?_, fun hend => ?_⟩
  · have hone := hd.held_frames_le
    have hdone := hd.isPrefix_frames.length_le
    rw [hd.read, Framing.frames_wire_append hd.sound, List.length_append]
    omega
  · obtain ⟨rfl, hat⟩ := hd.ended hend
    have hsent : (c.pump d).inbox.sent = wire done ++ ((c.pump d).pc.held ++ (c.pump d).inbox.unread) := by
      rw [← List.append_assoc, ← hd.read, Inbox.unread, List.take_append_drop]
    have hcut : wireFraming.cut ((c.pump d).pc.held ++ (c.pump d).inbox.unread) = none := by
      rcases hat with ⟨hpc, -, hshort⟩ | ⟨lenBuf, hpc, hsize⟩
      · rw [hpc]
        exact Framing.cut_of_short hshort
      · have hlen := hd.pc
        rw [hpc] at hlen ⊢
        exact Framing.cut_of_size_none (F := wireFraming) hlen hsize _
    have hwritten : (c.pump d).pc.written = [] := by
      rcases hat with ⟨hpc, -⟩ | ⟨lenBuf, hpc, -⟩ <;> rw [hpc] <;> rfl
    rw [hsent, Framing.frames_wire_append hd.sound, Framing.frames_of_cut_none hcut, List.append_nil,
      hd.wrote, hwritten, List.append_nil, List.append_nil]

/-- An empty frame arrives in two pieces, and the client closes. -/
def emptyFrame : List Action :=
  [.send .request [0, 0], .step .request, .send .request [0, 0], .close .request] ++
    List.replicate 8 (.step .request)

theorem relay_forwards_emptyFrame :
    ∃ c, Reachable c ∧ (c.pump .request).result = some (.ok ()) ∧ (c.pump .request).outbox = [0, 0, 0, 0] ∧
      (c.pump .request).outbox <+: (c.pump .request).inbox.sent ∧
      (wireFraming.frames ((c.pump .request).inbox.sent.take (c.pump .request).inbox.taken)).length ≤
        (wireFraming.frames (c.pump .request).outbox).length + 1 ∧
      ((c.pump .request).result = some (.ok ()) →
        (c.pump .request).outbox = wire (wireFraming.frames (c.pump .request).inbox.sent)) := by
  have hrun : Reachable (emptyFrame.foldl Conn.next Conn.start) :=
    Reach.foldl _ (.init rfl) ⟨rfl, rfl, rfl, trivial, rfl, rfl, rfl, rfl, rfl, rfl, rfl, rfl, trivial⟩
  exact ⟨_, hrun, rfl, rfl, relay_forwards hrun .request⟩

end Krabka.KafkaTap
