import Krabka.KafkaTap.Relay

/-!
# `KafkaTap.Recording` — what the recorder is told

Each frame reaches the recorder before it is written on. A broker answers a request only after it has
received it, and a client uses a correlation id again only after the response to its last use has reached
it; then the recorder is told, under every correlation id, a request, its own response, the next request
and so on (`recorded_exchanges`), however the two pumps take turns.
-/

namespace Krabka.KafkaTap

open ByteStream Collections Protocol Transition

/-! ## Requests and responses under one correlation id

What the recorder is told, filtered by one id. -/

/-- What the recorder is told of a request with this correlation id. -/
def requestOf (id : Int32) (body : Bytes) : Option CapturedFrame :=
  (parseRequestPrefix body).bind fun q =>
    if q.correlationId = id then some (capturedRequest q body) else none

def responseOf (id : Int32) (body : Bytes) : Option Bytes :=
  if readCorrelationId body = some id then some body else none

theorem requestOf_eq_some {id : Int32} {body : Bytes} {q : RequestPrefix}
    (hq : parseRequestPrefix body = some q) (hid : q.correlationId = id) :
    requestOf id body = some (capturedRequest q body) := by
  rw [requestOf, hq, Option.bind_some, if_pos hid]

theorem requestOf_eq_none {id : Int32} {body : Bytes} {q : RequestPrefix}
    (hq : parseRequestPrefix body = some q) (hid : q.correlationId ≠ id) : requestOf id body = none := by
  rw [requestOf, hq, Option.bind_some, if_neg hid]

/-- The frame of the response to a request. -/
def answerTo (q : CapturedFrame) (body : Bytes) : CapturedFrame :=
  { apiKey := q.apiKey, version := q.version, isRequest := false, body }

def CapturedFrame.correlationId (f : CapturedFrame) : Option Int32 :=
  if f.isRequest then (parseRequestPrefix f.body).map RequestPrefix.correlationId
  else readCorrelationId f.body

/-- Each request followed by its response. -/
def exchange : List CapturedFrame → List Bytes → List CapturedFrame
  | q :: qs, r :: rs => q :: answerTo q r :: exchange qs rs
  | [], _ => []
  | qs, [] => qs

@[simp] theorem exchange_nil_right (qs : List CapturedFrame) : exchange qs [] = qs := by
  cases qs <;> rfl

/-- One more request stands at the end. -/
theorem exchange_concat_request {q : CapturedFrame} {qs : List CapturedFrame} {rs : List Bytes}
    (h : rs.length ≤ qs.length) : exchange (qs ++ [q]) rs = exchange qs rs ++ [q] := by
  induction qs generalizing rs with
  | nil =>
      obtain rfl := List.eq_nil_of_length_eq_zero (Nat.le_zero.mp h)
      rfl
  | cons q' qs ih =>
      cases rs with
      | nil => simp
      | cons r rs => simp [exchange, ih (Nat.le_of_succ_le_succ h)]

/-- The response to the last request stands behind it. -/
theorem exchange_concat_response {q : CapturedFrame} {qs : List CapturedFrame} {r : Bytes} {rs : List Bytes}
    (h : qs.length = rs.length + 1) (hlast : qs.getLast? = some q) :
    exchange qs (rs ++ [r]) = exchange qs rs ++ [answerTo q r] := by
  induction qs generalizing rs with
  | nil => cases h
  | cons q' qs ih =>
      cases rs with
      | nil =>
          obtain rfl := List.eq_nil_of_length_eq_zero (Nat.succ.inj h)
          cases hlast
          rfl
      | cons r' rs =>
          have hlen : qs.length = rs.length + 1 := Nat.succ.inj h
          have hne : qs ≠ [] := List.ne_nil_of_length_eq_add_one hlen
          rw [List.getLast?_cons_of_ne_nil hne] at hlast
          simp [exchange, ih hlen hlast]

/-! ## What a pump has got to

Every frame goes through the same stages; the counts of each stage differ by one at most. -/

section Views

variable {α : Type} (of : Bytes → Option α)

/-- What `of` finds in the whole frames of a byte string. -/
def under (bs : Bytes) : List α := ((wireFraming.frames bs).map Frame.body).filterMap of

/-- The body that is about to be classified. -/
def Pc.classified : Pc → List Bytes
  | .classify _ body => [body]
  | _ => []

/-- The body that is about to be told. -/
def Pc.tells : Pc → List Bytes
  | .tell _ body _ => [body]
  | _ => []

/-- The body in hand, once the pending map was asked about it. -/
def Pc.pended : Pc → List Bytes
  | .tell _ body _ => [body]
  | .writeLen _ body => [body]
  | .writeBody _ body => [body]
  | _ => []

/-- The body in hand, once the recorder was told of it. -/
def Pc.told : Pc → List Bytes
  | .writeLen _ body => [body]
  | .writeBody _ body => [body]
  | _ => []

def Pump.sent (p : Pump) : List α := under of p.inbox.sent

def Pump.forwarded (p : Pump) : List α := under of p.outbox

def Pump.pended (p : Pump) : List α := p.forwarded of ++ p.pc.pended.filterMap of

def Pump.told (p : Pump) : List α := p.forwarded of ++ p.pc.told.filterMap of

variable {of}

/-- Nothing is written on before it is told. -/
theorem Pump.forwarded_isPrefix_told (p : Pump) : p.forwarded of <+: p.told of := List.prefix_append _ _

/-- Nothing is told before it is pending. -/
theorem Pump.told_isPrefix_pended (p : Pump) : p.told of <+: p.pended of := by
  rw [told, pended, List.prefix_append_right_inj]
  cases p.pc <;> first | exact List.prefix_rfl | exact List.nil_prefix

variable {p : Pump} {done : List Frame} {part : Bytes}

/-- What a pump has written on is its whole frames. -/
theorem Pump.Forwards.forwarded_eq (h : p.Forwards done part) (hof : of [] = none) :
    p.forwarded of = (done.map Frame.body).filterMap of := by
  have htail : ((wireFraming.frames (p.pc.written ++ part)).map Frame.body).filterMap of = [] := by
    rw [List.filterMap_eq_nil_iff]
    intro body hbody
    obtain ⟨f, hf, rfl⟩ := List.mem_map.mp hbody
    rw [h.body_eq_nil f hf, hof]
  rw [forwarded, under, h.wrote, Framing.frames_wire_append h.sound, List.map_append, List.filterMap_append,
    htail, List.append_nil]

/-- The body in hand is the next that was sent. -/
theorem Pump.Forwards.inHand_isPrefix (h : p.Forwards done part) (hof : of [] = none) {lenBuf body : Bytes}
    (hheld : p.pc.held = lenBuf ++ body) (hsound : wireFraming.Sound ⟨lenBuf, body⟩) :
    p.forwarded of ++ [body].filterMap of <+: p.sent of := by
  have hsent : wireFraming.frames (p.inbox.sent.take p.inbox.taken) = done ++ [⟨lenBuf, body⟩] := by
    rw [h.read, Framing.frames_wire_append h.sound, hheld]
    rw [show lenBuf ++ body = (⟨lenBuf, body⟩ : Frame).wire from rfl, Framing.frames_wire hsound]
  have hpre : done ++ [⟨lenBuf, body⟩] <+: wireFraming.frames p.inbox.sent := by
    rw [← hsent]
    exact Framing.frames_isPrefix_of_isPrefix (List.take_prefix _ _)
  obtain ⟨more, hmore⟩ := hpre
  rw [h.forwarded_eq hof, sent, under, ← hmore, List.map_append, List.filterMap_append, List.map_append,
    List.filterMap_append]
  exact List.prefix_append _ _

/-- Nothing is pending that was not sent. -/
theorem Pump.Forwards.pended_isPrefix_sent (h : p.Forwards done part) (hof : of [] = none) :
    p.pended of <+: p.sent of := by
  have hpc := h.pc
  rw [pended]
  cases hat : p.pc with
  | tell lenBuf body frame =>
      rw [hat] at hpc
      exact h.inHand_isPrefix hof (by rw [hat]; rfl) hpc
  | writeLen lenBuf body =>
      rw [hat] at hpc
      exact h.inHand_isPrefix hof (by rw [hat]; rfl) hpc
  | writeBody lenBuf body =>
      rw [hat] at hpc
      exact h.inHand_isPrefix hof (by rw [hat]; rfl) hpc
  | _ =>
      rw [show Pc.pended _ = [] from rfl, List.filterMap_nil, List.append_nil]
      obtain ⟨more, hmore⟩ := Framing.frames_isPrefix_of_isPrefix (F := wireFraming) h.outbox_isPrefix
      rw [forwarded, sent, under, under, ← hmore]
      simp

/-- A step writes on the frame that it completes. -/
theorem Pump.Forwards.forwarded_step (h : p.Forwards done []) (hrun : p.result = none) (hof : of [] = none)
    (d : Direction) (pending : Pending) :
    (p.step d pending).1.forwarded of =
      p.forwarded of ++ (p.pc.completes.map Frame.body).filterMap of := by
  rw [(h.step hrun d pending).forwarded_eq hof, h.forwarded_eq hof, List.map_append, List.filterMap_append]

/-- A move pends what it classifies, and lets go of what it completes. -/
theorem Pump.Move.pended_eq {d : Direction} {pending : Pending} {r : Pump × Pending × List CapturedFrame}
    (h : p.Move d pending r) :
    p.pc.completes.map Frame.body ++ r.1.pc.pended = p.pc.pended ++ p.pc.classified := by
  cases h with
  | waits hat => rcases hat with hat | ⟨lenBuf, n, hat⟩ <;> simp [hat, Pc.completes, Pc.pended, Pc.classified]
  | _ => simp [*, Pc.completes, Pc.pended, Pc.classified]

/-- A body counts as told once the recorder was, or when there is nothing to tell of it. -/
theorem Pump.Move.told_eq {d : Direction} {pending : Pending} {r : Pump × Pending × List CapturedFrame}
    (h : p.Move d pending r) (hclassified : p.pc.classified = []) :
    p.pc.completes.map Frame.body ++ r.1.pc.told = p.pc.told ++ p.pc.tells := by
  cases h with
  | waits hat => rcases hat with hat | ⟨lenBuf, n, hat⟩ <;> simp [hat, Pc.completes, Pc.told, Pc.tells]
  | unknown hat => simp [hat, Pc.classified] at hclassified
  | request _ hat => simp [hat, Pc.classified] at hclassified
  | unasked _ hat => simp [hat, Pc.classified] at hclassified
  | answer _ hat => simp [hat, Pc.classified] at hclassified
  | _ => simp [*, Pc.completes, Pc.told, Pc.tells]

/-- A step pends the frame that it classifies. -/
theorem Pump.Forwards.pended_step (h : p.Forwards done []) (hrun : p.result = none) (hof : of [] = none)
    (d : Direction) (pending : Pending) :
    (p.step d pending).1.pended of = p.pended of ++ p.pc.classified.filterMap of := by
  rw [pended, h.forwarded_step hrun hof, List.append_assoc, ← List.filterMap_append,
    (p.move_step d pending).pended_eq, List.filterMap_append, pended, List.append_assoc]

/-- A step tells the frame that it holds. -/
theorem Pump.Forwards.told_step (h : p.Forwards done []) (hrun : p.result = none) (hof : of [] = none)
    (hclassified : p.pc.classified = []) (d : Direction) (pending : Pending) :
    (p.step d pending).1.told of = p.told of ++ p.pc.tells.filterMap of := by
  rw [told, h.forwarded_step hrun hof, List.append_assoc, ← List.filterMap_append,
    (p.move_step d pending).told_eq hclassified, List.filterMap_append, told, List.append_assoc]

/-- No move changes what was sent. -/
theorem Pump.Move.sent_eq {d : Direction} {pending : Pending} {r : Pump × Pending × List CapturedFrame}
    (h : p.Move d pending r) : r.1.inbox.sent = p.inbox.sent := by
  cases h <;> rfl

/-- A step that neither classifies nor tells leaves the pending map and the recorder alone. -/
theorem Pump.step_quiet (hclassified : p.pc.classified = []) (htells : p.pc.tells = []) (d : Direction)
    (pending : Pending) :
    (p.step d pending).2 = (pending, []) ∧ (p.step d pending).1.pc.tells = [] := by
  have hmove := p.move_step d pending
  generalize p.step d pending = r at hmove
  cases hmove with
  | waits => exact ⟨rfl, htells⟩
  | unknown hat => simp [hat, Pc.classified] at hclassified
  | request _ hat => simp [hat, Pc.classified] at hclassified
  | unasked _ hat => simp [hat, Pc.classified] at hclassified
  | answer _ hat => simp [hat, Pc.classified] at hclassified
  | told hat => simp [hat, Pc.tells] at htells
  | _ => simp_all [Pc.tells]

/-- A failure changes none of the three views. -/
theorem Pump.Forwards.fail_views (h : p.Forwards done []) {n : Nat} (hn : n = 0 ∨ n < p.pc.writing.length)
    (hof : of [] = none) : (p.fail n).forwarded of = p.forwarded of ∧ (p.fail n).pended of = p.pended of ∧
      (p.fail n).told of = p.told of := by
  have hforwarded : (p.fail n).forwarded of = p.forwarded of := by
    rw [(h.fail hn).forwarded_eq hof, h.forwarded_eq hof]
  refine ⟨hforwarded, ?_, ?_⟩
  · rw [pended, hforwarded]
    rfl
  · rw [told, hforwarded]
    rfl

end Views

/-! ## One correlation id over a run

The account relates the stages of both pumps. It is kept by each of the steps that the two can take. -/

/-- What holds under the correlation id `id` of the two pumps, the pending map and the recorder. -/
structure Recorded (id : Int32) (P R : Pump) (pending : Pending) (recorded : List CapturedFrame) : Prop where
  answered : (R.sent (responseOf id)).length ≤ (P.forwarded (requestOf id)).length
  asked : (P.sent (requestOf id)).length ≤ (R.forwarded (responseOf id)).length + 1
  log : recorded.filter (fun f => f.correlationId = some id) =
    exchange (P.told (requestOf id)) (R.told (responseOf id))
  /-- Nothing waits under the id unless a request does. -/
  free : (P.pended (requestOf id)).length ≤ (R.pended (responseOf id)).length → pending.map[id]? = none
  waiting : ∀ q, (R.pended (responseOf id)).length < (P.pended (requestOf id)).length →
    (P.pended (requestOf id)).getLast? = some q → pending.map[id]? = some (q.apiKey, q.version)
  asks : ∀ lenBuf body frame, P.pc = .tell lenBuf body frame →
    ∃ q, parseRequestPrefix body = some q ∧ frame = capturedRequest q body
  answers : ∀ lenBuf body frame, R.pc = .tell lenBuf body frame →
    frame.isRequest = false ∧ frame.body = body ∧ (readCorrelationId body = some id →
      ∃ q, (P.pended (requestOf id)).getLast? = some q ∧ frame = answerTo q body)

section OneId

variable {id : Int32} {P R : Pump} {pending : Pending} {recorded : List CapturedFrame}
  {done done' : List Frame} {part part' : Bytes}

theorem requestOf_nil (id : Int32) : requestOf id [] = none := rfl

theorem responseOf_nil (id : Int32) : responseOf id [] = none := rfl

/-- The counts of a correlation id, each at most the next and all within one. -/
structure Counts (id : Int32) (P R : Pump) : Prop where
  responseTold : (R.forwarded (responseOf id)).length ≤ (R.told (responseOf id)).length
  responsePended : (R.told (responseOf id)).length ≤ (R.pended (responseOf id)).length
  responseSent : (R.pended (responseOf id)).length ≤ (R.sent (responseOf id)).length
  answered : (R.sent (responseOf id)).length ≤ (P.forwarded (requestOf id)).length
  requestTold : (P.forwarded (requestOf id)).length ≤ (P.told (requestOf id)).length
  requestPended : (P.told (requestOf id)).length ≤ (P.pended (requestOf id)).length
  requestSent : (P.pended (requestOf id)).length ≤ (P.sent (requestOf id)).length
  asked : (P.sent (requestOf id)).length ≤ (R.forwarded (responseOf id)).length + 1

/-- The counts of a direction that was recorded so far. -/
theorem Recorded.counts (h : Recorded id P R pending recorded) (hP : P.Forwards done part)
    (hR : R.Forwards done' part') : Counts id P R where
  responseTold := R.forwarded_isPrefix_told.length_le
  responsePended := R.told_isPrefix_pended.length_le
  responseSent := (hR.pended_isPrefix_sent (responseOf_nil id)).length_le
  answered := h.answered
  requestTold := P.forwarded_isPrefix_told.length_le
  requestPended := P.told_isPrefix_pended.length_le
  requestSent := (hP.pended_isPrefix_sent (requestOf_nil id)).length_le
  asked := h.asked

/-- A step of the request pump that neither classifies nor tells. -/
theorem Recorded.requestQuiet (h : Recorded id P R pending recorded) (hP : P.Forwards done [])
    (hrun : P.result = none) (hclassified : P.pc.classified = []) (htells : P.pc.tells = []) :
    Recorded id (P.step .request pending).1 R pending recorded := by
  have hsent : (P.step .request pending).1.sent (requestOf id) = P.sent (requestOf id) := by
    rw [Pump.sent, (P.move_step .request pending).sent_eq]
    rfl
  have hforwarded := hP.forwarded_step hrun (requestOf_nil id) .request pending
  have hpended := hP.pended_step hrun (requestOf_nil id) .request pending
  have htold := hP.told_step hrun (requestOf_nil id) hclassified .request pending
  rw [hclassified, List.filterMap_nil, List.append_nil] at hpended
  rw [htells, List.filterMap_nil, List.append_nil] at htold
  refine ⟨?_, ?_, ?_, ?_, ?_, ?_, ?_⟩
  · rw [hforwarded, List.length_append]
    exact Nat.le_add_right_of_le h.answered
  · rw [hsent]
    exact h.asked
  · rw [htold]
    exact h.log
  · rw [hpended]
    exact h.free
  · rw [hpended]
    exact h.waiting
  · intro lenBuf body frame hat
    have hnone := (P.step_quiet hclassified htells .request pending).2
    rw [hat] at hnone
    cases hnone
  · rw [hpended]
    exact h.answers

/-- A step of the responses that tells nothing keeps the record. -/
theorem Recorded.responseQuiet (h : Recorded id P R pending recorded) (hR : R.Forwards done [])
    (hrun : R.result = none) (hclassified : R.pc.classified = []) (htells : R.pc.tells = []) :
    Recorded id P (R.step .response pending).1 pending recorded := by
  have hsent : (R.step .response pending).1.sent (responseOf id) = R.sent (responseOf id) := by
    rw [Pump.sent, (R.move_step .response pending).sent_eq]
    rfl
  have hforwarded := hR.forwarded_step hrun (responseOf_nil id) .response pending
  have hpended := hR.pended_step hrun (responseOf_nil id) .response pending
  have htold := hR.told_step hrun (responseOf_nil id) hclassified .response pending
  rw [hclassified, List.filterMap_nil, List.append_nil] at hpended
  rw [htells, List.filterMap_nil, List.append_nil] at htold
  refine ⟨?_, ?_, ?_, ?_, ?_, h.asks, ?_⟩
  · rw [hsent]
    exact h.answered
  · have hasked := h.asked
    rw [hforwarded, List.length_append]
    omega
  · rw [htold]
    exact h.log
  · rw [hpended]
    exact h.free
  · rw [hpended]
    exact h.waiting
  · intro lenBuf body frame hat
    have hnone := (R.step_quiet hclassified htells .response pending).2
    rw [hat] at hnone
    cases hnone

/-- The request pump records the request in hand as pending. -/
theorem Recorded.requestPends (h : Recorded id P R pending recorded) (hP : P.Forwards done [])
    (hR : R.Forwards done' part') (hrun : P.result = none) {lenBuf body : Bytes}
    (hat : P.pc = .classify lenBuf body) :
    Recorded id (P.step .request pending).1 R (P.step .request pending).2.1
      (recorded ++ (P.step .request pending).2.2) := by
  have hcompletes : P.pc.completes = [] := by rw [hat]; rfl
  have hclassified : P.pc.classified = [body] := by rw [hat]; rfl
  have hnottold : P.pc.told = [] := by rw [hat]; rfl
  have hforwarded := hP.forwarded_step hrun (requestOf_nil id) .request pending
  have hpended := hP.pended_step hrun (requestOf_nil id) .request pending
  have hfit := ((hP.step hrun .request pending).pended_isPrefix_sent (requestOf_nil id)).length_le
  have hcounts := h.counts hP hR
  rw [hcompletes, List.map_nil, List.filterMap_nil, List.append_nil] at hforwarded
  rw [hclassified] at hpended
  have htoldP : P.told (requestOf id) = P.forwarded (requestOf id) := by
    rw [Pump.told, hnottold, List.filterMap_nil, List.append_nil]
  cases hq : parseRequestPrefix body with
  | none =>
      have hnone : requestOf id body = none := by rw [requestOf, hq, Option.bind_none]
      have hstep : P.step .request pending = ({ P with pc := .writeLen lenBuf body }, pending, []) := by
        simp [Pump.step, hat, Direction.isRequest, hq]
      rw [hstep] at hforwarded hpended hfit ⊢
      rw [List.filterMap_cons_none hnone, List.filterMap_nil, List.append_nil] at hpended
      have htold : ({ P with pc := .writeLen lenBuf body } : Pump).told (requestOf id) =
          P.told (requestOf id) := by
        rw [htoldP, Pump.told, hforwarded, show Pc.told _ = [body] from rfl, List.filterMap_cons_none hnone,
          List.filterMap_nil, List.append_nil]
      refine ⟨hforwarded.symm ▸ h.answered, h.asked, ?_, ?_, ?_, fun _ _ _ hpc => (by cases hpc), ?_⟩
      · rw [htold, List.append_nil]
        exact h.log
      · rw [hpended]
        exact h.free
      · rw [hpended]
        exact h.waiting
      · rw [hpended]
        exact h.answers
  | some q =>
      have hstep : P.step .request pending =
          ({ P with pc := .tell lenBuf body (capturedRequest q body) },
            pending.record q.correlationId q.apiKey q.apiVersion, []) := by
        simp [Pump.step, hat, Direction.isRequest, hq, capturedRequest]
      rw [hstep] at hforwarded hpended hfit ⊢
      have htold : ({ P with pc := .tell lenBuf body (capturedRequest q body) } : Pump).told (requestOf id) =
          P.told (requestOf id) := by
        rw [htoldP, Pump.told, hforwarded, show Pc.told _ = [] from rfl, List.filterMap_nil, List.append_nil]
      have hasks : ∀ l b f,
          (⟨P.inbox, P.outbox, .tell lenBuf body (capturedRequest q body), P.result⟩ : Pump).pc = .tell l b f →
           ∃ q, parseRequestPrefix b = some q ∧ f = capturedRequest q b := by
        rintro l b f ⟨⟩
        exact ⟨q, hq, rfl⟩
      by_cases hid : q.correlationId = id
      · -- the client has had the responses to all earlier requests under this id
        rw [List.filterMap_cons_some (requestOf_eq_some hq hid), List.filterMap_nil] at hpended
        have hlen := congrArg List.length hpended
        rw [List.length_append, List.length_singleton] at hlen
        have hsent : ({ P with pc := .tell lenBuf body (capturedRequest q body) } : Pump).sent (requestOf id) =
            P.sent (requestOf id) := rfl
        rw [hsent] at hfit
        obtain ⟨h1, h2, h3, h4, h5, h6, -, h8⟩ := hcounts
        refine ⟨hforwarded.symm ▸ h.answered, h.asked, ?_, ?_, ?_, hasks, ?_⟩
        · rw [htold, List.append_nil]
          exact h.log
        · intro hle
          omega
        · intro q' _ hlast
          rw [hpended, List.getLast?_concat] at hlast
          cases hlast
          show (pending.map.insert q.correlationId _)[id]? = _
          rw [get_insert, if_pos hid]
          rfl
        · intro l b f hR'
          obtain ⟨hreq, hbody, -⟩ := h.answers l b f hR'
          refine ⟨hreq, hbody, fun hcorr => ?_⟩
          -- a response in hand would make one request too many
          have hone : R.pended (responseOf id) = R.forwarded (responseOf id) ++ [b] := by
            rw [Pump.pended, hR', Pc.pended, List.filterMap_cons_some (by rw [responseOf, if_pos hcorr]),
              List.filterMap_nil]
          have hRlen := congrArg List.length hone
          rw [List.length_append, List.length_singleton] at hRlen
          omega
      · have hnone := requestOf_eq_none hq hid
        rw [List.filterMap_cons_none hnone, List.filterMap_nil, List.append_nil] at hpended
        have hmap : (pending.record q.correlationId q.apiKey q.apiVersion).map[id]? = pending.map[id]? := by
          show (pending.map.insert q.correlationId _)[id]? = _
          rw [get_insert, if_neg hid]
        refine ⟨hforwarded.symm ▸ h.answered, h.asked, ?_, ?_, ?_, hasks, ?_⟩
        · rw [htold, List.append_nil]
          exact h.log
        · rw [hpended, hmap]
          exact h.free
        · rw [hpended, hmap]
          exact h.waiting
        · rw [hpended]
          exact h.answers

/-- The request pump tells the recorder of the request in hand. -/
theorem Recorded.requestTells (h : Recorded id P R pending recorded) (hP : P.Forwards done [])
    (hR : R.Forwards done' part') (hrun : P.result = none) {lenBuf body : Bytes} {frame : CapturedFrame}
    (hat : P.pc = .tell lenBuf body frame) :
    Recorded id (P.step .request pending).1 R (P.step .request pending).2.1
      (recorded ++ (P.step .request pending).2.2) := by
  have hcompletes : P.pc.completes = [] := by rw [hat]; rfl
  have hclassified : P.pc.classified = [] := by rw [hat]; rfl
  have htells : P.pc.tells = [body] := by rw [hat]; rfl
  have hforwarded := hP.forwarded_step hrun (requestOf_nil id) .request pending
  have hpended := hP.pended_step hrun (requestOf_nil id) .request pending
  have htold := hP.told_step hrun (requestOf_nil id) hclassified .request pending
  obtain ⟨-, h2, h3, h4, h5, -, -, -⟩ := h.counts hP hR
  rw [hcompletes, List.map_nil, List.filterMap_nil, List.append_nil] at hforwarded
  rw [hclassified, List.filterMap_nil, List.append_nil] at hpended
  rw [htells] at htold
  obtain ⟨q, hq, rfl⟩ := h.asks _ _ _ hat
  have hstep : P.step .request pending =
      ({ P with pc := .writeLen lenBuf body }, pending, [capturedRequest q body]) := by
    simp [Pump.step, hat]
  rw [hstep] at hforwarded hpended htold ⊢
  have hframe : (capturedRequest q body).correlationId = some q.correlationId := by
    show (parseRequestPrefix body).map _ = _
    rw [hq, Option.map_some]
  refine ⟨hforwarded.symm ▸ h.answered, h.asked, ?_, ?_, ?_, fun _ _ _ hpc => (by cases hpc), ?_⟩
  · rw [htold, List.filter_append, h.log]
    by_cases hid : q.correlationId = id
    · rw [List.filterMap_cons_some (requestOf_eq_some hq hid), List.filterMap_nil,
        exchange_concat_request (by omega),
        List.filter_cons_of_pos (by rw [hframe, hid]; exact decide_eq_true rfl), List.filter_nil]
    · rw [List.filterMap_cons_none (requestOf_eq_none hq hid), List.filterMap_nil, List.append_nil,
        List.filter_cons_of_neg (by simpa [hframe] using hid), List.filter_nil, List.append_nil]
  · rw [hpended]
    exact h.free
  · rw [hpended]
    exact h.waiting
  · rw [hpended]
    exact h.answers

/-- **A step of the requests keeps the record**, with what it adds. -/
theorem Recorded.stepRequest (h : Recorded id P R pending recorded) (hP : P.Forwards done [])
    (hR : R.Forwards done' part') (hrun : P.result = none) :
    Recorded id (P.step .request pending).1 R (P.step .request pending).2.1
      (recorded ++ (P.step .request pending).2.2) := by
  cases hat : P.pc with
  | classify lenBuf body => exact h.requestPends hP hR hrun hat
  | tell lenBuf body frame => exact h.requestTells hP hR hrun hat
  | _ =>
      have hclassified : P.pc.classified = [] := by rw [hat]; rfl
      have htells : P.pc.tells = [] := by rw [hat]; rfl
      obtain ⟨hquiet, -⟩ := P.step_quiet hclassified htells .request pending
      rw [hquiet, List.append_nil]
      exact h.requestQuiet hP hrun hclassified htells

/-- A response under another correlation id leaves the entry of `id` alone. -/
theorem Pump.step_other_response {lenBuf body : Bytes} (hat : R.pc = .classify lenBuf body)
    (hid : readCorrelationId body ≠ some id) (pending : Pending) :
    ∃ pc rest, R.step .response pending = ({ R with pc }, rest, []) ∧
      rest.map[id]? = pending.map[id]? ∧ pc.told.filterMap (responseOf id) = [] ∧
      ∀ l b f, pc = .tell l b f → f.isRequest = false ∧ f.body = b ∧ readCorrelationId b ≠ some id := by
  have hnone : [body].filterMap (responseOf id) = [] := by
    rw [List.filterMap_cons_none (by rw [responseOf, if_neg hid]), List.filterMap_nil]
  cases hcorr : readCorrelationId body with
  | none =>
      refine ⟨.writeLen lenBuf body, pending, ?_, rfl, hnone, fun _ _ _ hpc => (by cases hpc)⟩
      simp [Pump.step, hat, Direction.isRequest, hcorr]
  | some corr =>
      have hne : corr ≠ id := fun he => hid (he ▸ hcorr)
      have herase : (pending.map.erase corr)[id]? = pending.map[id]? := by
        rw [get_erase, if_neg hne]
      cases hfound : pending.map[corr]? with
      | none =>
          refine ⟨.writeLen lenBuf body, (pending.take corr).2, ?_, herase, hnone,
            fun _ _ _ hpc => (by cases hpc)⟩
          simp [Pump.step, hat, Direction.isRequest, hcorr, Pending.take, hfound]
      | some of =>
          refine ⟨.tell lenBuf body (capturedResponse of body), (pending.take corr).2, ?_, herase, rfl, ?_⟩
          · simp [Pump.step, hat, Direction.isRequest, hcorr, Pending.take, hfound, capturedResponse]
          · rintro l b f ⟨⟩
            exact ⟨rfl, rfl, hid⟩

/-- The response pump takes the request of the response in hand out of the pending map. -/
theorem Recorded.responsePends (h : Recorded id P R pending recorded) (hP : P.Forwards done part)
    (hR : R.Forwards done' []) (hrun : R.result = none) {lenBuf body : Bytes}
    (hat : R.pc = .classify lenBuf body) :
    Recorded id P (R.step .response pending).1 (R.step .response pending).2.1
      (recorded ++ (R.step .response pending).2.2) := by
  have hcompletes : R.pc.completes = [] := by rw [hat]; rfl
  have hclassified : R.pc.classified = [body] := by rw [hat]; rfl
  have hnottold : R.pc.told = [] := by rw [hat]; rfl
  have hforwarded := hR.forwarded_step hrun (responseOf_nil id) .response pending
  have hpended := hR.pended_step hrun (responseOf_nil id) .response pending
  have hfit := ((hR.step hrun .response pending).pended_isPrefix_sent (responseOf_nil id)).length_le
  have hcounts := h.counts hP hR
  rw [hcompletes, List.map_nil, List.filterMap_nil, List.append_nil] at hforwarded
  rw [hclassified] at hpended
  have htoldR : R.told (responseOf id) = R.forwarded (responseOf id) := by
    rw [Pump.told, hnottold, List.filterMap_nil, List.append_nil]
  by_cases hid : readCorrelationId body = some id
  · -- the request is the last, and it waits
    have hsome : responseOf id body = some body := by rw [responseOf, if_pos hid]
    have hsent : (R.step .response pending).1.sent (responseOf id) = R.sent (responseOf id) := by
      rw [Pump.sent, (R.move_step .response pending).sent_eq]
      rfl
    rw [List.filterMap_cons_some hsome, List.filterMap_nil] at hpended
    have hlen := congrArg List.length hpended
    rw [List.length_append, List.length_singleton] at hlen
    rw [hsent] at hfit
    obtain ⟨h1, h2, h3, h4, h5, h6, h7, h8⟩ := hcounts
    have hlt : (R.pended (responseOf id)).length < (P.pended (requestOf id)).length := by omega
    obtain ⟨q, hlast⟩ : ∃ q, (P.pended (requestOf id)).getLast? = some q := by
      have hne : P.pended (requestOf id) ≠ [] := List.ne_nil_of_length_pos (by omega)
      exact ⟨_, List.getLast?_eq_some_getLast hne⟩
    have hfound := h.waiting q hlt hlast
    have hstep : R.step .response pending =
        ({ R with pc := .tell lenBuf body (answerTo q body) }, (pending.take id).2, []) := by
      simp [Pump.step, hat, Direction.isRequest, hid, Pending.take, hfound, answerTo]
    rw [hstep] at hforwarded hpended hlen ⊢
    have htold : ({ R with pc := .tell lenBuf body (answerTo q body) } : Pump).told (responseOf id) =
        R.told (responseOf id) := by
      rw [htoldR, Pump.told, hforwarded, show Pc.told _ = [] from rfl, List.filterMap_nil, List.append_nil]
    refine ⟨h.answered, hforwarded.symm ▸ h.asked, ?_, ?_, ?_, h.asks, ?_⟩
    · rw [htold, List.append_nil]
      exact h.log
    · intro _
      show (pending.map.erase id)[id]? = none
      rw [get_erase, if_pos rfl]
    · intro q' hlt' _
      omega
    · rintro l b f ⟨⟩
      exact ⟨rfl, rfl, fun _ => ⟨q, hlast, rfl⟩⟩
  · have hnone : responseOf id body = none := by rw [responseOf, if_neg hid]
    rw [List.filterMap_cons_none hnone, List.filterMap_nil, List.append_nil] at hpended
    obtain ⟨pc, rest, hstep, hrest, hpctold, hanswers⟩ := R.step_other_response hat hid pending
    rw [hstep] at hforwarded hpended ⊢
    have htold : ({ R with pc } : Pump).told (responseOf id) = R.told (responseOf id) := by
      rw [htoldR, Pump.told, hforwarded, hpctold, List.append_nil]
    refine ⟨h.answered, hforwarded.symm ▸ h.asked, ?_, ?_, ?_, h.asks, fun l b f hpc => ?_⟩
    · rw [htold, List.append_nil]
      exact h.log
    · rw [hpended, hrest]
      exact h.free
    · rw [hpended, hrest]
      exact h.waiting
    · obtain ⟨hreq, hbody, hne⟩ := hanswers l b f hpc
      exact ⟨hreq, hbody, fun h => absurd h hne⟩

/-- The response pump tells the recorder of the response in hand. -/
theorem Recorded.responseTells (h : Recorded id P R pending recorded) (hP : P.Forwards done part)
    (hR : R.Forwards done' []) (hrun : R.result = none) {lenBuf body : Bytes} {frame : CapturedFrame}
    (hat : R.pc = .tell lenBuf body frame) :
    Recorded id P (R.step .response pending).1 (R.step .response pending).2.1
      (recorded ++ (R.step .response pending).2.2) := by
  have hcompletes : R.pc.completes = [] := by rw [hat]; rfl
  have hclassified : R.pc.classified = [] := by rw [hat]; rfl
  have htells : R.pc.tells = [body] := by rw [hat]; rfl
  have hforwarded := hR.forwarded_step hrun (responseOf_nil id) .response pending
  have hpended := hR.pended_step hrun (responseOf_nil id) .response pending
  have htold := hR.told_step hrun (responseOf_nil id) hclassified .response pending
  obtain ⟨-, -, h3, h4, h5, h6, h7, h8⟩ := h.counts hP hR
  rw [hcompletes, List.map_nil, List.filterMap_nil, List.append_nil] at hforwarded
  rw [hclassified, List.filterMap_nil, List.append_nil] at hpended
  rw [htells] at htold
  obtain ⟨hreq, hbody, hanswer⟩ := h.answers _ _ _ hat
  have hstep : R.step .response pending = ({ R with pc := .writeLen lenBuf body }, pending, [frame]) := by
    simp [Pump.step, hat]
  rw [hstep] at hforwarded hpended htold ⊢
  have hframe : frame.correlationId = readCorrelationId body := by
    rw [CapturedFrame.correlationId, hreq, hbody]
    rfl
  refine ⟨h.answered, hforwarded.symm ▸ h.asked, ?_, ?_, ?_, h.asks, fun _ _ _ hpc => (by cases hpc)⟩
  · rw [htold, List.filter_append, h.log]
    by_cases hid : readCorrelationId body = some id
    · obtain ⟨q, hlast, rfl⟩ := hanswer hid
      have hsome : responseOf id body = some body := by rw [responseOf, if_pos hid]
      -- the response in hand is counted as pended and not as told, so the requests are one ahead
      have hone : R.pended (responseOf id) = R.forwarded (responseOf id) ++ [body] := by
        rw [Pump.pended, hat, Pc.pended, List.filterMap_cons_some hsome, List.filterMap_nil]
      have hRtold : R.told (responseOf id) = R.forwarded (responseOf id) := by
        rw [Pump.told, hat, show Pc.told _ = [] from rfl, List.filterMap_nil, List.append_nil]
      have hlen := congrArg List.length hone
      rw [List.length_append, List.length_singleton] at hlen
      have hall : P.told (requestOf id) = P.pended (requestOf id) :=
        P.told_isPrefix_pended.eq_of_length (by omega)
      have hahead : (P.told (requestOf id)).length = (R.told (responseOf id)).length + 1 := by
        rw [hRtold]
        omega
      rw [List.filterMap_cons_some hsome, List.filterMap_nil, exchange_concat_response hahead (hall ▸ hlast),
        List.filter_cons_of_pos (by rw [hframe, hid]; exact decide_eq_true rfl), List.filter_nil]
    · have hnone : responseOf id body = none := by rw [responseOf, if_neg hid]
      rw [List.filterMap_cons_none hnone, List.filterMap_nil, List.append_nil,
        List.filter_cons_of_neg (by simpa [hframe] using hid), List.filter_nil, List.append_nil]
  · rw [hpended]
    exact h.free
  · rw [hpended]
    exact h.waiting

/-- **A step of the responses keeps the record**, with what it adds. -/
theorem Recorded.stepResponse (h : Recorded id P R pending recorded) (hP : P.Forwards done part)
    (hR : R.Forwards done' []) (hrun : R.result = none) :
    Recorded id P (R.step .response pending).1 (R.step .response pending).2.1
      (recorded ++ (R.step .response pending).2.2) := by
  cases hat : R.pc with
  | classify lenBuf body => exact h.responsePends hP hR hrun hat
  | tell lenBuf body frame => exact h.responseTells hP hR hrun hat
  | _ =>
      have hclassified : R.pc.classified = [] := by rw [hat]; rfl
      have htells : R.pc.tells = [] := by rw [hat]; rfl
      obtain ⟨hquiet, -⟩ := R.step_quiet hclassified htells .response pending
      rw [hquiet, List.append_nil]
      exact h.responseQuiet hR hrun hclassified htells

end OneId

/-! ## Every run

An induction over the run, under the condition on the client and the broker. -/

/-- What the peers promise. A client uses a correlation id again only after the response to its last use
    has reached it; a broker answers only requests that have reached it whole, each at most once. -/
def Conn.Promised (c : Conn) : Action → Prop
  | .send .request bytes => ∀ id,
      (under (requestOf id) ((c.pump .request).inbox.sent ++ bytes)).length ≤
        (under (responseOf id) (c.pump .response).outbox).length + 1
  | .send .response bytes => ∀ id,
      (under (responseOf id) ((c.pump .response).inbox.sent ++ bytes)).length ≤
        (under (requestOf id) (c.pump .request).outbox).length
  | _ => True

def Conn.Recorded (c : Conn) (id : Int32) : Prop :=
  KafkaTap.Recorded id (c.pump .request) (c.pump .response) c.pending c.recorded

/-- **One step of the system** keeps the account of every correlation id. -/
theorem Conn.recorded_next {c : Conn} {a : Action} {id : Int32} (h : c.Recorded id)
    (hF : c.Accounted) (hguard : c.guard a) (hpromised : c.Promised a) :
    (c.next a).Recorded id := by
  obtain ⟨done, part, hP⟩ := hF .request
  obtain ⟨done', part', hR⟩ := hF .response
  unfold Conn.Recorded
  cases a with
  | send d bytes =>
      cases d with
      | request =>
          rw [Conn.pump_next_send, Conn.pump_next_of_ne (d := .response) (by simp [Action.direction])]
          exact ⟨h.answered, hpromised id, h.log, h.free, h.waiting, h.asks, h.answers⟩
      | response =>
          rw [Conn.pump_next_send, Conn.pump_next_of_ne (d := .request) (by simp [Action.direction])]
          exact ⟨hpromised id, h.asked, h.log, h.free, h.waiting, h.asks, h.answers⟩
  | close d =>
      cases d with
      | request =>
          rw [Conn.pump_next_close, Conn.pump_next_of_ne (d := .response) (by simp [Action.direction])]
          exact ⟨h.answered, h.asked, h.log, h.free, h.waiting, h.asks, h.answers⟩
      | response =>
          rw [Conn.pump_next_close, Conn.pump_next_of_ne (d := .request) (by simp [Action.direction])]
          exact ⟨h.answered, h.asked, h.log, h.free, h.waiting, h.asks, h.answers⟩
  | fail d n =>
      cases d with
      | request =>
          obtain rfl := hP.running hguard.1
          obtain ⟨hforwarded, hpended, htold⟩ := hP.fail_views hguard.2 (requestOf_nil id)
          rw [Conn.pump_next_fail, Conn.pump_next_of_ne (d := .response) (by simp [Action.direction])]
          exact ⟨hforwarded.symm ▸ h.answered, h.asked, htold.symm ▸ h.log, hpended.symm ▸ h.free,
            hpended.symm ▸ h.waiting, h.asks, hpended.symm ▸ h.answers⟩
      | response =>
          obtain rfl := hR.running hguard.1
          obtain ⟨hforwarded, hpended, htold⟩ := hR.fail_views hguard.2 (responseOf_nil id)
          rw [Conn.pump_next_fail, Conn.pump_next_of_ne (d := .request) (by simp [Action.direction])]
          exact ⟨h.answered, hforwarded.symm ▸ h.asked, htold.symm ▸ h.log, hpended.symm ▸ h.free,
            hpended.symm ▸ h.waiting, h.asks, h.answers⟩
  | step d =>
      cases d with
      | request =>
          obtain rfl := hP.running hguard
          rw [Conn.pump_next_step, Conn.pump_next_of_ne (d := .response) (by simp [Action.direction])]
          exact Recorded.stepRequest h hP hR hguard
      | response =>
          obtain rfl := hR.running hguard
          rw [Conn.pump_next_step, Conn.pump_next_of_ne (d := .request) (by simp [Action.direction])]
          exact Recorded.stepResponse h hP hR hguard

/-- The states of a connection whose peers keep their promises. -/
abbrev PromisedReachable (c : Conn) : Prop :=
  Reach (· = Conn.start) (fun c a => c.guard a ∧ c.Promised a) Conn.next c

theorem Conn.start_recorded (id : Int32) : Conn.start.Recorded id where
  answered := Nat.le_refl 0
  asked := Nat.zero_le 1
  log := rfl
  free := fun _ => rfl
  waiting := fun _ h => absurd h (Nat.lt_irrefl 0)
  asks := fun _ _ _ h => by cases h
  answers := fun _ _ _ h => by cases h

/-- Both invariants hold in every run. -/
theorem PromisedReachable.accounted_recorded {c : Conn} (h : PromisedReachable c) :
    c.Accounted ∧ ∀ id, c.Recorded id := by
  refine @Reach.invariant _ _ _ _ _ (fun c => c.Accounted ∧ ∀ id, c.Recorded id) ?_ ?_ c h
  · rintro c rfl
    exact ⟨fun _ => ⟨[], [], Pump.start_forwards⟩, Conn.start_recorded⟩
  · rintro c a ⟨hF, hid⟩ ⟨hguard, hpromised⟩
    exact ⟨Conn.accounted_next hF hguard, fun id => Conn.recorded_next (hid id) hF hguard hpromised⟩

/-- **What the recorder is told.** In every run whose peers keep their promises, however the two pumps take
    turns and whichever calls fail: under each correlation id the recorder was told the first requests that
    the client sent and the first responses that the broker sent, each request at once followed by its own
    response, with the api key and version of that request; and nothing is written on before it is told. -/
theorem recorded_exchanges {c : Conn} (h : PromisedReachable c) (id : Int32) :
    ∃ n m, m ≤ n ∧ n ≤ m + 1 ∧
      c.recorded.filter (fun f => f.correlationId = some id) =
        exchange (((c.pump .request).sent (requestOf id)).take n)
          (((c.pump .response).sent (responseOf id)).take m) ∧
      ((c.pump .request).forwarded (requestOf id)).length ≤ n ∧
      ((c.pump .response).forwarded (responseOf id)).length ≤ m := by
  obtain ⟨hF, hrecorded⟩ := PromisedReachable.accounted_recorded h
  have hid := hrecorded id
  obtain ⟨done, part, hP⟩ := hF .request
  obtain ⟨done', part', hR⟩ := hF .response
  obtain ⟨h1, h2, h3, h4, h5, h6, h7, h8⟩ := hid.counts hP hR
  have hrequests := (Pump.told_isPrefix_pended _).trans (hP.pended_isPrefix_sent (requestOf_nil id))
  have hresponses := (Pump.told_isPrefix_pended _).trans (hR.pended_isPrefix_sent (responseOf_nil id))
  refine ⟨_, _, ?_, ?_, ?_, h5, h1⟩
  · omega
  · omega
  · rw [hid.log, ← List.prefix_iff_eq_take.mp hrequests, ← List.prefix_iff_eq_take.mp hresponses]

/-- A request and its response on an otherwise silent connection. -/
def oneExchange : List Action :=
  [.send .request [0, 0, 0, 8, 0, 18, 0, 3, 0, 0, 0, 7]] ++ List.replicate 8 (.step .request) ++
    [.send .response [0, 0, 0, 4, 0, 0, 0, 7]] ++ List.replicate 8 (.step .response)

theorem oneExchange_answers (id : Int32) :
    (under (responseOf id) [0, 0, 0, 4, 0, 0, 0, 7]).length ≤
      (under (requestOf id) [0, 0, 0, 8, 0, 18, 0, 3, 0, 0, 0, 7]).length := by
  have hrequest : (wireFraming.frames [0, 0, 0, 8, 0, 18, 0, 3, 0, 0, 0, 7]).map Frame.body =
      [[0, 18, 0, 3, 0, 0, 0, 7]] := by decide
  have hresponse : (wireFraming.frames [0, 0, 0, 4, 0, 0, 0, 7]).map Frame.body = [[0, 0, 0, 7]] := by
    decide
  rw [under, under, hrequest, hresponse]
  by_cases hid : id = 7
  · subst hid
    decide
  · have hnone : responseOf id [0, 0, 0, 7] = none := by
      rw [responseOf, if_neg]
      intro hsome
      have hseven : readCorrelationId [0, 0, 0, 7] = some 7 := by decide
      exact hid (Option.some.inj (hsome.symm.trans hseven))
    rw [List.filterMap_cons_none hnone, List.filterMap_nil]
    exact Nat.zero_le _

theorem oneExchange_promised : PromisedReachable (oneExchange.foldl Conn.next Conn.start) := by
  refine Reach.foldl _ (.init rfl) ⟨⟨rfl, fun id => ?_⟩, ?_⟩
  · have hone : (wireFraming.frames [0, 0, 0, 8, 0, 18, 0, 3, 0, 0, 0, 7]).length ≤ 1 := by decide
    exact ((List.length_filterMap_le _ _).trans (List.length_map _ ▸ hone)).trans (Nat.le_add_left 1 _)
  · exact ⟨⟨rfl, trivial⟩, ⟨rfl, trivial⟩, ⟨rfl, trivial⟩, ⟨rfl, trivial⟩, ⟨rfl, trivial⟩, ⟨rfl, trivial⟩,
      ⟨rfl, trivial⟩, ⟨rfl, trivial⟩, ⟨rfl, oneExchange_answers⟩, ⟨rfl, trivial⟩, ⟨rfl, trivial⟩,
      ⟨rfl, trivial⟩, ⟨rfl, trivial⟩, ⟨rfl, trivial⟩, ⟨rfl, trivial⟩, ⟨rfl, trivial⟩, ⟨rfl, trivial⟩, trivial⟩

/-- The run tells the recorder both frames under the correlation id 7. -/
theorem recorded_exchanges_oneExchange :
    (oneExchange.foldl Conn.next Conn.start).recorded.length = 2 ∧
      ∃ n m, m ≤ n ∧ n ≤ m + 1 ∧
        (oneExchange.foldl Conn.next Conn.start).recorded.filter (fun f => f.correlationId = some 7) =
          exchange ((((oneExchange.foldl Conn.next Conn.start).pump .request).sent (requestOf 7)).take n)
            ((((oneExchange.foldl Conn.next Conn.start).pump .response).sent (responseOf 7)).take m) ∧
        (((oneExchange.foldl Conn.next Conn.start).pump .request).forwarded (requestOf 7)).length ≤ n ∧
        (((oneExchange.foldl Conn.next Conn.start).pump .response).forwarded (responseOf 7)).length ≤ m :=
  ⟨by decide, recorded_exchanges oneExchange_promised 7⟩

end Krabka.KafkaTap
