import Krabka.TraceContext.SqlCommenter

/-!
# `TraceContext.Carrier` — a trace context on its way through services

A service reads the context of a caller from headers that the caller has written, keeps it as a carrier, and
writes it to the headers of what it sends. What came from outside is parsed and rendered again, and is not
forwarded as it stands. The identifiers of a trace must be the same behind any number of services: a carrier
that was read once is read unchanged from the headers it writes, between any other headers.

The `tracestate` is parsed by a library. `traceState` is `TraceState::from_str` followed by `header`.
-/

namespace Krabka
namespace TraceContext

open Text

/-! ## Hexadecimal of a fixed width

Bytes and their small hexadecimal digits are in bijection, so rendering what was parsed gives the text back.
-/

def digitByte (n : Nat) : UInt8 := if n < 10 then UInt8.ofNat (0x30 + n) else UInt8.ofNat (0x57 + n)

/-- `{:0w$x}` of a number that fits in `w` digits. -/
def hexBytes : Nat → Nat → List UInt8
  | 0, _ => []
  | w + 1, n => hexBytes w (n / 16) ++ [digitByte (n % 16)]

/-- ASCII. -/
def asciiChars (bytes : List UInt8) : List Char := bytes.map fun b => Char.ofNat b.toNat

theorem isLowerHexByte_digitByte {n : Nat} (h : n < 16) : isLowerHexByte (digitByte n) = true := by
  revert n
  decide

/-- A digit that was written is read back. -/
theorem hexDigit_digitByte {n : Nat} (h : n < 16) : hexDigit (digitByte n) = n := by
  revert n
  decide

/-- A lower-case digit is written as it was read. -/
theorem digitByte_hexDigit {b : UInt8} (h : isLowerHexByte b = true) :
    hexDigit b < 16 ∧ digitByte (hexDigit b) = b := by
  revert b
  decide +kernel

/-- One more digit is worth sixteen times what is before it, and itself. -/
theorem fromHex_concat (bs : List UInt8) (b : UInt8) : fromHex (bs ++ [b]) = 16 * fromHex bs + hexDigit b := by
  simp [fromHex]

theorem isLowerHex_concat (bs : List UInt8) (b : UInt8) :
    isLowerHex (bs ++ [b]) = true ↔ isLowerHex bs = true ∧ isLowerHexByte b = true := by
  simp [isLowerHex]

/-- A number is rendered as the digits it was read from. -/
theorem hexBytes_fromHex {bs : List UInt8} (h : isLowerHex bs = true) :
    fromHex bs < 16 ^ bs.length ∧ hexBytes bs.length (fromHex bs) = bs := by
  induction bs using List.reverseRecOn with
  | nil => exact ⟨Nat.one_pos, rfl⟩
  | append_singleton bs b ih =>
      obtain ⟨hbs, hb⟩ := (isLowerHex_concat bs b).mp h
      obtain ⟨hlt, hrender⟩ := ih hbs
      obtain ⟨hdigit, hbyte⟩ := digitByte_hexDigit hb
      have hhigh : (16 * fromHex bs + hexDigit b) / 16 = fromHex bs := by omega
      have hlow : (16 * fromHex bs + hexDigit b) % 16 = hexDigit b := by omega
      rw [fromHex_concat, List.length_append, List.length_singleton, hexBytes, hhigh, hlow, hrender, hbyte]
      refine ⟨?_, rfl⟩
      rw [Nat.pow_succ]
      omega

/-- A number that fits is written in lower case, in its width, and read back. -/
theorem fromHex_hexBytes {w n : Nat} (h : n < 16 ^ w) :
    fromHex (hexBytes w n) = n ∧ isLowerHex (hexBytes w n) = true ∧ (hexBytes w n).length = w := by
  induction w generalizing n with
  | zero =>
      rw [Nat.lt_one_iff.mp h]
      exact ⟨rfl, rfl, rfl⟩
  | succ w ih =>
      have hlow : n % 16 < 16 := Nat.mod_lt n (by decide)
      obtain ⟨hvalue, hlower, hlength⟩ := ih (Nat.div_lt_of_lt_mul (by rwa [Nat.pow_succ, Nat.mul_comm] at h))
      refine ⟨?_, (isLowerHex_concat _ _).mpr ⟨hlower, isLowerHexByte_digitByte hlow⟩, ?_⟩
      · rw [hexBytes, fromHex_concat, hvalue, hexDigit_digitByte hlow]
        omega
      · rw [hexBytes, List.length_append, hlength, List.length_singleton]

theorem ascii_of_lowerHex {bs : List UInt8} (h : isLowerHex bs = true) : ∀ b ∈ bs, b < 0x80 := by
  have hbyte : ∀ b : UInt8, isLowerHexByte b = true → b < 0x80 := by decide +kernel
  exact fun b hb => hbyte b (List.all_eq_true.mp h b hb)

/-- ASCII text is its own bytes. -/
theorem bytesOf_asciiChars {bs : List UInt8} (h : ∀ b ∈ bs, b < 0x80) : bytesOf (asciiChars bs) = bs := by
  induction bs with
  | nil => exact bytesOf_nil
  | cons b bs ih =>
      obtain ⟨hb, hbs⟩ := List.forall_mem_cons.mp h
      have hchar : (Char.ofNat b.toNat).toNat = b.toNat ∧ b.toNat < 0x80 ∧ UInt8.ofNat b.toNat = b := by
        clear ih hbs h
        revert b
        decide +kernel
      have hcons := @bytesOf_ascii (Char.ofNat b.toNat) (by rw [hchar.1]; exact hchar.2.1) (asciiChars bs)
      rw [asciiChars, List.map_cons, ← asciiChars, hcons, hchar.1, hchar.2.2, ih hbs]

/-- Texts with the same bytes are the same. -/
theorem bytesOf_injective {cs ds : List Char} (h : bytesOf cs = bytesOf ds) : cs = ds := by
  have hcs := charsOf_bytesOf cs
  rw [h, charsOf_bytesOf] at hcs
  exact (Except.ok.inj hcs).symm

/-! ## `traceparent`

Four fields at fixed places. The parser accepts the texts that the renderer makes, and nothing else. -/

/-- The three fields behind the version, each behind a separator. -/
def assemble (traceId spanId flags : List UInt8) : List UInt8 :=
  [0x30, 0x30, 0x2d] ++ traceId ++ [0x2d] ++ spanId ++ [0x2d] ++ flags

/-- `render_traceparent`. -/
def SpanContext.render (c : SpanContext) : List Char :=
  asciiChars (assemble (hexBytes 32 c.traceId) (hexBytes 16 c.spanId) (hexBytes 2 c.flags))

/-- Identifiers of their widths, which are not zero. -/
structure SpanContext.Valid (c : SpanContext) : Prop where
  traceId : 0 < c.traceId ∧ c.traceId < 16 ^ 32
  spanId : 0 < c.spanId ∧ c.spanId < 16 ^ 16
  flags : c.flags < 16 ^ 2

/-- A field is worth nothing where all of it is the digit zero. -/
theorem fromHex_eq_zero {bs : List UInt8} (h : isLowerHex bs = true) :
    fromHex bs = 0 ↔ bs.all (· == 0x30) = true := by
  induction bs using List.reverseRecOn with
  | nil => simp [fromHex]
  | append_singleton bs b ih =>
      obtain ⟨hbs, hb⟩ := (isLowerHex_concat bs b).mp h
      have hzero : hexDigit b = 0 ↔ b = 0x30 := by
        clear ih hbs h
        revert b
        decide +kernel
      rw [fromHex_concat, List.all_append, Bool.and_eq_true, ← ih hbs]
      simp [hzero]

/-- A context is rendered as its fields in their widths. -/
theorem bytesOf_render (c : SpanContext) (h : c.Valid) :
    bytesOf c.render = assemble (hexBytes 32 c.traceId) (hexBytes 16 c.spanId) (hexBytes 2 c.flags) := by
  refine bytesOf_asciiChars fun b hb => ?_
  simp only [assemble, List.mem_append, List.mem_cons, List.not_mem_nil, or_false] at hb
  rcases hb with ((((hb | hb) | rfl) | hb) | rfl) | hb
  · rcases hb with rfl | rfl | rfl <;> decide
  · exact ascii_of_lowerHex (fromHex_hexBytes h.traceId.2).2.1 b hb
  · decide
  · exact ascii_of_lowerHex (fromHex_hexBytes h.spanId.2).2.1 b hb
  · decide
  · exact ascii_of_lowerHex (fromHex_hexBytes h.flags).2.1 b hb

theorem drop_of_getElem? {bs : List UInt8} {n : Nat} {b : UInt8} (h : bs[n]? = some b) :
    bs.drop n = b :: bs.drop (n + 1) := by
  obtain ⟨hlt, hb⟩ := List.getElem?_eq_some_iff.mp h
  rw [List.drop_eq_getElem_cons hlt, hb]

/-- What is behind a place is the next field and what is behind it. -/
theorem drop_eq_field {bs : List UInt8} {first last : Nat} (h : first ≤ last) :
    bs.drop first = field bs first last ++ bs.drop last := by
  have hlast : bs.drop last = (bs.drop first).drop (last - first) := by
    rw [List.drop_drop, Nat.add_sub_cancel' h]
  rw [field, hlast, List.take_append_drop]

/-- Fields of fixed widths, with a separator behind each. -/
theorem eq_fields {bs : List UInt8} (hlen : bs.length = 55) (h₁ : bs[2]? = some 0x2d) (h₂ : bs[35]? = some 0x2d)
    (h₃ : bs[52]? = some 0x2d) :
    bs = field bs 0 2 ++ [0x2d] ++ field bs 3 35 ++ [0x2d] ++ field bs 36 52 ++ [0x2d] ++ field bs 53 55 := by
  have hend : bs.drop 55 = [] := List.drop_eq_nil_of_le (Nat.le_of_eq hlen)
  calc bs = field bs 0 2 ++ bs.drop 2 := drop_eq_field (Nat.zero_le 2)
    _ = field bs 0 2 ++ (0x2d :: (field bs 3 35 ++
          (0x2d :: (field bs 36 52 ++ (0x2d :: (field bs 53 55 ++ [])))))) := by
        rw [drop_of_getElem? h₁, drop_eq_field (by decide : 3 ≤ 35), drop_of_getElem? h₂,
          drop_eq_field (by decide : 36 ≤ 52), drop_of_getElem? h₃, drop_eq_field (by decide : 53 ≤ 55), hend]
    _ = _ := by simp

theorem field_length {bs : List UInt8} {first last : Nat} (h : last ≤ bs.length) :
    (field bs first last).length = last - first := by
  rw [field, List.length_take, List.length_drop]
  omega

/-- A field that stands at its place is cut out. -/
theorem field_append {front middle back : List UInt8} {first last : Nat} (hfirst : front.length = first)
    (hlast : first + middle.length = last) : field (front ++ (middle ++ back)) first last = middle := by
  have hwidth : last - first = middle.length := by omega
  rw [field, List.drop_left' hfirst, hwidth, List.take_left' rfl]

/-- A header that was assembled has its dashes and its fields where the parser looks. -/
theorem fields_assemble {traceId spanId flags : List UInt8} (ht : traceId.length = 32) (hs : spanId.length = 16)
    (hf : flags.length = 2) :
    (assemble traceId spanId flags).length = traceparentLen ∧
      (assemble traceId spanId flags)[2]? = some 0x2d ∧ (assemble traceId spanId flags)[35]? = some 0x2d ∧
      (assemble traceId spanId flags)[52]? = some 0x2d ∧ field (assemble traceId spanId flags) 3 35 = traceId ∧
      field (assemble traceId spanId flags) 36 52 = spanId ∧
      field (assemble traceId spanId flags) 53 55 = flags := by
  refine ⟨by simp [assemble, ht, hs, hf, traceparentLen], by simp [assemble], ?_, ?_, ?_, ?_, ?_⟩
  · simp [assemble, ht]
  · simp [assemble, ht, hs, List.getElem?_append]
  · rw [assemble, List.append_assoc, List.append_assoc, List.append_assoc, List.append_assoc]
    exact field_append rfl (by rw [ht])
  · rw [assemble, List.append_assoc, List.append_assoc]
    exact field_append (by simp [ht]) (by rw [hs])
  · have hfield := @field_append ([0x30, 0x30, 0x2d] ++ traceId ++ [0x2d] ++ spanId ++ [0x2d]) flags [] 53 55
      (by simp [ht, hs]) (by rw [hf])
    rwa [List.append_nil] at hfield

/-- What the parser has seen of a text that it accepts. -/
structure Fields (bs : List UInt8) : Prop where
  length : bs.length = traceparentLen
  version : field bs 0 2 = [0x30, 0x30]
  separators : bs[2]? = some 0x2d ∧ bs[35]? = some 0x2d ∧ bs[52]? = some 0x2d
  traceId : isLowerHex (field bs 3 35) = true ∧ (field bs 3 35).all (· == 0x30) = false
  spanId : isLowerHex (field bs 36 52) = true ∧ (field bs 36 52).all (· == 0x30) = false
  flags : isLowerHex (field bs 53 55) = true

/-- **What parses**: the layout, and the context is read off its fields. -/
theorem parseTraceparent_eq_ok {v : List Char} {c : SpanContext} :
    parseTraceparent v = .ok c ↔ Fields (bytesOf v) ∧
      c = ⟨fromHex (field (bytesOf v) 3 35), fromHex (field (bytesOf v) 36 52),
        fromHex (field (bytesOf v) 53 55)⟩ := by
  simp only [parseTraceparent]
  constructor
  · intro h
    split_ifs at h with hlen hversion hseparators hlower htrace hspan
    cases h
    simp only [List.any_cons, List.any_nil, Bool.or_false, Bool.or_eq_true, decide_eq_true_eq, not_or, not_not]
      at hseparators
    simp only [Bool.or_eq_true, Bool.not_eq_true', not_or, Bool.not_eq_false] at hlower
    exact ⟨⟨not_not.mp hlen, not_not.mp hversion, hseparators, ⟨hlower.1.1, Bool.eq_false_iff.mpr htrace⟩,
      ⟨hlower.1.2, Bool.eq_false_iff.mpr hspan⟩, hlower.2⟩, rfl⟩
  · rintro ⟨h, rfl⟩
    simp [h.length, h.version, h.separators, h.traceId, h.spanId, h.flags]

/-- Digits that are not all zero are worth something. -/
theorem Fields.pos {bs : List UInt8} (hlower : isLowerHex bs = true) (hzero : bs.all (· == 0x30) = false) :
    0 < fromHex bs := by
  rw [Nat.pos_iff_ne_zero, Ne, fromHex_eq_zero hlower, hzero]
  exact Bool.false_ne_true

/-- What is worth something is not all zero. -/
theorem Fields.zero_of_pos {bs : List UInt8} (hlower : isLowerHex bs = true) (hpos : 0 < fromHex bs) :
    bs.all (· == 0x30) = false := by
  rw [Bool.eq_false_iff]
  exact fun hzero => Nat.ne_of_gt hpos ((fromHex_eq_zero hlower).mpr hzero)

/-- **What is forwarded is what was accepted.** The parser accepts the rendered contexts, and nothing else. -/
theorem parseTraceparent_iff {v : List Char} {c : SpanContext} :
    parseTraceparent v = .ok c ↔ c.Valid ∧ v = c.render := by
  rw [parseTraceparent_eq_ok]
  constructor
  · rintro ⟨h, rfl⟩
    have htrace := hexBytes_fromHex h.traceId.1
    have hspan := hexBytes_fromHex h.spanId.1
    have hflags := hexBytes_fromHex h.flags
    rw [field_length (by rw [h.length]; decide)] at htrace hspan hflags
    have hvalid : SpanContext.Valid ⟨fromHex (field (bytesOf v) 3 35), fromHex (field (bytesOf v) 36 52),
        fromHex (field (bytesOf v) 53 55)⟩ :=
      ⟨⟨Fields.pos h.traceId.1 h.traceId.2, htrace.1⟩, ⟨Fields.pos h.spanId.1 h.spanId.2, hspan.1⟩, hflags.1⟩
    refine ⟨hvalid, bytesOf_injective ?_⟩
    rw [bytesOf_render _ hvalid, htrace.2, hspan.2, hflags.2]
    conv_lhs => rw [eq_fields h.length h.separators.1 h.separators.2.1 h.separators.2.2, h.version]
    rfl
  · rintro ⟨hc, rfl⟩
    obtain ⟨htrace, htraceLower, htraceLen⟩ := fromHex_hexBytes hc.traceId.2
    obtain ⟨hspan, hspanLower, hspanLen⟩ := fromHex_hexBytes hc.spanId.2
    obtain ⟨hflags, hflagsLower, hflagsLen⟩ := fromHex_hexBytes hc.flags
    obtain ⟨hlen, h₁, h₂, h₃, htraceField, hspanField, hflagsField⟩ :=
      fields_assemble htraceLen hspanLen hflagsLen
    rw [bytesOf_render c hc]
    refine ⟨⟨hlen, by simp [assemble, field], ⟨h₁, h₂, h₃⟩, ?_, ?_, ?_⟩, ?_⟩
    · rw [htraceField]
      exact ⟨htraceLower, Fields.zero_of_pos htraceLower (htrace.symm ▸ hc.traceId.1)⟩
    · rw [hspanField]
      exact ⟨hspanLower, Fields.zero_of_pos hspanLower (hspan.symm ▸ hc.spanId.1)⟩
    · rw [hflagsField]
      exact hflagsLower
    · rw [htraceField, hspanField, hflagsField, htrace, hspan, hflags]

/-! ## Carriers

The last header of a name counts. A tracestate that is too long, has too many members or does not parse is
dropped. -/

abbrev Header := List Char × List UInt8

/-- A trace context in transit. The `traceparent` is the rendered one. -/
structure TraceCarrier where
  traceparent : Option (List Char)
  tracestate : Option (List Char)
deriving DecidableEq, Repr

namespace TraceCarrier

def empty : TraceCarrier := ⟨none, none⟩

/-- `eq_ignore_ascii_case`. -/
def sameKey (a b : List Char) : Bool := a.map Char.toLower == b.map Char.toLower

def maxTracestateBytes : Nat := 512
def maxTracestateMembers : Nat := 32

section
variable (traceState : List Char → Option (List Char))

/-- A `tracestate` that is too large or malformed is dropped. -/
def sanitizeTracestate (value : List Char) : Option (List Char) :=
  if value.isEmpty || (bytesOf value).length > maxTracestateBytes then none
  else if value.count ',' + 1 > maxTracestateMembers then none
  else (traceState value).bind fun header => if header.isEmpty then none else some header

def fromW3c (tp : List Char) (ts : Option (List Char)) : Except TraceContextError TraceCarrier := do
  let context ← parseTraceparent tp
  return ⟨some context.render, ts.bind (sanitizeTracestate traceState)⟩

/-- One header: the last value of a key that is text counts. -/
def readHeader (read : Option (List Char) × Option (List Char)) (header : Header) :
    Option (List Char) × Option (List Char) :=
  if sameKey header.1 TraceContext.traceparent.text then ((charsOf header.2).toOption.or read.1, read.2)
  else if sameKey header.1 TraceContext.tracestate.text then (read.1, (charsOf header.2).toOption.or read.2)
  else read

/-- What cannot be read gives the empty carrier: the record is applied all the same. -/
def fromHeaders (headers : List Header) : TraceCarrier :=
  match headers.foldl readHeader (none, none) with
  | (none, _) => empty
  | (some tp, ts) => (fromW3c traceState tp ts).toOption.getD empty

end

/-- No `tracestate` goes without the `traceparent` that it belongs to. -/
def headers (c : TraceCarrier) : List Header :=
  match c.traceparent with
  | none => []
  | some tp =>
      (TraceContext.traceparent.text, bytesOf tp) ::
        (c.tracestate.map fun ts => (TraceContext.tracestate.text, bytesOf ts)).toList

def spanContext (c : TraceCarrier) : Option SpanContext :=
  c.traceparent.bind fun tp => (parseTraceparent tp).toOption

end TraceCarrier

/-! ## Services

What another service adds are headers of other names. A chain of services is built one by one. -/

/-- Headers that carry no trace. -/
def Foreign (headers : List Header) : Prop :=
  ∀ h ∈ headers, TraceCarrier.sameKey h.1 traceparent.text = false ∧
    TraceCarrier.sameKey h.1 tracestate.text = false

/-- The carriers of the services behind one that holds `c₀`. Each reads the headers of the service before it,
    which stand between others. -/
inductive Carried (traceState : List Char → Option (List Char)) (c₀ : TraceCarrier) : TraceCarrier → Prop where
  | origin : Carried traceState c₀ c₀
  | hop {c : TraceCarrier} {before after : List Header} :
      Carried traceState c₀ c → Foreign before → Foreign after →
      Carried traceState c₀ (TraceCarrier.fromHeaders traceState (before ++ c.headers ++ after))

/-- What the library is documented to do with a header that it has rendered: it parses it as what it rendered,
    and a header is no longer than the text it was parsed from and has no more members. -/
structure StableTraceState (traceState : List Char → Option (List Char)) : Prop where
  again : ∀ s h, traceState s = some h → traceState h = some h
  length : ∀ s h, traceState s = some h → (bytesOf h).length ≤ (bytesOf s).length
  members : ∀ s h, traceState s = some h → h.count ',' ≤ s.count ','

/-! ## Reading headers

A carrier is read back from its own headers between any others, and reading it again changes nothing. -/

/-- The last value of a key that is text. -/
def lastText (key : List Char) (headers : List Header) : Option (List Char) :=
  (headers.filterMap fun h => if TraceCarrier.sameKey h.1 key then (charsOf h.2).toOption else none).getLast?

/-- The last header with the key and readable text decides. -/
theorem lastText_concat (key : List Char) (headers : List Header) (h : Header) :
    lastText key (headers ++ [h]) =
      if TraceCarrier.sameKey h.1 key then (charsOf h.2).toOption.or (lastText key headers)
      else lastText key headers := by
  rw [lastText, lastText, List.filterMap_append]
  split
  · rename_i hkey
    cases hvalue : (charsOf h.2).toOption <;> simp [hkey, hvalue]
  · rename_i hkey
    simp [hkey]

namespace TraceCarrier

/-- The two keys differ. -/
theorem not_sameKey {key : List Char} (h : sameKey key TraceContext.traceparent.text = true) :
    sameKey key TraceContext.tracestate.text = false := by
  rw [sameKey, beq_iff_eq] at h
  rw [sameKey, h]
  decide

/-- One walk over the headers finds both texts. -/
theorem foldl_readHeader (headers : List Header) :
    headers.foldl readHeader (none, none) =
      (lastText TraceContext.traceparent.text headers, lastText TraceContext.tracestate.text headers) := by
  induction headers using List.reverseRecOn with
  | nil => rfl
  | append_singleton headers h ih =>
      rw [List.foldl_append, ih, List.foldl_cons, List.foldl_nil, lastText_concat, lastText_concat, readHeader]
      split
      · rename_i hkey
        rw [not_sameKey hkey]
        rfl
      · split <;> rfl

variable {traceState : List Char → Option (List Char)}

/-- A carrier of a rendered context gives it back. -/
theorem spanContext_of_render {c : TraceCarrier} {context : SpanContext} (h : context.Valid)
    (hc : c.traceparent = some context.render) : c.spanContext = some context := by
  rw [spanContext, hc, Option.bind_some, parseTraceparent_iff.mpr ⟨h, rfl⟩]
  rfl

/-- A rendered context is taken, with whatever is made of its state. -/
theorem fromW3c_render {context : SpanContext} (h : context.Valid) (ts : Option (List Char)) :
    fromW3c traceState context.render ts =
      .ok ⟨some context.render, ts.bind (sanitizeTracestate traceState)⟩ := by
  rw [fromW3c, parseTraceparent_iff.mpr ⟨h, rfl⟩]
  rfl

/-- What a service reads. -/
theorem fromHeaders_cases (headers : List Header) :
    (∃ context : SpanContext, context.Valid ∧
      lastText TraceContext.traceparent.text headers = some context.render ∧
      fromHeaders traceState headers = ⟨some context.render,
        (lastText TraceContext.tracestate.text headers).bind (sanitizeTracestate traceState)⟩) ∨
      (∀ context : SpanContext, context.Valid →
        lastText TraceContext.traceparent.text headers ≠ some context.render) ∧
        fromHeaders traceState headers = empty := by
  rw [fromHeaders, foldl_readHeader]
  cases htp : lastText TraceContext.traceparent.text headers with
  | none => exact .inr ⟨fun _ _ => nofun, rfl⟩
  | some tp =>
      cases hparse : parseTraceparent tp with
      | ok context =>
          obtain ⟨hvalid, rfl⟩ := parseTraceparent_iff.mp hparse
          refine .inl ⟨context, hvalid, rfl, ?_⟩
          dsimp only
          rw [fromW3c_render hvalid]
          rfl
      | error e =>
          refine .inr ⟨fun context hvalid heq => ?_, ?_⟩
          · rw [Option.some_inj] at heq
            rw [heq, parseTraceparent_iff.mpr ⟨hvalid, rfl⟩] at hparse
            cases hparse
          · dsimp only
            rw [fromW3c, hparse]
            rfl

end TraceCarrier

/-- Foreign headers around do not matter. -/
theorem lastText_foreign {key : List Char} {before middle after : List Header}
    (hbefore : ∀ h ∈ before, TraceCarrier.sameKey h.1 key = false)
    (hafter : ∀ h ∈ after, TraceCarrier.sameKey h.1 key = false) :
    lastText key (before ++ middle ++ after) = lastText key middle := by
  have hnone {hs : List Header} (h : ∀ x ∈ hs, TraceCarrier.sameKey x.1 key = false) :
      hs.filterMap (fun h => if TraceCarrier.sameKey h.1 key then (charsOf h.2).toOption else none) = [] := by
    rw [List.filterMap_eq_nil_iff]
    intro x hx
    rw [h x hx]
    rfl
  rw [lastText, lastText, List.filterMap_append, List.filterMap_append, hnone hbefore, hnone hafter,
    List.nil_append, List.append_nil]

/-- The two keys of a trace are told apart. -/
theorem sameKey_keys :
    TraceCarrier.sameKey traceparent.text traceparent.text = true ∧
      TraceCarrier.sameKey tracestate.text tracestate.text = true ∧
      TraceCarrier.sameKey traceparent.text tracestate.text = false ∧
      TraceCarrier.sameKey tracestate.text traceparent.text = false := by
  decide

/-- A carrier is read from the headers that it writes. -/
theorem lastText_headers (c : TraceCarrier) :
    lastText traceparent.text c.headers = c.traceparent ∧
      lastText tracestate.text c.headers = c.traceparent.bind fun _ => c.tracestate := by
  rcases c with ⟨_ | tp, _ | ts⟩ <;>
    simp [TraceCarrier.headers, lastText, sameKey_keys, charsOf_bytesOf, Except.toOption]

variable {traceState : List Char → Option (List Char)}

/-- A service reads what the one before it wrote. -/
theorem fromHeaders_hop {c : TraceCarrier} {before after : List Header} (hbefore : Foreign before)
    (hafter : Foreign after) :
    lastText traceparent.text (before ++ c.headers ++ after) = c.traceparent ∧
      lastText tracestate.text (before ++ c.headers ++ after) = c.traceparent.bind fun _ => c.tracestate := by
  rw [lastText_foreign (fun h hh => (hbefore h hh).1) fun h hh => (hafter h hh).1,
    lastText_foreign (fun h hh => (hbefore h hh).2) fun h hh => (hafter h hh).2]
  exact lastText_headers c

/-- What was forwarded once is forwarded again. -/
theorem sanitizeTracestate_again (hstate : StableTraceState traceState) {value header : List Char}
    (h : TraceCarrier.sanitizeTracestate traceState value = some header) :
    TraceCarrier.sanitizeTracestate traceState header = some header := by
  unfold TraceCarrier.sanitizeTracestate at h
  split_ifs at h with hlarge hmany
  obtain ⟨header', hparse, hheader⟩ := Option.bind_eq_some_iff.mp h
  split at hheader
  · cases hheader
  · rename_i hempty
    cases hheader
    have hlength := hstate.length _ _ hparse
    have hmembers := hstate.members _ _ hparse
    simp only [Bool.or_eq_true, decide_eq_true_eq, not_or, not_lt] at hlarge hmany
    have hlarge' :
        (header.isEmpty || decide ((bytesOf header).length > TraceCarrier.maxTracestateBytes)) = false := by
      rw [Bool.eq_false_iff.mpr hempty, Bool.false_or, decide_eq_false_iff_not]
      omega
    rw [TraceCarrier.sanitizeTracestate, hlarge', hstate.again _ _ hparse]
    rw [if_neg Bool.false_ne_true, if_neg (by omega), Option.bind_some, if_neg hempty]

/-- What holds of every service behind one that has read `received`. -/
structure Forwarded (traceState : List Char → Option (List Char)) (received : List Header) (c : TraceCarrier) :
    Prop where
  traceparent : c.traceparent = (TraceCarrier.fromHeaders traceState received).traceparent
  tracestate : StableTraceState traceState →
    c.tracestate = (TraceCarrier.fromHeaders traceState received).tracestate

/-- What was carried is forwarded. -/
theorem carried_forwarded {received : List Header} {c : TraceCarrier}
    (h : Carried traceState (TraceCarrier.fromHeaders traceState received) c) :
    Forwarded traceState received c := by
  induction h with
  | origin => exact ⟨rfl, fun _ => rfl⟩
  | @hop c before after _ hbefore hafter ih =>
      obtain ⟨htp, hts⟩ := @fromHeaders_hop c before after hbefore hafter
      rw [ih.traceparent] at htp hts
      rcases @TraceCarrier.fromHeaders_cases traceState received with
        ⟨context, hvalid, _, hread⟩ | ⟨_, hread⟩
      · rw [hread] at htp hts
        rcases @TraceCarrier.fromHeaders_cases traceState (before ++ c.headers ++ after) with
          ⟨context', _, hlast, hhop⟩ | ⟨hnone, _⟩
        · refine ⟨by rw [hhop, hread, ← hlast, htp], fun hstate => ?_⟩
          rw [hhop, hts, Option.bind_some, ih.tracestate hstate, hread]
          cases hsent : (lastText tracestate.text received).bind
              (TraceCarrier.sanitizeTracestate traceState) with
          | none => rfl
          | some header =>
              obtain ⟨value, _, hvalue⟩ := Option.bind_eq_some_iff.mp hsent
              exact sanitizeTracestate_again hstate hvalue
        · exact absurd htp (hnone context hvalid)
      · rw [hread] at htp hts
        rcases @TraceCarrier.fromHeaders_cases traceState (before ++ c.headers ++ after) with
          ⟨context', _, hlast, _⟩ | ⟨_, hhop⟩
        · cases htp.symm.trans hlast
        · exact ⟨by rw [hhop, hread], fun _ => by rw [hhop, hread]⟩

/-- **The trace is the same behind any number of services.** Every service sees the context of the last readable
    `traceparent` that the first one received, forwards this `traceparent` as it was, and starts its spans in
    this trace; where the library is stable, the `tracestate` stays what the first one made of it. -/
theorem carried_trace {received : List Header} {c : TraceCarrier}
    (h : Carried traceState (TraceCarrier.fromHeaders traceState received) c) :
    (∀ context, c.spanContext = some context ↔
        context.Valid ∧ lastText traceparent.text received = some context.render) ∧
      c.traceparent = c.spanContext.map SpanContext.render ∧
      (StableTraceState traceState →
        c.tracestate = (TraceCarrier.fromHeaders traceState received).tracestate) := by
  have hforwarded := carried_forwarded h
  rcases @TraceCarrier.fromHeaders_cases traceState received with
    ⟨context, hvalid, hlast, hread⟩ | ⟨hnone, hread⟩
  · have htp : c.traceparent = some context.render := by rw [hforwarded.traceparent, hread]
    have hspan := TraceCarrier.spanContext_of_render hvalid htp
    refine ⟨fun context' => ?_, by rw [hspan, htp]; rfl, hforwarded.tracestate⟩
    rw [hspan, hlast, Option.some_inj, Option.some_inj]
    constructor
    · rintro rfl
      exact ⟨hvalid, rfl⟩
    · rintro ⟨hvalid', hrender⟩
      have hparse := parseTraceparent_iff.mpr ⟨hvalid, rfl⟩
      rw [hrender, parseTraceparent_iff.mpr ⟨hvalid', rfl⟩] at hparse
      exact (Except.ok.inj hparse).symm
  · have htp : c.traceparent = none := by rw [hforwarded.traceparent, hread]; rfl
    have hspan : c.spanContext = none := by rw [TraceCarrier.spanContext, htp]; rfl
    refine ⟨fun context' => ?_, by rw [hspan, htp]; rfl, hforwarded.tracestate⟩
    rw [hspan]
    constructor
    · intro h
      cases h
    · rintro ⟨hvalid', hrender⟩
      exact absurd hrender (hnone context' hvalid')

/-- What a client sends: the key in another case, and a header of its own. -/
def clientHeaders : List Header :=
  [("Traceparent".toList, bytesOf "00-0af7651916cd43dd8448eb211c80319c-b7ad6b7169203331-01".toList),
    ("app".toList, [0xff])]

example :
    (TraceCarrier.fromHeaders some clientHeaders).spanContext =
      some ⟨0x0af7651916cd43dd8448eb211c80319c, 0xb7ad6b7169203331, 1⟩ := by
  decide

theorem carried_trace_clientHeaders :
    let c := TraceCarrier.fromHeaders some
      ([("app".toList, [1])] ++ (TraceCarrier.fromHeaders some clientHeaders).headers ++ [])
    (∀ context, c.spanContext = some context ↔
        context.Valid ∧ lastText traceparent.text clientHeaders = some context.render) ∧
      c.traceparent = c.spanContext.map SpanContext.render ∧
      (StableTraceState some → c.tracestate = (TraceCarrier.fromHeaders some clientHeaders).tracestate) :=
  carried_trace (.hop .origin (by intro h hh; rw [List.mem_singleton.mp hh]; decide) fun _ hh => nomatch hh)

end TraceContext
end Krabka
