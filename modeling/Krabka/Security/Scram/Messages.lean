import Krabka.Lib.Base64
import Krabka.Lib.Results
import Krabka.Lib.Text
import Krabka.Security.Principal

/-!
# `Security.Scram.Messages` — the SCRAM message grammar

`scram/messages.rs`: the client-first and client-final messages as the server reads them, and the
`saslname` and extension encodings. Both parsers rebuild the part of the message that is signed, instead of
keeping the bytes they read. Over them, the lemmas say what each reader makes of a message that was put
together from its parts.
-/

namespace Krabka.Security.Scram

open ByteStream Text

/-! ## Base64

The `base64` crate over the standard alphabet, through the two engines of the source: `B64`, which reads its
own writing and nothing else, and `JAVA_B64`, which ignores the bits of the last character that fill no byte.
-/

class B64 where
  encode (bytes : Bytes) : List Char
  decode (text : List Char) : Option Bytes
  javaDecode (text : List Char) : Option Bytes
  shape_encode (bytes : Bytes) : Base64.Shape (encode bytes)
  decode_eq_some {text : List Char} {bytes : Bytes} : decode text = some bytes ↔ text = encode bytes
  javaDecode_encode (bytes : Bytes) : javaDecode (encode bytes) = some bytes

theorem B64.decode_encode [B64] (bytes : Bytes) : B64.decode (B64.encode bytes) = some bytes :=
  B64.decode_eq_some.mpr rfl

/-- Padded base64 is what the crate is documented to be. -/
instance standardB64 : B64 where
  encode := Base64.encode
  decode := Base64.decode false
  javaDecode := Base64.decode true
  shape_encode := Base64.shape_encode
  decode_eq_some := Base64.decode_eq_some
  javaDecode_encode := Base64.decode_encode true

/-! ## Values

A value is anything but a comma or a null. A nonce is printable ASCII, an extension has a letter for its key,
and what is base64 is so by its characters and its padding alone. -/

def isValue (value : List Char) : Bool :=
  !value.isEmpty && value.all fun c => 0x01 ≤ c.toNat && c.toNat ≤ 0x7F && c != ','

def isPrintable (value : List Char) : Bool :=
  !value.isEmpty && value.all fun c => 0x21 ≤ c.toNat && c.toNat ≤ 0x7E && c != ','

def isExtension (key value : List Char) : Bool :=
  !key.isEmpty && key.all Char.isAlpha && isValue value

/-- Groups of four base64 characters, the last of which may end in `=` or `==`. -/
def isBase64 (value : List Char) : Bool :=
  let (body, remainder) :=
    match stripSuffix ['=', '='] value with
    | some body => (body, 2)
    | none =>
        match stripSuffix ['='] value with
        | some body => (body, 3)
        | none => (value, 0)
  body.length % 4 == remainder && body.all Base64.isSymbol

/-! ## `saslname`

A comma and an equals sign are escaped as `=2C` and `=3D`. The decoder refuses every other use of the equals
sign. -/

/-- `s.replace(c, by)`. -/
def replaceChar (c : Char) (new s : List Char) : List Char :=
  s.flatMap fun d => if d = c then new else [d]

def encodeSaslname (username : List Char) : List Char :=
  replaceChar ',' ['=', '2', 'C'] (replaceChar '=' ['=', '3', 'D'] username)

/-- Every `=` must start one of the two escapes. -/
def unescape : List Char → Option (List Char)
  | [] => some []
  | '=' :: '2' :: 'C' :: rest => (unescape rest).map (',' :: ·)
  | '=' :: '3' :: 'D' :: rest => (unescape rest).map ('=' :: ·)
  | '=' :: _ => none
  | c :: rest => (unescape rest).map (c :: ·)

def decodeSaslname (saslname : List Char) : Except AuthError (List Char) :=
  if saslname = [] ∨ ',' ∈ saslname then .error .malformedMessage
  else Results.okOr .malformedMessage (unescape saslname)

/-! ## Extensions

Both messages end in extensions. The server takes each key once, with its last value, which is what a map that
is filled in order keeps. -/

abbrev Extension := List Char × List Char

/-- The map of a key to its last value. -/
def lastValues (extensions : List Extension) : List Char → Option (List Char) :=
  extensions.foldl (fun last e => Function.update last e.1 (some e.2)) fun _ => none

/-- Takes each key's value out of `last` where the key occurs first. -/
def takeOnce (last : List Char → Option (List Char)) : List Extension → List Extension
  | [] => []
  | (key, _) :: rest =>
      match last key with
      | some value => (key, value) :: takeOnce (Function.update last key none) rest
      | none => takeOnce last rest

/-- Each distinct key once, in the order it was first sent, with the last value sent for it. -/
def distinctExtensions (extensions : List Extension) : List Extension :=
  takeOnce (lastValues extensions) extensions

def Extension.text (e : Extension) : List Char := e.1 ++ '=' :: e.2

/-- `parts.join(",")`. -/
def joinComma (parts : List (List Char)) : List Char := [','].intercalate parts

def parseExtension (attr : List Char) : Except AuthError Extension :=
  Results.okOr .malformedMessage ((splitOnceAt '=' attr).filter fun e => isExtension e.1 e.2)

/-- The next attribute, if it is the one called `name`. -/
def takeAttribute (name : List Char) : List (List Char) → Option (List Char × List (List Char))
  | [] => none
  | attr :: rest => (stripPrefix name attr).map (·, rest)

def orMalformed {α : Type} : Option α → Except AuthError α := Results.okOr .malformedMessage

theorem orMalformed_eq_ok {α : Type} {o : Option α} {a : α} : orMalformed o = .ok a ↔ o = some a :=
  Results.okOr_eq_ok

def readUtf8 (bytes : Bytes) : Except AuthError (List Char) :=
  (charsOf bytes).mapError fun _ => .malformedMessage

/-! ## Client-first

The GS2 header, the user name, the nonce and the extensions. The bare message is put together again from what
was parsed, and not cut out of what was received. -/

structure ScramClientFirst where
  gs2Header : List Char
  authzid : Option (List Char)
  username : List Char
  nonce : List Char
  extensions : List Extension
  bare : List Char
deriving DecidableEq, Repr

def parseAuthzid (authzidPart : List Char) : Except AuthError (Option (List Char)) :=
  if authzidPart = [] then .ok none
  else do
    let raw ← orMalformed (stripPrefix ['a', '='] authzidPart)
    some <$> decodeSaslname raw

/-- A reserved `m=` attribute is accepted and ignored. -/
def dropReserved (attributes : List (List Char)) : Except AuthError (List (List Char)) :=
  match takeAttribute ['m', '='] attributes with
  | none => .ok attributes
  | some (reserved, rest) => if isValue reserved then .ok rest else .error .malformedMessage

def bareOf (saslname nonce : List Char) (extensions : List Extension) : List Char :=
  joinComma ((['n', '='] ++ saslname ++ [',', 'r', '='] ++ nonce) :: extensions.map Extension.text)

def ScramClientFirst.parse (bytes : Bytes) : Except AuthError ScramClientFirst := do
  let message ← readUtf8 bytes
  let afterFlag ← orMalformed (stripPrefix ['n', ','] message)
  let (authzidPart, bare) ← orMalformed (splitOnceAt ',' afterFlag)
  let authzid ← parseAuthzid authzidPart
  let attributes ← dropReserved (bare.splitOn ',')
  let (saslname, attributes) ← orMalformed (takeAttribute ['n', '='] attributes)
  let username ← decodeSaslname saslname
  let (nonce, attributes) ←
    orMalformed ((takeAttribute ['r', '='] attributes).filter fun a => isPrintable a.1)
  let extensions ← attributes.mapM parseExtension
  return {
    gs2Header := ['n', ','] ++ authzidPart ++ [',']
    authzid := authzid
    username := username
    nonce := nonce
    extensions := extensions
    bare := bareOf saslname nonce (distinctExtensions extensions) }

/-! ## Client-final

The channel binding, the nonce, the extensions and the proof. What is signed is everything in front of the
proof. -/

structure ScramClientFinal where
  channelBinding : List Char
  nonce : List Char
  extensions : List Extension
  proof : List Char
  withoutProof : List Char
deriving DecidableEq, Repr

def withoutProofOf [B64] (channelBinding : Bytes) (nonce : List Char) : List Char :=
  ['c', '='] ++ B64.encode channelBinding ++ [',', 'r', '='] ++ nonce

def ScramClientFinal.parse [B64] (bytes : Bytes) : Except AuthError ScramClientFinal := do
  let message ← readUtf8 bytes
  let (beforeProof, proof) ←
    orMalformed ((rsplitOnce [',', 'p', '='] message).filter fun p => isBase64 p.2)
  let (channelBinding, attributes) ←
    orMalformed ((takeAttribute ['c', '='] (beforeProof.splitOn ',')).filter fun a => isBase64 a.1)
  let (nonce, attributes) ←
    orMalformed ((takeAttribute ['r', '='] attributes).filter fun a => isPrintable a.1)
  let extensions ← attributes.mapM parseExtension
  let channelBindingBytes ← orMalformed (B64.javaDecode channelBinding)
  return {
    channelBinding := channelBinding
    nonce := nonce
    extensions := extensions
    proof := proof
    withoutProof := withoutProofOf channelBindingBytes nonce }

/-! ## What the readers make of a written message

A message is written by joining its parts with commas, so everything rests on no part holding one. -/

/-- What was written as UTF-8 is read back. -/
theorem readUtf8_bytesOf (cs : List Char) : readUtf8 (bytesOf cs) = .ok cs := by
  unfold readUtf8
  rw [charsOf_bytesOf]
  rfl

/-- Parts without commas come apart again. -/
theorem splitOn_joinComma {parts : List (List Char)} (hne : parts ≠ [])
    (h : ∀ p ∈ parts, ',' ∉ p) : (joinComma parts).splitOn ',' = parts :=
  List.splitOn_intercalate ',' h hne

/-- The printable values: not empty, visible ASCII, no comma. -/
theorem isPrintable_iff {value : List Char} :
    isPrintable value = true ↔
      value ≠ [] ∧ ∀ c ∈ value, 0x21 ≤ c.toNat ∧ c.toNat ≤ 0x7E ∧ c ≠ ',' := by
  unfold isPrintable
  simp [List.all_eq_true, and_assoc]

/-- What the encoder writes has the form that the parser asks for. -/
theorem isBase64_of_shape {cs : List Char} (h : Base64.Shape cs) : isBase64 cs = true := by
  have hpad : ∀ {cs : List Char}, cs.all Base64.isSymbol = true → '=' ∉ cs := by
    intro cs hcs hmem
    have := List.all_eq_true.mp hcs '=' hmem
    revert this
    decide
  unfold isBase64
  cases h with
  | full hcs hmod =>
      rw [stripSuffix_of_notMem (c := '=') (by decide) (hpad hcs),
        stripSuffix_of_notMem (c := '=') (by decide) (hpad hcs)]
      simp [hcs, hmod]
  | two hcs hmod =>
      rw [stripSuffix_append]
      simp [hcs, hmod]
  | @three cs hcs hmod =>
      have hnot : stripSuffix ['=', '='] (cs ++ ['=']) = none := by
        unfold stripSuffix
        rw [if_neg]
        intro hs
        obtain ⟨t, ht⟩ := List.isSuffixOf_iff_suffix.mp hs
        have happend : (t ++ ['=']) ++ ['='] = cs ++ ['='] := by
          rw [List.append_assoc]
          exact ht
        have hcancel : t ++ ['='] = cs := List.append_cancel_right happend
        exact hpad hcs (hcancel ▸ List.mem_append_right t List.mem_cons_self)
      rw [hnot, stripSuffix_append]
      simp [hcs, hmod]

/-! ### Usernames

Escaping is undone character by character, whatever characters the name has. -/

/-- What one character of a username is escaped to. -/
def escape (c : Char) : List Char :=
  if c = '=' then ['=', '3', 'D'] else if c = ',' then ['=', '2', 'C'] else [c]

theorem encodeSaslname_cons (c : Char) (cs : List Char) :
    encodeSaslname (c :: cs) = escape c ++ encodeSaslname cs := by
  unfold encodeSaslname replaceChar escape
  rw [List.flatMap_cons, List.flatMap_append]
  congr 1
  by_cases heq : c = '='
  · rw [if_pos heq, if_pos heq]
    rfl
  · rw [if_neg heq, if_neg heq]
    by_cases hcomma : c = ','
    · simp [hcomma]
    · simp [hcomma]

/-- An escaped name has no comma, so it cannot end its attribute. -/
theorem notMem_encodeSaslname (username : List Char) : ',' ∉ encodeSaslname username := by
  induction username with
  | nil => exact List.not_mem_nil
  | cons c cs ih =>
      rw [encodeSaslname_cons, List.mem_append]
      rintro (h | h)
      · unfold escape at h
        split at h
        · revert h
          decide
        · split at h
          · revert h
            decide
          · rename_i hc
            exact hc (List.mem_singleton.mp h).symm
      · exact ih h

/-- One escaped character is read as itself. -/
theorem unescape_escape (c : Char) (rest : List Char) :
    unescape (escape c ++ rest) = (unescape rest).map (c :: ·) := by
  unfold escape
  by_cases heq : c = '='
  · subst heq
    rfl
  · rw [if_neg heq]
    by_cases hcomma : c = ','
    · subst hcomma
      rfl
    · rw [if_neg hcomma, List.singleton_append]
      exact unescape.eq_5 c rest (fun _ hc _ => heq hc) (fun _ hc _ => heq hc) heq

/-- **Escaping is undone**, for every user name. -/
theorem unescape_encodeSaslname (username : List Char) :
    unescape (encodeSaslname username) = some username := by
  induction username with
  | nil => rfl
  | cons c cs ih => rw [encodeSaslname_cons, unescape_escape, ih, Option.map_some]

/-- **A username comes back**, with its commas and equals signs. -/
theorem decodeSaslname_encodeSaslname {username : List Char} (h : username ≠ []) :
    decodeSaslname (encodeSaslname username) = .ok username := by
  have hne : encodeSaslname username ≠ [] := by
    intro hnil
    have hback := unescape_encodeSaslname username
    rw [hnil] at hback
    exact h (Option.some.inj hback).symm
  unfold decodeSaslname
  rw [if_neg (fun hc => hc.elim hne (notMem_encodeSaslname username)), unescape_encodeSaslname]
  rfl

/-! ### Extensions

The extensions that a client may send have distinct keys and values without commas; those come back in order.
-/

/-- The extensions that a client may hold: each follows the grammar, and no key is used twice. -/
structure Sendable (extensions : List Extension) : Prop where
  grammar : ∀ e ∈ extensions, isExtension e.1 e.2 = true
  distinct : (extensions.map Prod.fst).Nodup

/-- What an extension must not contain to stay one part of the message. -/
theorem isExtension_iff {key value : List Char} (h : isExtension key value = true) :
    '=' ∉ key ∧ ',' ∉ key ∧ ',' ∉ value := by
  unfold isExtension isValue at h
  simp only [Bool.and_eq_true, List.all_eq_true] at h
  obtain ⟨⟨-, hkey⟩, -, hvalue⟩ := h
  refine ⟨fun hmem => ?_, fun hmem => ?_, fun hmem => ?_⟩
  · exact absurd (hkey '=' hmem) (by decide)
  · exact absurd (hkey ',' hmem) (by decide)
  · exact absurd (hvalue ',' hmem).2 (by decide)

theorem parseExtension_text {e : Extension} (h : isExtension e.1 e.2 = true) :
    parseExtension e.text = .ok e := by
  unfold parseExtension Extension.text
  rw [splitOnceAt_append (isExtension_iff h).1, Option.filter_some, if_pos h]
  rfl

/-- Extensions that can be sent are parsed back, in their order. -/
theorem mapM_parseExtension {extensions : List Extension} (h : Sendable extensions) :
    (extensions.map Extension.text).mapM parseExtension = .ok extensions := by
  rw [Results.mapM_eq_ok, List.forall₂_map_left_iff, List.forall₂_same]
  exact fun e he => parseExtension_text (h.grammar e he)

/-- Where the keys are distinct, taking each key once takes all. -/
theorem takeOnce_eq {last : List Char → Option (List Char)} {extensions : List Extension}
    (hlast : ∀ e ∈ extensions, last e.1 = some e.2) (hdistinct : (extensions.map Prod.fst).Nodup) :
    takeOnce last extensions = extensions := by
  induction extensions generalizing last with
  | nil => rfl
  | cons e rest ih =>
      rw [List.map_cons, List.nodup_cons] at hdistinct
      obtain ⟨key, value⟩ := e
      have hkey : last key = some value := hlast (key, value) List.mem_cons_self
      unfold takeOnce
      simp only [hkey]
      rw [ih ?_ hdistinct.2]
      intro e he
      have hne : e.1 ≠ key := fun hc => hdistinct.1 (List.mem_map.mpr ⟨e, he, hc⟩)
      rw [Function.update_of_ne hne]
      exact hlast e (List.mem_cons_of_mem _ he)

/-- Where the keys are distinct, the last value of a key is its only one. -/
theorem lastValues_of_mem {extensions : List Extension} (hdistinct : (extensions.map Prod.fst).Nodup)
    {e : Extension} (he : e ∈ extensions) : lastValues extensions e.1 = some e.2 := by
  unfold lastValues
  induction extensions using List.reverseRecOn with
  | nil => exact absurd he List.not_mem_nil
  | append_singleton rest f ih =>
      rw [List.map_append, List.map_singleton, List.nodup_append] at hdistinct
      obtain ⟨hrest, -, hapart⟩ := hdistinct
      rw [List.foldl_append, List.foldl_cons, List.foldl_nil]
      rcases List.mem_append.mp he with he | he
      · have hne : e.1 ≠ f.1 := hapart e.1 (List.mem_map.mpr ⟨e, he, rfl⟩) f.1 List.mem_cons_self
        rw [Function.update_of_ne hne]
        exact ih hrest he
      · cases List.mem_singleton.mp he
        rw [Function.update_self]

/-- Distinct keys are sent as they are. -/
theorem distinctExtensions_of_sendable {extensions : List Extension} (h : Sendable extensions) :
    distinctExtensions extensions = extensions :=
  takeOnce_eq (fun _ he => lastValues_of_mem h.distinct he) h.distinct

/-! ### Whole messages

Each message is read as the parts it was written from, whatever the name, the nonce and the extensions. -/

theorem joinComma_cons (x y : List Char) (parts : List (List Char)) :
    joinComma ((x ++ ',' :: y) :: parts) = joinComma (x :: y :: parts) := by
  cases parts with
  | nil => simp [joinComma, List.intercalate]
  | cons p ps => simp [joinComma, List.intercalate]

/-- The bare message comes apart into its name, its nonce and its extensions. -/
theorem splitOn_bareOf {saslname nonce : List Char} {extensions : List Extension}
    (hname : ',' ∉ saslname) (hnonce : ',' ∉ nonce) (h : Sendable extensions) :
    (bareOf saslname nonce extensions).splitOn ',' =
      (['n', '='] ++ saslname) :: (['r', '='] ++ nonce) :: extensions.map Extension.text := by
  have hjoin : bareOf saslname nonce extensions =
      joinComma ((['n', '='] ++ saslname) :: (['r', '='] ++ nonce) :: extensions.map Extension.text) := by
    rw [← joinComma_cons]
    simp [bareOf]
  rw [hjoin]
  refine splitOn_joinComma (List.cons_ne_nil _ _) ?_
  intro p hp
  rcases List.mem_cons.mp hp with rfl | hp
  · simp [hname]
  · rcases List.mem_cons.mp hp with rfl | hp
    · simp [hnonce]
    · obtain ⟨e, he, rfl⟩ := List.mem_map.mp hp
      obtain ⟨-, hkey, hvalue⟩ := isExtension_iff (h.grammar e he)
      simp [Extension.text, hkey, hvalue]

/-- An attribute that comes next is taken off. -/
theorem takeAttribute_append (name value : List Char) (rest : List (List Char)) :
    takeAttribute name ((name ++ value) :: rest) = some (value, rest) := by
  show (stripPrefix name (name ++ value)).map (·, rest) = some (value, rest)
  rw [stripPrefix_append]
  rfl

/-- **A client-first message is read as it was written**, and the same part of it is signed. -/
theorem ScramClientFirst.parse_written {username nonce : List Char} {extensions : List Extension}
    (hname : username ≠ []) (hnonce : isPrintable nonce = true) (h : Sendable extensions) :
    ScramClientFirst.parse
        (bytesOf (['n', ',', ','] ++ bareOf (encodeSaslname username) nonce extensions)) =
      .ok {
        gs2Header := ['n', ',', ',']
        authzid := none
        username := username
        nonce := nonce
        extensions := extensions
        bare := bareOf (encodeSaslname username) nonce extensions } := by
  have hcomma : ',' ∉ nonce := fun hc => ((isPrintable_iff.mp hnonce).2 ',' hc).2.2 rfl
  have hflag : stripPrefix ['n', ',']
      (['n', ',', ','] ++ bareOf (encodeSaslname username) nonce extensions) =
        some ([] ++ ',' :: bareOf (encodeSaslname username) nonce extensions) :=
    stripPrefix_append ['n', ','] _
  have hreserved : dropReserved ((['n', '='] ++ encodeSaslname username) ::
      (['r', '='] ++ nonce) :: extensions.map Extension.text) =
        .ok ((['n', '='] ++ encodeSaslname username) ::
          (['r', '='] ++ nonce) :: extensions.map Extension.text) := rfl
  unfold ScramClientFirst.parse
  rw [readUtf8_bytesOf, Results.ok_bind, hflag]
  simp only [orMalformed, Results.okOr_some, Results.ok_bind, splitOnceAt_append List.not_mem_nil,
    parseAuthzid, if_true, splitOn_bareOf (notMem_encodeSaslname username) hcomma h, hreserved,
    takeAttribute_append, decodeSaslname_encodeSaslname hname, Option.filter_some, hnonce,
    mapM_parseExtension h, distinctExtensions_of_sendable h]
  rfl

/-- **A client-final message is read as it was written.** -/
theorem ScramClientFinal.parse_written [B64] {channelBinding proof : Bytes} {nonce : List Char}
    (hnonce : isPrintable nonce = true) :
    ScramClientFinal.parse (bytesOf (withoutProofOf channelBinding nonce ++ [',', 'p', '='] ++
        B64.encode proof)) =
      .ok {
        channelBinding := B64.encode channelBinding
        nonce := nonce
        extensions := []
        proof := B64.encode proof
        withoutProof := withoutProofOf channelBinding nonce } := by
  have hcomma : ',' ∉ nonce := fun hc => ((isPrintable_iff.mp hnonce).2 ',' hc).2.2 rfl
  have hbase : ∀ bs : Bytes, ',' ∉ B64.encode bs := by
    intro bs hc
    rcases (B64.shape_encode bs).mem hc with h | h
    · revert h
      decide
    · cases h
  have hsplit : (withoutProofOf channelBinding nonce).splitOn ',' =
      [['c', '='] ++ B64.encode channelBinding, ['r', '='] ++ nonce] := by
    have hjoin : withoutProofOf channelBinding nonce =
        joinComma [['c', '='] ++ B64.encode channelBinding, ['r', '='] ++ nonce] := by
      simp [withoutProofOf, joinComma, List.intercalate]
    rw [hjoin]
    refine splitOn_joinComma (List.cons_ne_nil _ _) ?_
    intro p hp
    rcases List.mem_cons.mp hp with rfl | hp
    · simp [hbase channelBinding]
    · cases List.mem_singleton.mp hp
      simp [hcomma]
  unfold ScramClientFinal.parse
  rw [readUtf8_bytesOf, Results.ok_bind, rsplitOnce_append (by decide) (hbase proof)]
  simp only [orMalformed, Option.filter_some, isBase64_of_shape (B64.shape_encode _), if_true,
    Results.okOr_some, Results.ok_bind, hsplit, takeAttribute_append, hnonce, List.mapM_nil, pure_bind,
    B64.javaDecode_encode]
  rfl

end Krabka.Security.Scram
