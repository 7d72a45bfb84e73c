import Krabka.Lib.Results

/-!
# `Lib.Text` — decimal integers, splits and UTF-8

The text conversions that survive a round trip: an integer through its decimal form, a pair of strings
through a separator that the first one does not contain, and a string through its UTF-8 bytes. A parser
that takes a message apart works on its characters; the cuts it makes are here too.
-/

namespace Text

/-! ## Decimal `u64`

`str::parse` takes an optional plus sign and digits. It goes from left to right and fails at the first
character that is no digit, or at the first digit that leads beyond the type. -/

/-- Why `str::parse::<u64>()` refuses a string, in the words of its error. -/
inductive ParseIntError where
  | empty
  | invalidDigit
  | posOverflow
deriving DecidableEq, Repr

def ParseIntError.message : ParseIntError → String
  | .empty => "cannot parse integer from empty string"
  | .invalidDigit => "invalid digit found in string"
  | .posOverflow => "number too large to fit in target type"

/-- The digits of a decimal integer: one leading `+` is skipped, unless it stands alone. -/
def digitsOf : List Char → List Char
  | '+' :: d :: ds => d :: ds
  | cs => cs

/-- The digits behind a number that has been read. The first of them that is none, or that takes the number to
    the limit, is the error. -/
def parseDigits (limit : Nat) : Nat → List Char → Except ParseIntError Nat
  | n, [] => .ok n
  | n, c :: cs =>
      if !c.isDigit then .error .invalidDigit
      else if 10 * n + (c.toNat - '0'.toNat) < limit then parseDigits limit (10 * n + (c.toNat - '0'.toNat)) cs
      else .error .posOverflow

/-- `from_str_radix` of an unsigned integer, in base 10. -/
def parseDecimalBelow (limit : Nat) (s : List Char) : Except ParseIntError Nat :=
  if (digitsOf s).isEmpty then .error .empty else parseDigits limit 0 (digitsOf s)

/-- `s.parse::<u64>()`. -/
def parseU64 (s : String) : Except ParseIntError UInt64 :=
  UInt64.ofNat <$> parseDecimalBelow (2 ^ 64) s.toList

/-- `n.to_string()` of a `u64`. -/
def showU64 (n : UInt64) : String := Nat.repr n.toNat

/-- A printed number is digits. -/
theorem showU64_isDigit {n : UInt64} {c : Char} (h : c ∈ (showU64 n).toList) :
    c.isDigit = true := by
  unfold showU64 at h
  rw [Nat.toList_repr] at h
  exact Nat.isDigit_of_mem_toDigits (by omega) (by omega) h

theorem showU64_ne_empty (n : UInt64) : showU64 n ≠ "" := by
  intro h
  have := congrArg String.toList h
  unfold showU64 at this
  rw [Nat.toList_repr] at this
  exact absurd this (by simp)

/-- Digits have no plus sign in front. -/
theorem digitsOf_of_isDigit {cs : List Char} (h : ∀ c ∈ cs, c.isDigit = true) : digitsOf cs = cs := by
  unfold digitsOf
  split
  · exact absurd (h '+' List.mem_cons_self) (by decide)
  · rfl

/-- More digits are never worth less. -/
theorem le_ofDigitChars (ds : List Char) (n : Nat) : n ≤ Nat.ofDigitChars 10 ds n := by
  induction ds generalizing n with
  | nil => exact Nat.le_refl n
  | cons d ds ih =>
      rw [Nat.ofDigitChars_cons]
      exact le_trans (by omega) (ih _)

/-- A text of digits is read when the number that they spell is below the limit. -/
theorem parseDigits_eq_ok {limit n m : Nat} {ds : List Char} (hn : n < limit) : parseDigits limit n ds = .ok m ↔
    (∀ d ∈ ds, d.isDigit = true) ∧ Nat.ofDigitChars 10 ds n = m ∧ m < limit := by
  induction ds generalizing n with
  | nil =>
      show Except.ok n = Except.ok m ↔ _
      rw [Except.ok.injEq, Nat.ofDigitChars_nil]
      constructor
      · rintro rfl
        exact ⟨fun d hd => absurd hd List.not_mem_nil, rfl, hn⟩
      · exact fun h => h.2.1
  | cons d ds ih =>
      unfold parseDigits
      rw [List.forall_mem_cons, Nat.ofDigitChars_cons]
      cases hd : d.isDigit with
      | false => exact iff_of_false nofun fun h => absurd h.1.1 Bool.false_ne_true
      | true =>
          rw [Bool.not_true, if_neg Bool.false_ne_true]
          split
          · rename_i hlt
            rw [ih hlt]
            simp
          · rename_i hge
            refine iff_of_false nofun ?_
            rintro ⟨-, hm, hlt⟩
            have := le_ofDigitChars ds (10 * n + (d.toNat - '0'.toNat))
            omega

/-- **What parses**: digits behind an optional plus sign, worth less than the limit. -/
theorem parseDecimalBelow_eq_ok {limit m : Nat} {s : List Char} (hlimit : 0 < limit) :
    parseDecimalBelow limit s = .ok m ↔ digitsOf s ≠ [] ∧ (∀ d ∈ digitsOf s, d.isDigit = true) ∧
      Nat.ofDigitChars 10 (digitsOf s) 0 = m ∧ m < limit := by
  unfold parseDecimalBelow
  rw [← parseDigits_eq_ok hlimit, ← List.isEmpty_eq_false_iff]
  cases (digitsOf s).isEmpty with
  | true => exact iff_of_false nofun fun h => absurd h.1 (by decide)
  | false => simp

/-- What an unsigned number is read from: digits that spell it, behind a `+` or not. -/
theorem parseU64_eq_ok {s : String} {n : UInt64} :
    parseU64 s = .ok n ↔ digitsOf s.toList ≠ [] ∧ (∀ d ∈ digitsOf s.toList, d.isDigit = true) ∧
      Nat.ofDigitChars 10 (digitsOf s.toList) 0 = n.toNat := by
  unfold parseU64
  rw [Results.map_eq_ok]
  constructor
  · rintro ⟨m, hm, rfl⟩
    obtain ⟨hne, hdigits, hvalue, hlt⟩ := (parseDecimalBelow_eq_ok (by decide)).mp hm
    exact ⟨hne, hdigits, by rw [hvalue, UInt64.toNat_ofNat', Nat.mod_eq_of_lt hlt]⟩
  · rintro ⟨hne, hdigits, hvalue⟩
    exact ⟨n.toNat, (parseDecimalBelow_eq_ok (by decide)).mpr ⟨hne, hdigits, hvalue, n.toNat_lt⟩,
      UInt64.ofNat_toNat⟩

/-- **Decimal form comes back.** -/
theorem parseU64_showU64 (n : UInt64) : parseU64 (showU64 n) = .ok n := by
  rw [parseU64_eq_ok, digitsOf_of_isDigit (fun c hc => showU64_isDigit hc)]
  refine ⟨fun h => showU64_ne_empty n (String.toList_eq_nil_iff.mp h), fun c hc => showU64_isDigit hc, ?_⟩
  unfold showU64
  rw [Nat.toList_repr]
  simp

/-! ## Splitting at a separator

A pair that was joined comes apart where its first part does not hold the separator. -/

/-- `s.split_once(sep)`. -/
def splitOnce (sep : Char) (s : String) : Option (String × String) :=
  match s.toList.dropWhile (· != sep) with
  | [] => none
  | _ :: rest => some (String.ofList (s.toList.takeWhile (· != sep)), String.ofList rest)

/-- A join at `sep` splits back whenever the first part does not contain `sep`. -/
theorem splitOnce_join {sep : Char} {a b : String} (h : sep ∉ a.toList) :
    splitOnce sep (a ++ String.ofList [sep] ++ b) = some (a, b) := by
  -- the scan runs through all of `a` and stops at the separator after it
  have hkeep : ∀ c ∈ a.toList, (c != sep) = true := by
    intro c hc
    rw [bne_iff_ne]
    rintro rfl
    exact h hc
  have hlist : (a ++ String.ofList [sep] ++ b).toList = a.toList ++ sep :: b.toList := by simp
  unfold splitOnce
  rw [hlist, List.dropWhile_append_of_pos hkeep, List.takeWhile_append_of_pos hkeep]
  simp

/-- The first part of a split does not contain the separator. -/
theorem notMem_of_splitOnce {sep : Char} {s a b : String} (h : splitOnce sep s = some (a, b)) :
    sep ∉ a.toList := by
  unfold splitOnce at h
  split at h
  · cases h
  · obtain ⟨rfl, -⟩ := Prod.mk.inj (Option.some.inj h)
    rw [String.toList_ofList]
    intro hmem
    have hne := List.mem_takeWhile_imp hmem
    simp at hne

/-- A join at `sep` always splits. -/
theorem splitOnce_join_isSome (sep : Char) (a b : String) :
    (splitOnce sep (a ++ String.ofList [sep] ++ b)).isSome = true := by
  unfold splitOnce
  split
  · rename_i h
    have := List.dropWhile_eq_nil_iff.mp h sep (by simp)
    simp at this
  · rfl

/-! ## UTF-8

The decoder names the place of the first bad sequence and how long that is. Lean's strings are valid by
construction, so encoding needs no check. -/

/-- `s.as_bytes()`. -/
def utf8Bytes (s : String) : List UInt8 := s.toUTF8.data.toList

/-- Why `str::from_utf8` refuses a byte string: how much of it was fine, and how many bytes the bad
sequence has, `none` when the input ends inside a character. -/
structure Utf8Error where
  validUpTo : Nat
  errorLen : Option Nat
deriving DecidableEq, Repr

def Utf8Error.message (e : Utf8Error) : String :=
  match e.errorLen with
  | some n => "invalid utf-8 sequence of " ++ toString n ++ " bytes from index " ++
      toString e.validUpTo
  | none => "incomplete utf-8 byte sequence from index " ++ toString e.validUpTo

/-- A byte `10xxxxxx`. -/
def isContinuation (b : UInt8) : Bool := b &&& 0xC0 == 0x80

/-- The second bytes that a three-byte character may have: no overlong form, no surrogate. -/
def secondOfThree (b₀ b₁ : UInt8) : Bool :=
  if b₀ == 0xE0 then 0xA0 ≤ b₁ && b₁ ≤ 0xBF
  else if b₀ == 0xED then 0x80 ≤ b₁ && b₁ ≤ 0x9F
  else isContinuation b₁

/-- The second bytes that a four-byte character may have: no overlong form, nothing past U+10FFFF. -/
def secondOfFour (b₀ b₁ : UInt8) : Bool :=
  if b₀ == 0xF0 then 0x90 ≤ b₁ && b₁ ≤ 0xBF
  else if b₀ == 0xF4 then 0x80 ≤ b₁ && b₁ ≤ 0x8F
  else isContinuation b₁

/-- Where a byte string stops being UTF-8, `i` bytes into it. -/
def utf8ErrorFrom (i : Nat) : List UInt8 → Utf8Error
  | [] => ⟨i, none⟩
  | b₀ :: rest =>
      if b₀ < 0x80 then utf8ErrorFrom (i + 1) rest
      else if 0xC2 ≤ b₀ && b₀ ≤ 0xDF then
        match rest with
        | [] => ⟨i, none⟩
        | b₁ :: rest => if isContinuation b₁ then utf8ErrorFrom (i + 2) rest else ⟨i, some 1⟩
      else if 0xE0 ≤ b₀ && b₀ ≤ 0xEF then
        match rest with
        | [] => ⟨i, none⟩
        | b₁ :: rest =>
            if !secondOfThree b₀ b₁ then ⟨i, some 1⟩
            else match rest with
              | [] => ⟨i, none⟩
              | b₂ :: rest =>
                  if isContinuation b₂ then utf8ErrorFrom (i + 3) rest else ⟨i, some 2⟩
      else if 0xF0 ≤ b₀ && b₀ ≤ 0xF4 then
        match rest with
        | [] => ⟨i, none⟩
        | b₁ :: rest =>
            if !secondOfFour b₀ b₁ then ⟨i, some 1⟩
            else match rest with
              | [] => ⟨i, none⟩
              | b₂ :: rest =>
                  if !isContinuation b₂ then ⟨i, some 2⟩
                  else match rest with
                    | [] => ⟨i, none⟩
                    | b₃ :: rest =>
                        if isContinuation b₃ then utf8ErrorFrom (i + 4) rest else ⟨i, some 3⟩
      else ⟨i, some 1⟩

/-- `str::from_utf8(bs)`. -/
def fromUtf8 (bs : List UInt8) : Except Utf8Error String :=
  match String.fromUTF8? ⟨bs.toArray⟩ with
  | some s => .ok s
  | none => .error (utf8ErrorFrom 0 bs)

/-- **UTF-8 comes back.** -/
theorem fromUtf8_utf8Bytes (s : String) : fromUtf8 (utf8Bytes s) = .ok s := by
  have hbytes : (⟨(utf8Bytes s).toArray⟩ : ByteArray) = s.toByteArray := by
    simp [utf8Bytes, String.toUTF8]
  have hsome : String.fromUTF8? s.toByteArray = some s := by
    unfold String.fromUTF8?
    rw [dif_pos s.isValidUTF8]
    rfl
  unfold fromUtf8
  rw [hbytes, hsome]

/-- What is accepted is the text's own UTF-8. -/
theorem utf8Bytes_of_fromUtf8 {bs : List UInt8} {s : String} (h : fromUtf8 bs = .ok s) :
    utf8Bytes s = bs := by
  unfold fromUtf8 at h
  split at h
  · rename_i t ht
    cases h
    unfold String.fromUTF8? at ht
    split at ht
    · cases ht
      rfl
    · cases ht
  · cases h

example : fromUtf8 [0x61, 0xE2, 0x82] = .error ⟨1, none⟩ := by decide +kernel

/-! ## Cutting a list of characters

The slice methods that the parsers use, on characters. -/

/-- `s.strip_prefix(p)`. -/
def stripPrefix (p s : List Char) : Option (List Char) :=
  if p.isPrefixOf s then some (s.drop p.length) else none

/-- `s.strip_suffix(p)`. -/
def stripSuffix (p s : List Char) : Option (List Char) :=
  if p.isSuffixOf s then some (s.take (s.length - p.length)) else none

/-- `s.split_once(sep)`. -/
def splitOnceAt (sep : Char) (s : List Char) : Option (List Char × List Char) :=
  match s.dropWhile (· != sep) with
  | [] => none
  | _ :: rest => some (s.takeWhile (· != sep), rest)

/-- `s.rsplit_once(p)`: the last place where `p` occurs. -/
def rsplitOnce (p : List Char) : List Char → Option (List Char × List Char)
  | [] => (stripPrefix p []).map ([], ·)
  | c :: cs =>
      match rsplitOnce p cs with
      | some (before, after) => some (c :: before, after)
      | none => (stripPrefix p (c :: cs)).map ([], ·)

/-- `s.trim_matches(p)`. -/
def trimMatches (p : Char → Bool) (s : List Char) : List Char := (s.dropWhile p).rdropWhile p

/-- Trimming leaves nothing where everything matches. -/
theorem trimMatches_eq_nil {p : Char → Bool} {s : List Char} :
    trimMatches p s = [] ↔ ∀ c ∈ s, p c = true := by
  unfold trimMatches
  rw [List.rdropWhile_eq_nil_iff]
  induction s with
  | nil => rfl
  | cons c s ih =>
      cases hc : p c with
      | true => rw [List.dropWhile_cons_of_pos hc, ih, List.forall_mem_cons, and_iff_right hc]
      | false => rw [List.dropWhile_cons_of_neg (Bool.eq_false_iff.mp hc)]

/-- Trimming leaves all where nothing matches. -/
theorem trimMatches_eq_self {p : Char → Bool} {s : List Char} (h : ∀ c ∈ s, p c = false) :
    trimMatches p s = s := by
  have hdrop : s.dropWhile p = s := by
    rw [List.dropWhile_eq_self_iff]
    intro hs
    rw [h _ (List.getElem_mem hs)]
    exact Bool.false_ne_true
  unfold trimMatches
  rw [hdrop, List.rdropWhile_eq_self_iff]
  intro hs
  rw [h _ (List.getLast_mem hs)]
  exact Bool.false_ne_true

/-- Unicode's `White_Space`, which `str::trim` takes off. -/
def isWhitespace (c : Char) : Bool :=
  (0x9 ≤ c.toNat && c.toNat ≤ 0xD) || c.toNat = 0x20 || c.toNat = 0x85 || c.toNat = 0xA0 ||
    c.toNat = 0x1680 || (0x2000 ≤ c.toNat && c.toNat ≤ 0x200A) || c.toNat = 0x2028 ||
    c.toNat = 0x2029 || c.toNat = 0x202F || c.toNat = 0x205F || c.toNat = 0x3000

/-- The pieces of a text between the occurrences of a non-empty pattern; the first `skip` characters are
left of one that was found. -/
def splitFrom (pat : List Char) : Nat → List Char → List Char → List (List Char)
  | _, piece, [] => [piece]
  | skip + 1, piece, _ :: cs => splitFrom pat skip piece cs
  | 0, piece, c :: cs =>
      if pat.isPrefixOf (c :: cs) then piece :: splitFrom pat (pat.length - 1) [] cs
      else splitFrom pat 0 (piece ++ [c]) cs

/-- `s.split(pat)`; an empty pattern is found around every character. -/
def splitStr (pat s : List Char) : List (List Char) :=
  if pat.isEmpty then [] :: s.map (fun c => [c]) ++ [[]] else splitFrom pat 0 [] s

/-- A prefix that is there is stripped. -/
theorem stripPrefix_append (p s : List Char) : stripPrefix p (p ++ s) = some s := by
  unfold stripPrefix
  rw [if_pos (by rw [List.isPrefixOf_iff_prefix]; exact List.prefix_append p s), List.drop_left]

/-- A suffix that is there is stripped. -/
theorem stripSuffix_append (p s : List Char) : stripSuffix p (s ++ p) = some s := by
  unfold stripSuffix
  rw [if_pos (by rw [List.isSuffixOf_iff_suffix]; exact List.suffix_append s p), List.length_append,
    Nat.add_sub_cancel, List.take_left]

/-- No suffix whose last character does not end the text. -/
theorem stripSuffix_of_notMem {c : Char} {p s : List Char} (hc : c ∈ p) (hs : c ∉ s) :
    stripSuffix p s = none := by
  unfold stripSuffix
  rw [if_neg]
  intro h
  rw [List.isSuffixOf_iff_suffix] at h
  exact hs (h.subset hc)

/-- The first separator cuts. -/
theorem splitOnceAt_append {sep : Char} {a b : List Char} (h : sep ∉ a) :
    splitOnceAt sep (a ++ sep :: b) = some (a, b) := by
  have hkeep : ∀ c ∈ a, (c != sep) = true := by
    intro c hc
    rw [bne_iff_ne]
    rintro rfl
    exact h hc
  unfold splitOnceAt
  rw [List.dropWhile_append_of_pos hkeep, List.takeWhile_append_of_pos hkeep]
  simp

theorem rsplitOnce_of_notMem {c : Char} {p s : List Char} (h : c ∉ s) :
    rsplitOnce (c :: p) s = none := by
  have hstrip : ∀ t : List Char, c ∉ t → stripPrefix (c :: p) t = none := by
    intro t ht
    unfold stripPrefix
    rw [if_neg]
    intro hp
    rw [List.isPrefixOf_iff_prefix] at hp
    exact ht (hp.subset List.mem_cons_self)
  induction s with
  | nil =>
      unfold rsplitOnce
      rw [hstrip [] h]
      rfl
  | cons d ds ih =>
      unfold rsplitOnce
      rw [ih (fun hd => h (List.mem_cons_of_mem d hd)), hstrip _ h]
      rfl

/-- The last cut is the one at the pattern, when its first character does not occur after it. -/
theorem rsplitOnce_append {c : Char} {a p b : List Char} (hp : c ∉ p) (hb : c ∉ b) :
    rsplitOnce (c :: p) (a ++ (c :: p) ++ b) = some (a, b) := by
  induction a with
  | nil =>
      have htail : c ∉ p ++ b := by
        rw [List.mem_append]
        exact fun h => h.elim hp hb
      show rsplitOnce (c :: p) (c :: (p ++ b)) = some ([], b)
      unfold rsplitOnce
      rw [rsplitOnce_of_notMem htail, ← List.cons_append, stripPrefix_append]
      rfl
  | cons d ds ih =>
      show rsplitOnce (c :: p) (d :: (ds ++ (c :: p) ++ b)) = some (d :: ds, b)
      unfold rsplitOnce
      rw [ih]

/-! ## Decimal `u32`

The same parser at 32 bits. -/

/-- `s.parse::<u32>()`. -/
def parseU32 (s : List Char) : Except ParseIntError UInt32 :=
  UInt32.ofNat <$> parseDecimalBelow (2 ^ 32) s

/-- `n.to_string()` of a `u32`. -/
def showU32 (n : UInt32) : List Char := Nat.toDigits 10 n.toNat

theorem showU32_isDigit {n : UInt32} {c : Char} (h : c ∈ showU32 n) : c.isDigit = true :=
  Nat.isDigit_of_mem_toDigits (by omega) (by omega) h

theorem parseU32_eq_ok {s : List Char} {n : UInt32} :
    parseU32 s = .ok n ↔ digitsOf s ≠ [] ∧ (∀ d ∈ digitsOf s, d.isDigit = true) ∧
      Nat.ofDigitChars 10 (digitsOf s) 0 = n.toNat := by
  unfold parseU32
  rw [Results.map_eq_ok]
  constructor
  · rintro ⟨m, hm, rfl⟩
    obtain ⟨hne, hdigits, hvalue, hlt⟩ := (parseDecimalBelow_eq_ok (by decide)).mp hm
    exact ⟨hne, hdigits, by rw [hvalue, UInt32.toNat_ofNat', Nat.mod_eq_of_lt hlt]⟩
  · rintro ⟨hne, hdigits, hvalue⟩
    exact ⟨n.toNat, (parseDecimalBelow_eq_ok (by decide)).mpr ⟨hne, hdigits, hvalue, n.toNat_lt⟩,
      UInt32.ofNat_toNat⟩

/-- A printed number is parsed back. -/
theorem parseU32_showU32 (n : UInt32) : parseU32 (showU32 n) = .ok n := by
  rw [parseU32_eq_ok, digitsOf_of_isDigit (fun c hc => showU32_isDigit hc)]
  unfold showU32
  exact ⟨by simp, fun c hc => showU32_isDigit hc, by simp⟩

/-! ## Characters as bytes

A text as its UTF-8 bytes and back. ASCII characters are one byte below 0x80, and no other character has such
a byte. -/

/-- The UTF-8 bytes of a text. -/
def bytesOf (cs : List Char) : List UInt8 := utf8Bytes (String.ofList cs)

/-- `str::from_utf8(bs)`. -/
def charsOf (bs : List UInt8) : Except Utf8Error (List Char) := (fromUtf8 bs).map String.toList

/-- Text is read back from its bytes. -/
theorem charsOf_bytesOf (cs : List Char) : charsOf (bytesOf cs) = .ok cs := by
  unfold charsOf bytesOf
  rw [fromUtf8_utf8Bytes]
  exact congrArg Except.ok (String.toList_ofList)

theorem bytesOf_cons (c : Char) (cs : List Char) :
    bytesOf (c :: cs) = String.utf8EncodeChar c ++ bytesOf cs := by
  unfold bytesOf utf8Bytes
  simp [String.toUTF8, List.utf8Encode]

theorem bytesOf_nil : bytesOf [] = [] := by decide

/-- An ASCII character is its own byte. -/
theorem bytesOf_ascii {c : Char} (h : c.toNat < 0x80) (cs : List Char) :
    bytesOf (c :: cs) = UInt8.ofNat c.toNat :: bytesOf cs := by
  have hsize : c.utf8Size = 1 := by
    rw [Char.utf8Size_eq_one_iff, UInt32.le_iff_toNat_le]
    exact Nat.le_of_lt_succ h
  rw [bytesOf_cons, String.utf8EncodeChar_eq_singleton hsize]
  rfl

theorem le_or_right {a b m : UInt8} (h : m ≤ b) : m ≤ a ||| b := by
  rw [UInt8.le_iff_toNat_le] at h ⊢
  rw [UInt8.toNat_or]
  exact h.trans Nat.right_le_or

/-- Every other character starts with a byte from `0x80` on. -/
theorem bytesOf_nonAscii {c : Char} (h : 0x80 ≤ c.toNat) (cs : List Char) :
    ∃ b bs, bytesOf (c :: cs) = b :: bs ∧ 0x80 ≤ b := by
  have hsize : c.utf8Size ≠ 1 := by
    rw [Ne, Char.utf8Size_eq_one_iff, UInt32.le_iff_toNat_le]
    exact Nat.not_le_of_lt h
  rw [bytesOf_cons]
  obtain h | h | h | h := c.utf8Size_eq
  · exact absurd h hsize
  · exact ⟨_, _, by rw [String.utf8EncodeChar_eq_cons_cons h]; rfl, le_or_right (by decide)⟩
  · exact ⟨_, _, by rw [String.utf8EncodeChar_eq_cons_cons_cons h]; rfl, le_or_right (by decide)⟩
  · exact ⟨_, _, by rw [String.utf8EncodeChar_eq_cons_cons_cons_cons h]; rfl, le_or_right (by decide)⟩

/-- A byte below `0x80` is a character. -/
theorem exists_of_bytesOf_cons {cs : List Char} {c : Char} {bs : List UInt8} (hc : c.toNat < 0x80)
    (h : bytesOf cs = UInt8.ofNat c.toNat :: bs) : ∃ ds, cs = c :: ds ∧ bytesOf ds = bs := by
  cases cs with
  | nil =>
      rw [bytesOf_nil] at h
      cases h
  | cons d ds =>
      have hbyte {n : Nat} (hn : n < 0x80) : (UInt8.ofNat n).toNat = n := by
        rw [UInt8.toNat_ofNat']
        exact Nat.mod_eq_of_lt (by omega)
      by_cases hd : d.toNat < 0x80
      · rw [bytesOf_ascii hd] at h
        obtain ⟨hb, hbs⟩ := List.cons.inj h
        have hnat : d.toNat = c.toNat := by
          rw [← hbyte hd, ← hbyte hc, hb]
        refine ⟨ds, ?_, hbs⟩
        rw [Char.toNat_inj.mp hnat]
      · obtain ⟨b, bs', hb, hle⟩ := bytesOf_nonAscii (Nat.le_of_not_lt hd) ds
        rw [hb] at h
        rw [(List.cons.inj h).1, UInt8.le_iff_toNat_le, hbyte hc] at hle
        exact absurd hle (Nat.not_le_of_lt hc)

/-! ## Cutting at a byte

A cut inside a character is refused, so the prefixes of a text are those of its characters. -/

/-- The characters of the first `len` bytes, when `len` falls between two characters. -/
def charsTo : List Char → Nat → Option (List Char)
  | _, 0 => some []
  | [], _ + 1 => none
  | c :: cs, len + 1 =>
      if c.utf8Size ≤ len + 1 then (charsTo cs (len + 1 - c.utf8Size)).map (c :: ·) else none

/-- `s.get(..len)`. -/
def getTo (s : String) (len : Nat) : Option String := (charsTo s.toList len).map String.ofList

/-- The characters that end at a place are the prefix of that length. -/
theorem charsTo_eq_some_iff {cs p : List Char} {len : Nat} :
    charsTo cs len = some p ↔ p <+: cs ∧ String.utf8Len p = len := by
  induction cs generalizing p len with
  | nil =>
      cases len with
      | zero =>
          unfold charsTo
          rw [Option.some.injEq, String.utf8Len_eq_zero, List.prefix_nil]
          exact ⟨fun h => ⟨h.symm, h.symm⟩, fun h => h.1.symm⟩
      | succ len =>
          refine ⟨fun h => ?_, ?_⟩
          · cases h
          · rintro ⟨hp, hlen⟩
            rw [List.prefix_nil.mp hp] at hlen
            cases hlen
  | cons c cs ih =>
      cases len with
      | zero =>
          unfold charsTo
          rw [Option.some.injEq, String.utf8Len_eq_zero]
          refine ⟨fun h => ?_, fun h => h.2.symm⟩
          subst h
          exact ⟨List.nil_prefix, rfl⟩
      | succ len =>
          have hpos := c.utf8Size_pos
          unfold charsTo
          constructor
          · intro h
            split at h
            · rename_i hc
              obtain ⟨q, hq, rfl⟩ := Option.map_eq_some_iff.mp h
              obtain ⟨hpre, hlen⟩ := ih.mp hq
              refine ⟨List.prefix_cons_inj c |>.mpr hpre, ?_⟩
              rw [String.utf8Len_cons, hlen]
              omega
            · cases h
          · rintro ⟨hpre, hlen⟩
            -- a non-empty prefix starts with the first character
            obtain rfl | ⟨q, rfl, hq⟩ := List.prefix_cons_iff.mp hpre
            · cases hlen
            · rw [String.utf8Len_cons] at hlen
              rw [if_pos (by omega), ih.mpr ⟨hq, by omega⟩]
              rfl

theorem utf8Len_toList (s : String) : String.utf8Len s.toList = s.utf8ByteSize := by
  rw [← String.utf8ByteSize_ofList, String.ofList_toList]

/-- A prefix takes no more bytes. -/
theorem utf8ByteSize_le_of_prefix {p s : String} (h : p.toList <+: s.toList) :
    p.utf8ByteSize ≤ s.utf8ByteSize := by
  rw [← utf8Len_toList p, ← utf8Len_toList s]
  exact String.utf8Len_le_of_infix h.isInfix

/-- A cut at a byte returns the prefix of that length, when there is one. -/
theorem getTo_eq_some_iff {s p : String} {len : Nat} :
    getTo s len = some p ↔ p.toList <+: s.toList ∧ p.utf8ByteSize = len := by
  unfold getTo
  rw [Option.map_eq_some_iff, ← utf8Len_toList p]
  constructor
  · rintro ⟨q, hq, rfl⟩
    rw [String.toList_ofList]
    exact charsTo_eq_some_iff.mp hq
  · intro h
    exact ⟨p.toList, charsTo_eq_some_iff.mpr h, String.ofList_toList⟩

example : getTo "é!" 2 = some "é" ∧ getTo "é!" 1 = none := by decide +kernel

/-! ## Searching

The first place of a pattern. -/

/-- `s.find(pat)`: where the first occurrence of `pat` starts. -/
def find (pat : List Char) : List Char → Option Nat
  | [] => if pat.isEmpty then some 0 else none
  | c :: cs => if pat.isPrefixOf (c :: cs) then some 0 else (find pat cs).map (· + 1)

/-- What is found lies in the text. -/
theorem add_le_of_find {pat s : List Char} {n : Nat} (h : find pat s = some n) :
    n + pat.length ≤ s.length := by
  induction s generalizing n with
  | nil =>
      unfold find at h
      split at h
      · rename_i hnil
        cases h
        rw [List.isEmpty_iff.mp hnil]
        exact Nat.le_refl _
      · cases h
  | cons c cs ih =>
      unfold find at h
      split at h
      · rename_i hpre
        cases h
        simpa using (List.isPrefixOf_iff_prefix.mp hpre).length_le
      · obtain ⟨m, hm, rfl⟩ := Option.map_eq_some_iff.mp h
        have := ih hm
        rw [List.length_cons]
        omega

/-- A character that the pattern does not have adds no occurrence at the end of a text. -/
theorem find_concat {pat : List Char} {c : Char} (hne : pat ≠ []) (h : c ∉ pat) (s : List Char) :
    find pat (s ++ [c]) = find pat s := by
  induction s with
  | nil =>
      have hpre : pat.isPrefixOf [c] = false := by
        rw [Bool.eq_false_iff]
        intro hp
        obtain ⟨d, ds, rfl⟩ := List.exists_cons_of_ne_nil hne
        have := (List.isPrefixOf_iff_prefix.mp hp).subset List.mem_cons_self
        rw [List.mem_singleton] at this
        exact h (this ▸ List.mem_cons_self)
      have hempty : pat.isEmpty = false := by simpa using hne
      simp [find, hpre, hempty]
  | cons d s ih =>
      have hpre : pat.isPrefixOf (d :: (s ++ [c])) = pat.isPrefixOf (d :: s) := by
        rw [Bool.eq_iff_iff, List.isPrefixOf_iff_prefix, List.isPrefixOf_iff_prefix]
        refine ⟨fun hp => ?_, fun hp => hp.trans (by simp)⟩
        rw [← List.cons_append, List.prefix_concat_iff] at hp
        rcases hp with rfl | hp
        · exact absurd (by simp) h
        · exact hp
      rw [List.cons_append]
      unfold find
      rw [hpre, ih]

end Text
