import Krabka.Lib.Text

/-!
# `Codegen.NameConv` — schema names as Rust identifiers

`name_conv.rs`: a camel-case name becomes snake case, a run of capitals stays one word, and a reserved word
gets an underscore. What a struct needs of it is that its fields keep different names
(`fieldNames_distinct`) that Rust accepts (`fieldName_snakeCase`).
-/

namespace Krabka.Codegen

open Text

/-! ## ASCII bytes

The source works on bytes, and a name of a schema is ASCII. -/

def isUpper (b : UInt8) : Bool := 0x41 ≤ b && b ≤ 0x5A

def isLower (b : UInt8) : Bool := 0x61 ≤ b && b ≤ 0x7A

def toLower (b : UInt8) : UInt8 := if isUpper b then b + 0x20 else b

/-- `b as char`. -/
def charOf (b : UInt8) : Char := Char.ofNat b.toNat

/-! ## `field_name`

An underscore goes in front of every capital but the first, and but those inside a run of capitals; the last
of a run belongs to the next word if a small letter follows. -/

/-- The loop over the bytes; `prev` is the byte before them. -/
def snakeFrom (prev : Option UInt8) : List UInt8 → List Char
  | [] => []
  | b :: rest =>
      if isUpper b then
        let prevUpper := prev.any isUpper
        let nextLower := rest.head?.any isLower
        if prev.isSome && (!prevUpper || nextLower) then '_' :: charOf (toLower b) :: snakeFrom (some b) rest
        else charOf (toLower b) :: snakeFrom (some b) rest
      else charOf b :: snakeFrom (some b) rest

def reservedKeywords : List (List Char) :=
  ["as", "break", "const", "continue", "crate", "else", "enum", "extern", "false", "fn", "for", "if", "impl",
    "in", "let", "loop", "match", "mod", "move", "mut", "pub", "ref", "return", "self", "Self", "static",
    "struct", "super", "trait", "true", "type", "unsafe", "use", "where", "while", "async", "await", "dyn",
    "abstract", "become", "box", "do", "final", "macro", "override", "priv", "typeof", "unsized", "virtual",
    "yield", "try", "union", "gen"].map String.toList

def isReservedKeyword (s : List Char) : Bool := reservedKeywords.contains s

def fieldName (s : List Char) : List Char :=
  let out := snakeFrom none (bytesOf s)
  if isReservedKeyword out then out ++ ['_'] else out

/-! ## Different names

Without the underscores and the capitals a name is what it was, so names that differ in more than that stay
apart. -/

/-- The name without its case and its underscores. -/
def folded (s : List Char) : List UInt8 := ((bytesOf s).map toLower).filter (· != 0x5F)

theorem toNat_charOf (b : UInt8) : (charOf b).toNat = b.toNat := by
  have hlt := b.toNat_lt
  have hvalid : b.toNat.isValidChar := Or.inl (by omega)
  simp only [charOf, Char.ofNat, dif_pos hvalid]
  simp [Char.ofNatAux, Char.toNat]

theorem charOf_injective : Function.Injective charOf := by
  intro a b h
  have hnat := congrArg Char.toNat h
  rw [toNat_charOf, toNat_charOf] at hnat
  exact UInt8.toNat_inj.mp hnat

theorem charOf_eq_underscore {b : UInt8} : charOf b = '_' ↔ b = 0x5F :=
  charOf_injective.eq_iff' (by decide)

/-- Underscores apart, the loop only lowers the bytes. -/
theorem filter_snakeFrom (prev : Option UInt8) (bs : List UInt8) :
    (snakeFrom prev bs).filter (· != '_') = ((bs.map toLower).filter (· != 0x5F)).map charOf := by
  have hcons : ∀ (b : UInt8) (cs : List Char) (rest : List UInt8),
      cs.filter (· != '_') = (rest.filter (· != 0x5F)).map charOf →
      (charOf b :: cs).filter (· != '_') = ((b :: rest).filter (· != 0x5F)).map charOf := by
    intro b cs rest ih
    simp only [List.filter_cons, bne_iff_ne, ne_eq, charOf_eq_underscore]
    split_ifs <;> simp [ih]
  induction bs generalizing prev with
  | nil => rfl
  | cons b rest ih =>
      rw [List.map_cons, snakeFrom]
      by_cases hupper : isUpper b
      · rw [if_pos hupper]
        dsimp only
        split_ifs
        · rw [List.filter_cons_of_neg (by decide)]
          exact hcons _ _ _ (ih _)
        · exact hcons _ _ _ (ih _)
      · rw [if_neg hupper, show toLower b = b by simp [toLower, hupper]]
        exact hcons _ _ _ (ih _)

theorem filter_fieldName (s : List Char) : (fieldName s).filter (· != '_') = (folded s).map charOf := by
  have hsnake := filter_snakeFrom none (bytesOf s)
  unfold fieldName folded
  dsimp only
  split_ifs
  · rw [List.filter_append, hsnake]
    exact List.append_nil _
  · exact hsnake

/-- Names that become one identifier differ in case and underscores only. -/
theorem folded_of_fieldName {s t : List Char} (h : fieldName s = fieldName t) : folded s = folded t := by
  have hfilter := congrArg (List.filter (· != '_')) h
  rw [filter_fieldName, filter_fieldName] at hfilter
  exact (List.map_injective_iff.mpr charOf_injective) hfilter

/-! ## Identifiers

What comes out is made of small letters, digits and underscores, and is no reserved word. -/

def isSnake (c : Char) : Bool := c.isLower || c.isDigit || c == '_'

/-- A snake-case identifier of Rust. -/
structure SnakeCase (s : List Char) : Prop where
  head : s.head?.any Char.isLower = true
  chars : ∀ c ∈ s, isSnake c = true
  unreserved : isReservedKeyword s = false

/-- A name as the schemas have it. -/
structure SchemaName (s : List Char) : Prop where
  head : s.head?.any Char.isAlpha = true
  chars : ∀ c ∈ s, c.isAlphanum = true

theorem toNat_lt_of_isAlphanum {c : Char} (h : c.isAlphanum = true) : c.toNat < 128 := by
  simp only [Char.isAlphanum, Char.isAlpha, Char.isUpper, Char.isLower, Char.isDigit, Bool.or_eq_true,
    Bool.and_eq_true, decide_eq_true_eq, UInt32.le_iff_toNat_le] at h
  rcases h with (h | h) | h
  · exact Nat.lt_of_le_of_lt h.2 (by decide)
  · exact Nat.lt_of_le_of_lt h.2 (by decide)
  · exact Nat.lt_of_le_of_lt h.2 (by decide)

/-- What the loop makes of the byte of an ASCII character. -/
theorem ascii_facts {c : Char} (h : c.toNat < 128) :
    charOf (UInt8.ofNat c.toNat) = c ∧ (isSnake c = true → isUpper (UInt8.ofNat c.toNat) = false) ∧
      (c.isAlphanum = true → isSnake (charOf (toLower (UInt8.ofNat c.toNat))) = true) ∧
      (c.isAlpha = true → (charOf (toLower (UInt8.ofNat c.toNat))).isLower = true) := by
  have hall : ∀ n : Fin 128, charOf (UInt8.ofNat n) = Char.ofNat n ∧
      (isSnake (Char.ofNat n) = true → isUpper (UInt8.ofNat n) = false) ∧
      ((Char.ofNat n).isAlphanum = true → isSnake (charOf (toLower (UInt8.ofNat n))) = true) ∧
      ((Char.ofNat n).isAlpha = true → (charOf (toLower (UInt8.ofNat n))).isLower = true) := by
    decide
  have hc := hall ⟨c.toNat, h⟩
  simp only [Char.ofNat_toNat] at hc
  exact hc

theorem toNat_lt_of_isSnake {c : Char} (h : isSnake c = true) : c.toNat < 128 := by
  by_cases hunderscore : c = '_'
  · rw [hunderscore]
    decide
  · refine toNat_lt_of_isAlphanum ?_
    simp only [isSnake, Bool.or_eq_true, beq_iff_eq, hunderscore, or_false] at h
    rcases h with h | h <;> simp [Char.isAlphanum, Char.isAlpha, h]

/-- Snake case is left alone. -/
theorem snakeFrom_of_isSnake {cs : List Char} (h : ∀ c ∈ cs, isSnake c = true) (prev : Option UInt8) :
    snakeFrom prev (bytesOf cs) = cs := by
  induction cs generalizing prev with
  | nil => rw [bytesOf_nil]; rfl
  | cons c rest ih =>
      have hc := h c List.mem_cons_self
      have hlt := toNat_lt_of_isSnake hc
      obtain ⟨hchar, hupper, -, -⟩ := ascii_facts hlt
      rw [bytesOf_ascii hlt, snakeFrom, if_neg (by simp [hupper hc]), hchar,
        ih fun d hd => h d (List.mem_cons_of_mem c hd)]

theorem snakeFrom_isSnake {s : List Char} (h : ∀ c ∈ s, c.isAlphanum = true) (prev : Option UInt8) :
    ∀ c ∈ snakeFrom prev (bytesOf s), isSnake c = true := by
  induction s generalizing prev with
  | nil => rw [bytesOf_nil]; exact fun c hc => absurd hc List.not_mem_nil
  | cons c rest ih =>
      have hc := h c List.mem_cons_self
      have hlt := toNat_lt_of_isAlphanum hc
      obtain ⟨-, -, hsnake, -⟩ := ascii_facts hlt
      have hrest := ih (fun d hd => h d (List.mem_cons_of_mem c hd)) (some (UInt8.ofNat c.toNat))
      rw [bytesOf_ascii hlt, snakeFrom]
      by_cases hupper : isUpper (UInt8.ofNat c.toNat)
      · rw [if_pos hupper]
        dsimp only
        split_ifs
        · simp only [List.mem_cons, forall_eq_or_imp]
          exact ⟨by decide, hsnake hc, hrest⟩
        · simpa using ⟨hsnake hc, hrest⟩
      · rw [if_neg hupper]
        have hlower : toLower (UInt8.ofNat c.toNat) = UInt8.ofNat c.toNat := by simp [toLower, hupper]
        rw [hlower] at hsnake
        simpa using ⟨hsnake hc, hrest⟩

theorem head_snakeFrom {s : List Char} (h : SchemaName s) :
    (snakeFrom none (bytesOf s)).head?.any Char.isLower = true := by
  obtain ⟨hhead, hchars⟩ := h
  cases s with
  | nil => cases hhead
  | cons c rest =>
      have hlt := toNat_lt_of_isAlphanum (hchars c List.mem_cons_self)
      obtain ⟨-, -, -, hlower⟩ := ascii_facts hlt
      have hfirst := hlower hhead
      rw [bytesOf_ascii hlt, snakeFrom]
      by_cases hupper : isUpper (UInt8.ofNat c.toNat)
      · rw [if_pos hupper]
        exact hfirst
      · rw [if_neg hupper]
        rwa [show toLower (UInt8.ofNat c.toNat) = UInt8.ofNat c.toNat by simp [toLower, hupper]] at hfirst

/-- An underscore takes a name out of the reserved words. -/
theorem isReservedKeyword_fieldName (s : List Char) : isReservedKeyword (fieldName s) = false := by
  have hends : ∀ k ∈ reservedKeywords, k.getLast? ≠ some '_' := by decide
  unfold fieldName
  dsimp only
  split_ifs with hreserved
  · unfold isReservedKeyword
    rw [List.contains_eq_mem, decide_eq_false_iff_not]
    exact fun hmem => hends _ hmem List.getLast?_concat
  · simpa using hreserved

theorem fieldName_snakeCase {s : List Char} (h : SchemaName s) : SnakeCase (fieldName s) := by
  have hhead := head_snakeFrom h
  have hchars := snakeFrom_isSnake h.chars none
  have hunreserved := isReservedKeyword_fieldName s
  unfold fieldName at hunreserved ⊢
  dsimp only at hunreserved ⊢
  split_ifs at hunreserved ⊢
  · refine ⟨?_, ?_, hunreserved⟩
    · cases hout : snakeFrom none (bytesOf s) with
      | nil => rw [hout] at hhead; cases hhead
      | cons c cs => rwa [hout] at hhead
    · intro c hc
      rcases List.mem_append.mp hc with hc | hc
      · exact hchars c hc
      · rw [List.mem_singleton.mp hc]
        decide
  · exact ⟨hhead, hchars, hunreserved⟩

theorem fieldName_of_snakeCase {s : List Char} (h : SnakeCase s) : fieldName s = s := by
  unfold fieldName
  rw [snakeFrom_of_isSnake h.chars]
  exact if_neg (by simp [h.unreserved])

/-- **Fields with different names keep different names.** Schema names that differ in more than case and
underscores become different snake-case identifiers, which a second conversion would leave alone. -/
theorem fieldNames_distinct {names : List (List Char)} (hnames : ∀ n ∈ names, SchemaName n)
    (hdistinct : (names.map folded).Nodup) :
    (names.map fieldName).Nodup ∧
      ∀ n ∈ names, SnakeCase (fieldName n) ∧ fieldName (fieldName n) = fieldName n := by
  refine ⟨?_, fun n hn => ?_⟩
  · rw [List.Nodup, List.pairwise_map] at hdistinct ⊢
    exact hdistinct.imp fun hne heq => hne (folded_of_fieldName heq)
  · have hsnake := fieldName_snakeCase (hnames n hn)
    exact ⟨hsnake, fieldName_of_snakeCase hsnake⟩

theorem fieldNames_distinct_keyword :
    ([['t', 'y', 'p', 'e'], ['H', 'T', 'T', 'P', 'S', 'P', 'o', 'r', 't']].map fieldName).Nodup ∧
      ∀ n ∈ [['t', 'y', 'p', 'e'], ['H', 'T', 'T', 'P', 'S', 'P', 'o', 'r', 't']],
        SnakeCase (fieldName n) ∧ fieldName (fieldName n) = fieldName n := by
  refine fieldNames_distinct ?_ (by decide)
  intro n hn
  rcases List.mem_cons.mp hn with rfl | hn
  · exact ⟨by decide, by simp⟩
  · rw [List.mem_singleton.mp hn]
    exact ⟨by decide, by simp⟩

end Krabka.Codegen
