import Krabka.Security.Scram.Saslname

/-!
# `Security.Scram.Rebuilt` — the rebuilt client-first message is a normal form

Both sides sign the client-first message as the parser rebuilds it, not as it was sent: the reserved
attribute is gone, and each extension stands once, where it was first sent, with the value it was last
sent with. Here what the parser accepts is taken apart (`parse_eq_ok`), and `distinctExtensions` is shown to
lose nothing that a reader of the extensions asks for; so the rebuilt message reads as the message it was
rebuilt from, and is rebuilt as itself.
-/

namespace Krabka.Security.Scram

open ByteStream Text

/-! ## What is read off a client-first message

The functions that ask the extensions of a message for a key. -/

def tokenAuthExtension : List Char := ['t', 'o', 'k', 'e', 'n', 'a', 'u', 't', 'h']

/-- `a.eq_ignore_ascii_case(b)`. -/
def eqIgnoreAsciiCase (a b : List Char) : Bool := a.map Char.toLower == b.map Char.toLower

/-- The last value sent for `key`. -/
def ScramClientFirst.extension (m : ScramClientFirst) (key : List Char) : Option (List Char) :=
  (m.extensions.reverse.find? fun e => e.1 = key).map Prod.snd

def ScramClientFirst.tokenAuthenticated (m : ScramClientFirst) : Bool :=
  (m.extension tokenAuthExtension).any (eqIgnoreAsciiCase · ['t', 'r', 'u', 'e'])

/-! ## Distinct extensions

Each key once, at its first place and with its last value. -/

theorem lastValues_concat (extensions : List Extension) (e : Extension) :
    lastValues (extensions ++ [e]) = Function.update (lastValues extensions) e.1 (some e.2) := by
  simp [lastValues]

/-- The map that is built forwards answers what the search backwards finds. -/
theorem lastValues_eq_find (extensions : List Extension) (key : List Char) :
    lastValues extensions key = (extensions.reverse.find? fun e => e.1 = key).map Prod.snd := by
  induction extensions using List.reverseRecOn with
  | nil => rfl
  | append_singleton rest e ih =>
      rw [lastValues_concat, List.reverse_append, List.reverse_singleton, List.singleton_append,
        List.find?_cons]
      by_cases hkey : e.1 = key
      · subst hkey
        simp
      · rw [Function.update_of_ne (Ne.symm hkey), ih]
        simp [hkey]

theorem mem_of_lastValues {extensions : List Extension} {key value : List Char}
    (h : lastValues extensions key = some value) : (key, value) ∈ extensions := by
  rw [lastValues_eq_find, Option.map_eq_some_iff] at h
  obtain ⟨e, he, rfl⟩ := h
  have hkey : e.1 = key := by simpa using List.find?_some he
  have hmem := List.mem_reverse.mp (List.mem_of_find?_eq_some he)
  rw [← hkey]
  exact hmem

theorem lastValues_eq_none {extensions : List Extension} {key : List Char} :
    lastValues extensions key = none ↔ key ∉ extensions.map Prod.fst := by
  rw [lastValues_eq_find, Option.map_eq_none_iff, List.find?_eq_none, List.mem_map]
  constructor
  · rintro h ⟨e, he, rfl⟩
    exact h e (List.mem_reverse.mpr he) (by simp)
  · intro h e he hkey
    exact h ⟨e, List.mem_reverse.mp he, by simpa using hkey⟩

/-- A key is taken once: after that the map has no value for it. -/
theorem takeOnce_keys (last : List Char → Option (List Char)) (extensions : List Extension) :
    (takeOnce last extensions).map Prod.fst =
      ((extensions.map Prod.fst).filter fun key => (last key).isSome).eraseDups := by
  induction extensions generalizing last with
  | nil => rfl
  | cons e rest ih =>
      obtain ⟨key, sent⟩ := e
      unfold takeOnce
      cases hkey : last key with
      | none => simp [hkey, ih]
      | some value =>
          have hlater : ∀ k, (Function.update last key none k).isSome = ((last k).isSome && !k == key) := by
            intro k
            by_cases hk : k = key
            · subst hk
              simp
            · simp [hk]
          simp [hkey, ih, List.eraseDups_cons, List.filter_filter, hlater, Bool.and_comm]

theorem mem_takeOnce {last : List Char → Option (List Char)} {extensions : List Extension} {e : Extension}
    (h : e ∈ takeOnce last extensions) : last e.1 = some e.2 := by
  induction extensions generalizing last with
  | nil => cases h
  | cons f rest ih =>
      obtain ⟨key, sent⟩ := f
      unfold takeOnce at h
      cases hkey : last key with
      | none =>
          simp only [hkey] at h
          exact ih h
      | some value =>
          simp only [hkey] at h
          rcases List.mem_cons.mp h with rfl | h
          · exact hkey
          · have hlast := ih h
            by_cases he : e.1 = key
            · rw [he, Function.update_self] at hlast
              cases hlast
            · rwa [Function.update_of_ne he] at hlast

theorem nodup_eraseDups {α : Type} [BEq α] [LawfulBEq α] (xs : List α) : xs.eraseDups.Nodup := by
  induction hn : xs.length using Nat.strong_induction_on generalizing xs with
  | _ n ih =>
      cases xs with
      | nil => exact List.nodup_nil
      | cons x rest =>
          rw [List.eraseDups_cons, List.nodup_cons, List.mem_eraseDups]
          refine ⟨by simp, ih _ ?_ _ rfl⟩
          subst hn
          exact Nat.lt_succ_of_le (List.length_filter_le _ _)

/-- **Each key once, in the order of first occurrence.** -/
theorem distinctExtensions_keys (extensions : List Extension) :
    (distinctExtensions extensions).map Prod.fst = (extensions.map Prod.fst).eraseDups := by
  unfold distinctExtensions
  rw [takeOnce_keys, List.filter_eq_self.mpr]
  intro key hkey
  rw [Option.isSome_iff_ne_none]
  exact fun hnone => lastValues_eq_none.mp hnone hkey

theorem sendable_distinctExtensions {extensions : List Extension}
    (h : ∀ e ∈ extensions, isExtension e.1 e.2 = true) : Sendable (distinctExtensions extensions) := by
  constructor
  · intro e he
    exact h (e.1, e.2) (mem_of_lastValues (mem_takeOnce he))
  · rw [distinctExtensions_keys]
    exact nodup_eraseDups _

/-- **Every key keeps its last value.** -/
theorem lastValues_distinctExtensions (extensions : List Extension) :
    lastValues (distinctExtensions extensions) = lastValues extensions := by
  have hnodup : ((distinctExtensions extensions).map Prod.fst).Nodup := by
    rw [distinctExtensions_keys]
    exact nodup_eraseDups _
  funext key
  by_cases hkey : key ∈ (distinctExtensions extensions).map Prod.fst
  · obtain ⟨e, he, rfl⟩ := List.mem_map.mp hkey
    rw [lastValues_of_mem hnodup he, mem_takeOnce he]
  · have hsent : key ∉ extensions.map Prod.fst := by
      rwa [distinctExtensions_keys, List.mem_eraseDups] at hkey
    rw [lastValues_eq_none.mpr hkey, lastValues_eq_none.mpr hsent]

/-! ## The parser taken apart

The parts of an accepted message, and the message that is rebuilt from them. -/

/-- What the parser makes sure of. -/
structure ScramClientFirst.Accepted (m : ScramClientFirst) : Prop where
  username : m.username ≠ []
  nonce : isPrintable m.nonce = true
  extensions : ∀ e ∈ m.extensions, isExtension e.1 e.2 = true
  bare : m.bare = bareOf (encodeSaslname m.username) m.nonce (distinctExtensions m.extensions)

theorem isExtension_of_parseExtension {attr : List Char} {e : Extension}
    (h : parseExtension attr = .ok e) : isExtension e.1 e.2 = true := by
  unfold parseExtension at h
  exact (Option.filter_eq_some_iff.mp (Results.okOr_eq_ok.mp h)).2

theorem ScramClientFirst.parse_eq_ok {bytes : Bytes} {m : ScramClientFirst} (h : parse bytes = .ok m) :
    m.Accepted := by
  unfold ScramClientFirst.parse at h
  obtain ⟨message, -, h⟩ := Results.bind_eq_ok.mp h
  obtain ⟨afterFlag, -, h⟩ := Results.bind_eq_ok.mp h
  obtain ⟨⟨authzidPart, bare⟩, -, h⟩ := Results.bind_eq_ok.mp h
  obtain ⟨authzid, -, h⟩ := Results.bind_eq_ok.mp h
  obtain ⟨attributes, -, h⟩ := Results.bind_eq_ok.mp h
  obtain ⟨⟨saslname, attributes⟩, -, h⟩ := Results.bind_eq_ok.mp h
  obtain ⟨username, husername, h⟩ := Results.bind_eq_ok.mp h
  obtain ⟨⟨nonce, attributes⟩, hnonce, h⟩ := Results.bind_eq_ok.mp h
  obtain ⟨extensions, hextensions, h⟩ := Results.bind_eq_ok.mp h
  cases h
  obtain ⟨hne, hsaslname⟩ := decodeSaslname_eq_ok.mp husername
  refine ⟨hne, ?_, ?_, by rw [hsaslname]⟩
  · exact (Option.filter_eq_some_iff.mp (orMalformed_eq_ok.mp hnonce)).2
  · intro e he
    obtain ⟨attr, -, hattr⟩ := Results.exists_of_mem_mapM hextensions he
    exact isExtension_of_parseExtension hattr

/-- **Rebuilding is a normal form.** The rebuilt message is accepted with the same username, nonce, token
flag and extension values, is rebuilt as itself, and has each extension once, in the order of first
occurrence. -/
theorem ScramClientFirst.parse_bare {bytes : Bytes} {m : ScramClientFirst} (h : parse bytes = .ok m) :
    ∃ m2, parse (bytesOf (['n', ',', ','] ++ m.bare)) = .ok m2 ∧
      m2.username = m.username ∧ m2.nonce = m.nonce ∧ m2.bare = m.bare ∧
      m2.tokenAuthenticated = m.tokenAuthenticated ∧
      (∀ key, m2.extension key = m.extension key) ∧
      (m2.extensions.map Prod.fst).Nodup ∧
      m2.extensions.map Prod.fst = (m.extensions.map Prod.fst).eraseDups := by
  obtain ⟨hname, hnonce, hextensions, hbare⟩ := parse_eq_ok h
  have hsendable := sendable_distinctExtensions hextensions
  have hread := parse_written hname hnonce hsendable
  rw [← hbare] at hread
  have hextension : ∀ m2 : ScramClientFirst, m2.extensions = distinctExtensions m.extensions →
      ∀ key, m2.extension key = m.extension key := by
    intro m2 hm2 key
    show (m2.extensions.reverse.find? fun e => e.1 = key).map Prod.snd =
      (m.extensions.reverse.find? fun e => e.1 = key).map Prod.snd
    rw [← lastValues_eq_find, ← lastValues_eq_find, hm2, lastValues_distinctExtensions]
  refine ⟨_, hread, rfl, rfl, rfl, ?_, hextension _ rfl, hsendable.distinct, distinctExtensions_keys _⟩
  unfold tokenAuthenticated
  rw [hextension _ rfl]

/-- The message `n,a=x,m=r,n=u=2C,r=q,k=1,j==,k=3`: a reserved attribute, an escaped name, a key sent twice
and a value that is an equals sign. -/
def repeatedKey : List Char := "n,a=x,m=r,n=u=2C,r=q,k=1,j==,k=3".toList

def repeatedKeyFirst : ScramClientFirst where
  gs2Header := "n,a=x,".toList
  authzid := some ['x']
  username := ['u', ',']
  nonce := ['q']
  extensions := [(['k'], ['1']), (['j'], ['=']), (['k'], ['3'])]
  bare := "n=u=2C,r=q,k=3,j==".toList

theorem ScramClientFirst.parse_bare_repeatedKey :
    ∃ m2, parse (bytesOf (['n', ',', ','] ++ repeatedKeyFirst.bare)) = .ok m2 ∧
      m2.username = ['u', ','] ∧ m2.extension ['k'] = some ['3'] ∧
      m2.extensions.map Prod.fst = [['k'], ['j']] := by
  have hparse : parse (bytesOf repeatedKey) = .ok repeatedKeyFirst := by decide +kernel
  obtain ⟨m2, hread, hname, -, -, -, hextension, -, hkeys⟩ := ScramClientFirst.parse_bare hparse
  exact ⟨m2, hread, hname, hextension ['k'], hkeys⟩

end Krabka.Security.Scram
