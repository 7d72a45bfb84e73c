import Krabka.Lib.AlikeReaders
import Krabka.Protocol.ExactPrimitives

/-!
# `Protocol.AlikePrimitives` — arrays and tagged sections that are accepted alike

Arrays and tagged sections accept alike when their elements and their payloads do. An array of one element tells
two readers apart when the element does: its length is checked against what is left of the input, so at least
one byte has to follow.
-/

namespace Krabka.Protocol

open ByteStream Reader

section
variable {α : Type}

theorem alike_getArray {flexible : Bool} {d e : Decode α} (h : Alike d e) :
    Alike (getArray flexible d) (getArray flexible e) :=
  (Alike.refl _).bind fun n => .times (fun _ => h) n 0

theorem alike_getNullableArray {flexible : Bool} {d e : Decode α} (h : Alike d e) :
    Alike (getNullableArray flexible d) (getNullableArray flexible e) := by
  refine (Alike.refl _).bind fun n => ?_
  cases n with
  | none => exact .refl _
  | some n => exact (Alike.times (fun _ => h) n 0).bind fun as => .refl _

theorem alike_readTaggedFieldsInto {σ : Type} {known known' : UInt32 → σ → Decode (Option σ)}
    (h : ∀ tag s, Alike (known tag s) (known' tag s)) (s : σ) :
    Alike (readTaggedFieldsInto known s) (readTaggedFieldsInto known' s) := by
  refine (Alike.refl _).bind fun count => Alike.bind (.loop (fun _ s => ?_) _ _ _) fun _ => .refl _
  refine (Alike.refl _).bind fun tag => .ite (.refl _) ?_
  exact (Alike.refl _).bind fun size => (Alike.refl _).bind fun payload =>
    (Alike.inside payload (h tag s.2.1)).bind fun p => .refl _

/-! ## Inputs that tell two decoders apart

The shortest input of each primitive, with what may follow it. -/

/-- The length of an array, with as many bytes behind it. -/
theorem exists_arrayLen (flexible : Bool) {n : Nat} (hn : LenFits flexible (2 ^ 31) n) :
    ∃ w : Bytes, ∀ r : Bytes, n ≤ r.length → getArrayLen flexible (w ++ r) = .ok (n, r) := by
  obtain ⟨w, -, -, hread, -⟩ := exact_putArrayLen hn
  refine ⟨w, fun r hr => ?_⟩
  unfold getArrayLen
  rw [bind_of_ok (hread r), bind_of_ok (show remaining r = .ok (r.length, r) from rfl), if_neg (by omega)]
  rfl

theorem exists_nullableArrayLen (flexible : Bool) {n : Nat} (hn : LenFits flexible (2 ^ 31) n) :
    ∃ w : Bytes, ∀ r : Bytes, n ≤ r.length → getNullableArrayLen flexible (w ++ r) = .ok (some n, r) := by
  have hfit : ∀ m ∈ some n, LenFits flexible (2 ^ 31) m := fun m hm => by cases hm; exact hn
  obtain ⟨w, -, -, hread, -⟩ := exact_putNullableArrayLen hfit
  refine ⟨w, fun r hr => ?_⟩
  unfold getNullableArrayLen
  rw [bind_of_ok (hread r)]
  dsimp only
  rw [bind_of_ok (show remaining r = .ok (r.length, r) from rfl), if_neg (by omega)]
  rfl

theorem lenFits_le_one (flexible : Bool) : LenFits flexible (2 ^ 31) 0 ∧ LenFits flexible (2 ^ 31) 1 := by
  cases flexible <;> decide

variable {d e : Decode α} {D : Prop}

theorem probe_times_one (h : Probe d e D) : Probe (times (fun _ => d) 1 0) (times (fun _ => e) 1 0) D :=
  h.map fun _ _ hne heq => hne (List.cons.inj heq).1

/-- An array of one element. -/
theorem probe_getArray (flexible : Bool) (h : Probe d e D) :
    Probe (getArray flexible d) (getArray flexible e) D := by
  obtain ⟨w, hw⟩ := exists_arrayLen flexible (lenFits_le_one flexible).2
  obtain ⟨w', as, least, hall⟩ := probe_times_one h
  refine ⟨w ++ w', as, least + 1, fun r hr => ?_⟩
  have hlen := hw (w' ++ r) (by rw [List.length_append]; omega)
  unfold getArray
  rw [List.append_assoc, bind_of_ok hlen, bind_of_ok hlen]
  exact hall r (by omega)

theorem probe_getNullableArray (flexible : Bool) (h : Probe d e D) :
    Probe (getNullableArray flexible d) (getNullableArray flexible e) D := by
  obtain ⟨w, hw⟩ := exists_nullableArrayLen flexible (lenFits_le_one flexible).2
  obtain ⟨w', as, least, hall⟩ :=
    (probe_times_one h).map (f := some) (g := some) fun _ _ hne heq => hne (Option.some.inj heq)
  refine ⟨w ++ w', as, least + 1, fun r hr => ?_⟩
  have hlen := hw (w' ++ r) (by rw [List.length_append]; omega)
  unfold getNullableArray
  rw [List.append_assoc, bind_of_ok hlen, bind_of_ok hlen]
  exact hall r (by omega)

/-- An empty array has no element to read. -/
theorem probe_getArray_nil (flexible : Bool) (d e : Decode α) :
    Probe (getArray flexible d) (getArray flexible e) False := by
  obtain ⟨w, hw⟩ := exists_arrayLen flexible (lenFits_le_one flexible).1
  exact .of_reads (fun r => bind_of_ok (hw r r.length.zero_le)) (fun r => bind_of_ok (hw r r.length.zero_le)) False.elim

theorem probe_getNullableArray_nil (flexible : Bool) (d e : Decode α) :
    Probe (getNullableArray flexible d) (getNullableArray flexible e) False := by
  obtain ⟨w, hw⟩ := exists_nullableArrayLen flexible (lenFits_le_one flexible).1
  exact .of_reads (fun r => bind_of_ok (hw r r.length.zero_le)) (fun r => bind_of_ok (hw r r.length.zero_le)) False.elim

end

end Krabka.Protocol
