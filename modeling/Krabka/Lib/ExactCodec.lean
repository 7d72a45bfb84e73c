import Krabka.Lib.WireInt

/-!
# `Lib.ExactCodec` — writers, length functions and readers that agree

A hand-written codec is three functions: one that writes, one that predicts how many bytes that takes, and
one that reads. `Exact x n d a` says that the three agree on a value: the writer `x` appends `n` bytes, the
reader `d` takes exactly those bytes off any input that starts with them and answers `a`, and it refuses
every input that stops inside them. The rules below follow the steps of a codec, so its proof has the
shape of its code: `Exact.bind` for one field after another, `Exact.each` for the elements of an array.

`Sized x n` is the half of it that needs no reader: whenever `x` finishes, it has appended `n` bytes. It
holds of every value, of those too whose lengths do not fit their prefixes.
-/

namespace ByteStream

open Reader Output

variable {ε α β : Type}

namespace Reader

/-- `d` refuses every part of `w` that stops before its end. -/
def Refuses (d : Reader ε α) (w : Bytes) : Prop :=
  ∀ p q, p ++ q = w → q ≠ [] → ∃ e, d p = .error e

theorem Refuses.nil (d : Reader ε α) : Refuses d [] := by
  intro p q h hq
  exact absurd (List.append_eq_nil_iff.mp h).2 hq

/-- An input that stops in the first field is refused by its reader, a longer one by the rest. -/
theorem Refuses.bind {d : Reader ε α} {f : α → Reader ε β} {w₁ w₂ : Bytes} {a : α}
    (hshort : Refuses d w₁) (hd : Reads d w₁ a) (hf : Refuses (f a) w₂) :
    Refuses (d >>= f) (w₁ ++ w₂) := by
  intro p q h hq
  rcases List.append_eq_append_iff.mp h with ⟨u, rfl, rfl⟩ | ⟨u, rfl, rfl⟩
  · by_cases hu : u = []
    · subst hu
      -- all of the first field is there and nothing of the rest
      rw [List.append_nil] at hd
      obtain ⟨e, he⟩ := hf [] _ rfl hq
      exact ⟨e, by rw [bind_of_ok hd.all]; exact he⟩
    · obtain ⟨e, he⟩ := hshort p u rfl hu
      exact ⟨e, bind_of_error he⟩
  · obtain ⟨e, he⟩ := hf u q rfl hq
    exact ⟨e, by rw [bind_of_ok (hd u)]; exact he⟩

theorem refuses_take {w : Bytes} {n : Nat} {short : Nat → ε} (h : w.length = n) :
    Refuses (take n short) w := by
  rintro p q rfl hq
  have hlen : 0 < q.length := List.length_pos_iff.mpr hq
  rw [List.length_append] at h
  unfold take
  rw [if_pos (by omega)]
  exact ⟨_, rfl⟩

end Reader

/-! ## Predicted lengths

The rules add up the lengths of the steps. -/

/-- A writer that finishes has appended `n` bytes. -/
def Sized (x : Output ε Unit) (n : Nat) : Prop := ∀ w, Wrote x w → w.length = n

namespace Sized

variable {x y : Output ε Unit} {n m : Nat}

theorem pure : Sized (Pure.pure () : Output ε Unit) 0 := by
  intro w h
  rw [wrote_pure.mp h]
  rfl

theorem put {w : Bytes} (h : w.length = n) : Sized (Output.put w : Output ε Unit) n := by
  intro v hv
  rw [wrote_put.mp hv, h]

theorem fail {e : ε} : Sized (Output.fail e : Output ε Unit) n :=
  fun _ h => absurd h not_wrote_fail

theorem bind (hx : Sized x n) (hy : Sized y m) : Sized (x >>= fun _ => y) (n + m) := by
  intro w h
  obtain ⟨w₁, w₂, h₁, h₂, rfl⟩ := wrote_bind.mp h
  rw [List.length_append, hx w₁ h₁, hy w₂ h₂]

theorem len (hx : Sized x n) (h : n = m) : Sized x m := h ▸ hx

theorem ite {c : Prop} [Decidable c] (hx : Sized x n) (hy : Sized y m) :
    Sized (if c then x else y) (if c then n else m) := by
  split
  · exact hx
  · exact hy

/-- The elements of an array, one after another. -/
theorem each {γ : Type} {wr : γ → Output ε Unit} {len : γ → Nat} :
    ∀ {cs : List γ}, (∀ c ∈ cs, Sized (wr c) (len c)) → Sized (Output.each wr cs) (cs.map len).sum := by
  intro cs
  induction cs with
  | nil =>
      intro _
      exact Sized.pure
  | cons c cs ih =>
      intro h
      exact (h c List.mem_cons_self).bind (ih fun c' hc' => h c' (List.mem_cons_of_mem c hc'))

end Sized

/-! ## Exact codecs

The rules for values, sequences and arrays, with a check in front. -/

/-- The writer, the predicted length and the reader agree on a value. -/
def Exact (x : Output ε Unit) (n : Nat) (d : Reader ε α) (a : α) : Prop :=
  ∃ w, Wrote x w ∧ w.length = n ∧ Reads d w a ∧ Refuses d w

namespace Exact

variable {x y : Output ε Unit} {n m : Nat} {d : Reader ε α} {f : α → Reader ε β} {a : α} {b : β}

theorem pure (a : α) : Exact (Pure.pure () : Output ε Unit) 0 (Pure.pure a) a :=
  ⟨[], wrote_pure.mpr rfl, rfl, Reads.pure a, Refuses.nil _⟩

/-- One field after another. -/
theorem bind (hx : Exact x n d a) (hy : Exact y m (f a) b) :
    Exact (x >>= fun _ => y) (n + m) (d >>= f) b := by
  obtain ⟨w₁, h₁, rfl, hd, hshort⟩ := hx
  obtain ⟨w₂, h₂, rfl, hf, hrest⟩ := hy
  exact ⟨w₁ ++ w₂, wrote_bind.mpr ⟨w₁, w₂, h₁, h₂, rfl⟩, List.length_append, hd.bind hf,
    hshort.bind hd hrest⟩

/-- A field whose value is judged after it is read. -/
theorem bind_nil (hx : Exact x n d a) (hf : Reads (f a) [] b) : Exact x n (d >>= f) b := by
  obtain ⟨w, h, hlen, hd, hshort⟩ := hx
  refine ⟨w, h, hlen, hd.bind_nil hf, ?_⟩
  have hrest : Refuses (d >>= f) (w ++ []) := hshort.bind hd (Refuses.nil _)
  rwa [List.append_nil] at hrest

/-- The last field, whose value is repackaged. -/
theorem map (g : α → β) (hx : Exact x n d a) :
    Exact x n (d >>= fun v => Pure.pure (g v)) (g a) :=
  hx.bind_nil (Reads.pure (g a))

theorem len (hx : Exact x n d a) (h : n = m) : Exact x m d a := h ▸ hx

theorem put_of_reads {w : Bytes} (h : w.length = n) (hd : Reads d w a) (hshort : Refuses d w) :
    Exact (put w) n d a :=
  ⟨w, wrote_put.mpr rfl, h, hd, hshort⟩

theorem take {w : Bytes} {short : Nat → ε} (h : w.length = n) :
    Exact (put w) n (Reader.take n short) w :=
  put_of_reads h (Reads.take h) (refuses_take h)

/-- The elements of an array, one after another. -/
theorem each {γ : Type} {wr : γ → Output ε Unit} {len : γ → Nat} {g : γ → α} {d : Nat → Reader ε α}
    {cs : List γ} (h : ∀ c ∈ cs, ∀ i, Exact (wr c) (len c) (d i) (g c)) (i : Nat) :
    Exact (Output.each wr cs) (cs.map len).sum (times d cs.length i) (cs.map g) := by
  induction cs generalizing i with
  | nil => exact Exact.pure []
  | cons c cs ih =>
      have hrest := ih (fun c' hc' => h c' (List.mem_cons_of_mem c hc')) (i + 1)
      exact (h c List.mem_cons_self i).bind (hrest.map (g c :: ·))

/-- A count that is checked against what is left of the input: the field takes that much of it. -/
theorem checked {c : Nat} {e : ε} (hx : Exact x n d a) (hle : c ≤ n) :
    Exact x n (remaining >>= fun left => if c > left then throw e else d) a := by
  obtain ⟨w, h, rfl, hd, hshort⟩ := hx
  refine ⟨w, h, rfl, fun rest => ?_, fun p q hpq hq => ?_⟩
  · rw [bind_of_ok (show remaining _ = _ from rfl), if_neg (by rw [List.length_append]; omega)]
    exact hd rest
  · rw [bind_of_ok (show remaining p = _ from rfl)]
    split
    · exact ⟨e, rfl⟩
    · exact hshort p q hpq hq

end Exact

end ByteStream

/-! ## Varints

A varint is refused at every proper prefix, since its last group alone has no mark. -/

namespace WireInt

open ByteStream Reader

variable {ε : Type} {w : Nat}

/-- Every byte of a varint before its last asks for more. -/
theorem refuses_putGroups (eof tooLong : ε) :
    ∀ (n fuel shift : Nat) (acc v : BitVec w),
      Refuses (getGroups eof tooLong n shift acc) (putGroups fuel v) := by
  intro n
  induction n with
  | zero =>
      intro fuel shift acc v p q _ _
      exact ⟨tooLong, rfl⟩
  | succ n ih =>
      intro fuel shift acc v p q h hq
      cases p with
      | nil => exact ⟨eof, rfl⟩
      | cons b p =>
          have hlast : putGroups fuel v = [lowByte v] → ∃ e,
              getGroups eof tooLong (n + 1) shift acc (b :: p) = .error e := by
            intro hone
            rw [hone, List.cons_append, List.cons.injEq] at h
            exact absurd (List.append_eq_nil_iff.mp h.2).2 hq
          cases fuel with
          | zero => exact hlast rfl
          | succ fuel =>
              rw [putGroups_succ] at h hlast
              by_cases hv : v.toNat < 128
              · rw [if_pos hv] at h hlast
                exact hlast rfl
              · rw [if_neg hv, List.cons_append, List.cons.injEq] at h
                obtain ⟨rfl, h⟩ := h
                rw [getGroups, bind_of_ok rfl]
                simp only [or_top_continues, if_false]
                exact ih fuel (shift + 7) _ (v >>> 7) p q h hq

/-- The position of the highest set bit does not depend on the width. -/
theorem sub_clz {v : BitVec w} (h : v.toNat ≠ 0) : w - v.clz.toNat = v.toNat.log2 + 1 := by
  have hw : 0 < w := by
    by_contra h0
    have : w = 0 := by omega
    subst this
    exact h (BitVec.toNat_of_zero_length rfl v)
  have hv : v ≠ 0#w := fun hz => h (by rw [hz]; rfl)
  have hup := Nat.log2_lt h |>.mpr (BitVec.toNat_lt_two_pow_sub_clz (x := v))
  have hlow := Nat.le_log2 h |>.mpr (BitVec.two_pow_sub_clz_le_toNat_of_ne_zero hw hv)
  omega

/-- A number takes as many groups in any width that holds it. -/
theorem varintLen_congr {w' : Nat} {v : BitVec w} {v' : BitVec w'} (h : v.toNat = v'.toNat) :
    varintLen v = varintLen v' := by
  unfold varintLen
  rw [h]
  split
  · rfl
  · rename_i hbig
    rw [sub_clz (by omega), sub_clz (by omega), h]

theorem exact_putVarint (eof tooLong : ε) {max : Nat} (hmax : w ≤ 7 * max) (h0 : 0 < w)
    (v : BitVec w) :
    Exact (Output.put (putVarint v)) (varintLen v) (getVarint eof tooLong max) v :=
  Exact.put_of_reads (length_putVarint h0 v) (reads_putVarint eof tooLong hmax h0 v)
    (refuses_putGroups eof tooLong max w 0 0 v)

end WireInt
