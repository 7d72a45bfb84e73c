import Krabka.Lib.ByteStream

/-!
# `Lib.Framing` — a byte stream that is a sequence of frames

A frame is a header of fixed length and a body whose length the header states. `frames bs` are the frames
that stand whole at the front of `bs`. A header that states no length ends the sequence, and so does a
frame of which only a part has arrived. What arrives later adds frames at the end and changes none
(`frames_isPrefix`), and the frames that were written come back (`frames_wire_append`).
-/

namespace ByteStream

/-- How long a header is, and the body length a header states. -/
structure Framing where
  headerLen : Nat
  size : Bytes → Option Nat
  headerLen_pos : 0 < headerLen

structure Frame where
  header : Bytes
  body : Bytes
  deriving DecidableEq, Repr

def Frame.wire (f : Frame) : Bytes := f.header ++ f.body

def wire (fs : List Frame) : Bytes := fs.flatMap Frame.wire

@[simp] theorem wire_nil : wire [] = [] := rfl

@[simp] theorem wire_cons (f : Frame) (fs : List Frame) : wire (f :: fs) = f.wire ++ wire fs := rfl

@[simp] theorem wire_append (fs gs : List Frame) : wire (fs ++ gs) = wire fs ++ wire gs :=
  List.flatMap_append

namespace Framing

variable (F : Framing)

/-- The header is whole and states the length of the body. -/
structure Sound (f : Frame) : Prop where
  header : f.header.length = F.headerLen
  body : F.size f.header = some f.body.length

/-- The frame at the front, and what stands behind it. -/
def cut (bs : Bytes) : Option (Frame × Bytes) :=
  if bs.length < F.headerLen then none
  else
    match F.size (bs.take F.headerLen) with
    | none => none
    | some n =>
        let rest := bs.drop F.headerLen
        if rest.length < n then none else some (⟨bs.take F.headerLen, rest.take n⟩, rest.drop n)

def framesUpTo : Nat → Bytes → List Frame
  | 0, _ => []
  | fuel + 1, bs =>
      match F.cut bs with
      | none => []
      | some (f, rest) => f :: framesUpTo fuel rest

def frames (bs : Bytes) : List Frame := F.framesUpTo bs.length bs

variable {F}

theorem cut_eq_some_iff {bs rest : Bytes} {f : Frame} :
    F.cut bs = some (f, rest) ↔ F.Sound f ∧ bs = f.wire ++ rest := by
  constructor
  · intro h
    unfold cut at h
    split at h
    · cases h
    · rename_i hheader
      split at h
      · cases h
      · rename_i n hsize
        simp only at h
        split at h
        · cases h
        · rename_i hbody
          cases h
          refine ⟨⟨by rw [List.length_take]; omega, ?_⟩, ?_⟩
          · show F.size _ = _
            rw [hsize, List.length_take, Nat.min_eq_left (by omega)]
          · show bs = _ ++ _ ++ _
            rw [List.append_assoc, List.take_append_drop, List.take_append_drop]
  · rintro ⟨⟨hheader, hbody⟩, rfl⟩
    have htake : (f.wire ++ rest).take F.headerLen = f.header := by
      rw [Frame.wire, List.append_assoc, List.take_left' hheader]
    have hdrop : (f.wire ++ rest).drop F.headerLen = f.body ++ rest := by
      rw [Frame.wire, List.append_assoc, List.drop_left' hheader]
    unfold cut
    rw [if_neg (by simp [Frame.wire, hheader]), htake]
    simp only [hbody, hdrop]
    rw [if_neg (by simp), List.take_left, List.drop_left]

theorem Sound.wire_length_pos {f : Frame} (h : F.Sound f) : 0 < f.wire.length := by
  rw [Frame.wire, List.length_append, h.header]
  have := F.headerLen_pos
  omega

theorem cut_of_short {bs : Bytes} (h : bs.length < F.headerLen) : F.cut bs = none := by
  rw [cut, if_pos h]

/-- Any fuel from the number of bytes on gives the same frames: each takes at least one byte. -/
theorem framesUpTo_congr {fuel fuel' : Nat} {bs : Bytes} (h : bs.length ≤ fuel) (h' : bs.length ≤ fuel') :
    F.framesUpTo fuel bs = F.framesUpTo fuel' bs := by
  have hnil : F.cut [] = none := cut_of_short F.headerLen_pos
  induction fuel generalizing fuel' bs with
  | zero =>
      obtain rfl := List.eq_nil_of_length_eq_zero (Nat.le_zero.mp h)
      cases fuel' with
      | zero => rfl
      | succ fuel' => simp only [framesUpTo, hnil]
  | succ fuel ih =>
      cases fuel' with
      | zero =>
          obtain rfl := List.eq_nil_of_length_eq_zero (Nat.le_zero.mp h')
          simp only [framesUpTo, hnil]
      | succ fuel' =>
          cases hcut : F.cut bs with
          | none => simp only [framesUpTo, hcut]
          | some p =>
              obtain ⟨f, rest⟩ := p
              obtain ⟨hf, hbs⟩ := cut_eq_some_iff.mp hcut
              have hpos := hf.wire_length_pos
              have hlen := congrArg List.length hbs
              rw [List.length_append] at hlen
              have hrest : F.framesUpTo fuel rest = F.framesUpTo fuel' rest := ih (by omega) (by omega)
              simp only [framesUpTo, hcut, hrest]

theorem frames_of_cut {bs rest : Bytes} {f : Frame} (h : F.cut bs = some (f, rest)) :
    F.frames bs = f :: F.frames rest := by
  obtain ⟨hf, hbs⟩ := cut_eq_some_iff.mp h
  have hpos := hf.wire_length_pos
  have hlen := congrArg List.length hbs
  rw [List.length_append] at hlen
  rw [frames, framesUpTo_congr (Nat.le_refl _) (Nat.le_succ bs.length)]
  simp only [framesUpTo, h]
  rw [frames, framesUpTo_congr (by omega) (Nat.le_refl _)]

theorem frames_of_cut_none {bs : Bytes} (h : F.cut bs = none) : F.frames bs = [] := by
  rw [frames, framesUpTo_congr (Nat.le_refl _) (Nat.le_succ bs.length)]
  simp only [framesUpTo, h]

@[simp] theorem frames_nil : F.frames [] = [] := frames_of_cut_none (cut_of_short F.headerLen_pos)

/-- Frames that were written come back, in front of anything. -/
theorem frames_wire_append {fs : List Frame} (h : ∀ f ∈ fs, F.Sound f) (rest : Bytes) :
    F.frames (wire fs ++ rest) = fs ++ F.frames rest := by
  induction fs with
  | nil => rfl
  | cons f fs ih =>
      have hcut : F.cut (wire (f :: fs) ++ rest) = some (f, wire fs ++ rest) :=
        cut_eq_some_iff.mpr ⟨h f List.mem_cons_self, by rw [wire_cons, List.append_assoc]⟩
      rw [frames_of_cut hcut, ih fun g hg => h g (List.mem_cons_of_mem f hg), List.cons_append]

theorem frames_wire {f : Frame} (h : F.Sound f) : F.frames f.wire = [f] := by
  have hone := @frames_wire_append F [f] (fun g hg => by rw [List.mem_singleton.mp hg]; exact h) []
  rwa [wire_cons, wire_nil, List.append_nil, List.append_nil, frames_nil] at hone

/-- A byte string is its frames and an end that no frame starts. -/
theorem exists_rest (bs : Bytes) :
    ∃ rest, bs = wire (F.frames bs) ++ rest ∧ F.cut rest = none ∧ ∀ f ∈ F.frames bs, F.Sound f := by
  induction hn : bs.length using Nat.strong_induction_on generalizing bs with
  | _ n ih =>
      cases hcut : F.cut bs with
      | none =>
          rw [frames_of_cut_none hcut]
          exact ⟨bs, rfl, hcut, fun f hf => absurd hf List.not_mem_nil⟩
      | some p =>
          obtain ⟨f, next⟩ := p
          obtain ⟨hf, hbs⟩ := cut_eq_some_iff.mp hcut
          have hpos := hf.wire_length_pos
          have hlen := congrArg List.length hbs
          rw [List.length_append] at hlen
          obtain ⟨rest, hrest, hnone, hsound⟩ := ih next.length (by omega) next rfl
          rw [frames_of_cut hcut]
          refine ⟨rest, ?_, hnone, ?_⟩
          · rw [wire_cons, List.append_assoc, ← hrest]
            exact hbs
          · intro g hg
            rcases List.mem_cons.mp hg with rfl | hg
            · exact hf
            · exact hsound g hg

theorem headerLen_mul_length_frames_le (bs : Bytes) : F.headerLen * (F.frames bs).length ≤ bs.length := by
  obtain ⟨rest, hbs, -, hsound⟩ := F.exists_rest bs
  have hwire : ∀ fs : List Frame, (∀ f ∈ fs, F.Sound f) → F.headerLen * fs.length ≤ (wire fs).length := by
    intro fs hfs
    induction fs with
    | nil => exact Nat.le_refl 0
    | cons f fs ih =>
        have hrest := ih fun g hg => hfs g (List.mem_cons_of_mem f hg)
        have hheader := (hfs f List.mem_cons_self).header
        rw [List.length_cons, wire_cons, Frame.wire, List.length_append, List.length_append, Nat.mul_succ]
        omega
  have hle := hwire _ hsound
  have hlen := congrArg List.length hbs
  rw [List.length_append] at hlen
  omega

/-- What arrives later adds frames at the end and changes none. -/
theorem frames_isPrefix (bs more : Bytes) : F.frames bs <+: F.frames (bs ++ more) := by
  obtain ⟨rest, hbs, -, hsound⟩ := F.exists_rest bs
  refine ⟨F.frames (rest ++ more), ?_⟩
  rw [← frames_wire_append hsound, ← List.append_assoc, ← hbs]

theorem frames_isPrefix_of_isPrefix {bs bs' : Bytes} (h : bs <+: bs') : F.frames bs <+: F.frames bs' := by
  obtain ⟨more, rfl⟩ := h
  exact frames_isPrefix bs more

/-- A header that states no length ends the sequence for good. -/
theorem cut_of_size_none {header : Bytes} (hlen : header.length = F.headerLen) (h : F.size header = none)
    (more : Bytes) : F.cut (header ++ more) = none := by
  have htake : (header ++ more).take F.headerLen = header := List.take_left' hlen
  unfold cut
  rw [if_neg (by simp [hlen]), htake]
  simp only [h]

theorem cut_of_body_short {header part : Bytes} {n : Nat} (hlen : header.length = F.headerLen)
    (h : F.size header = some n) (hpart : part.length < n) : F.cut (header ++ part) = none := by
  have htake : (header ++ part).take F.headerLen = header := List.take_left' hlen
  have hdrop : (header ++ part).drop F.headerLen = part := List.drop_left' hlen
  unfold cut
  rw [if_neg (by simp [hlen]), htake]
  simp only [h, hdrop, if_pos hpart]

end Framing

end ByteStream
