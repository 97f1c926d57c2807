import Mathlib.Data.List.Basic
import Mathlib.Data.List.Infix

/-!
# Length-delimited frames in a stream

A frame format has a header of fixed positive length from which the size of the whole frame
can be read. A frame is well formed when it is at least as long as its header and its length
is the size its header announces. `next?` splits the first frame off a stream, `decode`
splits off frames as long as possible.

The characterisation `next?_eq_some_iff` says everything about one step; from it follow that
the decoding of a concatenation of well-formed frames is these frames
(`decode_flatten_append`) and that it is the only one (`decode_unique`).
-/

namespace WslFreeBSD.Lib

variable {α : Type*}

/-- A header length and the frame size as a function of the header. -/
structure FrameFormat (α : Type*) where
  headerLen : Nat
  sizeOf : List α → Nat
  header_pos : 0 < headerLen
  sizeOf_append : ∀ l l' : List α, headerLen ≤ l.length → sizeOf (l ++ l') = sizeOf l

namespace FrameFormat

variable (F : FrameFormat α)

def WellFormed (m : List α) : Prop := F.headerLen ≤ m.length ∧ F.sizeOf m = m.length

instance (m : List α) : Decidable (F.WellFormed m) :=
  inferInstanceAs (Decidable (_ ∧ _))

/-- The first frame of a stream and what follows it, if the frame is complete. -/
def next? (l : List α) : Option (List α × List α) :=
  if F.headerLen ≤ l.length ∧ F.headerLen ≤ F.sizeOf l ∧ F.sizeOf l ≤ l.length then
    some (l.take (F.sizeOf l), l.drop (F.sizeOf l))
  else none

def decodeAux : Nat → List α → List (List α)
  | 0, _ => []
  | k + 1, l =>
    match F.next? l with
    | none => []
    | some (m, r) => m :: decodeAux k r

/-- The complete frames at the start of a stream, in order. -/
def decode (l : List α) : List (List α) := F.decodeAux l.length l

variable {F}

theorem WellFormed.ne_nil {m : List α} (h : F.WellFormed m) : m ≠ [] := by
  have := F.header_pos
  intro hm
  subst hm
  have := h.1
  simp only [List.length_nil] at this
  omega

theorem WellFormed.sizeOf_take {m : List α} (h : F.WellFormed m) :
    F.sizeOf (m.take F.headerLen) = m.length := by
  have hsize := F.sizeOf_append (m.take F.headerLen) (m.drop F.headerLen)
    (by rw [List.length_take, Nat.min_eq_left h.1])
  rw [List.take_append_drop] at hsize
  exact hsize.symm.trans h.2

theorem next?_eq_some_iff {l m r : List α} :
    F.next? l = some (m, r) ↔ F.WellFormed m ∧ l = m ++ r := by
  unfold next?
  constructor
  · intro h
    split at h
    · rename_i hc
      simp only [Option.some.injEq, Prod.mk.injEq] at h
      obtain ⟨rfl, rfl⟩ := h
      have hlen : (l.take (F.sizeOf l)).length = F.sizeOf l := by simp; omega
      have hsize := F.sizeOf_append (l.take (F.sizeOf l)) (l.drop (F.sizeOf l)) (by omega)
      rw [List.take_append_drop] at hsize
      exact ⟨⟨by omega, by omega⟩, (List.take_append_drop _ _).symm⟩
    · cases h
  · rintro ⟨⟨hh, hs⟩, rfl⟩
    have hsize := F.sizeOf_append m r hh
    rw [if_pos (by simp only [List.length_append]; omega), hsize, hs, List.take_left,
      List.drop_left]

theorem next?_length {l m r : List α} (h : F.next? l = some (m, r)) : r.length < l.length := by
  obtain ⟨hm, rfl⟩ := next?_eq_some_iff.mp h
  have := List.length_pos_iff.mpr hm.ne_nil
  simp only [List.length_append]
  omega

theorem decodeAux_mono {k k' : Nat} {l : List α} (hk : l.length ≤ k) (hk' : l.length ≤ k') :
    F.decodeAux k l = F.decodeAux k' l := by
  induction k generalizing k' l with
  | zero =>
    have hl : l = [] := List.length_eq_zero_iff.mp (by omega)
    have hn : F.next? ([] : List α) = none := by
      rw [Option.eq_none_iff_forall_ne_some]
      intro p hp
      have := next?_length hp
      simp at this
    subst hl
    cases k' with
    | zero => rfl
    | succ k' => simp [decodeAux, hn]
  | succ k ih =>
    cases hn : F.next? l with
    | none => cases k' <;> simp [decodeAux, hn]
    | some p =>
      obtain ⟨m, r⟩ := p
      have hlt := next?_length hn
      cases k' with
      | zero => omega
      | succ k' =>
        have hr : F.decodeAux k r = F.decodeAux k' r := ih (by omega) (by omega)
        simp only [decodeAux, hn, hr]

theorem decode_of_none {l : List α} (h : F.next? l = none) : F.decode l = [] := by
  unfold decode
  cases hl : l.length with
  | zero => rfl
  | succ n => simp [decodeAux, h]

theorem decode_of_some {l m r : List α} (h : F.next? l = some (m, r)) :
    F.decode l = m :: F.decode r := by
  have hlt := next?_length h
  unfold decode
  cases hl : l.length with
  | zero => omega
  | succ n => simp only [decodeAux, h, decodeAux_mono (l := r) (k := n) (by omega) le_rfl]

theorem decode_flatten_append {ms : List (List α)} (h : ∀ m ∈ ms, F.WellFormed m) (r : List α) :
    F.decode (ms.flatten ++ r) = ms ++ F.decode r := by
  induction ms with
  | nil => rfl
  | cons m ms ih =>
    have hn : F.next? ((m :: ms).flatten ++ r) = some (m, ms.flatten ++ r) :=
      next?_eq_some_iff.mpr ⟨h m List.mem_cons_self, by simp⟩
    rw [decode_of_some hn, ih fun x hx => h x (List.mem_cons_of_mem _ hx), List.cons_append]

theorem decode_unique {l r : List α} {ms : List (List α)} (h : ∀ m ∈ ms, F.WellFormed m)
    (hl : l = ms.flatten ++ r) (hr : F.next? r = none) : F.decode l = ms := by
  rw [hl, decode_flatten_append h, decode_of_none hr, List.append_nil]

theorem decode_flatten {ms : List (List α)} (h : ∀ m ∈ ms, F.WellFormed m) :
    F.decode ms.flatten = ms := by
  have hnil : F.next? ([] : List α) = none := by
    rw [Option.eq_none_iff_forall_ne_some]
    intro p hp
    have := next?_length hp
    simp at this
  exact decode_unique h (List.append_nil _).symm hnil

/-- A stream of frames after some of its frames: if a whole header of what follows is there, it
is the header of the next frame. -/
theorem exists_next_frame {ms hs : List (List α)} {x y : List α} (hms : ∀ m ∈ ms, F.WellFormed m)
    (hhs : ∀ m ∈ hs, F.WellFormed m) (heq : hs.flatten ++ (x ++ y) = ms.flatten)
    (hx : F.headerLen ≤ x.length) : ∃ m rest, m ∈ ms ∧ x ++ y = m ++ rest := by
  have hdec : ms = hs ++ F.decode (x ++ y) := by
    rw [← decode_flatten_append hhs, heq, decode_flatten hms]
  have hxy : x ++ y = (F.decode (x ++ y)).flatten := by
    have hflat := heq
    rw [hdec, List.flatten_append] at hflat
    exact List.append_cancel_left hflat
  cases hd : F.decode (x ++ y) with
  | nil =>
    rw [hd] at hxy
    have hpos := F.header_pos
    have hlen := congrArg List.length hxy
    simp only [List.length_append, List.flatten_nil, List.length_nil] at hlen
    omega
  | cons m rest =>
    refine ⟨m, rest.flatten, ?_, ?_⟩
    · rw [hdec, hd]
      simp
    · rw [hd] at hxy
      exact hxy

end FrameFormat

end WslFreeBSD.Lib
