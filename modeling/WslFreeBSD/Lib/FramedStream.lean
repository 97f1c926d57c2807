import WslFreeBSD.Lib.Framing

/-!
# Frames on a stream, in pieces

A sender gives frames to a stream, a reader takes them off it, and both do so in pieces of any size.
`Carried sent read part tail` says that the stream holds together: behind the frames that have been read
comes the part of the next one that the reader already has, and then `tail`, which is everything else (on the
way, still to be written, or lost). It is kept by sending a frame, by taking a piece and by finishing a frame
(`send`, `take`, `frame`); whatever has been read is then a beginning of what was sent
(`read_begins`), and the header of what the reader has is one that was sent (`size_le`).
-/

namespace WslFreeBSD.Lib

variable {α : Type*}

namespace FrameFormat

structure Carried (F : FrameFormat α) (sent read : List (List α)) (part tail : List α) : Prop where
  sent_wellFormed : ∀ m ∈ sent, F.WellFormed m
  read_wellFormed : ∀ m ∈ read, F.WellFormed m
  flatten_eq : read.flatten ++ (part ++ tail) = sent.flatten

namespace Carried

variable {F : FrameFormat α} {sent read : List (List α)} {part tail : List α}

theorem nil (F : FrameFormat α) : F.Carried [] [] [] [] where
  sent_wellFormed _ hm := absurd hm List.not_mem_nil
  read_wellFormed _ hm := absurd hm List.not_mem_nil
  flatten_eq := rfl

theorem send (h : F.Carried sent read part tail) {m : List α} (hm : F.WellFormed m) :
    F.Carried (sent ++ [m]) read part (tail ++ m) where
  sent_wellFormed x hx := by
    rcases List.mem_append.mp hx with hx | hx
    · exact h.sent_wellFormed x hx
    · rwa [List.mem_singleton.mp hx]
  read_wellFormed := h.read_wellFormed
  flatten_eq := by
    rw [List.flatten_append, ← h.flatten_eq, List.flatten_singleton]
    simp only [List.append_assoc]

theorem take {piece tail : List α} (h : F.Carried sent read part (piece ++ tail)) :
    F.Carried sent read (part ++ piece) tail where
  sent_wellFormed := h.sent_wellFormed
  read_wellFormed := h.read_wellFormed
  flatten_eq := by
    rw [List.append_assoc]
    exact h.flatten_eq

theorem frame (h : F.Carried sent read part tail) (hpart : F.WellFormed part) :
    F.Carried sent (read ++ [part]) [] tail where
  sent_wellFormed := h.sent_wellFormed
  read_wellFormed m hm := by
    rcases List.mem_append.mp hm with hm | hm
    · exact h.read_wellFormed m hm
    · rwa [List.mem_singleton.mp hm]
  flatten_eq := by
    rw [List.flatten_append, List.flatten_singleton, List.nil_append, List.append_assoc]
    exact h.flatten_eq

theorem giveUp (h : F.Carried sent read part tail) : F.Carried sent read [] (part ++ tail) where
  sent_wellFormed := h.sent_wellFormed
  read_wellFormed := h.read_wellFormed
  flatten_eq := h.flatten_eq

theorem sent_eq (h : F.Carried sent read part tail) : sent = read ++ F.decode (part ++ tail) := by
  rw [← decode_flatten_append h.read_wellFormed, h.flatten_eq, decode_flatten h.sent_wellFormed]

theorem read_begins (h : F.Carried sent read part tail) : read <+: sent :=
  ⟨_, h.sent_eq.symm⟩

theorem rest_eq (h : F.Carried sent read part tail) : part ++ tail = (F.decode (part ++ tail)).flatten := by
  have hflat := h.flatten_eq
  rw [h.sent_eq, List.flatten_append] at hflat
  exact List.append_cancel_left hflat

theorem exists_frame (h : F.Carried sent read part tail) (hpart : F.headerLen ≤ part.length) :
    ∃ m rest, F.WellFormed m ∧ part ++ tail = m ++ rest := by
  obtain ⟨m, rest, hm, hrest⟩ := exists_next_frame h.sent_wellFormed h.read_wellFormed h.flatten_eq hpart
  exact ⟨m, rest, h.sent_wellFormed m hm, hrest⟩

theorem size_le (h : F.Carried sent read part tail) (hpart : F.headerLen ≤ part.length) :
    F.headerLen ≤ F.sizeOf part ∧ F.sizeOf part ≤ (part ++ tail).length := by
  obtain ⟨m, rest, hm, hrest⟩ := h.exists_frame hpart
  have hsize : F.sizeOf part = m.length := by
    rw [← F.sizeOf_append part tail hpart, hrest, F.sizeOf_append m rest hm.1]
    exact hm.2
  refine ⟨hsize ▸ hm.1, ?_⟩
  rw [hsize, hrest, List.length_append]
  exact Nat.le_add_right _ _

theorem rest_nil_iff (h : F.Carried sent read part tail) : part ++ tail = [] ↔ sent = read := by
  constructor
  · intro hnil
    have hsent := h.sent_eq
    rwa [hnil, show F.decode ([] : List α) = [] from decode_flatten (fun _ hm => absurd hm List.not_mem_nil),
      List.append_nil] at hsent
  · intro hsent
    have hflat := h.flatten_eq
    rw [hsent] at hflat
    exact List.append_cancel_left (hflat.trans (List.append_nil _).symm)

theorem header_le (h : F.Carried sent read part tail) (hne : part ++ tail ≠ []) :
    F.headerLen ≤ (part ++ tail).length := by
  have hrest := h.rest_eq
  cases hd : F.decode (part ++ tail) with
  | nil =>
    rw [hd] at hrest
    exact absurd hrest hne
  | cons m ms =>
    have hm : m ∈ sent := by
      rw [h.sent_eq, hd]
      simp
    rw [hd, List.flatten_cons] at hrest
    rw [hrest, List.length_append]
    exact Nat.le_trans (h.sent_wellFormed m hm).1 (Nat.le_add_right _ _)

end Carried

end FrameFormat

end WslFreeBSD.Lib
