import Mathlib.Data.List.Basic
import Mathlib.Data.List.Infix

/-!
# Copying one stream to another

A relay reads chunks from a source and writes each of them to a destination. Its history is a
list of events; `received` and `written` are the two streams. A relay `Copies` when at every
point of its history what was written is a prefix of what was received. A chunk that is not
written to its end leaves a gap, so that a relay keeps copying exactly as long as nothing is
written after the first such chunk (`Copies.chunk`).
-/

namespace WslFreeBSD.Lib

variable {α : Type*}

inductive RelayEvent (α : Type*) where
  | got (bytes : List α)
  | put (buf taken : List α)

namespace RelayEvent

def gotBytes : RelayEvent α → List α
  | got bytes => bytes
  | put _ _ => []

def putBytes : RelayEvent α → List α
  | got _ => []
  | put _ taken => taken

/-- A chunk of which the destination did not take everything. -/
def isShort [DecidableEq α] : RelayEvent α → Bool
  | got _ => false
  | put buf taken => taken ≠ buf

end RelayEvent

def received (h : List (RelayEvent α)) : List α := h.flatMap RelayEvent.gotBytes

def written (h : List (RelayEvent α)) : List α := h.flatMap RelayEvent.putBytes

theorem received_append (h h' : List (RelayEvent α)) :
    received (h ++ h') = received h ++ received h' := List.flatMap_append

theorem written_append (h h' : List (RelayEvent α)) :
    written (h ++ h') = written h ++ written h' := List.flatMap_append

variable [DecidableEq α]

/-- At every point the written bytes are a prefix of the received ones, and all of them unless
a chunk fell short. -/
structure Copies (h : List (RelayEvent α)) : Prop where
  at_every_point : ∀ p, p <+: h → written p <+: received p
  exact_unless_short : h.any RelayEvent.isShort = false → written h = received h

namespace Copies

variable {h : List (RelayEvent α)}

theorem nil : Copies ([] : List (RelayEvent α)) := by
  refine ⟨fun p hp => ?_, fun _ => rfl⟩
  rw [List.prefix_nil.mp hp]
  exact List.prefix_rfl

theorem append_empty (hc : Copies h) : Copies (h ++ [.got []]) := by
  have hw : written (h ++ [.got []]) = written h := by simp [written, RelayEvent.putBytes]
  have hr : received (h ++ [.got []]) = received h := by simp [received, RelayEvent.gotBytes]
  refine ⟨fun p hp => ?_, fun hs => ?_⟩
  · rcases List.prefix_concat_iff.mp hp with rfl | hp
    · rw [hw, hr]
      exact hc.at_every_point h List.prefix_rfl
    · exact hc.at_every_point p hp
  · rw [hw, hr]
    refine hc.exact_unless_short ?_
    rw [List.any_append, Bool.or_eq_false_iff] at hs
    exact hs.1

theorem chunk (hc : Copies h) {buf taken : List α} (ht : taken <+: buf)
    (hshort : h.any RelayEvent.isShort = true → taken = []) :
    Copies (h ++ [.got buf, .put buf taken]) := by
  have hr : received (h ++ [.got buf]) = received h ++ buf := by
    simp [received, RelayEvent.gotBytes]
  have hw : written (h ++ [.got buf]) = written h := by simp [written, RelayEvent.putBytes]
  have hr2 : received (h ++ [.got buf] ++ [.put buf taken]) = received h ++ buf := by
    rw [received_append, hr]
    simp [received, RelayEvent.gotBytes]
  have hw2 : written (h ++ [.got buf] ++ [.put buf taken]) = written h ++ taken := by
    rw [written_append, hw]
    simp [written, RelayEvent.putBytes]
  have hsplit : h ++ [.got buf, .put buf taken] = h ++ [.got buf] ++ [.put buf taken] := by simp
  have hall := hc.at_every_point h List.prefix_rfl
  rw [hsplit]
  refine ⟨fun p hp => ?_, fun hs => ?_⟩
  · rcases List.prefix_concat_iff.mp hp with rfl | hp
    · rw [hr2, hw2]
      cases hany : h.any RelayEvent.isShort with
      | true =>
        rw [hshort hany, List.append_nil]
        exact hall.trans (List.prefix_append _ _)
      | false =>
        rw [hc.exact_unless_short hany]
        exact (List.prefix_append_right_inj _).mpr ht
    · rcases List.prefix_concat_iff.mp hp with rfl | hp
      · rw [hr, hw]
        exact hall.trans (List.prefix_append _ _)
      · exact hc.at_every_point p hp
  · simp only [List.any_append, Bool.or_eq_false_iff] at hs
    have htaken : taken = buf := by simpa [RelayEvent.isShort] using hs.2
    rw [hr2, hw2, hc.exact_unless_short hs.1.1, htaken]

end Copies

end WslFreeBSD.Lib
