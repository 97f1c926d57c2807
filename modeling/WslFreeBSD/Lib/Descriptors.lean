import Mathlib.Data.Finset.Image
import Mathlib.Data.Finset.Lattice.Basic
import Mathlib.Data.Finset.Lattice.Fold
import Mathlib.Order.Lattice.Nat

/-!
# Descriptors that are opened and closed

A program keeps the numbers of its descriptors in variables. The kernel gives a new descriptor
a number that is not in use; nothing else is known about it, so a number that was closed can
come back. `FdTable.calls` replays the calls on the numbers.

`owned` follows the same calls on the variables alone and fails when a descriptor is lost (its
variable is overwritten) or closed twice. While it does not fail, the descriptors in use are
those from before and one for each variable it lists (`Owns.calls`), so that a piece of code
leaves the descriptors as it found them exactly if no variable is left over (`Owns.used_eq_iff`).
-/

namespace WslFreeBSD.Lib

/-- A call that opens a descriptor into a variable, or closes the one whose number is there. -/
inductive FdCall (η : Type*) where
  | opens (v : η)
  | closes (v : η)
  deriving DecidableEq, Repr

/-- How the numbers of new descriptors are chosen. -/
structure Numbering where
  pick : Finset Nat → Nat
  fresh : ∀ used, pick used ∉ used

theorem succ_sup_not_mem (used : Finset Nat) : used.sup id + 1 ∉ used :=
  fun h => absurd (Finset.le_sup (f := id) h) (Nat.not_succ_le_self _)

/-- The number behind the greatest that is in use. -/
def Numbering.next : Numbering := ⟨fun used => used.sup id + 1, succ_sup_not_mem⟩

/-- The descriptors in use and the variables of the program. -/
structure FdTable (η : Type*) where
  used : Finset Nat
  var : η → Nat

variable {η : Type*}

section Calls

variable [DecidableEq η]

def FdTable.call (k : Numbering) (t : FdTable η) : FdCall η → FdTable η
  | .opens v =>
    { used := insert (k.pick t.used) t.used
      var := Function.update t.var v (k.pick t.used) }
  | .closes v => { t with used := t.used.erase (t.var v) }

def FdTable.calls (k : Numbering) (t : FdTable η) (cs : List (FdCall η)) : FdTable η :=
  cs.foldl (FdTable.call k) t

/-- The variables that hold an open descriptor after the calls. -/
def owned : Finset η → List (FdCall η) → Option (Finset η)
  | held, [] => some held
  | held, .opens v :: cs => if v ∈ held then none else owned (insert v held) cs
  | held, .closes v :: cs => if v ∈ held then owned (held.erase v) cs else none

theorem owned_append (held : Finset η) (cs cs' : List (FdCall η)) :
    owned held (cs ++ cs') = (owned held cs).bind fun held' => owned held' cs' := by
  induction cs generalizing held with
  | nil => rfl
  | cons c cs ih =>
    cases c with
    | opens v =>
      simp only [List.cons_append, owned]
      split
      · rfl
      · exact ih _
    | closes v =>
      simp only [List.cons_append, owned]
      split
      · exact ih _
      · rfl

end Calls

/-- The descriptors in use are those of `base` and one for each variable of `held`. -/
structure Owns (base : Finset Nat) (held : Finset η) (t : FdTable η) : Prop where
  used : t.used = base ∪ held.image t.var
  apart : ∀ v ∈ held, t.var v ∉ base
  distinct : ∀ v ∈ held, ∀ w ∈ held, t.var v = t.var w → v = w

namespace Owns

variable {base : Finset Nat} {held held' : Finset η} {t : FdTable η} {v : η}

theorem start (t : FdTable η) : Owns t.used ∅ t := ⟨by simp, by simp, by simp⟩

section Calls

variable [DecidableEq η]

theorem opens (h : Owns base held t) (k : Numbering) (hv : v ∉ held) :
    Owns base (insert v held) (t.call k (.opens v)) := by
  have hnew : k.pick t.used ∉ base ∪ held.image t.var := by
    rw [← h.used]
    exact k.fresh _
  rw [Finset.mem_union, not_or] at hnew
  have hkeep : ∀ w ∈ held, Function.update t.var v (k.pick t.used) w = t.var w := fun w hw =>
    Function.update_of_ne (fun heq => hv (by rwa [← heq])) _ _
  have hne : ∀ w ∈ held, t.var w ≠ k.pick t.used := fun w hw heq =>
    hnew.2 (Finset.mem_image.mpr ⟨w, hw, heq⟩)
  refine ⟨?_, ?_, ?_⟩
  · have himage : held.image (Function.update t.var v (k.pick t.used)) = held.image t.var :=
      Finset.image_congr fun w hw => hkeep w hw
    change insert (k.pick t.used) t.used =
      base ∪ (insert v held).image (Function.update t.var v (k.pick t.used))
    rw [Finset.image_insert, himage, Function.update_self, Finset.union_insert, ← h.used]
  · intro w hw
    change Function.update t.var v (k.pick t.used) w ∉ base
    rcases Finset.mem_insert.mp hw with rfl | hw
    · rw [Function.update_self]
      exact hnew.1
    · rw [hkeep w hw]
      exact h.apart w hw
  · intro w hw x hx heq
    change Function.update t.var v (k.pick t.used) w =
      Function.update t.var v (k.pick t.used) x at heq
    rcases Finset.mem_insert.mp hw with rfl | hold <;>
      rcases Finset.mem_insert.mp hx with rfl | hold'
    · rfl
    · rw [Function.update_self, hkeep x hold'] at heq
      exact absurd heq.symm (hne x hold')
    · rw [Function.update_self, hkeep w hold] at heq
      exact absurd heq (hne w hold)
    · rw [hkeep w hold, hkeep x hold'] at heq
      exact h.distinct w hold x hold' heq

theorem closes (h : Owns base held t) (k : Numbering) (hv : v ∈ held) :
    Owns base (held.erase v) (t.call k (.closes v)) := by
  refine ⟨?_, fun w hw => h.apart w (Finset.mem_of_mem_erase hw), fun w hw x hx =>
    h.distinct w (Finset.mem_of_mem_erase hw) x (Finset.mem_of_mem_erase hx)⟩
  change t.used.erase (t.var v) = base ∪ (held.erase v).image t.var
  rw [h.used]
  ext n
  simp only [Finset.mem_erase, Finset.mem_union, Finset.mem_image]
  constructor
  · rintro ⟨hn, hbase | ⟨w, hw, rfl⟩⟩
    · exact .inl hbase
    · exact .inr ⟨w, ⟨fun heq => hn (by rw [heq]), hw⟩, rfl⟩
  · rintro (hbase | ⟨w, ⟨hne, hw⟩, rfl⟩)
    · exact ⟨fun heq => h.apart v hv (by rwa [← heq]), .inl hbase⟩
    · exact ⟨fun heq => hne (h.distinct w hw v hv heq), .inr ⟨w, hw, rfl⟩⟩

theorem calls {cs : List (FdCall η)} (h : Owns base held t) (k : Numbering)
    (ho : owned held cs = some held') : Owns base held' (t.calls k cs) := by
  induction cs generalizing held t with
  | nil =>
    cases ho
    exact h
  | cons c cs ih =>
    cases c with
    | opens v =>
      simp only [owned] at ho
      split at ho
      · cases ho
      · rename_i hv
        exact ih (h.opens k hv) ho
    | closes v =>
      simp only [owned] at ho
      split at ho
      · rename_i hv
        exact ih (h.closes k hv) ho
      · cases ho

end Calls

theorem used_eq_iff (h : Owns base held t) : t.used = base ↔ held = ∅ := by
  constructor
  · intro heq
    refine Finset.eq_empty_of_forall_notMem fun v hv => h.apart v hv ?_
    rw [← heq, h.used]
    exact Finset.mem_union_right _ (Finset.mem_image_of_mem _ hv)
  · rintro rfl
    rw [h.used, Finset.image_empty, Finset.union_empty]

end Owns

end WslFreeBSD.Lib
