import Mathlib.Data.List.Induction

/-!
# The last match in a list

A scan that is overwritten by every match is decided by the last one. `Last P ls a` says that `a` is
the last element of `ls` that satisfies `P`, and `LastMaximum f before a after` that no element of
`before ++ a :: after` has a greater value than `a`, and none behind `a` the same.

`foldl_settled` is the rule for such scans: what holds after the step at `a`, whatever was found
before it, and is kept by every step behind it, holds at the end.
-/

namespace WslFreeBSD.Lib

variable {α σ : Type*}

/-- `a` is the last element that satisfies `P`. -/
def Last (P : α → Prop) (ls : List α) (a : α) : Prop :=
  ∃ before after, ls = before ++ a :: after ∧ P a ∧ ∀ x ∈ after, ¬ P x

theorem exists_last {P : α → Prop} {ls : List α} (h : ∃ a ∈ ls, P a) : ∃ a, Last P ls a := by
  induction ls using List.reverseRecOn with
  | nil =>
    obtain ⟨a, ha, -⟩ := h
    exact absurd ha List.not_mem_nil
  | append_singleton ls x ih =>
    by_cases hx : P x
    · exact ⟨x, ls, [], rfl, hx, fun y hy => absurd hy List.not_mem_nil⟩
    · obtain ⟨a, ha, hPa⟩ := h
      have hmem : a ∈ ls := by
        rcases List.mem_append.mp ha with hmem | hlast
        · exact hmem
        · obtain rfl : a = x := List.mem_singleton.mp hlast
          exact absurd hPa hx
      obtain ⟨b, before, after, rfl, hb, hafter⟩ := ih ⟨a, hmem, hPa⟩
      refine ⟨b, before, after ++ [x], by rw [List.append_assoc, List.cons_append], hb, ?_⟩
      intro y hy
      rcases List.mem_append.mp hy with hy | hy
      · exact hafter y hy
      · obtain rfl : y = x := List.mem_singleton.mp hy
        exact hx

/-- `a` has the greatest value in `before ++ a :: after`, and is the last element with it. -/
structure LastMaximum (f : α → Nat) (before : List α) (a : α) (after : List α) : Prop where
  le_of_before : ∀ x ∈ before, f x ≤ f a
  lt_of_after : ∀ x ∈ after, f x < f a

theorem LastMaximum.le {f : α → Nat} {before after : List α} {a x : α}
    (h : LastMaximum f before a after) (hx : x ∈ before ++ a :: after) : f x ≤ f a := by
  rcases List.mem_append.mp hx with hx | hx
  · exact h.le_of_before x hx
  · rcases List.mem_cons.mp hx with rfl | hx
    · exact Nat.le_refl _
    · exact Nat.le_of_lt (h.lt_of_after x hx)

theorem exists_lastMaximum (f : α → Nat) {ls : List α} (h : ls ≠ []) :
    ∃ before a after, ls = before ++ a :: after ∧ LastMaximum f before a after := by
  induction ls using List.reverseRecOn with
  | nil => exact absurd rfl h
  | append_singleton ls x ih =>
    have hnone : ∀ y ∈ ([] : List α), f y < f x := fun y hy => absurd hy List.not_mem_nil
    by_cases hls : ls = []
    · exact ⟨ls, x, [], rfl, by simp [hls], hnone⟩
    · obtain ⟨before, a, after, rfl, hmax⟩ := ih hls
      by_cases hlt : f x < f a
      · refine ⟨before, a, after ++ [x], by simp, hmax.le_of_before, ?_⟩
        intro y hy
        rcases List.mem_append.mp hy with hy | hy
        · exact hmax.lt_of_after y hy
        · obtain rfl : y = x := List.mem_singleton.mp hy
          exact hlt
      · refine ⟨before ++ a :: after, x, [], rfl, ?_, hnone⟩
        intro y hy
        exact Nat.le_trans (hmax.le hy) (Nat.not_lt.mp hlt)

/-- What the step at `a` establishes from every state that the steps before it keep, and the steps
behind it preserve, holds at the end. -/
theorem foldl_settled {step : σ → α → σ} {s : σ} {before after : List α} {a : α} {I Q : σ → Prop}
    (hinit : I s) (hbefore : ∀ t, I t → ∀ x ∈ before, I (step t x)) (ha : ∀ t, I t → Q (step t a))
    (hafter : ∀ t, Q t → ∀ x ∈ after, Q (step t x)) : Q ((before ++ a :: after).foldl step s) := by
  rw [List.foldl_append, List.foldl_cons]
  exact List.foldlRecOn after step (ha _ (List.foldlRecOn before step hinit hbefore)) hafter

end WslFreeBSD.Lib
