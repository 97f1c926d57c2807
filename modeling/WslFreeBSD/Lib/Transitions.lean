import Mathlib.Data.List.Basic
import Mathlib.Logic.Function.Basic

/-!
# Transition systems

`step s a` is the state behind the action `a`, if it is enabled in `s`. `Reaches step C s₀ s` says that
some actions lead from `s₀` to `s`, each of which meets `C` in the state in which it is taken. A property
that such actions keep holds of every state that is reached (`Reaches.invariant`).
-/

namespace WslFreeBSD.Lib

variable {σ ι : Type*} {step : σ → ι → Option σ} {C C' : σ → ι → Prop} {s₀ s s' : σ}

/-- The actions of a run meet `C`. -/
inductive Reaches (step : σ → ι → Option σ) (C : σ → ι → Prop) (s₀ : σ) : σ → Prop where
  | start : Reaches step C s₀ s₀
  | step {s s' : σ} {a : ι} (h : Reaches step C s₀ s) (hC : C s a) (hs : step s a = some s') :
    Reaches step C s₀ s'

namespace Reaches

theorem mono (h : Reaches step C s₀ s) (hC : ∀ s a, C s a → C' s a) : Reaches step C' s₀ s := by
  induction h with
  | start => exact .start
  | step _ ha hs ih => exact ih.step (hC _ _ ha) hs

theorem invariant {I : σ → Prop} (h : Reaches step C s₀ s) (hinit : I s₀)
    (hstep : ∀ s a s', I s → C s a → step s a = some s' → I s') : I s := by
  induction h with
  | start => exact hinit
  | step _ ha hs ih => exact hstep _ _ _ ih ha hs

theorem foldlM {as : List ι} (h : Reaches step C s₀ s) (hC : ∀ a ∈ as, ∀ s, C s a)
    (has : as.foldlM step s = some s') : Reaches step C s₀ s' := by
  induction as generalizing s with
  | nil =>
    cases has
    exact h
  | cons a as ih =>
    obtain ⟨t, ht, hrest⟩ := Option.bind_eq_some_iff.mp has
    refine ih (h.step (hC a List.mem_cons_self s) ht) (fun b hb => hC b ?_) hrest
    exact List.mem_cons_of_mem a hb

theorem foldlM_cons {a : ι} {as : List ι} (h : Reaches step C s₀ s) (ha : C s a)
    (hC : ∀ b ∈ as, ∀ s, C s b) (has : (a :: as).foldlM step s = some s') : Reaches step C s₀ s' := by
  obtain ⟨t, ht, hrest⟩ := Option.bind_eq_some_iff.mp has
  exact (h.step ha ht).foldlM hC hrest

end Reaches

end WslFreeBSD.Lib
