import Mathlib.Data.List.Basic

/-!
# Programs that call their environment

A program either ends with a value or calls an operation and goes on with the answer. The
environment answers a call in view of all calls before it, so nothing is assumed about the
answers: two equal calls can have different answers.

`Ensures p Q` says that `Q` holds of the value and the calls of every run of `p`. It is computed
from the program text, passes through `bind` (`ensures_bind`), and describes the runs
(`Ensures.run`).

Two forms of it are stated for programs that are put together from many small ones. `Only P p`
says which operations `p` can call. `Shows f p Q` is about the calls that `f` lets through, in
order; a program that `f` does not see shows nothing (`Only.hidden`).
-/

namespace WslFreeBSD.Lib

/-- A program with operations `ε`, answered in `ρ`, that ends with a value in `α`. -/
inductive Program (ε : Type) (ρ : ε → Type) (α : Type) where
  | ret (a : α)
  | call (e : ε) (k : ρ e → Program ε ρ α)

namespace Program

variable {ε : Type} {ρ : ε → Type} {α β : Type}

def bind : Program ε ρ α → (α → Program ε ρ β) → Program ε ρ β
  | .ret a, f => f a
  | .call e k, f => .call e fun r => (k r).bind f

instance : Monad (Program ε ρ) where
  pure := .ret
  bind := bind

/-- The program that calls one operation and returns the answer. -/
def perform (e : ε) : Program ε ρ (ρ e) := .call e .ret

abbrev Trace (ε : Type) (ρ : ε → Type) := List (Σ e, ρ e)

/-- An environment: the answer to a call after the calls so far. -/
abbrev Environment (ε : Type) (ρ : ε → Type) := Trace ε ρ → (e : ε) → ρ e

/-- Runs a program after some calls; the trace is extended. -/
def run (env : Environment ε ρ) : Program ε ρ α → Trace ε ρ → α × Trace ε ρ
  | .ret a, t => (a, t)
  | .call e k, t => (k (env t e)).run env (t ++ [⟨e, env t e⟩])

/-- `Q` holds of the value and the calls of every run. -/
def Ensures : Program ε ρ α → (α → Trace ε ρ → Prop) → Prop
  | .ret a, Q => Q a []
  | .call e k, Q => ∀ r, (k r).Ensures fun a t => Q a (⟨e, r⟩ :: t)

@[simp] theorem ensures_pure (a : α) (Q : α → Trace ε ρ → Prop) :
    Ensures (pure a : Program ε ρ α) Q ↔ Q a [] := Iff.rfl

theorem ensures_perform {e : ε} {Q : ρ e → Trace ε ρ → Prop} :
    Ensures (perform e : Program ε ρ (ρ e)) Q ↔ ∀ r, Q r [⟨e, r⟩] := Iff.rfl

theorem Ensures.mono {p : Program ε ρ α} {Q Q' : α → Trace ε ρ → Prop} (h : p.Ensures Q)
    (hQ : ∀ a t, Q a t → Q' a t) : p.Ensures Q' := by
  induction p generalizing Q Q' with
  | ret a => exact hQ a [] h
  | call e k ih => exact fun r => ih r (h r) fun a t => hQ a (⟨e, r⟩ :: t)

theorem ensures_true (p : Program ε ρ α) : p.Ensures fun _ _ => True := by
  induction p with
  | ret a => exact True.intro
  | call e k ih => exact ih

theorem Ensures.and {p : Program ε ρ α} {Q Q' : α → Trace ε ρ → Prop} (h : p.Ensures Q)
    (h' : p.Ensures Q') : p.Ensures fun a t => Q a t ∧ Q' a t := by
  induction p generalizing Q Q' with
  | ret a => exact ⟨h, h'⟩
  | call e k ih => exact fun r => ih r (h r) (h' r)

/-- The calls of `p >>= f` are those of `p` followed by those of `f`. -/
theorem ensures_bind {p : Program ε ρ α} {f : α → Program ε ρ β} {Q : β → Trace ε ρ → Prop} :
    (p >>= f).Ensures Q ↔ p.Ensures fun a t => (f a).Ensures fun b u => Q b (t ++ u) := by
  induction p generalizing Q with
  | ret a => exact Iff.rfl
  | call e k ih =>
    constructor
    · intro h r
      exact ih r |>.mp (h r)
    · intro h r
      exact ih r |>.mpr (h r)

theorem Ensures.value {p : Program ε ρ α} {f : α → Program ε ρ β} {P : β → Prop}
    (h : ∀ a, (f a).Ensures fun b _ => P b) : (p >>= f).Ensures fun b _ => P b :=
  ensures_bind.mpr ((ensures_true p).mono fun a _ _ => h a)

/-- The calls of a trace after others have the answers of the environment. -/
def AnsweredBy (env : Environment ε ρ) : Trace ε ρ → Trace ε ρ → Prop
  | _, [] => True
  | t, c :: u => c.2 = env t c.1 ∧ AnsweredBy env (t ++ [c]) u

theorem AnsweredBy.answer {env : Environment ε ρ} {t u : Trace ε ρ} (h : AnsweredBy env t u)
    {c : Σ e, ρ e} (hc : c ∈ u) : ∃ t', c.2 = env t' c.1 := by
  induction u generalizing t with
  | nil => cases hc
  | cons d u ih =>
    rcases List.mem_cons.mp hc with rfl | hc
    · exact ⟨t, h.1⟩
    · exact ih h.2 hc

theorem Ensures.run_answered {p : Program ε ρ α} {Q : α → Trace ε ρ → Prop} (h : p.Ensures Q)
    (env : Environment ε ρ) (t : Trace ε ρ) :
    ∃ u, (p.run env t).2 = t ++ u ∧ AnsweredBy env t u ∧ Q (p.run env t).1 u := by
  induction p generalizing Q t with
  | ret a => exact ⟨[], (List.append_nil t).symm, trivial, h⟩
  | call e k ih =>
    obtain ⟨u, hu, hans, hQ⟩ := ih (env t e) (h (env t e)) (t ++ [⟨e, env t e⟩])
    refine ⟨⟨e, env t e⟩ :: u, ?_, ⟨rfl, hans⟩, hQ⟩
    rw [Program.run, hu, List.append_assoc]
    rfl

theorem Ensures.run {p : Program ε ρ α} {Q : α → Trace ε ρ → Prop} (h : p.Ensures Q)
    (env : Environment ε ρ) (t : Trace ε ρ) :
    ∃ u, (p.run env t).2 = t ++ u ∧ Q (p.run env t).1 u := by
  obtain ⟨u, hu, -, hQ⟩ := h.run_answered env t
  exact ⟨u, hu, hQ⟩

theorem run_extends (p : Program ε ρ α) (env : Environment ε ρ) (t : Trace ε ρ) :
    t <+: (p.run env t).2 := by
  induction p generalizing t with
  | ret a => exact List.prefix_rfl
  | call e k ih => exact (List.prefix_append t _).trans (ih (env t e) _)

theorem run_perform_bind (env : Environment ε ρ) (e : ε) (f : ρ e → Program ε ρ α) (t : Trace ε ρ) :
    (perform e >>= f).run env t = (f (env t e)).run env (t ++ [⟨e, env t e⟩]) := rfl

theorem run_bind (env : Environment ε ρ) (p : Program ε ρ α) (f : α → Program ε ρ β)
    (t : Trace ε ρ) : (p >>= f).run env t = (f (p.run env t).1).run env (p.run env t).2 := by
  induction p generalizing t with
  | ret a => rfl
  | call e k ih => exact ih (env t e) _

/-! ## One answer for every operation -/

/-- The value and the calls when every operation has one answer. -/
def evalWith (answer : (e : ε) → ρ e) : Program ε ρ α → α × Trace ε ρ
  | .ret a => (a, [])
  | .call e k =>
    (((k (answer e)).evalWith answer).1, ⟨e, answer e⟩ :: ((k (answer e)).evalWith answer).2)

theorem evalWith_bind (answer : (e : ε) → ρ e) (p : Program ε ρ α) (f : α → Program ε ρ β) :
    (p >>= f).evalWith answer = (((f (p.evalWith answer).1).evalWith answer).1,
      (p.evalWith answer).2 ++ ((f (p.evalWith answer).1).evalWith answer).2) := by
  induction p with
  | ret a => rfl
  | call e k ih =>
    have hcall : ((Program.call e k >>= f).evalWith answer) =
        (((k (answer e) >>= f).evalWith answer).1,
          ⟨e, answer e⟩ :: ((k (answer e) >>= f).evalWith answer).2) := rfl
    rw [hcall, ih]
    rfl

theorem run_const (answer : (e : ε) → ρ e) (p : Program ε ρ α) (t : Trace ε ρ) :
    p.run (fun _ e => answer e) t = ((p.evalWith answer).1, t ++ (p.evalWith answer).2) := by
  induction p generalizing t with
  | ret a => exact Prod.ext rfl (List.append_nil t).symm
  | call e k ih =>
    rw [run, ih, List.append_assoc]
    rfl

/-! ## Which operations are called -/

/-- All calls are of operations with the property `P`. -/
def Only (P : ε → Prop) (p : Program ε ρ α) : Prop := p.Ensures fun _ t => ∀ c ∈ t, P c.1

section Only

variable {P P' : ε → Prop} {p : Program ε ρ α} {f : α → Program ε ρ β}

theorem only_pure (a : α) : Only P (pure a : Program ε ρ α) := by
  simp [Only]

theorem only_perform {e : ε} (he : P e) : Only P (perform e : Program ε ρ (ρ e)) := fun r c hc => by
  rwa [List.mem_singleton.mp hc]

theorem Only.bind (hp : Only P p) (hf : ∀ a, Only P (f a)) : Only P (p >>= f) := by
  refine ensures_bind.mpr (hp.mono fun a t ht => (hf a).mono fun b u hu => ?_)
  exact List.forall_mem_append.mpr ⟨ht, hu⟩

theorem Only.mono (hp : Only P p) (h : ∀ e, P e → P' e) : Only P' p :=
  Ensures.mono hp fun _ _ ht c hc => h c.1 (ht c hc)

theorem Only.ite {c : Prop} [Decidable c] {q : Program ε ρ α} (hp : Only P p) (hq : Only P q) :
    Only P (if c then p else q) := by
  split
  · exact hp
  · exact hq

end Only

/-! ## What is seen of the calls -/

/-- `Q` holds of the value and of what `f` lets through of the calls. -/
def Shows {δ : Type} (f : (Σ e, ρ e) → Option δ) (p : Program ε ρ α) (Q : α → List δ → Prop) : Prop :=
  p.Ensures fun a t => Q a (t.filterMap f)

section Shows

variable {δ : Type} {f : (Σ e, ρ e) → Option δ} {p : Program ε ρ α} {q : α → Program ε ρ β}
  {Q Q' : α → List δ → Prop} {R : β → List δ → Prop}

theorem shows_pure {a : α} (h : Q a []) : Shows f (pure a) Q := h

theorem Shows.mono (hp : Shows f p Q) (h : ∀ a o, Q a o → Q' a o) : Shows f p Q' :=
  Ensures.mono hp fun a t => h a (t.filterMap f)

theorem Shows.bind (hp : Shows f p Q)
    (hq : ∀ a o, Q a o → Shows f (q a) fun b o' => R b (o ++ o')) : Shows f (p >>= q) R := by
  refine ensures_bind.mpr (Ensures.mono hp fun a t ht => ?_)
  refine Ensures.mono (hq a _ ht) fun b u hu => ?_
  rwa [List.filterMap_append]

theorem shows_perform {e : ε} {Q : ρ e → List δ → Prop} (h : ∀ r, Q r (f ⟨e, r⟩).toList) :
    Shows f (perform e) Q := by
  intro r
  have hr := h r
  change Q r (List.filterMap f [⟨e, r⟩])
  rw [List.filterMap_cons]
  cases hf : f ⟨e, r⟩ with
  | none =>
    rw [hf] at hr
    exact hr
  | some d =>
    rw [hf] at hr
    exact hr

theorem Shows.ite {c : Prop} [Decidable c] {p' : Program ε ρ α} (hp : c → Shows f p Q)
    (hp' : ¬ c → Shows f p' Q) : Shows f (if c then p else p') Q := by
  by_cases h : c
  · rw [if_pos h]
    exact hp h
  · rw [if_neg h]
    exact hp' h

theorem Shows.before_hidden {S : List δ → Prop} (hp : Shows f p fun _ o => S o)
    (hq : ∀ a, Shows f (q a) fun _ o => o = []) : Shows f (p >>= q) fun _ o => S o :=
  hp.bind fun a o ho => (hq a).mono fun b o' ho' => by
    rw [ho', List.append_nil]
    exact ho

theorem Shows.run (hp : Shows f p Q) (env : Environment ε ρ) (t : Trace ε ρ) :
    ∃ u, (p.run env t).2 = t ++ u ∧ Q (p.run env t).1 (u.filterMap f) := Ensures.run hp env t

theorem Only.hidden {P : ε → Prop} (hp : Only P p) (hf : ∀ e r, P e → f ⟨e, r⟩ = none) :
    Shows f p fun _ o => o = [] :=
  Ensures.mono hp fun _ _ ht => List.filterMap_eq_nil_iff.mpr fun c hc => hf c.1 c.2 (ht c hc)

theorem Shows.after_hidden (hp : Shows f p fun _ o => o = []) (hq : ∀ a, Shows f (q a) R) :
    Shows f (p >>= q) R :=
  hp.bind fun a o ho => by
    rw [ho]
    exact hq a

end Shows

end Program

end WslFreeBSD.Lib
