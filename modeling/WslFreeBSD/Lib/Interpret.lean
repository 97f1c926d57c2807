import WslFreeBSD.Lib.Program

/-!
# Programs on a state

A program whose operations are carried out on a state: an operation has an answer and a next state.
`interpret` runs the program on a state; what it does is computed from the text of the program,
operation by operation (`interpret_bind`, `interpret_perform`).
-/

namespace WslFreeBSD.Lib

namespace Program

variable {ε σ : Type} {ρ : ε → Type} {α β : Type}

/-- The value of a program and the state that it leaves. -/
def interpret (step : (e : ε) → σ → ρ e × σ) : Program ε ρ α → σ → α × σ
  | .ret a, s => (a, s)
  | .call e k, s => (k (step e s).1).interpret step (step e s).2

variable (step : (e : ε) → σ → ρ e × σ)

@[simp] theorem interpret_pure (a : α) (s : σ) :
    (pure a : Program ε ρ α).interpret step s = (a, s) := rfl

@[simp] theorem interpret_perform (e : ε) (s : σ) :
    (perform e : Program ε ρ (ρ e)).interpret step s = step e s := rfl

@[simp] theorem interpret_bind (p : Program ε ρ α) (f : α → Program ε ρ β) (s : σ) :
    (p >>= f).interpret step s =
      (f (p.interpret step s).1).interpret step (p.interpret step s).2 := by
  induction p generalizing s with
  | ret a => rfl
  | call e k ih => exact ih _ _

end Program

end WslFreeBSD.Lib
