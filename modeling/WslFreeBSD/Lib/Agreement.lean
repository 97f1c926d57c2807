import WslFreeBSD.Lib.Action

/-!
# Programs that agree up to an answer

`Follows bad p q` says that `p` does what `q` does as long as no answer is `bad`: what holds of all runs of
`q` holds of the runs of `p` without a bad answer. Programs that differ only behind bad answers follow each
other, and so do the actions that are made of them.
-/

namespace WslFreeBSD.Lib

variable {ε : Type} {ρ : ε → Type} {κ η σ τ α β : Type} {bad : (Σ e, ρ e) → Prop}

namespace Program

def Follows (bad : (Σ e, ρ e) → Prop) (p q : Program ε ρ α) : Prop :=
  ∀ Q : α → Trace ε ρ → Prop, q.Ensures Q → p.Ensures fun a t => (∀ c ∈ t, ¬ bad c) → Q a t

theorem follows_refl (p : Program ε ρ α) : Follows bad p p :=
  fun _ hQ => hQ.mono fun _ _ h _ => h

theorem Follows.bind {p q : Program ε ρ α} {f g : α → Program ε ρ β} (hp : Follows bad p q)
    (hf : ∀ a, Follows bad (f a) (g a)) : Follows bad (p >>= f) (q >>= g) := by
  intro Q hQ
  refine ensures_bind.mpr ((hp _ (ensures_bind.mp hQ)).mono fun a t ht => ?_)
  by_cases hbad : ∀ c ∈ t, ¬ bad c
  · refine (hf a _ (ht hbad)).mono fun b u hu hall => hu fun c hc => ?_
    exact hall c (List.mem_append_right t hc)
  · refine (ensures_true _).mono fun b u _ hall => absurd (fun c hc => ?_) hbad
    exact hall c (List.mem_append_left u hc)

theorem follows_call {e : ε} {k k' : ρ e → Program ε ρ α}
    (hk : ∀ r, ¬ bad ⟨e, r⟩ → Follows bad (k r) (k' r)) : Follows bad (.call e k) (.call e k') := by
  intro Q hQ r
  by_cases hbad : bad ⟨e, r⟩
  · exact (ensures_true _).mono fun _ _ _ hall => absurd hbad (hall _ List.mem_cons_self)
  · refine (hk r hbad _ (hQ r)).mono fun a t ht hall => ht fun c hc => ?_
    exact hall c (List.mem_cons_of_mem _ hc)

end Program

namespace Action

/-- An action does what another one does as long as no answer is bad. -/
def Follows (bad : (Σ e, ρ e) → Prop) (m n : Action ε ρ κ η σ α) : Prop :=
  ∀ s, Program.Follows bad (m s) (n s)

variable {m n : Action ε ρ κ η σ α} {f g : α → Action ε ρ κ η σ β}

theorem follows_refl (m : Action ε ρ κ η σ α) : Follows bad m m := fun _ => Program.follows_refl _

theorem Follows.bind (hm : Follows bad m n) (hf : ∀ a, Follows bad (f a) (g a)) :
    Follows bad (m >>= f) (n >>= g) := by
  refine fun s => (hm s).bind ?_
  rintro ⟨o, s'⟩
  cases o with
  | value a => exact hf a s'
  | error e => exact Program.follows_refl _
  | halted x => exact Program.follows_refl _

theorem Follows.then (m : Action ε ρ κ η σ α) (hf : ∀ a, Follows bad (f a) (g a)) :
    Follows bad (m >>= f) (m >>= g) := (follows_refl m).bind hf

theorem Follows.zoom (hm : Follows bad m n) (part : τ → σ) (put : σ → τ → τ) :
    Follows bad (m.zoom part put) (n.zoom part put) :=
  fun t => (hm (part t)).bind fun _ => Program.follows_refl _

end Action

end WslFreeBSD.Lib
