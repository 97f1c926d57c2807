import WslFreeBSD.Lib.Action
import WslFreeBSD.Lib.Interpret

/-!
# Actions on a system

An action whose calls are carried out by a system with a state of its own: `step` gives the answer to a
call and the next state. `On step P m V E H` is the triple of an action on a system. From states of the
action and of the system with `P`, it ends with a value in `V`, with an error in `E` or with a halt in `H`.
The rules follow the text of the action, and `On.call` is the only one that looks at the system.

A run in an environment is an action on the system that records the calls (`run_eq_interpret`).
-/

namespace WslFreeBSD.Lib

namespace Program

variable {ε α : Type} {ρ : ε → Type}

/-- The system that records the calls, answered by an environment. -/
def recording (env : Environment ε ρ) (e : ε) (t : Trace ε ρ) : ρ e × Trace ε ρ :=
  (env t e, t ++ [⟨e, env t e⟩])

/-- The system that gives the same answer to a call each time. -/
def steady (answer : (e : ε) → ρ e) (e : ε) (_ : Unit) : ρ e × Unit := (answer e, ())

theorem run_eq_interpret (p : Program ε ρ α) (env : Environment ε ρ) (t : Trace ε ρ) :
    p.run env t = p.interpret (recording env) t := by
  induction p generalizing t with
  | ret a => rfl
  | call e k ih => exact ih (env t e) _

theorem interpret_recording_const (answer : (e : ε) → ρ e) (p : Program ε ρ α) (t : Trace ε ρ) :
    p.interpret (recording fun _ e => answer e) t = ((p.evalWith answer).1, t ++ (p.evalWith answer).2) := by
  rw [← run_eq_interpret, run_const]

theorem length_le_recording (p : Program ε ρ α) (env : Environment ε ρ) (t : Trace ε ρ) :
    t.length ≤ (p.interpret (recording env) t).2.length := by
  induction p generalizing t with
  | ret a => exact Nat.le_refl _
  | call e k ih =>
    refine Nat.le_trans (Nat.le_trans (Nat.le_add_right _ 1) ?_) (ih (env t e) (t ++ [⟨e, env t e⟩]))
    exact Nat.le_of_eq (by rw [List.length_append, List.length_singleton])

theorem interpret_recording_congr {env env' : Environment ε ρ} (p : Program ε ρ α) (t : Trace ε ρ)
    (h : ∀ u e, t.length ≤ u.length → u.length < (p.interpret (recording env) t).2.length → env' u e = env u e) :
    p.interpret (recording env') t = p.interpret (recording env) t := by
  induction p generalizing t with
  | ret a => rfl
  | call e k ih =>
    have hlength := length_le_recording (k (env t e)) env (t ++ [⟨e, env t e⟩])
    rw [List.length_append, List.length_singleton] at hlength
    have he : env' t e = env t e := h t e (Nat.le_refl _) hlength
    change (k (env' t e)).interpret _ (t ++ [⟨e, env' t e⟩]) = (k (env t e)).interpret _ (t ++ [⟨e, env t e⟩])
    rw [he]
    refine ih (env t e) _ fun u e' hle hlt => h u e' (Nat.le_trans ?_ hle) hlt
    rw [List.length_append]
    exact Nat.le_add_right _ _

end Program

namespace Action

variable {ε : Type} {ρ : ε → Type} {κ η σ τ ω α β : Type}

/-- What is asked of the end of an action on a system, and of the states behind it. -/
def EndsOn (V : α → σ → ω → Prop) (E : κ → σ → ω → Prop) (H : η → σ → ω → Prop)
    (r : (Outcome κ η α × σ) × ω) : Prop :=
  Ends (fun a s => V a s r.2) (fun e s => E e s r.2) (fun x s => H x s r.2) r.1

/-- From states with `P`, the action ends with a value in `V`, an error in `E` or a halt in `H`. -/
def On (step : (e : ε) → ω → ρ e × ω) (P : σ → ω → Prop) (m : Action ε ρ κ η σ α)
    (V : α → σ → ω → Prop) (E : κ → σ → ω → Prop) (H : η → σ → ω → Prop) : Prop :=
  ∀ s w, P s w → EndsOn V E H ((m s).interpret step w)

variable {step : (e : ε) → ω → ρ e × ω} {P Q : σ → ω → Prop} {m : Action ε ρ κ η σ α}
  {f : α → Action ε ρ κ η σ β} {V V' : α → σ → ω → Prop} {W : β → σ → ω → Prop}
  {E E' : κ → σ → ω → Prop} {H H' : η → σ → ω → Prop}

theorem On.value {s s' : σ} {w w' : ω} {a : α} (h : On step P m V E H) (hs : P s w)
    (hend : (m s).interpret step w = ((.value a, s'), w')) : V a s' w' := by
  have hends := h s w hs
  rw [hend] at hends
  exact hends

theorem interpret_bind_of_value {s s' : σ} {w w' : ω} {a : α}
    (hm : (m s).interpret step w = ((.value a, s'), w')) :
    ((m >>= f) s).interpret step w = (f a s').interpret step w' := by
  change (m s >>= andThen f).interpret step w = _
  rw [Program.interpret_bind, hm]
  rfl

theorem on_pure {a : α} (h : ∀ s w, P s w → V a s w) :
    On step P (Pure.pure a : Action ε ρ κ η σ α) V E H := h

theorem on_throw {e : κ} (h : ∀ s w, P s w → E e s w) :
    On step P (throw e : Action ε ρ κ η σ α) V E H := h

theorem on_halt {x : η} (h : ∀ s w, P s w → H x s w) :
    On step P (halt x : Action ε ρ κ η σ α) V E H := h

theorem on_modify {g : σ → σ} {V : Unit → σ → ω → Prop} (h : ∀ s w, P s w → V () (g s) w) :
    On step P (modify g : Action ε ρ κ η σ Unit) V E H := h

theorem On.bind (hm : On step P m V E H) (hf : ∀ a, On step (V a) (f a) W E H) :
    On step P (m >>= f) W E H := by
  intro s w hs
  have hend := hm s w hs
  change EndsOn W E H ((m s >>= andThen f).interpret step w)
  rw [Program.interpret_bind]
  generalize (m s).interpret step w = r at hend ⊢
  obtain ⟨⟨o, s'⟩, w'⟩ := r
  cases o with
  | value a => exact hf a s' w' hend
  | error e => exact hend
  | halted x => exact hend

theorem On.mono (h : On step P m V E H) (hP : ∀ s w, Q s w → P s w) (hV : ∀ a s w, V a s w → V' a s w)
    (hE : ∀ e s w, E e s w → E' e s w) (hH : ∀ x s w, H x s w → H' x s w) : On step Q m V' E' H' :=
  fun s w hs => Ends.mono (h s w (hP s w hs)) (fun a s' => hV a s' _) (fun e s' => hE e s' _)
    fun x s' => hH x s' _

theorem On.pre (h : On step P m V E H) (hP : ∀ s w, Q s w → P s w) : On step Q m V E H :=
  h.mono hP (fun _ _ _ h => h) (fun _ _ _ h => h) fun _ _ _ h => h

theorem On.post (h : On step P m V E H) (hV : ∀ a s w, V a s w → V' a s w) : On step P m V' E H :=
  h.mono (fun _ _ h => h) hV (fun _ _ _ h => h) fun _ _ _ h => h

theorem on_of_states (h : ∀ s w, P s w → On step (fun s' w' => s' = s ∧ w' = w) m V E H) :
    On step P m V E H := fun s w hs => h s w hs s w ⟨rfl, rfl⟩

theorem On.ite {c : Prop} [Decidable c] {n : Action ε ρ κ η σ α} (hm : c → On step P m V E H)
    (hn : ¬ c → On step P n V E H) : On step P (if c then m else n) V E H := by
  split
  · next h => exact hm h
  · next h => exact hn h

theorem On.get_then {f : σ → Action ε ρ κ η σ β}
    (h : ∀ s, On step (fun s' w => s' = s ∧ P s w) (f s) W E H) : On step P (get >>= f) W E H :=
  fun s w hs => h s s w ⟨rfl, hs⟩

theorem On.modify_then {g : σ → σ} {f : Unit → Action ε ρ κ η σ β} (hP : ∀ s w, P s w → Q (g s) w)
    (h : On step Q (f ()) W E H) : On step P (modify g >>= f) W E H :=
  (on_modify (V := fun _ => Q) hP).bind fun _ => h

theorem on_call {e : ε} {V : ρ e → σ → ω → Prop} (h : ∀ s w, P s w → V (step e w).1 s (step e w).2) :
    On step P (call e : Action ε ρ κ η σ (ρ e)) V E H := h

theorem On.forM {ι : Type} {as : List ι} {body : ι → Action ε ρ κ η σ Unit}
    (h : ∀ a ∈ as, On step P (body a) (fun _ => P) E H) : On step P (as.forM body) (fun _ => P) E H := by
  induction as with
  | nil => exact on_pure fun _ _ hs => hs
  | cons a as ih =>
    exact (h a List.mem_cons_self).bind fun _ => ih fun b hb => h b (List.mem_cons_of_mem a hb)

theorem On.leaves {Q : ω → Prop} (h : On step P m (fun _ _ => Q) (fun _ _ => Q) fun _ _ => Q) {s : σ} {w : ω}
    (hs : P s w) : Q ((m s).interpret step w).2 := by
  have hend := h s w hs
  generalize (m s).interpret step w = r at hend ⊢
  obtain ⟨⟨o, s'⟩, w'⟩ := r
  cases o <;> exact hend

theorem On.andFinally {g : Action ε ρ κ η σ Unit} (hm : On step P m V E H)
    (hV : ∀ a, On step (V a) g (fun _ => V' a) (fun _ => V' a) H')
    (hE : ∀ e, On step (E e) g (fun _ => E' e) (fun _ => E' e) H') (hH : ∀ x s w, H x s w → H' x s w) :
    On step P (m.andFinally g) V' E' H' := by
  intro s w hs
  have hend := hm s w hs
  rw [Action.andFinally, Program.interpret_bind]
  generalize (m s).interpret step w = r at hend ⊢
  obtain ⟨⟨o, s'⟩, w'⟩ := r
  cases o with
  | value a =>
    have hfinal := hV a s' w' hend
    simp only [Program.interpret_bind]
    generalize (g s').interpret step w' = r at hfinal ⊢
    obtain ⟨⟨o', s''⟩, w''⟩ := r
    cases o' <;> exact hfinal
  | error e =>
    have hfinal := hE e s' w' hend
    simp only [Program.interpret_bind]
    generalize (g s').interpret step w' = r at hfinal ⊢
    obtain ⟨⟨o', s''⟩, w''⟩ := r
    cases o' <;> exact hfinal
  | halted x => exact hH x s' w' hend

theorem On.attempt {V : Except κ α → σ → ω → Prop}
    (hm : On step P m (fun a => V (.ok a)) (fun e => V (.error e)) H) : On step P m.attempt V E H := by
  intro s w hs
  have hend := hm s w hs
  rw [Action.attempt, Program.interpret_bind]
  generalize (m s).interpret step w = r at hend ⊢
  obtain ⟨⟨o, s'⟩, w'⟩ := r
  cases o <;> exact hend

theorem On.zoom {part : τ → σ} {put : σ → τ → τ} {P : τ → ω → Prop} {V : α → τ → ω → Prop}
    {E : κ → τ → ω → Prop} {H : η → τ → ω → Prop}
    (h : ∀ t w, P t w → On step (fun s w' => s = part t ∧ w' = w) m (fun a s => V a (put s t))
      (fun e s => E e (put s t)) fun x s => H x (put s t)) : On step P (m.zoom part put) V E H := by
  intro t w ht
  have hend := h t w ht (part t) w ⟨rfl, rfl⟩
  rw [Action.zoom, Program.interpret_bind]
  generalize (m (part t)).interpret step w = r at hend ⊢
  obtain ⟨⟨o, s'⟩, w'⟩ := r
  cases o <;> exact hend

theorem On.withState {t : σ} {P : τ → ω → Prop} {V : α × σ → τ → ω → Prop} {E : κ → τ → ω → Prop}
    {H : η → τ → ω → Prop}
    (h : ∀ u w, P u w → On step (fun s w' => s = t ∧ w' = w) m (fun a s => V (a, s) u)
      (fun e _ => E e u) fun x _ => H x u) : On step P (m.withState t) V E H := by
  intro u w hu
  have hend := h u w hu t w ⟨rfl, rfl⟩
  rw [Action.withState, Program.interpret_bind]
  generalize (m t).interpret step w = r at hend ⊢
  obtain ⟨⟨o, s'⟩, w'⟩ := r
  cases o <;> exact hend

theorem On.embed {m : Action ε ρ κ Empty Unit α} {V : α → σ → ω → Prop}
    (h : ∀ s w, P s w → On step (fun _ w' => w' = w) m (fun a _ => V a s) (fun e _ => E e s)
      fun x _ _ => x.elim) : On step P (m.embed : Action ε ρ κ η σ α) V E H := by
  intro s w hs
  have hend := h s w hs () w rfl
  rw [Action.embed, Program.interpret_bind]
  generalize (m ()).interpret step w = r at hend ⊢
  obtain ⟨⟨o, s'⟩, w'⟩ := r
  cases o with
  | value a => exact hend
  | error e => exact hend
  | halted x => exact x.elim

/-! ## Values -/

/-- The action ends with a value, and in `V`. -/
def Yields (step : (e : ε) → ω → ρ e × ω) (m : Action ε ρ κ η σ α) (V : α → σ → ω → Prop) (s : σ) (w : ω) :
    Prop :=
  EndsOn V (fun _ _ _ => False) (fun _ _ _ => False) ((m s).interpret step w)

section Yields

variable {s : σ} {w : ω}

theorem yields_pure {a : α} : Yields step (Pure.pure a : Action ε ρ κ η σ α) V s w ↔ V a s w := Iff.rfl

theorem yields_call {e : ε} {V : ρ e → σ → ω → Prop} :
    Yields step (call e : Action ε ρ κ η σ (ρ e)) V s w ↔ V (step e w).1 s (step e w).2 := Iff.rfl

theorem Yields.exists (h : Yields step m V s w) : ∃ a s' w', V a s' w' := by
  unfold Yields EndsOn Ends at h
  split at h
  · exact ⟨_, _, _, h⟩
  · exact h.elim
  · exact h.elim

theorem yields_ite {c : Prop} [Decidable c] {n : Action ε ρ κ η σ α} :
    Yields step (if c then m else n) V s w ↔ (c → Yields step m V s w) ∧ (¬ c → Yields step n V s w) := by
  by_cases h : c
  · rw [if_pos h]
    exact ⟨fun hm => ⟨fun _ => hm, fun hn => absurd h hn⟩, fun hm => hm.1 h⟩
  · rw [if_neg h]
    exact ⟨fun hn => ⟨fun hm => absurd hm h, fun _ => hn⟩, fun hn => hn.2 h⟩

theorem yields_bind : Yields step (m >>= f) W s w ↔ Yields step m (fun a => Yields step (f a) W) s w := by
  change EndsOn W _ _ ((m s >>= andThen f).interpret step w) ↔ _
  rw [Program.interpret_bind]
  unfold Yields
  generalize (m s).interpret step w = r
  obtain ⟨⟨o, s'⟩, w'⟩ := r
  cases o <;> exact Iff.rfl

theorem yields_andFinally {g : Action ε ρ κ η σ Unit}
    (hg : ∀ s w, (g s).interpret step w = ((.value (), s), w)) :
    Yields step (m.andFinally g) V s w ↔ Yields step m V s w := by
  unfold Yields
  rw [Action.andFinally, Program.interpret_bind]
  generalize (m s).interpret step w = r
  obtain ⟨⟨o, s'⟩, w'⟩ := r
  cases o with
  | value a =>
    dsimp only
    rw [Program.interpret_bind, hg]
    exact Iff.rfl
  | error e =>
    dsimp only
    rw [Program.interpret_bind, hg]
    exact Iff.rfl
  | halted x => exact Iff.rfl

theorem yields_embed {m : Action ε ρ κ Empty Unit α} :
    Yields step (m.embed : Action ε ρ κ η σ α) V s w ↔ Yields step m (fun a _ => V a s) () w := by
  unfold Yields
  rw [Action.embed, Program.interpret_bind]
  generalize (m ()).interpret step w = r
  obtain ⟨⟨o, s'⟩, w'⟩ := r
  cases o with
  | value a => exact Iff.rfl
  | error e => exact Iff.rfl
  | halted x => exact x.elim

end Yields

/-! ## Answers that stay the same -/

section Comes

variable {answer : (e : ε) → ρ e} {s s' : σ}

theorem Comes.call_then {e : ε} {r : ρ e} {f : ρ e → Action ε ρ κ η σ β} {o : Outcome κ η β} (he : answer e = r)
    (hf : Comes answer (f r) s o s') : Comes answer (call e >>= f) s o s' := by
  refine Comes.bind (a := answer e) rfl ?_
  rwa [he]

theorem Comes.interpret {o : Outcome κ η α} {env : Program.Environment ε ρ} (hm : Comes answer m s o s')
    (t : Program.Trace ε ρ) (henv : ∀ u e, t.length ≤ u.length →
      u.length < (t ++ ((m s).evalWith answer).2).length → env u e = answer e) :
    (m s).interpret (Program.recording env) t = ((o, s'), t ++ ((m s).evalWith answer).2) := by
  have hconst := Program.interpret_recording_const answer (m s) t
  rw [← hm, ← hconst]
  refine Program.interpret_recording_congr (m s) t fun u e hle hlt => henv u e hle ?_
  rwa [hconst] at hlt

theorem Comes.embed {m : Action ε ρ κ Empty Unit α} {a : α} (hm : Comes answer m () (.value a) ()) (s : σ) :
    Comes answer (m.embed : Action ε ρ κ η σ α) s (.value a) s := by
  rw [Comes, Action.embed, Program.evalWith_bind, hm]
  rfl

end Comes

end Action

end WslFreeBSD.Lib
