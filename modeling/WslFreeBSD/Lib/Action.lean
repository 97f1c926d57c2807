import WslFreeBSD.Lib.Program

/-!
# Actions: programs with a state that can fail

An action reads and changes a state and calls its environment. It ends with a value, with an error,
or with a halt, behind which nothing is done any more. What it changed before an error stays changed.

`Spec I P m V E H` is the triple of an action: from a state with `P`, and with the answers that the
interface `I` relies on, its calls are what `I` guarantees, and it ends with a value in `V`, with an error
in `E` or with a halt in `H`. The rules follow the text of the action.
-/

namespace WslFreeBSD.Lib

/-- How an action ends. -/
inductive Outcome (κ η α : Type) where
  | value (a : α)
  | error (e : κ)
  | halted (h : η)
  deriving DecidableEq, Repr

/-- An action with operations `ε`, answered in `ρ`, errors `κ`, halts `η` and the state `σ`. -/
def Action (ε : Type) (ρ : ε → Type) (κ η σ α : Type) : Type :=
  σ → Program ε ρ (Outcome κ η α × σ)

namespace Action

variable {ε : Type} {ρ : ε → Type} {κ η σ τ α β : Type}

def pure (a : α) : Action ε ρ κ η σ α := fun s => Pure.pure (.value a, s)

/-- What follows an outcome: an error and a halt end the action. -/
def andThen (f : α → Action ε ρ κ η σ β) (r : Outcome κ η α × σ) :
    Program ε ρ (Outcome κ η β × σ) :=
  match r.1 with
  | .value a => f a r.2
  | .error e => Pure.pure (.error e, r.2)
  | .halted h => Pure.pure (.halted h, r.2)

def bind (m : Action ε ρ κ η σ α) (f : α → Action ε ρ κ η σ β) : Action ε ρ κ η σ β :=
  fun s => m s >>= andThen f

instance : Monad (Action ε ρ κ η σ) where
  pure := pure
  bind := bind

def get : Action ε ρ κ η σ σ := fun s => Pure.pure (.value s, s)

def modify (f : σ → σ) : Action ε ρ κ η σ Unit := fun s => Pure.pure (.value (), f s)

def throw (e : κ) : Action ε ρ κ η σ α := fun s => Pure.pure (.error e, s)

def halt (h : η) : Action ε ρ κ η σ α := fun s => Pure.pure (.halted h, s)

def call (e : ε) : Action ε ρ κ η σ (ρ e) :=
  fun s => Program.perform e >>= fun r => Pure.pure (.value r, s)

/-- What follows `m` in any case but a halt, and whose own errors are lost. -/
def andFinally (m : Action ε ρ κ η σ α) (f : Action ε ρ κ η σ Unit) : Action ε ρ κ η σ α :=
  fun s => m s >>= fun r =>
    match r.1 with
    | .halted h => Pure.pure (.halted h, r.2)
    | o => f r.2 >>= fun r' =>
      match r'.1 with
      | .halted h => Pure.pure (.halted h, r'.2)
      | _ => Pure.pure (o, r'.2)

def attempt (m : Action ε ρ κ η σ α) : Action ε ρ κ η σ (Except κ α) := fun s =>
  m s >>= fun r =>
    match r.1 with
    | .value a => Pure.pure (.value (.ok a), r.2)
    | .error e => Pure.pure (.value (.error e), r.2)
    | .halted h => Pure.pure (.halted h, r.2)

/-- The state that is left behind, on a part of a larger state. -/
def zoom (part : τ → σ) (put : σ → τ → τ) (m : Action ε ρ κ η σ α) : Action ε ρ κ η τ α :=
  fun t => m (part t) >>= fun r => Pure.pure (r.1, put r.2 t)

/-- An action with a state of its own, which is returned with the value and lost with an error. -/
def withState (s : σ) (m : Action ε ρ κ η σ α) : Action ε ρ κ η τ (α × σ) :=
  fun t => m s >>= fun r =>
    match r.1 with
    | .value a => Pure.pure (.value (a, r.2), t)
    | .error e => Pure.pure (.error e, t)
    | .halted h => Pure.pure (.halted h, t)

/-! ## Steps that are known -/

section Steps

variable {m : Action ε ρ κ η σ α} {s s' : σ} {f : α → Action ε ρ κ η σ β}

theorem bind_of_value {a : α} (hm : m s = Pure.pure (.value a, s')) : (m >>= f) s = f a s' := by
  change m s >>= andThen f = _
  rw [hm]
  rfl

theorem bind_of_error {e : κ} (hm : m s = Pure.pure (.error e, s')) :
    (m >>= f) s = Pure.pure (.error e, s') := by
  change m s >>= andThen f = _
  rw [hm]
  rfl

theorem bind_of_halted {x : η} (hm : m s = Pure.pure (.halted x, s')) :
    (m >>= f) s = Pure.pure (.halted x, s') := by
  change m s >>= andThen f = _
  rw [hm]
  rfl

theorem bind_of_call {e : ε} {k : ρ e → Program ε ρ (Outcome κ η α × σ)} (hm : m s = .call e k) :
    (m >>= f) s = .call e fun r => k r >>= andThen f := by
  change m s >>= andThen f = _
  rw [hm]
  rfl

def Silent (m : Action ε ρ κ η σ α) (s : σ) : Prop := ∃ r, m s = Pure.pure r

theorem Silent.bind (hm : Silent m s) (hf : ∀ a s', Silent (f a) s') : Silent (m >>= f) s := by
  obtain ⟨⟨o, s'⟩, hm⟩ := hm
  cases o with
  | value a =>
    obtain ⟨r, hr⟩ := hf a s'
    exact ⟨r, (bind_of_value hm).trans hr⟩
  | error x => exact ⟨_, bind_of_error hm⟩
  | halted x => exact ⟨_, bind_of_halted hm⟩

theorem silent_andThen (hf : ∀ a s', Silent (f a) s') (r : Outcome κ η α × σ) :
    ∃ r', andThen f r = Pure.pure r' := by
  obtain ⟨o, s'⟩ := r
  cases o with
  | value a => exact hf a s'
  | error x => exact ⟨_, rfl⟩
  | halted x => exact ⟨_, rfl⟩

end Steps

/-! ## Triples -/

/-- What is asked of the value, the error or the halt, and of the state behind it. -/
def Ends (V : α → σ → Prop) (E : κ → σ → Prop) (H : η → σ → Prop) (r : Outcome κ η α × σ) : Prop :=
  match r.1 with
  | .value a => V a r.2
  | .error e => E e r.2
  | .halted h => H h r.2

theorem Ends.mono {V V' : α → σ → Prop} {E E' : κ → σ → Prop} {H H' : η → σ → Prop}
    {r : Outcome κ η α × σ} (h : Ends V E H r) (hV : ∀ a s, V a s → V' a s)
    (hE : ∀ e s, E e s → E' e s) (hH : ∀ x s, H x s → H' x s) : Ends V' E' H' r := by
  obtain ⟨o, s⟩ := r
  cases o with
  | value a => exact hV a s h
  | error e => exact hE e s h
  | halted x => exact hH x s h

/-- All answers of a trace are in `F`. -/
def Given (F : (e : ε) → ρ e → Prop) (t : Program.Trace ε ρ) : Prop := ∀ c ∈ t, F c.1 c.2

theorem given_append {F : (e : ε) → ρ e → Prop} {t u : Program.Trace ε ρ} :
    Given F (t ++ u) ↔ Given F t ∧ Given F u := List.forall_mem_append

/-- What is known of a program whose answers are in `F` is known before the next one. -/
theorem ensures_bind_given {F : (e : ε) → ρ e → Prop} {p : Program ε ρ α} {f : α → Program ε ρ β}
    {A : α → Program.Trace ε ρ → Prop} {B : β → Program.Trace ε ρ → Prop}
    (hp : p.Ensures fun a t => Given F t → A a t)
    (hf : ∀ a t, A a t → (f a).Ensures fun b u => Given F u → B b (t ++ u)) :
    (p >>= f).Ensures fun b t => Given F t → B b t := by
  refine Program.ensures_bind.mpr (Program.Ensures.mono hp fun a t ha => ?_)
  by_cases ht : Given F t
  · exact Program.Ensures.mono (hf a t (ha ht)) fun b u hb hg => hb (given_append.mp hg).2
  · exact (Program.ensures_true _).mono fun _ _ _ hg => absurd (given_append.mp hg).1 ht

/-- What is relied on of the environment, and what is guaranteed of the calls: of one call, if it is
among `calls`, and of a part after another one. -/
structure Interface (ε : Type) (ρ : ε → Type) where
  rely : (e : ε) → ρ e → Prop
  calls : ε → Prop
  guarantee : Program.Trace ε ρ → Prop
  nil : guarantee []
  append : ∀ {t u}, guarantee t → guarantee u → guarantee (t ++ u)
  single : ∀ {e r}, calls e → rely e r → guarantee [⟨e, r⟩]

/-- The interface of actions that are only asked which operations they call. -/
def Interface.calling (rely : (e : ε) → ρ e → Prop) (calls : ε → Prop) : Interface ε ρ where
  rely := rely
  calls := calls
  guarantee := fun t => ∀ c ∈ t, calls c.1
  nil := nofun
  append := fun ht hu => List.forall_mem_append.mpr ⟨ht, hu⟩
  single := fun he _ _ hc => List.mem_singleton.mp hc ▸ he

/-- The calls of a program are guaranteed, and its value is in `Q`, where the answers are relied on. -/
def Meets (I : Interface ε ρ) (p : Program ε ρ α) (Q : α → Prop) : Prop :=
  p.Ensures fun a t => Given I.rely t → I.guarantee t ∧ Q a

theorem meets_pure {I : Interface ε ρ} {a : α} {Q : α → Prop} (h : Q a) :
    Meets I (Pure.pure a : Program ε ρ α) Q := fun _ => ⟨I.nil, h⟩

theorem Meets.mono {I : Interface ε ρ} {p : Program ε ρ α} {Q Q' : α → Prop} (hp : Meets I p Q)
    (h : ∀ a, Q a → Q' a) : Meets I p Q' :=
  Program.Ensures.mono hp fun a _ ha hg => ⟨(ha hg).1, h a (ha hg).2⟩

theorem Meets.bind {I : Interface ε ρ} {p : Program ε ρ α} {f : α → Program ε ρ β} {Q : α → Prop}
    {Q' : β → Prop} (hp : Meets I p Q) (hf : ∀ a, Q a → Meets I (f a) Q') : Meets I (p >>= f) Q' :=
  ensures_bind_given hp fun a _ ha => Program.Ensures.mono (hf a ha.2) fun _ _ hb hg =>
    ⟨I.append ha.1 (hb hg).1, (hb hg).2⟩

/-- From a state with `P` and at an interface, the action ends with a value in `V`, an error in `E` or a
halt in `H`. -/
def Spec (I : Interface ε ρ) (P : σ → Prop) (m : Action ε ρ κ η σ α) (V : α → σ → Prop)
    (E : κ → σ → Prop) (H : η → σ → Prop) : Prop :=
  ∀ s, P s → Meets I (m s) (Ends V E H)

theorem Spec.run {I : Interface ε ρ} {P : σ → Prop} {m : Action ε ρ κ η σ α} {V : α → σ → Prop}
    {E : κ → σ → Prop} {H : η → σ → Prop} (h : Spec I P m V E H) {s : σ} (hs : P s)
    (env : Program.Environment ε ρ) (hg : Given I.rely ((m s).run env []).2) :
    I.guarantee ((m s).run env []).2 ∧ Ends V E H ((m s).run env []).1 := by
  obtain ⟨u, hu, hmeets⟩ := Program.Ensures.run (h s hs) env []
  rw [List.nil_append] at hu
  rw [hu] at hg ⊢
  exact hmeets hg

theorem given_of_environment {F : (e : ε) → ρ e → Prop} {env : Program.Environment ε ρ}
    (henv : ∀ t e, F e (env t e)) (p : Program ε ρ α) : Given F (p.run env []).2 := by
  obtain ⟨u, hu, hanswered, -⟩ := (Program.ensures_true p).run_answered env []
  rw [List.nil_append] at hu
  rintro ⟨e, r⟩ hc
  obtain ⟨t, ht⟩ := hanswered.answer (hu ▸ hc)
  exact ht ▸ henv t e

section Rules

variable {I : Interface ε ρ} {P P' : σ → Prop} {m : Action ε ρ κ η σ α}
  {f : α → Action ε ρ κ η σ β} {V V' : α → σ → Prop} {W : β → σ → Prop} {E E' : κ → σ → Prop}
  {H H' : η → σ → Prop}

theorem spec_pure {a : α} (h : ∀ s, P s → V a s) :
    Spec I P (Pure.pure a : Action ε ρ κ η σ α) V E H := fun s hs => meets_pure (h s hs)

theorem Spec.bind (hm : Spec I P m V E H) (hf : ∀ a, Spec I (V a) (f a) W E H) :
    Spec I P (m >>= f) W E H := by
  refine fun s hs => Meets.bind (hm s hs) ?_
  rintro ⟨o, s'⟩ h
  cases o with
  | value a => exact hf a s' h
  | error e => exact meets_pure h
  | halted x => exact meets_pure h

theorem Spec.mono (h : Spec I P m V E H) (hP : ∀ s, P' s → P s) (hV : ∀ a s, V a s → V' a s)
    (hE : ∀ e s, E e s → E' e s) (hH : ∀ h s, H h s → H' h s) : Spec I P' m V' E' H' :=
  fun s hs => (h s (hP s hs)).mono fun _ hr => hr.mono hV hE hH

theorem Spec.pre (h : Spec I P m V E H) (hP : ∀ s, P' s → P s) : Spec I P' m V E H :=
  h.mono hP (fun _ _ h => h) (fun _ _ h => h) fun _ _ h => h

theorem Spec.post (h : Spec I P m V E H) (hV : ∀ a s, V a s → V' a s) : Spec I P m V' E H :=
  h.mono (fun _ h => h) hV (fun _ _ h => h) fun _ _ h => h

theorem spec_throw {e : κ} (h : ∀ s, P s → E e s) :
    Spec I P (throw e : Action ε ρ κ η σ α) V E H := fun s hs => meets_pure (h s hs)

theorem spec_halt {x : η} (h : ∀ s, P s → H x s) :
    Spec I P (halt x : Action ε ρ κ η σ α) V E H := fun s hs => meets_pure (h s hs)

theorem spec_get : Spec I P (get : Action ε ρ κ η σ σ) (fun a s => P s ∧ a = s) E H :=
  fun _ hs => meets_pure ⟨hs, rfl⟩

theorem spec_modify {g : σ → σ} {V : Unit → σ → Prop} (h : ∀ s, P s → V () (g s)) :
    Spec I P (modify g : Action ε ρ κ η σ Unit) V E H := fun s hs => meets_pure (h s hs)

theorem spec_call {e : ε} (he : I.calls e) :
    Spec I P (call e : Action ε ρ κ η σ (ρ e)) (fun r s => P s ∧ I.rely e r) E H := by
  intro s hs
  refine Program.ensures_bind.mpr fun r hg => ?_
  have hr : I.rely e r := hg ⟨e, r⟩ (List.mem_cons_self ..)
  exact ⟨I.single he hr, hs, hr⟩

theorem Spec.ite {c : Prop} [Decidable c] {n : Action ε ρ κ η σ α} (hm : c → Spec I P m V E H)
    (hn : ¬ c → Spec I P n V E H) : Spec I P (if c then m else n) V E H := by
  split
  · next h => exact hm h
  · next h => exact hn h

theorem spec_of_state (h : ∀ s, P s → Spec I (fun s' => s' = s) m V E H) : Spec I P m V E H :=
  fun s hs => h s hs s rfl

theorem Spec.get_then {f : σ → Action ε ρ κ η σ β} {s : σ}
    (h : Spec I (fun s' => s' = s) (f s) W E H) : Spec I (fun s' => s' = s) (get >>= f) W E H := by
  refine spec_get.bind fun a => spec_of_state ?_
  rintro s' ⟨rfl, rfl⟩
  exact h

theorem Spec.modify_then {g : σ → σ} {f : Unit → Action ε ρ κ η σ β} {s : σ}
    (h : Spec I (fun s' => s' = g s) (f ()) W E H) :
    Spec I (fun s' => s' = s) (modify g >>= f) W E H :=
  (spec_modify (V := fun _ s' => s' = g s) fun _ hs => congrArg g hs).bind fun _ => h

theorem Spec.andFinally {g : Action ε ρ κ η σ Unit} (hm : Spec I P m V E H)
    (hV : ∀ a, Spec I (V a) g (fun _ => V a) (fun _ => V a) H)
    (hE : ∀ e, Spec I (E e) g (fun _ => E e) (fun _ => E e) H) :
    Spec I P (m.andFinally g) V E H := by
  refine fun s hs => Meets.bind (hm s hs) ?_
  rintro ⟨o, s'⟩ h
  cases o with
  | value a =>
    refine (hV a s' h).bind ?_
    rintro ⟨o', s''⟩ h'
    cases o' <;> exact meets_pure h'
  | error e =>
    refine (hE e s' h).bind ?_
    rintro ⟨o', s''⟩ h'
    cases o' <;> exact meets_pure h'
  | halted x => exact meets_pure h

theorem Spec.attempt {V : Except κ α → σ → Prop}
    (hm : Spec I P m (fun a => V (.ok a)) (fun e => V (.error e)) H) :
    Spec I P m.attempt V E H := by
  refine fun s hs => Meets.bind (hm s hs) ?_
  rintro ⟨o, s'⟩ h
  cases o <;> exact meets_pure h

theorem Spec.zoom {part : τ → σ} {put : σ → τ → τ} {P : τ → Prop} {V : α → τ → Prop}
    {E : κ → τ → Prop} {H : η → τ → Prop}
    (h : ∀ t, P t → Spec I (fun s => s = part t) m (fun a s => V a (put s t))
      (fun e s => E e (put s t)) fun x s => H x (put s t)) : Spec I P (m.zoom part put) V E H := by
  refine fun t ht => (h t ht (part t) rfl).bind ?_
  rintro ⟨o, s⟩ hr
  cases o <;> exact meets_pure hr

theorem Spec.withState {t : σ} {P : τ → Prop} {V : α × σ → τ → Prop} {E : κ → τ → Prop}
    {H : η → τ → Prop} (h : ∀ u, P u → Spec I (fun s => s = t) m (fun a s => V (a, s) u)
      (fun e _ => E e u) fun x _ => H x u) : Spec I P (m.withState t) V E H := by
  refine fun u hu => (h u hu t rfl).bind ?_
  rintro ⟨o, s⟩ hr
  cases o <;> exact meets_pure hr

end Rules

/-! ## One answer for every operation -/

/-- What an action comes to, and its state, when every operation has one answer. -/
def Comes (answer : (e : ε) → ρ e) (m : Action ε ρ κ η σ α) (s : σ) (o : Outcome κ η α) (s' : σ) : Prop :=
  ((m s).evalWith answer).1 = (o, s')

section Comes

variable {answer : (e : ε) → ρ e} {m : Action ε ρ κ η σ α} {f : α → Action ε ρ κ η σ β} {s s' s'' : σ}
  {o : Outcome κ η β}

theorem Comes.run {o : Outcome κ η α} (hm : Comes answer m s o s') :
    ((m s).run (fun _ e => answer e) []).1 = (o, s') := by
  rw [Program.run_const]
  exact hm

theorem comes_of_pure {o : Outcome κ η α} (hm : m s = Pure.pure (o, s')) : Comes answer m s o s' := by
  rw [Comes, hm]
  rfl

theorem comes_get {s : σ} : Comes answer (get : Action ε ρ κ η σ σ) s (.value s) s := rfl

theorem comes_modify {g : σ → σ} {s : σ} :
    Comes answer (modify g : Action ε ρ κ η σ Unit) s (.value ()) (g s) := rfl

theorem Comes.bind {a : α} (hm : Comes answer m s (.value a) s') (hf : Comes answer (f a) s' o s'') :
    Comes answer (m >>= f) s o s'' := by
  change ((m s >>= andThen f).evalWith answer).1 = _
  rw [Program.evalWith_bind, hm]
  exact hf

theorem Comes.halted {x : η} (hm : Comes answer m s (.halted x) s') :
    Comes answer (m >>= f) s (.halted x) s' := by
  change ((m s >>= andThen f).evalWith answer).1 = _
  rw [Program.evalWith_bind, hm]
  rfl

theorem Comes.attempt_halted {x : η} (hm : Comes answer m s (.halted x) s') :
    Comes answer m.attempt s (.halted x) s' := by
  rw [Comes, attempt, Program.evalWith_bind, hm]
  rfl

theorem Comes.andFinally {g : Action ε ρ κ η σ Unit} {a : α} (hm : Comes answer m s (.value a) s')
    (hg : Comes answer g s' (.value ()) s'') : Comes answer (m.andFinally g) s (.value a) s'' := by
  rw [Comes, Action.andFinally, Program.evalWith_bind, hm, Program.evalWith_bind, hg]
  rfl

theorem Comes.zoom {part : τ → σ} {put : σ → τ → τ} {t : τ} {o : Outcome κ η α}
    (hm : Comes answer m (part t) o s') : Comes answer (m.zoom part put) t o (put s' t) := by
  rw [Comes, Action.zoom, Program.evalWith_bind, hm]
  rfl

theorem Comes.withState {a : α} (hm : Comes answer m s (.value a) s') (t : τ) :
    Comes answer (m.withState s) t (.value (a, s')) t := by
  rw [Comes, Action.withState, Program.evalWith_bind, hm]
  rfl

end Comes

/-! ## Actions without a state and without a halt -/

/-- An action that has no state and cannot halt, in a larger one. -/
def embed (m : Action ε ρ κ Empty Unit α) : Action ε ρ κ η σ α := fun s =>
  m () >>= fun r =>
    match r.1 with
    | .value a => Pure.pure (.value a, s)
    | .error e => Pure.pure (.error e, s)

theorem Spec.embed {I : Interface ε ρ} {m : Action ε ρ κ Empty Unit α} {A : α → Prop}
    {B : κ → Prop} (hm : Spec I (fun _ => True) m (fun a _ => A a) (fun e _ => B e) fun x _ => x.elim)
    (P : σ → Prop) (H : η → σ → Prop) :
    Spec I P m.embed (fun a s => P s ∧ A a) (fun e s => P s ∧ B e) H := by
  refine fun s hs => (hm () trivial).bind ?_
  rintro ⟨o, u⟩ h
  cases o with
  | value a => exact meets_pure ⟨hs, h⟩
  | error e => exact meets_pure ⟨hs, h⟩
  | halted x => exact x.elim

end Action

end WslFreeBSD.Lib
