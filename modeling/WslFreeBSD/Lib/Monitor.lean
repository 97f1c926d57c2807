import WslFreeBSD.Lib.Runs
import WslFreeBSD.Lib.Transitions

/-!
# Monitors

A value that a mutex protects, and a condition variable: a call waits until the value is `ready` for it, has
its effect, wakes all threads that wait, and leaves. `step` takes threads through their calls one move at a
time; a thread that waits may be woken for no reason, and the wait of a `timed` call may end without the
condition.

In every run the lock has one holder (`Sound.owner`), the value is what the effects so far have made of it,
each in a state that was ready for it (`Sound.value`, `Sound.legal`), and no wakeup is lost: the value is not
ready for a thread that sleeps, unless another one is about to wake it (`Sound.asleep`). So the calls come to
the same as if each of them were one step (`Sound.atomic`).
-/

namespace WslFreeBSD.Lib

/-- The calls `ι` on a value of the type `σ`. -/
structure Monitor (σ ι : Type*) where
  ready : ι → σ → Bool
  effect : ι → σ → σ
  timed : ι → Bool

namespace Monitor

variable {σ ι τ : Type*}

/-- Where a thread is. -/
inductive Stage (ι : Type*) where
  | outside
  /-- It waits for the lock. -/
  | entering (c : ι)
  /-- It has the lock and looks at the value. -/
  | testing (c : ι)
  | asleep (c : ι)
  | woken (c : ι)
  /-- Its wait has timed out. -/
  | late (c : ι)
  /-- The effect has taken place. -/
  | notifying (c : ι)
  | leaving (c : ι)

def Stage.holds : Stage ι → Bool
  | .testing _ => true
  | .notifying _ => true
  | .leaving _ => true
  | _ => false

def Stage.sleeps : Stage ι → Bool
  | .asleep _ => true
  | _ => false

def Stage.notifies : Stage ι → Bool
  | .notifying _ => true
  | _ => false

/-- What `notify_all` does to a thread. -/
def Stage.notified : Stage ι → Stage ι
  | .asleep c => .woken c
  | s => s

/-- `history` are the effects that have taken place, oldest first, each with its thread, its call and the value
that it found. -/
structure World (σ ι τ : Type*) where
  value : σ
  owner : Option τ := none
  stage : τ → Stage ι := fun _ => .outside
  history : List (τ × ι × σ) := []

inductive Move (ι : Type*) where
  | call (c : ι)
  | lock
  | test
  | wake
  | timeout
  | giveUp
  | notify
  | unlock

variable (M : Monitor σ ι)

def apply (c : ι) (s : σ) : Option σ := if M.ready c s then some (M.effect c s) else none

def after (s₀ : σ) (history : List (τ × ι × σ)) : σ := history.foldl (fun s e => M.effect e.2.1 s) s₀

/-- An effect takes place in the state that the effects before it have left, and is ready for it. -/
def Legal (s₀ : σ) (p : List (τ × ι × σ)) (e : τ × ι × σ) : Prop :=
  e.2.2 = M.after s₀ p ∧ M.ready e.2.1 e.2.2 = true

structure Sound (s₀ : σ) (w : World σ ι τ) : Prop where
  owner : ∀ t, w.owner = some t ↔ (w.stage t).holds = true
  value : w.value = M.after s₀ w.history
  legal : Preceded (M.Legal s₀) w.history
  asleep : ∀ t c, w.stage t = .asleep c → M.ready c w.value = true → ∃ u d, w.stage u = .notifying d
  late : ∀ t c, w.stage t = .late c → M.timed c = true

variable {M} in
theorem after_concat (s₀ : σ) (history : List (τ × ι × σ)) (e : τ × ι × σ) :
    M.after s₀ (history ++ [e]) = M.effect e.2.1 (M.after s₀ history) :=
  List.foldl_concat _ _ _ _

variable [DecidableEq τ]

def World.goto (w : World σ ι τ) (t : τ) (s : Stage ι) : World σ ι τ :=
  { w with stage := Function.update w.stage t s }

/-- `notify_all`. -/
def World.wakeAll (w : World σ ι τ) : World σ ι τ := { w with stage := fun u => (w.stage u).notified }

def step (w : World σ ι τ) : τ × Move ι → Option (World σ ι τ)
  | (t, .call c) =>
    match w.stage t with
    | .outside => some (w.goto t (.entering c))
    | _ => none
  | (t, .lock) =>
    match w.owner, w.stage t with
    | none, .entering c => some { w.goto t (.testing c) with owner := some t }
    | none, .woken c => some { w.goto t (.testing c) with owner := some t }
    | _, _ => none
  | (t, .test) =>
    match w.stage t with
    | .testing c =>
      if M.ready c w.value then
        some { w.goto t (.notifying c) with
          value := M.effect c w.value
          history := w.history ++ [(t, c, w.value)] }
      else some { w.goto t (.asleep c) with owner := none }
    | _ => none
  | (t, .wake) =>
    match w.stage t with
    | .asleep c => some (w.goto t (.woken c))
    | _ => none
  | (t, .timeout) =>
    match w.stage t with
    | .asleep c => if M.timed c then some (w.goto t (.late c)) else none
    | .woken c => if M.timed c then some (w.goto t (.late c)) else none
    | _ => none
  | (t, .giveUp) =>
    match w.owner, w.stage t with
    | none, .late _ => some (w.goto t .outside)
    | _, _ => none
  | (t, .notify) =>
    match w.stage t with
    | .notifying c => some (w.wakeAll.goto t (.leaving c))
    | _ => none
  | (t, .unlock) =>
    match w.stage t with
    | .leaving _ => some { w.goto t .outside with owner := none }
    | _ => none

variable {M} {s₀ : σ} {w w' : World σ ι τ} {t : τ}

@[simp] theorem goto_stage (s : Stage ι) : (w.goto t s).stage t = s := Function.update_self ..

theorem goto_stage_of_ne {u : τ} (hu : u ≠ t) (s : Stage ι) : (w.goto t s).stage u = w.stage u :=
  Function.update_of_ne hu ..

/-- The ways in which a step can go on. -/
inductive Moves (M : Monitor σ ι) (w : World σ ι τ) (t : τ) : Move ι → World σ ι τ → Prop where
  /-- From one stage without the lock to another one, in which it does not sleep. -/
  | stir (m : Move ι) (s : Stage ι) (hout : (w.stage t).holds = false) (hs : s.holds = false)
    (hsleep : s.sleeps = false) (hlate : ∀ c, s = .late c → M.timed c = true) : Moves M w t m (w.goto t s)
  | lock (c : ι) (hout : (w.stage t).holds = false) (hfree : w.owner = none) :
    Moves M w t .lock { w.goto t (.testing c) with owner := some t }
  | effect {c : ι} (h : w.stage t = .testing c) (hready : M.ready c w.value = true) :
    Moves M w t .test { w.goto t (.notifying c) with
      value := M.effect c w.value
      history := w.history ++ [(t, c, w.value)] }
  | sleep {c : ι} (h : w.stage t = .testing c) (hready : M.ready c w.value = false) :
    Moves M w t .test { w.goto t (.asleep c) with owner := none }
  | notify {c : ι} (h : w.stage t = .notifying c) : Moves M w t .notify (w.wakeAll.goto t (.leaving c))
  | unlock {c : ι} (h : w.stage t = .leaving c) :
    Moves M w t .unlock { w.goto t .outside with owner := none }

theorem moves_of_step {m : Move ι} (hstep : M.step w (t, m) = some w') : Moves M w t m w' := by
  cases m with
  | call c =>
    simp only [step] at hstep
    split at hstep <;> cases hstep
    rename_i h
    exact .stir _ (.entering c) (by rw [h]; rfl) rfl rfl (by rintro d ⟨⟩)
  | lock =>
    simp only [step] at hstep
    split at hstep <;> cases hstep
    · rename_i c hfree h
      exact .lock c (by rw [h]; rfl) hfree
    · rename_i c hfree h
      exact .lock c (by rw [h]; rfl) hfree
  | test =>
    simp only [step] at hstep
    split at hstep
    · rename_i c h
      split at hstep <;> cases hstep
      · rename_i hready
        exact .effect h hready
      · rename_i hready
        exact .sleep h (Bool.eq_false_iff.mpr hready)
    · cases hstep
  | wake =>
    simp only [step] at hstep
    split at hstep <;> cases hstep
    rename_i c h
    exact .stir _ (.woken c) (by rw [h]; rfl) rfl rfl (by rintro d ⟨⟩)
  | timeout =>
    simp only [step] at hstep
    split at hstep
    · rename_i c h
      split at hstep <;> cases hstep
      rename_i htimed
      exact .stir _ (.late c) (by rw [h]; rfl) rfl rfl (by rintro d ⟨⟩; exact htimed)
    · rename_i c h
      split at hstep <;> cases hstep
      rename_i htimed
      exact .stir _ (.late c) (by rw [h]; rfl) rfl rfl (by rintro d ⟨⟩; exact htimed)
    · cases hstep
  | giveUp =>
    simp only [step] at hstep
    split at hstep <;> cases hstep
    rename_i c hfree h
    exact .stir _ .outside (by rw [h]; rfl) rfl rfl (by rintro d ⟨⟩)
  | notify =>
    simp only [step] at hstep
    split at hstep <;> cases hstep
    rename_i h
    exact .notify h
  | unlock =>
    simp only [step] at hstep
    split at hstep <;> cases hstep
    rename_i h
    exact .unlock h

theorem notifies_of_holds {s : Stage ι} (h : s.holds = false) : s.notifies = false := by
  cases s <;> first | rfl | cases h

theorem holds_notified (s : Stage ι) : s.notified.holds = s.holds := by
  cases s <;> rfl

omit [DecidableEq τ] in
theorem Sound.eq_of_holds (h : M.Sound s₀ w) {u : τ} (ht : (w.stage t).holds = true)
    (hu : (w.stage u).holds = true) : u = t :=
  Option.some.inj (((h.owner u).mpr hu).symm.trans ((h.owner t).mpr ht))

omit [DecidableEq τ] in
theorem Sound.not_ready (h : M.Sound s₀ w) (ht : (w.stage t).holds = true)
    (hquiet : (w.stage t).notifies = false) {u : τ} {c : ι} (hu : w.stage u = .asleep c) :
    M.ready c w.value = false := by
  rw [Bool.eq_false_iff]
  intro hready
  obtain ⟨v, d, hv⟩ := h.asleep u c hu hready
  obtain rfl : v = t := h.eq_of_holds ht (by rw [hv]; rfl)
  rw [hv] at hquiet
  cases hquiet

/-- The lock changes hands at `t` only. -/
theorem owner_of_goto (h : M.Sound s₀ w) {s : Stage ι} {owner : Option τ}
    (hfree : (w.stage t).holds = true ∨ w.owner = none)
    (howner : owner = if s.holds then some t else none) (u : τ) :
    owner = some u ↔ ((w.goto t s).stage u).holds = true := by
  by_cases hu : u = t
  · subst hu
    rw [goto_stage, howner]
    cases s.holds <;> simp
  · have hout : (w.stage u).holds = false := by
      rw [Bool.eq_false_iff]
      intro hin
      rcases hfree with ht | hnone
      · exact hu (h.eq_of_holds ht hin)
      · rw [(h.owner u).mpr hin] at hnone
        cases hnone
    rw [goto_stage_of_ne hu, hout, howner]
    cases s.holds <;> simp [Ne.symm hu]

theorem asleep_of_goto (h : M.Sound s₀ w) {s : Stage ι} (hasleep : s.sleeps = false)
    (hquiet : (w.stage t).notifies = false) {u : τ} {c : ι} (hu : (w.goto t s).stage u = .asleep c)
    (hready : M.ready c w.value = true) : ∃ v d, (w.goto t s).stage v = .notifying d := by
  have hut : u ≠ t := by
    rintro rfl
    rw [goto_stage] at hu
    rw [hu] at hasleep
    cases hasleep
  rw [goto_stage_of_ne hut] at hu
  obtain ⟨v, d, hv⟩ := h.asleep u c hu hready
  have hvt : v ≠ t := by
    rintro rfl
    rw [hv] at hquiet
    cases hquiet
  exact ⟨v, d, (goto_stage_of_ne hvt s).trans hv⟩

theorem late_of_goto (h : M.Sound s₀ w) {s : Stage ι} (hs : ∀ c, s = .late c → M.timed c = true) {u : τ}
    {c : ι} (hu : (w.goto t s).stage u = .late c) : M.timed c = true := by
  by_cases hut : u = t
  · subst hut
    rw [goto_stage] at hu
    exact hs c hu
  · rw [goto_stage_of_ne hut] at hu
    exact h.late u c hu

theorem sound_stir (h : M.Sound s₀ w) {s : Stage ι} (hout : (w.stage t).holds = false)
    (hs : s.holds = false) (hsleep : s.sleeps = false) (hlate : ∀ c, s = .late c → M.timed c = true) :
    M.Sound s₀ (w.goto t s) := by
  refine ⟨fun u => ?_, h.value, h.legal,
    fun u c hu hready => asleep_of_goto h hsleep (notifies_of_holds hout) hu hready,
    fun u c hu => late_of_goto h hlate hu⟩
  by_cases hut : u = t
  · subst hut
    change w.owner = some u ↔ ((w.goto u s).stage u).holds = true
    rw [goto_stage, hs, h.owner, hout]
  · change w.owner = some u ↔ ((w.goto t s).stage u).holds = true
    rw [goto_stage_of_ne hut]
    exact h.owner u

theorem sound_step {a : τ × Move ι} (h : M.Sound s₀ w) (hstep : M.step w a = some w') : M.Sound s₀ w' := by
  obtain ⟨t, m⟩ := a
  cases moves_of_step hstep with
  | stir m s hout hs hsleep hlate => exact sound_stir h hout hs hsleep hlate
  | lock c hout hfree =>
    exact ⟨owner_of_goto h (.inr hfree) rfl, h.value, h.legal,
      fun u d hu hready => asleep_of_goto h rfl (notifies_of_holds hout) hu hready,
      fun u d hu => late_of_goto h (by rintro d ⟨⟩) hu⟩
  | @effect c hstage hready =>
    have ht : (w.stage t).holds = true := by rw [hstage]; rfl
    refine ⟨fun u => ?_, ?_, h.legal.concat ⟨h.value, hready⟩, fun u d _ _ => ⟨t, c, goto_stage _⟩,
      fun u d hu => late_of_goto h (by rintro d ⟨⟩) hu⟩
    · have howner := owner_of_goto h (.inl ht) (s := .notifying c) rfl u
      change some t = some u ↔ _ at howner
      rwa [← (h.owner t).mpr ht] at howner
    · change M.effect c w.value = M.after s₀ (w.history ++ [(t, c, w.value)])
      rw [after_concat, ← h.value]
  | @sleep c hstage hready =>
    have ht : (w.stage t).holds = true := by rw [hstage]; rfl
    refine ⟨owner_of_goto h (.inl ht) rfl, h.value, h.legal, fun u d hu hr => ?_,
      fun u d hu => late_of_goto h (by rintro d ⟨⟩) hu⟩
    have hnot : M.ready d w.value = false := by
      by_cases hut : u = t
      · subst hut
        cases (goto_stage (w := w) (t := u) (.asleep c)).symm.trans hu
        exact hready
      · exact h.not_ready ht (by rw [hstage]; rfl) ((goto_stage_of_ne hut _).symm.trans hu)
    rw [show M.ready d w.value = true from hr] at hnot
    cases hnot
  | @notify c hstage =>
    have ht : (w.stage t).holds = true := by rw [hstage]; rfl
    have hother : ∀ {u : τ}, u ≠ t → (w.wakeAll.goto t (.leaving c)).stage u = (w.stage u).notified :=
      fun hut => goto_stage_of_ne hut _
    refine ⟨fun u => ?_, h.value, h.legal, fun u d hu _ => ?_, fun u d hu => ?_⟩
    · by_cases hut : u = t
      · subst hut
        rw [goto_stage]
        exact iff_of_true ((h.owner u).mpr ht) rfl
      · rw [hother hut, holds_notified]
        exact h.owner u
    · by_cases hut : u = t
      · subst hut
        rw [goto_stage] at hu
        cases hu
      · rw [hother hut] at hu
        cases hs : w.stage u <;> rw [hs] at hu <;> cases hu
    · by_cases hut : u = t
      · subst hut
        rw [goto_stage] at hu
        cases hu
      · rw [hother hut] at hu
        refine h.late u d ?_
        cases hs : w.stage u <;> rw [hs] at hu <;> cases hu
        rfl
  | @unlock c hstage =>
    have ht : (w.stage t).holds = true := by rw [hstage]; rfl
    exact ⟨owner_of_goto h (.inl ht) rfl, h.value, h.legal,
      fun u d hu hready => asleep_of_goto h rfl (by rw [hstage]; rfl) hu hready,
      fun u d hu => late_of_goto h (by rintro d ⟨⟩) hu⟩

omit [DecidableEq τ] in
theorem Sound.atomic (h : M.Sound s₀ w) :
    w.history.foldlM (fun s e => M.apply e.2.1 s) s₀ = some w.value := by
  have hlegal := h.legal
  rw [h.value]
  generalize w.history = history at hlegal ⊢
  induction history using List.reverseRecOn with
  | nil => rfl
  | append_singleton history e ih =>
    obtain ⟨hfound, hready⟩ := hlegal history e [] rfl
    rw [List.foldlM_append, ih hlegal.of_append, after_concat]
    change (M.apply e.2.1 (M.after s₀ history)).bind some = _
    rw [Option.bind_fun_some, apply, if_pos (hfound ▸ hready)]

def start (s₀ : σ) : World σ ι τ where
  value := s₀

omit [DecidableEq τ] in
theorem sound_start (s₀ : σ) : M.Sound s₀ (start s₀ : World σ ι τ) where
  owner t := iff_of_false (by simp [start]) (by simp [start, Stage.holds])
  value := rfl
  legal := Preceded.nil
  asleep t c h := by cases h
  late t c h := by cases h

theorem reaches_sound {C : World σ ι τ → τ × Move ι → Prop} (h : Reaches M.step C (start s₀) w) :
    M.Sound s₀ w :=
  h.invariant (sound_start s₀) fun _ _ _ hw _ hstep => sound_step hw hstep

end Monitor

end WslFreeBSD.Lib
