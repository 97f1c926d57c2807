import WslFreeBSD.Plan9.FlushOrder

/-!
# The bytes on the socket

The task that has `m_SocketLock` sends its response piece by piece. When its send is cancelled, or fails
while the socket still takes bytes, the lock goes to the next task, and `SendAsync` tries `send` before it
looks at the token.
-/

namespace WslFreeBSD.Plan9.Tasks

open Lib

variable {s s' : State} {a : Act} {t i n : Nat} {p : Phase} {th : Task}

/-! ## The lock -/

/-- The task has `m_SocketLock`. -/
def Phase.holding : Phase → Bool
  | .sending | .suspended | .sent | .failed => true
  | _ => false

/-- One task has the lock. -/
structure Exclusive (s : State) : Prop where
  held : ∀ t, (s.tasks t).phase.holding = true → s.socketLock.state ≠ none
  unique : ∀ t t', (s.tasks t).phase.holding = true → (s.tasks t').phase.holding = true → t = t'

namespace Exclusive

theorem init : Exclusive {} where
  held _ h := by cases h
  unique _ _ h := by cases h

theorem frame (h : Exclusive s) (hlock : s'.socketLock = s.socketLock)
    (hholding : ∀ i, (s'.tasks i).phase.holding = (s.tasks i).phase.holding) : Exclusive s' where
  held t := by
    rw [hholding, hlock]
    exact h.held t
  unique t t' := by
    rw [hholding, hholding]
    exact h.unique t t'

theorem goesOn (h : Exclusive s) (hphase : (s.tasks t).phase = p)
    (hholding : th.phase.holding = p.holding) : Exclusive (s.setTask t th) :=
  h.frame rfl (setTask_eq (·.phase.holding) (by rw [hphase, hholding]))

theorem lockSocket (h : Exclusive s) (hphase : (s.tasks t).phase = .answered) :
    Exclusive (lockSocket s t) := by
  unfold Tasks.lockSocket
  by_cases hfree : s.socketLock.state = none
  · rw [AsyncLock.lock_free hfree]
    have hnone : ∀ i, (s.tasks i).phase.holding = false := by
      intro i
      by_contra hi
      exact h.held i (by simpa using hi) hfree
    have hother : ∀ i, ((({ s with socketLock := { s.socketLock with state := some [] } } : State).setPhase
        t .sending).tasks i).phase.holding = true → i = t := by
      intro i hi
      by_contra hne
      rw [setPhase_other hne] at hi
      simp [hnone i] at hi
    exact ⟨fun i _ => by simp [State.setPhase, State.setTask],
      fun i j hi hj => (hother i hi).trans (hother j hj).symm⟩
  · obtain ⟨hsusp, hstate, -⟩ := AsyncLock.lock_held (t := t) hfree
    simp only [hsusp, if_true]
    have hholding : ∀ i, (({ s with socketLock := (s.socketLock.lock t).1 }.setPhase t .locking).tasks
        i).phase.holding = (s.tasks i).phase.holding :=
      setPhase_eq (·.phase.holding) (congrArg Phase.holding hphase).symm
    refine ⟨fun _ _ => hstate, fun i j => ?_⟩
    rw [hholding, hholding]
    exact h.unique i j

theorem unlockSocket (h : Exclusive s) (hsane : Sane s) {next : Phase}
    (ht : (s.tasks t).phase.holding = true) (hsusp : (s.tasks t).phase.suspension = none)
    (hnext : next.holding = false) : Exclusive (unlockSocket s t next) := by
  have hone : ∀ i, i ≠ t → (s.tasks i).phase.holding = false := by
    intro i hi
    by_contra hholding
    exact hi (h.unique i t (by simpa using hholding) ht)
  have hnone : ∀ i, (({ s with socketLock := s.socketLock.unlock.1 }.setPhase t next).tasks
      i).phase.holding = false := by
    intro i
    rcases eq_or_ne i t with rfl | hi
    · rw [setPhase_self, hnext]
    · rw [setPhase_other hi]
      exact hone i hi
  obtain ⟨-, -, -, heq⟩ | ⟨w, hne, hw, -, hstate, heq⟩ := hsane.waiters.unlock_cases hsusp next
  · rw [heq]
    refine ⟨fun i hi => ?_, fun i j hi => ?_⟩
    · rw [hnone] at hi
      cases hi
    · rw [hnone] at hi
      cases hi
  · rw [heq]
    have hother : ∀ i, ((({ s with socketLock := s.socketLock.unlock.1 }.setPhase t next).setPhase w
        .sending).tasks i).phase.holding = true → i = w := by
      intro i hi
      by_contra hiw
      rw [setPhase_other hiw, hnone] at hi
      cases hi
    exact ⟨fun _ _ => hstate, fun i j hi hj => (hother i hi).trans (hother j hj).symm⟩

theorem step (h : Exclusive s) (hsane : Sane s) (hs : step s a = some s') : Exclusive s' := by
  cases step_cases hs with
  | check _ | stop _ | shutdown _ | wait _ _ => exact h.frame rfl fun _ => rfl
  | @receive tag oldTag _ =>
    have hnew : Exclusive ((s.use s.requests).setTask s.count
        { tag := tag, oldTag := oldTag, phase := .acquiring }) :=
      Exclusive.goesOn (h.frame rfl fun _ => rfl) hsane.registry.next rfl
    exact hnew.frame rfl fun _ => rfl
  | spawn hloop _ =>
    exact Exclusive.goesOn (h.frame rfl fun _ => rfl) (hsane.registry.last hloop) rfl
  | handle hphase _ => exact h.goesOn hphase rfl
  | @flush t oldTag hphase _ =>
    unfold handleFlush
    cases search s oldTag <;> exact Exclusive.goesOn (h.frame rfl fun _ => rfl) hphase rfl
  | @await t r hphase =>
    refine Exclusive.goesOn (h.frame rfl fun _ => rfl) hphase ?_
    dsimp only
    split <;> rfl
  | flushed hphase => exact Exclusive.goesOn (h.frame rfl fun _ => rfl) hphase rfl
  | lock hphase => exact h.lockSocket hphase
  | send hphase _ _ =>
    refine Exclusive.goesOn (h.frame rfl fun _ => rfl) hphase ?_
    dsimp only
    split <;> rfl
  | block hphase => exact h.goesOn hphase rfl
  | error hphase => exact Exclusive.goesOn (h.frame rfl fun _ => rfl) hphase rfl
  | ready hphase => exact h.goesOn hphase rfl
  | cancelled hphase _ => exact h.goesOn hphase rfl
  | unlockSent hphase => exact h.unlockSocket hsane (by rw [hphase]; rfl) (by rw [hphase]; rfl) rfl
  | unlockFailed hphase => exact h.unlockSocket hsane (by rw [hphase]; rfl) (by rw [hphase]; rfl) rfl
  | caught hphase => exact Exclusive.goesOn (h.frame rfl fun _ => rfl) hphase rfl
  | remove hphase => exact Exclusive.goesOn (h.frame rfl fun _ => rfl) hphase rfl
  | release hphase => exact Exclusive.goesOn (h.frame rfl fun _ => rfl) hphase rfl
  | set hphase =>
    exact h.frame rfl (setEvent_eq hsane.waiters Phase.holding (by rw [hphase]; rfl) rfl)
  | @finish t owned hphase =>
    refine h.frame (by cases owned <;> rfl) fun i => ?_
    rw [finish_tasks]
    exact setPhase_eq (·.phase.holding) (by simp [hphase, Phase.holding]) i

end Exclusive

/-! ## Responses and what is sent of them -/

/-- What a task has built and sent at its place. -/
structure Task.Consistent (th : Task) : Prop where
  unsent : th.phase.over = false → th.phase.holding = false → th.totalSent = 0
  built : th.phase.replied = true → ∃ type body, th.response = message type th.tag body
  rest : th.phase.replied = true → th.phase.over = false → th.totalSent < th.response.length
  complete : th.phase = .sent → th.totalSent = th.response.length
  bounded : th.totalSent ≤ th.response.length

/-- The move from one phase to the other builds and sends nothing. -/
def quiet (p p' : Phase) : Bool :=
  p'.replied == p.replied && p' != .sent &&
    (p'.over || (!p.over && (!p.holding || p'.holding)))

/-- Some of the response is sent, and the rest will not be. -/
def Truncated (s : State) (i : Nat) : Prop :=
  (s.tasks i).phase.over = true ∧ 0 < (s.tasks i).totalSent ∧ ¬ Answered s i

/-- The bytes on the socket are whole responses, each of another task, and a part of the response of
`last`, and no other task has sent anything. -/
def SentAre (s : State) (whole : List Nat) (last : Nat) : Prop :=
  s.sent = (whole.flatMap fun i => (s.tasks i).response) ++
      (s.tasks last).response.take (s.tasks last).totalSent ∧
    whole.Nodup ∧ last ∉ whole ∧ (∀ i ∈ whole, Answered s i) ∧
      ∀ i, i ∉ whole → i ≠ last → (s.tasks i).totalSent = 0

/-- What is to hold of the bytes on the socket. -/
structure Framed (s : State) : Prop where
  bytes : ∃ whole last, SentAre s whole last
  /-- Every response carries the tag of its request. -/
  tagged : ∀ i, 0 < (s.tasks i).totalSent →
    ∃ type body, (s.tasks i).response = message type (s.tasks i).tag body

/-- A send is cancelled, or fails without breaking the socket, with a part of its response sent, only when
no other request is to be answered; and none is received behind it. -/
def Drained (s : State) : Act → Prop
  | .error t broken => broken = true ∨ s.broken = true ∨ (s.tasks t).totalSent = 0 ∨
      ∀ i < s.count, i ≠ t → (s.tasks i).phase.over = true
  | .cancelled t => s.broken = true ∨ (s.tasks t).totalSent = 0 ∨
      ∀ i < s.count, i ≠ t → (s.tasks i).phase.over = true
  | .receive _ _ => s.broken = true ∨ ∀ i, ¬ Truncated s i
  | _ => True

/-! ### The tasks through a step -/

theorem length_message (type : Nat) (tag : UInt16) (body : Bytes) :
    (message type tag body).length = 7 + body.length := by
  simp [message]
  omega

namespace Task.Consistent

theorem absent {tag : UInt16} {oldTag : Option UInt16} (hp : p.replied = false)
    (hsent : p ≠ .sent) : Task.Consistent { tag := tag, oldTag := oldTag, phase := p } where
  unsent _ _ := rfl
  built h := by simp [hp] at h
  rest h := by simp [hp] at h
  complete h := absurd h hsent
  bounded := le_rfl

theorem moved (h : th.Consistent) {p' : Phase} (hquiet : quiet th.phase p' = true) :
    { th with phase := p' }.Consistent := by
  simp only [quiet, Bool.and_eq_true, beq_iff_eq, bne_iff_ne, Bool.or_eq_true, Bool.not_eq_true'] at hquiet
  obtain ⟨⟨hreplied, hsent⟩, hover⟩ := hquiet
  have hrest : p'.over = false → th.phase.over = false ∧
      (p'.holding = false → th.phase.holding = false) := by
    intro hnot
    obtain ⟨hold, hholding⟩ := hover.resolve_left (by simp [hnot])
    exact ⟨hold, fun hfree => hholding.resolve_right (by simp [hfree])⟩
  exact ⟨fun hnot hfree => h.unsent (hrest hnot).1 ((hrest hnot).2 hfree), fun hp => h.built (hreplied ▸ hp),
    fun hp hnot => h.rest (hreplied ▸ hp) (hrest hnot).1, fun hp => absurd hp hsent, h.bounded⟩

theorem answered (h : th.Consistent) (hover : th.phase.over = false) (hholding : th.phase.holding = false)
    (type : Nat) (body : Bytes) :
    { th with phase := .answered, response := message type th.tag body }.Consistent where
  unsent _ _ := h.unsent hover hholding
  built _ := ⟨type, body, rfl⟩
  rest _ _ := by
    rw [length_message, h.unsent hover hholding]
    omega
  complete hp := by cases hp
  bounded := by
    rw [h.unsent hover hholding]
    exact Nat.zero_le _

theorem sendBytes (h : th.Consistent) (hphase : th.phase = .sending)
    (hroom : th.totalSent + n ≤ th.response.length) :
    { th with
      phase := if th.totalSent + n < th.response.length then .sending else .sent
      totalSent := th.totalSent + n }.Consistent := by
  have hbuilt := h.built (by rw [hphase]; rfl)
  split
  next hmore =>
    exact ⟨fun _ hfree => (by cases hfree), fun _ => hbuilt, fun _ _ => hmore,
      fun hp => (by cases hp), hroom⟩
  next hall =>
    exact ⟨fun hnot => (by cases hnot), fun _ => hbuilt, fun _ hnot => (by cases hnot),
      fun _ => le_antisymm hroom (not_lt.mp hall), hroom⟩

end Task.Consistent

theorem consistent_setTask {u : State} (h : ∀ i, (s.tasks i).Consistent) (hu : u.tasks = s.tasks)
    (hth : th.Consistent) (i : Nat) : ((u.setTask t th).tasks i).Consistent := by
  rcases eq_or_ne i t with rfl | hi
  · rw [setTask_self]
    exact hth
  · rw [setTask_other hi, hu]
    exact h i

theorem consistent_setPhase {u : State} (h : ∀ i, (s.tasks i).Consistent) (hu : u.tasks = s.tasks)
    (hphase : (s.tasks t).phase = p) {p' : Phase} (hquiet : quiet p p' = true) (i : Nat) :
    ((u.setPhase t p').tasks i).Consistent := by
  refine consistent_setTask h hu ?_ i
  rw [hu]
  exact (h t).moved (hphase ▸ hquiet)

theorem consistent_unlockSocket (h : ∀ i, (s.tasks i).Consistent) (hsane : Sane s) {next : Phase}
    (hphase : (s.tasks t).phase = p) (hsusp : p.suspension = none) (hquiet : quiet p next = true) (i : Nat) :
    ((unlockSocket s t next).tasks i).Consistent := by
  have hself : ∀ i, (({ s with socketLock := s.socketLock.unlock.1 }.setPhase t next).tasks
      i).Consistent :=
    consistent_setPhase h rfl hphase hquiet
  obtain ⟨-, -, -, heq⟩ | ⟨w, hne, hw, -, -, heq⟩ := hsane.waiters.unlock_cases (hphase ▸ hsusp) next
  · rw [heq]
    exact hself i
  · rw [heq]
    have hw' : (({ s with socketLock := s.socketLock.unlock.1 }.setPhase t next).tasks w).phase =
        .locking := by
      rw [setPhase_other hne]
      exact hw
    exact consistent_setPhase hself rfl hw' (by rfl) i

theorem consistent_setEvent (h : ∀ i, (s.tasks i).Consistent) (hsane : Sane s) {owned : Bool}
    (hphase : (s.tasks t).phase = .setting owned) (i : Nat) :
    ((setEvent s t owned).tasks i).Consistent := by
  have hwoken : ∀ i, (if i ∈ (s.infos t).event.waiters then { s.tasks i with phase := .woken t }
      else s.tasks i).Consistent := by
    intro i
    split
    next hmem =>
      have hwait : (s.tasks i).phase = .waiting t := suspension_some.mp ((hsane.waiters.event t i).mp hmem)
      exact (h i).moved (by rw [hwait]; rfl)
    next => exact h i
  have hnot : t ∉ (s.infos t).event.waiters := by
    rw [hsane.waiters.event, hphase]
    simp [Phase.suspension]
  unfold setEvent State.setPhase
  rcases eq_or_ne i t with rfl | hi
  · rw [setTask_self]
    dsimp only
    rw [if_neg hnot]
    exact (h i).moved (by rw [hphase]; rfl)
  · rw [setTask_other hi]
    exact hwoken i

theorem consistent_step (h : ∀ i, (s.tasks i).Consistent) (hsane : Sane s)
    (hs : step s a = some s') (i : Nat) : (s'.tasks i).Consistent := by
  have hanswer : ∀ {u : State} {t : Nat}, u.tasks = s.tasks → (s.tasks t).phase.over = false →
      (s.tasks t).phase.holding = false → ∀ type body i, ((answer u t type body).tasks i).Consistent := by
    intro u t hu hover hholding type body i
    refine consistent_setTask h hu ?_ i
    rw [hu]
    exact (h t).answered hover hholding type body
  cases step_cases hs with
  | check _ | stop _ | shutdown _ | wait _ _ => exact h i
  | receive _ => exact consistent_setTask (u := s.use s.requests) h rfl (.absent rfl (by simp)) i
  | spawn hloop _ =>
    exact consistent_setPhase h rfl (hsane.registry.last hloop) (by rfl) i
  | handle hphase _ => exact hanswer rfl (by rw [hphase]; rfl) (by rw [hphase]; rfl) _ _ i
  | @flush t oldTag hphase _ =>
    unfold handleFlush
    cases search s oldTag with
    | none => exact hanswer rfl (by rw [hphase]; rfl) (by rw [hphase]; rfl) _ _ i
    | some r => exact consistent_setPhase h rfl hphase (by rfl) i
  | @await t r hphase =>
    cases hevent : (s.infos r).event with
    | set =>
      rw [awaitEvent_set hevent]
      exact consistent_setPhase h rfl hphase (by rfl) i
    | unset waiters =>
      rw [awaitEvent_unset hevent]
      exact consistent_setPhase h rfl hphase (by rfl) i
  | flushed hphase => exact hanswer rfl (by rw [hphase]; rfl) (by rw [hphase]; rfl) _ _ i
  | @lock t hphase =>
    unfold lockSocket
    by_cases hsusp : (s.socketLock.lock t).2 = true
    · simp only [hsusp, if_true]
      exact consistent_setPhase h rfl hphase (by rfl) i
    · simp only [hsusp, Bool.false_eq_true, if_false]
      exact consistent_setPhase h rfl hphase (by rfl) i
  | @send t n hphase _ hroom => exact consistent_setTask h rfl ((h t).sendBytes hphase hroom) i
  | block hphase =>
    exact consistent_setPhase h rfl hphase (by rfl) i
  | error hphase =>
    exact consistent_setPhase h rfl hphase (by rfl) i
  | ready hphase =>
    exact consistent_setPhase h rfl hphase (by rfl) i
  | cancelled hphase _ =>
    exact consistent_setPhase h rfl hphase (by rfl) i
  | unlockSent hphase => exact consistent_unlockSocket h hsane hphase rfl (by rfl) i
  | unlockFailed hphase => exact consistent_unlockSocket h hsane hphase rfl (by rfl) i
  | caught hphase =>
    exact consistent_setPhase h rfl hphase (by rfl) i
  | remove hphase =>
    exact consistent_setPhase h rfl hphase (by rfl) i
  | release hphase =>
    exact consistent_setPhase h rfl hphase (by rfl) i
  | set hphase => exact consistent_setEvent h hsane hphase i
  | @finish t owned hphase =>
    rw [finish_tasks]
    exact consistent_setPhase h rfl hphase (by rfl) i

/-! ### The bytes through a step -/

theorem over_or_holding (h : (s.tasks i).Consistent) (hsent : 0 < (s.tasks i).totalSent) :
    (s.tasks i).phase.over = true ∨ (s.tasks i).phase.holding = true := by
  by_contra! hnot
  have := h.unsent (by simpa using hnot.1) (by simpa using hnot.2)
  omega

theorem replied_of_sent (h : (s.tasks i).Consistent) (hsent : 0 < (s.tasks i).totalSent) :
    (s.tasks i).phase.replied = true := by
  have hplace := over_or_holding h hsent
  cases hphase : (s.tasks i).phase <;> rw [hphase] at hplace <;>
    simp [Phase.over, Phase.holding] at hplace <;> rfl

theorem sent_of_answered (h : (s.tasks i).Consistent) (hanswered : Answered s i) :
    0 < (s.tasks i).totalSent := by
  have hreplied : (s.tasks i).phase.replied = true := by
    have hover := hanswered.1
    cases hphase : (s.tasks i).phase <;> rw [hphase] at hover <;> first | rfl | cases hover
  obtain ⟨type, body, hbuilt⟩ := h.built hreplied
  rw [hanswered.2, hbuilt, length_message]
  omega

theorem response_step (hs : step s a = some s') (hi : i ≠ s.count)
    (hreplied : (s.tasks i).phase.replied = true) :
    (s'.tasks i).response = (s.tasks i).response := by
  have hne : ∀ {t : Nat} {p : Phase}, (s.tasks t).phase = p → p.replied = false → i ≠ t := by
    rintro t p hphase hp rfl
    rw [hphase, hp] at hreplied
    cases hreplied
  cases step_cases hs with
  | check _ | stop _ | shutdown _ | wait _ _ => rfl
  | receive _ => exact congrArg Task.response (setTask_other hi)
  | handle hphase _ => exact congrArg Task.response (setTask_other (hne hphase rfl))
  | @flush t oldTag hphase _ =>
    unfold handleFlush
    cases search s oldTag <;> exact congrArg Task.response (setTask_other (hne hphase rfl))
  | flushed hphase => exact congrArg Task.response (setTask_other (hne hphase rfl))
  | unlockSent _ | unlockFailed _ =>
    obtain ⟨hnone, -⟩ | ⟨w, hsome, -⟩ := s.socketLock.unlock_spec
    · rw [unlockSocket_none hnone]
      exact setPhase_eq Task.response (by rfl) i
    · rw [unlockSocket_some hsome]
      exact (setPhase_eq Task.response (by rfl) i).trans (setPhase_eq Task.response (by rfl) i)
  | set _ =>
    refine (setPhase_eq Task.response (by rfl) i).trans ?_
    dsimp only
    split <;> rfl
  | finish _ =>
    rw [finish_tasks]
    exact setPhase_eq Task.response (by rfl) i
  | _ => exact setTask_eq Task.response (by rfl) i

theorem step_sent (hs : step s a = some s') (ha : ∀ t n, a ≠ .send t n) : s'.sent = s.sent := by
  cases step_cases hs with
  | send _ _ _ => exact absurd rfl (ha _ _)
  | unlockSent _ | unlockFailed _ => rw [unlockSocket_fields]
  | @flush t oldTag _ _ =>
    unfold handleFlush
    cases search s oldTag <;> rfl
  | @finish t owned _ => cases owned <;> rfl
  | _ => rfl

theorem step_broken (hs : step s a = some s') (hbroken : s.broken = true) : s'.broken = true := by
  cases step_cases hs with
  | error _ => simp [State.setPhase, State.setTask, hbroken]
  | unlockSent _ | unlockFailed _ =>
    rw [unlockSocket_fields]
    exact hbroken
  | @flush t oldTag _ _ =>
    unfold handleFlush
    cases search s oldTag <;> exact hbroken
  | @finish t owned _ => cases owned <;> exact hbroken
  | _ => exact hbroken

theorem ne_count_of_phase (hsane : Sane s) (hphase : (s.tasks i).phase ≠ .absent) : i ≠ s.count := by
  rintro rfl
  exact hphase hsane.registry.next

theorem truncated_step (hsane : Sane s) (hall : ∀ i, (s.tasks i).Consistent)
    (hs : step s a = some s') (h : Truncated s' i) :
    Truncated s i ∨ (0 < (s.tasks i).totalSent ∧
      ((∃ broken, a = .error i broken) ∨ a = .cancelled i)) := by
  have hkept : (s.tasks i).phase.over = true → Truncated s i := by
    intro hover
    have hne : i ≠ s.count := ne_count_of_phase hsane fun habsent => by
      rw [habsent] at hover
      cases hover
    have hresult := congrArg Prod.snd (result_step hs hne hover)
    refine ⟨hover, ?_, fun hanswered => h.2.2 (answered_step hsane hs hanswered)⟩
    rw [show (s.tasks i).totalSent = (s'.tasks i).totalSent from hresult.symm]
    exact h.2.1
  have hsent : (s.tasks i).phase ≠ .absent → (∀ n, a ≠ .send i n) → 0 < (s.tasks i).totalSent := by
    intro hphase ha
    rcases totalSent_step hs (ne_count_of_phase hsane hphase) with hsame | ⟨n, hn, -⟩
    · rw [← hsame]
      exact h.2.1
    · exact absurd hn (ha n)
  have hover' := h.1
  rcases step_moves hsane hs i with hstays | hmoves
  · rw [hstays] at hover'
    exact .inl (hkept hover')
  · generalize hp : (s.tasks i).phase = p at hmoves hkept hsent
    generalize hp' : (s'.tasks i).phase = p' at hmoves hover'
    cases hmoves with
    | send _ =>
      have hcomplete := (consistent_step hall hsane hs i).complete hp'
      exact absurd ⟨h.1, hcomplete⟩ h.2.2
    | error ha =>
      obtain ⟨broken, rfl⟩ := ha
      exact .inr ⟨hsent (by simp) (by simp), .inl ⟨broken, rfl⟩⟩
    | cancelled ha =>
      subst ha
      exact .inr ⟨hsent (by simp) (by simp), .inr rfl⟩
    | unlockSent | unlockFailed | caught | remove | release | set | finish => exact .inl (hkept rfl)
    | _ => cases hover'

/-- A truncated response is the last one of its socket. -/
def Stopped (s : State) : Prop :=
  ∀ i, Truncated s i → s.broken = true ∨ ∀ j < s.count, (s.tasks j).phase.over = true

theorem Stopped.step (h : Stopped s) (hsane : Sane s) (hall : ∀ i, (s.tasks i).Consistent)
    (ha : Drained s a) (hs : Tasks.step s a = some s') : Stopped s' := by
  intro i hi
  by_cases hcount : s'.count = s.count
  · have hothers : (∀ j < s.count, j ≠ i → (s.tasks j).phase.over = true) →
        ∀ j < s'.count, (s'.tasks j).phase.over = true := by
      intro hover j hj
      rcases eq_or_ne j i with rfl | hji
      · exact hi.1
      · exact over_step hsane hs (hover j (hcount ▸ hj) hji)
    rcases truncated_step hsane hall hs hi with htruncated | ⟨hsent, ⟨broken, rfl⟩ | rfl⟩
    · exact (h i htruncated).imp (step_broken hs) fun hover => hothers fun j hj _ => hover j hj
    · rcases ha with rfl | hbroken | hnone | hover
      · refine .inl ?_
        cases step_cases hs with
        | error _ => exact Bool.or_true _
      · exact .inl (step_broken hs hbroken)
      · omega
      · exact .inr (hothers hover)
    · rcases ha with hbroken | hnone | hover
      · exact .inl (step_broken hs hbroken)
      · omega
      · exact .inr (hothers hover)
  · have hlt : s.count < s'.count := lt_of_le_of_ne (step_count hs) (Ne.symm hcount)
    obtain ⟨-, tag, oldTag, rfl, -⟩ := received_step hs hlt (lt_irrefl _)
    rcases ha with hbroken | hnone
    · exact .inl (step_broken hs hbroken)
    · rcases truncated_step hsane hall hs hi with htruncated | ⟨-, ⟨_, hact⟩ | hact⟩
      · exact absurd htruncated (hnone i)
      · cases hact
      · cases hact

theorem SentAre.keep {whole : List Nat} {last : Nat} (h : SentAre s whole last)
    (hall : ∀ i, (s.tasks i).Consistent) (hsent : s'.sent = s.sent)
    (hsame : ∀ i, (s'.tasks i).totalSent = (s.tasks i).totalSent ∧
      (0 < (s.tasks i).totalSent → (s'.tasks i).response = (s.tasks i).response))
    (hanswered : ∀ i, Answered s i → Answered s' i) : SentAre s' whole last := by
  obtain ⟨hbytes, hnodup, hlast, hwhole, hnone⟩ := h
  refine ⟨?_, hnodup, hlast, fun i hi => hanswered i (hwhole i hi), fun i hi hne => ?_⟩
  · have hflat : (whole.flatMap fun i => (s'.tasks i).response) =
        whole.flatMap fun i => (s.tasks i).response := by
      refine List.flatMap_congr fun i hi => ?_
      exact (hsame i).2 (sent_of_answered (hall i) (hwhole i hi))
    have htake : (s'.tasks last).response.take (s'.tasks last).totalSent =
        (s.tasks last).response.take (s.tasks last).totalSent := by
      rw [(hsame last).1]
      rcases Nat.eq_zero_or_pos (s.tasks last).totalSent with hzero | hpos
      · rw [hzero, List.take_zero, List.take_zero]
      · rw [(hsame last).2 hpos]
    rw [hsent, hbytes, hflat, htake]
  · rw [(hsame i).1]
    exact hnone i hi hne

theorem SentAre.focus {whole : List Nat} {last : Nat} (h : SentAre s whole last)
    (ht : (s.tasks t).phase.over = false)
    (hothers : ∀ i, i ≠ t → 0 < (s.tasks i).totalSent → Answered s i) :
    ∃ whole', SentAre s whole' t := by
  have hnot : ¬ Answered s t := fun hanswered => by
    rw [hanswered.1] at ht
    cases ht
  rcases eq_or_ne t last with rfl | hlast
  · exact ⟨whole, h⟩
  obtain ⟨hbytes, hnodup, hmem, hwhole, hnone⟩ := h
  have htwhole : t ∉ whole := fun hin => hnot (hwhole t hin)
  have hzero : (s.tasks t).totalSent = 0 := hnone t htwhole hlast
  rcases Nat.eq_zero_or_pos (s.tasks last).totalSent with hlast0 | hpos
  · refine ⟨whole, ?_, hnodup, htwhole, hwhole, fun i hi hne => ?_⟩
    · rw [hbytes, hlast0, hzero, List.take_zero, List.take_zero]
    · rcases eq_or_ne i last with rfl | hil
      · exact hlast0
      · exact hnone i hi hil
  · have hanswered : Answered s last := hothers last hlast.symm hpos
    refine ⟨whole ++ [last], ?_, ?_, ?_, ?_, fun i hi hne => ?_⟩
    · rw [hbytes, hzero, hanswered.2]
      simp
    · exact List.nodup_append.mpr
        ⟨hnodup, by simp, by simpa using fun i hi => ne_of_mem_of_not_mem hi hmem⟩
    · simp [htwhole, hlast]
    · intro i hi
      rcases List.mem_append.mp hi with hi | hi
      · exact hwhole i hi
      · rw [List.mem_singleton.mp hi]
        exact hanswered
    · rw [List.mem_append, List.mem_singleton, not_or] at hi
      exact hnone i hi.1 hi.2

theorem SentAre.send {whole : List Nat} (h : SentAre s whole t) (n : Nat) :
    SentAre (sendBytes s t n) whole t := by
  obtain ⟨hbytes, hnodup, hmem, hwhole, hnone⟩ := h
  have hother : ∀ i, i ≠ t → (sendBytes s t n).tasks i = s.tasks i := fun i hi => setTask_other hi
  have hself : (sendBytes s t n).tasks t = { s.tasks t with
      phase := if (s.tasks t).totalSent + n < (s.tasks t).response.length then .sending else .sent
      totalSent := (s.tasks t).totalSent + n } := setTask_self
  have hne : ∀ i ∈ whole, i ≠ t := fun i hi => ne_of_mem_of_not_mem hi hmem
  refine ⟨?_, hnodup, hmem, fun i hi => ?_, fun i hi hit => ?_⟩
  · have hflat : (whole.flatMap fun i => ((sendBytes s t n).tasks i).response) =
        whole.flatMap fun i => (s.tasks i).response := by
      refine List.flatMap_congr fun i hi => ?_
      rw [hother i (hne i hi)]
    rw [hflat, hself]
    change s.sent ++ ((s.tasks t).response.drop (s.tasks t).totalSent).take n = _
    rw [hbytes, List.append_assoc, List.take_add]
  · unfold Answered
    rw [hother i (hne i hi)]
    exact hwhole i hi
  · rw [hother i hit]
    exact hnone i hi hit

/-! ## Runs -/

/-- Everything that holds between the steps. -/
structure Sends (s : State) : Prop where
  sane : Sane s
  exclusive : Exclusive s
  consistent : ∀ i, (s.tasks i).Consistent
  stopped : Stopped s
  bytes : ∃ whole last, SentAre s whole last

namespace Sends

theorem init : Sends {} where
  sane := .init
  exclusive := .init
  consistent _ := .absent rfl (by simp)
  stopped _ h := by cases h.1
  bytes := ⟨[], 0, by simp, List.nodup_nil, by simp, by simp, fun _ _ _ => rfl⟩

theorem answered_of_sent (h : Sends s) (hphase : (s.tasks t).phase = .sending)
    (hbroken : s.broken = false) (hi : i ≠ t) (hsent : 0 < (s.tasks i).totalSent) : Answered s i := by
  have hover : (s.tasks i).phase.over = true := by
    refine (over_or_holding (h.consistent i) hsent).resolve_right fun hholding => hi ?_
    exact h.exclusive.unique i t hholding (by rw [hphase]; rfl)
  by_contra hnot
  rcases h.stopped i ⟨hover, hsent, hnot⟩ with hbroken' | hall
  · rw [hbroken] at hbroken'
    cases hbroken'
  · have ht : t < s.count := by
      refine lt_count_of_part h.sane ?_
      rw [hphase]
      simp [Phase.part]
    have hnot' := hall t ht
    rw [hphase] at hnot'
    cases hnot'

theorem bytes_step (h : Sends s) (hs : step s a = some s') : ∃ whole last, SentAre s' whole last := by
  obtain ⟨whole, last, hare⟩ := h.bytes
  by_cases ha : ∃ t n, a = .send t n
  · obtain ⟨t, n, rfl⟩ := ha
    cases step_cases hs with
    | send hphase hbroken hroom =>
      obtain ⟨whole', hfocus⟩ := hare.focus (t := t) (by rw [hphase]; rfl)
        fun i hi hsent => h.answered_of_sent hphase hbroken hi hsent
      exact ⟨whole', t, hfocus.send n⟩
  · have hno : ∀ t n, a ≠ .send t n := fun t n heq => ha ⟨t, n, heq⟩
    refine ⟨whole, last, hare.keep h.consistent (step_sent hs hno) (fun i => ?_)
      fun i hi => answered_step h.sane hs hi⟩
    rcases eq_or_ne i s.count with rfl | hi
    · have hzero : (s.tasks s.count).totalSent = 0 :=
        (h.consistent s.count).unsent (by rw [h.sane.registry.next]; rfl)
          (by rw [h.sane.registry.next]; rfl)
      have hfresh : (s'.tasks s.count).phase.over = false ∧ (s'.tasks s.count).phase.holding = false := by
        rcases step_moves h.sane hs s.count with hstays | hmoves
        · rw [hstays, h.sane.registry.next]
          exact ⟨rfl, rfl⟩
        · rw [h.sane.registry.next] at hmoves
          generalize (s'.tasks s.count).phase = p' at hmoves ⊢
          cases hmoves
          exact ⟨rfl, rfl⟩
      have hzero' : (s'.tasks s.count).totalSent = 0 :=
        (consistent_step h.consistent h.sane hs s.count).unsent hfresh.1 hfresh.2
      exact ⟨hzero'.trans hzero.symm, fun hpos => absurd hzero hpos.ne'⟩
    · refine ⟨?_, fun hpos => response_step hs hi (replied_of_sent (h.consistent i) hpos)⟩
      exact (totalSent_step hs hi).resolve_right fun ⟨n, hn, _⟩ => hno i n hn

theorem step (h : Sends s) (ha : Drained s a) (hs : step s a = some s') : Sends s' where
  sane := h.sane.step hs
  exclusive := h.exclusive.step h.sane hs
  consistent := consistent_step h.consistent h.sane hs
  stopped := h.stopped.step h.sane h.consistent ha hs
  bytes := h.bytes_step hs

theorem framed (h : Sends s) : Framed s where
  bytes := h.bytes
  tagged i hsent := (h.consistent i).built (replied_of_sent (h.consistent i) hsent)

end Sends

/-- **The socket.** In every run in which a send ends half-way only with a broken socket or behind
everything else, the bytes on the socket are whole responses, and at last a part of one. -/
theorem socket_framed (h : Reaches step Drained {} s) : Framed s :=
  (h.invariant Sends.init fun _ _ _ hsends ha hs => Sends.step hsends ha hs).framed

/-- A request is received, and its response is sent in two pieces. -/
def piecesRun : List Act :=
  [.receive 1 none, .spawn, .handle 0 117 [1, 2], .lock 0, .send 0 4, .block 0, .ready 0, .send 0 5,
    .unlock 0]

theorem socket_framed_pieces : ∃ s, s.sent = message 117 1 [1, 2] ∧ Framed s := by
  obtain ⟨s₀, h₀, htasks⟩ : ∃ s, step {} .check = some s ∧ s.tasks = fun _ => {} := ⟨_, rfl, rfl⟩
  obtain ⟨s, hs, hsent⟩ : ∃ s, piecesRun.foldlM step s₀ = some s ∧ s.sent = message 117 1 [1, 2] := by
    cases h₀
    exact ⟨_, rfl, rfl⟩
  have hreceive : Drained s₀ (.receive 1 none) := by
    refine .inr fun i hi => ?_
    have hover := hi.1
    rw [htasks] at hover
    cases hover
  have hcheck : Drained {} .check := trivial
  have hreach := (Reaches.start.step hcheck h₀).foldlM_cons hreceive (by simp [Drained]) hs
  exact ⟨s, hsent, socket_framed hreach⟩

/-- The client closes its side of the connection while the response to the request `0` is half-way, whose
send is cancelled, and the response to the request `1` is sent behind the three bytes. -/
def behindRun : List Act :=
  [.check, .receive 1 none, .spawn, .check, .receive 2 none, .spawn, .handle 0 117 [], .handle 1 117 [],
    .lock 0, .send 0 3, .block 0, .lock 1, .check, .stop, .shutdown, .cancelled 0, .unlock 0, .send 1 7]

theorem sent_behind_cut : ¬ ∀ s, Reaches step (fun _ _ => True) {} s → Framed s := by
  intro h
  obtain ⟨s, hs, hcount, hcut, hcut', hsent, hresponse, hbytes⟩ : ∃ s,
      behindRun.foldlM step {} = some s ∧ s.count = 2 ∧ (s.tasks 0).totalSent = 3 ∧
        (s.tasks 0).response.length = 7 ∧ (s.tasks 1).totalSent = 7 ∧
        (s.tasks 1).response = message 117 2 [] ∧
        s.sent = (message 117 1 []).take 3 ++ message 117 2 [] :=
    ⟨_, rfl, rfl, rfl, rfl, rfl, rfl, rfl⟩
  have hreach : Reaches step (fun _ _ => True) {} s := Reaches.start.foldlM (fun _ _ _ => trivial) hs
  have hsane : Sane s := hreach.invariant Sane.init fun _ _ _ hsane _ hstep => hsane.step hstep
  obtain ⟨whole, last, hare, hnodup, hlast, hwhole, hnone⟩ := (h s hreach).bytes
  have hzero : 0 ∉ whole := fun hin => by
    have hanswered := (hwhole 0 hin).2
    omega
  have hlast0 : last = 0 := by
    by_contra hne
    have := hnone 0 hzero (Ne.symm hne)
    omega
  have hone : 1 ∈ whole := by
    by_contra hnot
    have := hnone 1 hnot (by omega)
    omega
  cases whole with
  | nil => cases hone
  | cons w rest =>
    have hw : w = 1 := by
      by_contra hne
      rcases Nat.lt_or_ge w 2 with hlt | hge
      · obtain rfl : w = 0 := by omega
        exact hzero List.mem_cons_self
      · have hover := (hwhole w List.mem_cons_self).1
        rw [absent_of_part ((hsane.registry.count w).mpr (hcount ▸ hge))] at hover
        cases hover
    -- the fourth byte is the first of the second response, and not the fourth of it
    have hfourth := congrArg (·[3]?) hare
    simp only [hbytes, List.flatMap_cons, hw, hresponse, List.append_assoc] at hfourth
    rw [List.getElem?_append_left (by decide : 3 < (message 117 2 []).length)] at hfourth
    exact absurd hfourth (by decide)

end WslFreeBSD.Plan9.Tasks
