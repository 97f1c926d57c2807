import Mathlib.Tactic.Common
import WslFreeBSD.Lib.Transitions

/-!
# The scheduler of the plan9 server

`Scheduler` runs coroutines from a queue. The thread that owns the queue takes them one after the other;
before blocking code it gives the queue up, and behind it tries to get it back. What a thread does under
`m_Lock` is one step here, and every thread can take its next step at any time.

A scheduled coroutine always has a thread that runs the queue or that was asked to, and as long as no
blocking code throws at most one thread runs coroutine code (`scheduler_sound`). `BlockingCode` does not
get the queue back when its function throws, and the coroutine goes on beside the new owner
(`throw_runs_two`).
-/

namespace WslFreeBSD.Plan9.Scheduler

open Lib

/-- Where a thread is. `c` is a coroutine. -/
inductive Phase where
  /-- not in the scheduler -/
  | idle
  /-- in `DonateThreadAndResume`, behind `Claim` -/
  | donating (run : Bool) (c : Nat)
  /-- in `RunAndRelease`, where the lock is taken -/
  | looping
  /-- in a coroutine, outside of `BlockingCode` -/
  | executing (c : Nat)
  /-- in the function of `BlockingCode` -/
  | blocking (c : Nat)
  /-- in `Unblocker::await_suspend` -/
  | suspending (c : Nat)
  /-- in `RunAndRelease`, behind `resume` -/
  | resumed
  deriving DecidableEq

/-- A thread with `tls_Blocked`. (`tls_SchedulerThread` is set from `looping` to `resumed`.) -/
structure Thread where
  phase : Phase := .idle
  blocked : Bool := false
  deriving DecidableEq

/-- `submitted` counts the work items that were submitted and not yet called back. -/
structure State where
  queue : List Nat := []
  running : Bool := false
  threadEnqueued : Bool := false
  submitted : Nat := 0
  threads : Nat → Thread := fun _ => {}

def State.setThread (s : State) (t : Nat) (th : Thread) : State :=
  { s with threads := Function.update s.threads t th }

/-- The steps of the threads. -/
inductive Act where
  /-- any code calls `Schedule` -/
  | schedule (c : Nat)
  /-- a thread of the pool calls `WorkerCallback` -/
  | worker (t : Nat)
  /-- `DonateThreadAndResume` up to `Claim`, and the rest -/
  | donate (t c : Nat)
  | donated (t : Nat)
  /-- `RunAndRelease` takes a coroutine or ends -/
  | next (t : Nat)
  /-- the coroutine is suspended or ends -/
  | yield (t : Nat)
  /-- `BlockingCode` calls `Block` -/
  | block (t : Nat)
  /-- the function returns and `Unblock` is called -/
  | unblock (t : Nat)
  /-- the function throws -/
  | throw (t : Nat)
  /-- `await_suspend` schedules the coroutine -/
  | suspend (t : Nat)
  /-- `RunAndRelease` looks at `tls_Blocked` -/
  | check (t : Nat)
  deriving DecidableEq

/-- The work item is submitted unless the queue has a thread. -/
def kick (s : State) : State := { s with threadEnqueued := true, submitted := s.submitted + 1 }

/-- `Schedule`. -/
def schedule (s : State) (c : Nat) : State :=
  let pushed := { s with queue := s.queue ++ [c] }
  if ¬ s.running ∧ ¬ s.threadEnqueued then kick pushed else pushed

/-- `Claim`: the state, and whether the queue is claimed. -/
def claim (s : State) (fromKick : Bool) : State × Bool :=
  let s := if fromKick then { s with threadEnqueued := false } else s
  if s.running then (s, false) else ({ s with running := true }, true)

/-- `Block`, on the thread that runs the scheduler. -/
def block (s : State) : State :=
  let released := { s with running := false }
  if s.queue ≠ [] ∧ ¬ s.threadEnqueued then kick released else released

def step (s : State) : Act → Option State
  | .schedule c => some (schedule s c)
  | .worker t =>
    if (s.threads t).phase = .idle ∧ 0 < s.submitted then
      let r := claim { s with submitted := s.submitted - 1 } true
      some (if r.2 then r.1.setThread t { (s.threads t) with phase := .looping } else r.1)
    else none
  | .donate t c =>
    if (s.threads t).phase = .idle then
      let r := claim s false
      some (r.1.setThread t { (s.threads t) with phase := .donating r.2 c })
    else none
  | .donated t =>
    match (s.threads t).phase with
    | .donating run c =>
      some ((schedule s c).setThread t
        { (s.threads t) with phase := if run then .looping else .idle })
    | _ => none
  | .next t =>
    if (s.threads t).phase = .looping then
      match s.queue with
      | c :: queue =>
        some ({ s with queue := queue }.setThread t { (s.threads t) with phase := .executing c })
      | [] => some ({ s with running := false }.setThread t { (s.threads t) with phase := .idle })
    else none
  | .yield t =>
    match (s.threads t).phase with
    | .executing _ => some (s.setThread t { (s.threads t) with phase := .resumed })
    | _ => none
  | .block t =>
    match (s.threads t).phase with
    | .executing c => some ((block s).setThread t ⟨.blocking c, true⟩)
    | _ => none
  | .unblock t =>
    match (s.threads t).phase with
    | .blocking c =>
      let r := claim s false
      some (r.1.setThread t (if r.2 then ⟨.executing c, false⟩
        else { (s.threads t) with phase := .suspending c }))
    | _ => none
  | .throw t =>
    match (s.threads t).phase with
    -- `Unblock` is skipped, and `tls_Blocked` stays set
    | .blocking c => some (s.setThread t { (s.threads t) with phase := .executing c })
    | _ => none
  | .suspend t =>
    match (s.threads t).phase with
    | .suspending c => some ((schedule s c).setThread t { (s.threads t) with phase := .resumed })
    | _ => none
  | .check t =>
    if (s.threads t).phase = .resumed then
      some (s.setThread t (if (s.threads t).blocked then ⟨.idle, false⟩
        else { (s.threads t) with phase := .looping }))
    else none

/-- The thread runs coroutine code outside of `BlockingCode`. -/
def Executes (s : State) (t : Nat) : Prop := ∃ c, (s.threads t).phase = .executing c

/-- What the scheduler promises in a state. -/
structure Sound (s : State) : Prop where
  /-- A scheduled coroutine has a thread. -/
  served : s.queue ≠ [] → s.running = true ∨ s.threadEnqueued = true
  /-- Coroutine code runs on one thread at a time. -/
  exclusive : ∀ t t', Executes s t → Executes s t' → t = t'

/-! ## The owner of the queue -/

def Thread.owns (th : Thread) : Bool :=
  match th.phase with
  | .donating run _ => run
  | .looping | .executing _ => true
  | .resumed => !th.blocked
  | _ => false

/-- `tls_Blocked` is set from `Block` on, until the queue is claimed again or `RunAndRelease` is left. -/
def Thread.Consistent (th : Thread) : Prop :=
  match th.phase with
  | .blocking _ | .suspending _ => th.blocked = true
  | .resumed => True
  | _ => th.blocked = false

structure Invariant (s : State) : Prop where
  served : s.queue ≠ [] → s.running = true ∨ s.threadEnqueued = true
  running : ∀ t, (s.threads t).owns = true → s.running = true
  unique : ∀ t t', (s.threads t).owns = true → (s.threads t').owns = true → t = t'
  consistent : ∀ t, (s.threads t).Consistent

variable {s s' : State} {t t' : Nat} {th : Thread} {c : Nat}

@[simp] theorem setThread_self : (s.setThread t th).threads t = th :=
  Function.update_self ..

theorem setThread_other (h : t' ≠ t) : (s.setThread t th).threads t' = s.threads t' :=
  Function.update_of_ne h ..

@[simp] theorem setThread_queue : (s.setThread t th).queue = s.queue := rfl
@[simp] theorem setThread_running : (s.setThread t th).running = s.running := rfl
@[simp] theorem setThread_threadEnqueued :
    (s.setThread t th).threadEnqueued = s.threadEnqueued := rfl

namespace Invariant

theorem init : Invariant {} where
  served h := absurd rfl h
  running _ h := by cases h
  unique _ _ h := by cases h
  consistent _ := rfl

theorem sound (h : Invariant s) : Sound s where
  served := h.served
  exclusive t t' := by
    rintro ⟨c, hc⟩ ⟨c', hc'⟩
    exact h.unique t t' (by simp [Thread.owns, hc]) (by simp [Thread.owns, hc'])

theorem flags (h : Invariant s) (hthreads : s'.threads = s.threads)
    (hserved : s'.queue ≠ [] → s'.running = true ∨ s'.threadEnqueued = true)
    (hrunning : s'.running = s.running) : Invariant s' where
  served := hserved
  running t := by
    rw [hthreads, hrunning]
    exact h.running t
  unique := by
    rw [hthreads]
    exact h.unique
  consistent := by
    rw [hthreads]
    exact h.consistent

theorem goesOn (h : Invariant s) (hth : th.Consistent) (howns : th.owns = (s.threads t).owns) :
    Invariant (s.setThread t th) := by
  have hsame : ∀ u, ((s.setThread t th).threads u).owns = (s.threads u).owns := by
    intro u
    rcases eq_or_ne u t with rfl | hu
    · rw [setThread_self, howns]
    · rw [setThread_other hu]
  refine ⟨h.served, fun u => ?_, fun u u' => ?_, fun u => ?_⟩
  · rw [hsame]
    exact h.running u
  · rw [hsame, hsame]
    exact h.unique u u'
  · rcases eq_or_ne u t with rfl | hu
    · rw [setThread_self]
      exact hth
    · rw [setThread_other hu]
      exact h.consistent u

theorem takes (h : Invariant s) (hfree : s.running = false) (hthreads : s'.threads = s.threads)
    (hrun : s'.running = true) (hth : th.Consistent) : Invariant (s'.setThread t th) := by
  have hother : ∀ u, ((s'.setThread t th).threads u).owns = true → u = t := by
    intro u howns
    by_contra hu
    rw [setThread_other hu, hthreads] at howns
    have := h.running u howns
    rw [hfree] at this
    cases this
  refine ⟨fun _ => .inl hrun, fun _ _ => hrun,
    fun u u' hu hu' => (hother u hu).trans (hother u' hu').symm, fun u => ?_⟩
  rcases eq_or_ne u t with rfl | hu
  · rw [setThread_self]
    exact hth
  · rw [setThread_other hu, hthreads]
    exact h.consistent u

theorem gives (h : Invariant s) (howner : (s.threads t).owns = true)
    (hqueue : s'.queue ≠ [] → s'.threadEnqueued = true) (hthreads : s'.threads = s.threads)
    (hth : th.Consistent) (howns : th.owns = false) : Invariant (s'.setThread t th) := by
  have hnone : ∀ u, ((s'.setThread t th).threads u).owns = false := by
    intro u
    rcases eq_or_ne u t with rfl | hu
    · rw [setThread_self, howns]
    · rw [setThread_other hu, hthreads]
      by_contra hown
      exact hu (h.unique u t (by simpa using hown) howner)
  refine ⟨fun hne => .inr (hqueue hne), fun u hu => ?_, fun u _ hu => ?_, fun u => ?_⟩
  · rw [hnone] at hu
    cases hu
  · rw [hnone] at hu
    cases hu
  · rcases eq_or_ne u t with rfl | hu
    · rw [setThread_self]
      exact hth
    · rw [setThread_other hu, hthreads]
      exact h.consistent u

end Invariant

/-! ### What the functions do -/

@[simp] theorem schedule_threads : (schedule s c).threads = s.threads := by
  unfold schedule
  split <;> rfl

@[simp] theorem schedule_running : (schedule s c).running = s.running := by
  unfold schedule
  split <;> rfl

theorem schedule_served : (schedule s c).running = true ∨ (schedule s c).threadEnqueued = true := by
  unfold schedule
  split
  · exact .inr rfl
  next hkicked =>
    simp only [not_and, Bool.not_eq_true, Bool.not_eq_false] at hkicked
    rcases Bool.eq_false_or_eq_true s.running with hrun | hrun
    · exact .inl hrun
    · exact .inr (hkicked hrun)

/-- `Claim` succeeds when nobody has the queue, and behind it somebody does. -/
theorem claim_spec (s : State) (fromKick : Bool) :
    (claim s fromKick).1.threads = s.threads ∧ (claim s fromKick).1.running = true ∧
      (claim s fromKick).2 = !s.running := by
  unfold claim
  cases fromKick <;> cases hrun : s.running <;> simp [hrun]

theorem block_spec (s : State) :
    (block s).threads = s.threads ∧ ((block s).queue ≠ [] → (block s).threadEnqueued = true) := by
  unfold block
  split
  · exact ⟨rfl, fun _ => rfl⟩
  next hkicked =>
    refine ⟨rfl, fun hqueue => ?_⟩
    by_contra henqueued
    exact hkicked ⟨hqueue, henqueued⟩

/-! ### The steps -/

namespace Invariant

theorem schedule (h : Invariant s) (c : Nat) : Invariant (schedule s c) :=
  h.flags schedule_threads (fun _ => schedule_served) schedule_running

theorem claim (h : Invariant s) (fromKick : Bool)
    (hth : th.Consistent) (howns : (claim s fromKick).2 = false → th.owns = (s.threads t).owns) :
    Invariant ((claim s fromKick).1.setThread t th) := by
  obtain ⟨hthreads, hrunning, hwon⟩ := claim_spec s fromKick
  cases hrun : s.running with
  | false => exact h.takes hrun hthreads hrunning hth
  | true =>
    rw [hrun] at hwon
    have hflags : Invariant (Scheduler.claim s fromKick).1 :=
      h.flags hthreads (fun _ => .inl hrunning) (hrunning.trans hrun.symm)
    exact hflags.goesOn hth (by rw [hthreads, howns hwon])

theorem step (h : Invariant s) {a : Act} (ha : ∀ t, a ≠ .throw t) (hs : step s a = some s') :
    Invariant s' := by
  cases a with
  | schedule c =>
    cases hs
    exact h.schedule c
  | worker t =>
    have hcons := h.consistent t
    obtain ⟨⟨hphase, -⟩, hs⟩ := Option.ite_none_right_eq_some.mp hs
    cases hs
    have hwork : Invariant { s with submitted := s.submitted - 1 } := h.flags rfl h.served rfl
    obtain ⟨hthreads, hrunning, hwon⟩ := claim_spec { s with submitted := s.submitted - 1 } true
    split
    next hwin =>
      refine hwork.claim true ?_ fun hlost => absurd hwin (by simp [hlost])
      simpa [Thread.Consistent, hphase] using hcons
    next hlose =>
      have hrun : s.running = true := by simpa [hwon] using hlose
      exact hwork.flags hthreads (fun _ => .inl hrunning) (hrunning.trans hrun.symm)
  | donate t c =>
    have hcons := h.consistent t
    obtain ⟨hphase, hs⟩ := Option.ite_none_right_eq_some.mp hs
    cases hs
    refine h.claim false ?_ fun hlost => ?_
    · simpa [Thread.Consistent, hphase] using hcons
    · simp [Thread.owns, hphase, hlost]
  | donated t =>
    have hcons := h.consistent t
    simp only [Scheduler.step] at hs
    split at hs
    next run c hphase =>
      cases hs
      refine (h.schedule c).goesOn ?_ ?_
      · cases run <;> simpa [Thread.Consistent, hphase] using hcons
      · cases run <;> simp [Thread.owns, hphase]
    next => cases hs
  | next t =>
    have hcons := h.consistent t
    obtain ⟨hphase, hs⟩ := Option.ite_none_right_eq_some.mp hs
    have howns : (s.threads t).owns = true := by simp [Thread.owns, hphase]
    split at hs
    next c queue hqueue =>
      cases hs
      have htaken : Invariant { s with queue := queue } :=
        h.flags rfl (fun _ => .inl (h.running t howns)) rfl
      refine htaken.goesOn ?_ ?_
      · simpa [Thread.Consistent, hphase] using hcons
      · exact howns.symm
    next hqueue =>
      cases hs
      refine h.gives howns (fun hne => absurd hqueue hne) rfl ?_ rfl
      simpa [Thread.Consistent, hphase] using hcons
  | yield t =>
    have hcons := h.consistent t
    simp only [Scheduler.step] at hs
    split at hs
    next c hphase =>
      cases hs
      have hblocked : (s.threads t).blocked = false := by
        simpa [Thread.Consistent, hphase] using hcons
      refine h.goesOn trivial ?_
      simp [Thread.owns, hphase, hblocked]
    next => cases hs
  | block t =>
    simp only [Scheduler.step] at hs
    split at hs
    next c hphase =>
      cases hs
      obtain ⟨hthreads, hqueue⟩ := block_spec s
      exact h.gives (by simp [Thread.owns, hphase]) hqueue hthreads rfl rfl
    next => cases hs
  | unblock t =>
    have hcons := h.consistent t
    simp only [Scheduler.step] at hs
    split at hs
    next c hphase =>
      cases hs
      have hblocked : (s.threads t).blocked = true := by
        simpa [Thread.Consistent, hphase] using hcons
      refine h.claim false ?_ fun hlost => ?_
      · split
        · rfl
        · exact hblocked
      · simp [Thread.owns, hphase, hlost]
    next => cases hs
  | throw t => exact absurd rfl (ha t)
  | suspend t =>
    have hcons := h.consistent t
    simp only [Scheduler.step] at hs
    split at hs
    next c hphase =>
      cases hs
      have hblocked : (s.threads t).blocked = true := by
        simpa [Thread.Consistent, hphase] using hcons
      refine (h.schedule c).goesOn trivial ?_
      simp [Thread.owns, hphase, hblocked]
    next => cases hs
  | check t =>
    obtain ⟨hphase, hs⟩ := Option.ite_none_right_eq_some.mp hs
    cases hs
    cases hblocked : (s.threads t).blocked with
    | true => exact h.goesOn rfl (by simp [Thread.owns, hphase, hblocked])
    | false =>
      refine h.goesOn ?_ (by simp [Thread.owns, hphase, hblocked])
      simp [Thread.Consistent, hblocked]

end Invariant

/-- **The scheduler.** In every state that is reached while no blocking code throws, every scheduled
coroutine has a thread and at most one thread runs coroutine code. -/
theorem scheduler_sound (h : Reaches step (fun _ a => ∀ t, a ≠ .throw t) {} s) : Sound s :=
  (h.invariant Invariant.init fun _ _ _ hs ha hstep => Invariant.step hs ha hstep).sound

/-- The thread `1` runs the coroutine `10`, and the thread `2` takes the queue over when `10` enters
blocking code. -/
def handover : List Act :=
  [.schedule 10, .worker 1, .next 1, .schedule 11, .block 1, .worker 2, .next 2]

theorem scheduler_sound_handover :
    ∃ s, handover.foldlM step {} = some s ∧ Executes s 2 ∧ Sound s := by
  obtain ⟨s, hs, hexec⟩ : ∃ s, handover.foldlM step {} = some s ∧ Executes s 2 :=
    ⟨_, rfl, 11, rfl⟩
  refine ⟨s, hs, hexec, scheduler_sound (Reaches.start.foldlM ?_ hs)⟩
  simp [handover]

/-! ## Blocking code that throws -/

/-- The blocking code of the coroutine `10` throws after the thread `2` took the queue over, and both
threads run coroutine code. -/
theorem throw_runs_two : ¬ ∀ s, Reaches step (fun _ _ => True) {} s → Sound s := by
  intro h
  obtain ⟨s, hs, hone, htwo⟩ : ∃ s, (handover ++ [Act.throw 1]).foldlM step {} = some s ∧
      Executes s 1 ∧ Executes s 2 := ⟨_, rfl, ⟨10, rfl⟩, ⟨11, rfl⟩⟩
  have hsound : Sound s := h s (Reaches.start.foldlM (fun _ _ _ => trivial) hs)
  exact absurd (hsound.exclusive 1 2 hone htwo) (by decide)

end WslFreeBSD.Plan9.Scheduler
