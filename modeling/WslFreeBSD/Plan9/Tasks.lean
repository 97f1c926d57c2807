import Mathlib.Data.List.Nodup
import Mathlib.Logic.Function.Basic
import WslFreeBSD.Lib.Bytes
import WslFreeBSD.Plan9.Await

/-!
# The tasks of a connection

`Run` receives the requests of a connection, and every request is processed by a task of its own. What a
task does between two operations on shared state is one step, and the tasks take their steps in any
order. The requests are numbered as they are received.

A task builds its response (`HandleFlush` first waits for the request with the tag that it was given),
sends it under `m_SocketLock`, and destroys its `RequestTracker`. What `HandleMessage` answers to another
request, what `send` takes and when the socket is ready are inputs of the steps.
-/

namespace WslFreeBSD.Plan9.Tasks

open Lib

/-- Where a task is. -/
inductive Phase where
  /-- not received -/
  | absent
  /-- registered, and `Run` waits for the semaphore -/
  | acquiring
  /-- in `HandleMessage` -/
  | handling
  /-- in `HandleFlush`, behind the search -/
  | found (r : Nat)
  /-- suspended until the event of `r` is set -/
  | waiting (r : Nat)
  /-- the event of `r` was set -/
  | woken (r : Nat)
  /-- the response is built -/
  | answered
  /-- suspended until `m_SocketLock` is passed on -/
  | locking
  /-- in `SendAsync`, with the lock -/
  | sending
  /-- suspended until the socket is ready or the token is cancelled -/
  | suspended
  /-- `SendAsync` returned, and the lock is still held -/
  | sent
  /-- `SendAsync` threw, and the lock is still held -/
  | failed
  /-- in the handler of the exception -/
  | caught
  /-- in the destructor of the tracker -/
  | closing
  /-- the destructor took the request out of the list -/
  | removed
  /-- the destructor read `Cancelled`; `owned` if the tracker keeps the request -/
  | setting (owned : Bool)
  /-- the destructor set the event -/
  | finishing (owned : Bool)
  | done
  deriving DecidableEq

/-- A request and its task. `oldTag` is what a Tflush names. -/
structure Task where
  tag : UInt16 := 0
  oldTag : Option UInt16 := none
  phase : Phase := .absent
  response : Bytes := []
  totalSent : Nat := 0

/-- `RequestInfo`. `frees` says how often it was freed. -/
structure RequestInfo where
  cancelled : Bool := false
  event : AsyncEvent := .unset []
  frees : Nat := 0

/-- Where `Run` is. -/
inductive Loop where
  /-- at the condition of the loop -/
  | top
  /-- in `NextMessage` -/
  | reading
  /-- waits for the semaphore -/
  | acquiring
  /-- behind the loop -/
  | stopped
  /-- waits for the tasks -/
  | draining
  | ended
  deriving DecidableEq

/-- `maximumMessages`. -/
def maximumMessages : Nat := 32

/-- A connection. `count` requests were received, `sent` are the bytes that the socket took, `misused`
says whether a request was used after it was freed, and a `broken` socket takes no more bytes. -/
structure State where
  loop : Loop := .top
  permits : Nat := maximumMessages
  count : Nat := 0
  tasks : Nat → Task := fun _ => {}
  infos : Nat → RequestInfo := fun _ => {}
  requests : List Nat := []
  socketLock : AsyncLock := {}
  cancelled : Bool := false
  broken : Bool := false
  sent : Bytes := []
  misused : Bool := false

namespace State

def setTask (s : State) (t : Nat) (th : Task) : State :=
  { s with tasks := Function.update s.tasks t th }

def setPhase (s : State) (t : Nat) (p : Phase) : State := s.setTask t { s.tasks t with phase := p }

def setInfo (s : State) (i : Nat) (info : RequestInfo) : State :=
  { s with infos := Function.update s.infos i info }

def use (s : State) (is : List Nat) : State :=
  { s with misused := s.misused || is.any fun i => 0 < (s.infos i).frees }

def free (s : State) (i : Nat) : State :=
  s.setInfo i { s.infos i with frees := (s.infos i).frees + 1 }

end State

/-! ## What the tasks do -/

/-- The response with a header, as `ProcessMessage` builds it. -/
def message (type : Nat) (tag : UInt16) (body : Bytes) : Bytes :=
  leBytes 4 (7 + body.length) ++ leBytes 1 type ++ leBytes 2 tag.toNat ++ body

/-- `MessageType::Rflush`. -/
def rflush : Nat := 109

def answer (s : State) (t type : Nat) (body : Bytes) : State :=
  s.setTask t { s.tasks t with
    phase := .answered
    response := message type (s.tasks t).tag body }

/-- `RequestTracker`: the request is inserted behind the others. -/
def register (s : State) (tag : UInt16) (oldTag : Option UInt16) : State :=
  { (s.use s.requests).setTask s.count { tag := tag, oldTag := oldTag, phase := .acquiring } with
    count := s.count + 1
    requests := s.requests ++ [s.count] }

/-- The request that `HandleFlush` finds. -/
def search (s : State) (oldTag : UInt16) : Option Nat :=
  s.requests.find? fun i => (s.tasks i).tag = oldTag ∧ (s.infos i).cancelled = false

/-- `HandleFlush` up to the wait. -/
def handleFlush (s : State) (t : Nat) (oldTag : UInt16) : State :=
  let used := s.use s.requests
  match search s oldTag with
  | some r => (used.setInfo r { s.infos r with cancelled := true }).setPhase t (.found r)
  | none => answer used t rflush []

/-- `HandleFlush` waits for the event. -/
def awaitEvent (s : State) (t r : Nat) : State :=
  let e := (s.infos r).event.await t
  ((s.use [r]).setInfo r { s.infos r with event := e.1 }).setPhase t
    (if e.2 then .waiting r else .woken r)

/-- `HandleFlush` returns, and `waitRequest` is freed. -/
def flushed (s : State) (t r : Nat) : State := answer (s.free r) t rflush []

/-- `m_SocketLock.Lock()`. -/
def lockSocket (s : State) (t : Nat) : State :=
  let l := s.socketLock.lock t
  { s with socketLock := l.1 }.setPhase t (if l.2 then .locking else .sending)

/-- `send` takes some bytes. -/
def sendBytes (s : State) (t n : Nat) : State :=
  let th := s.tasks t
  let taken := (th.response.drop th.totalSent).take n
  { s with sent := s.sent ++ taken }.setTask t { th with
    phase := if th.totalSent + n < th.response.length then .sending else .sent
    totalSent := th.totalSent + n }

/-- The guard of `m_SocketLock` is destroyed, and the first waiter has the lock. -/
def unlockSocket (s : State) (t : Nat) (next : Phase) : State :=
  let l := s.socketLock.unlock
  let s := { s with socketLock := l.1 }.setPhase t next
  match l.2 with
  | some w => s.setPhase w .sending
  | none => s

/-- The destructor of the tracker takes the request out of the list. -/
def remove (s : State) (t : Nat) : State :=
  { s.use s.requests with requests := s.requests.erase t }.setPhase t .removed

/-- The destructor releases a request that is `Cancelled`. -/
def release (s : State) (t : Nat) : State :=
  (s.use [t]).setPhase t (.setting !(s.infos t).cancelled)

/-- `Event.Set()`: the tasks that wait are scheduled. -/
def setEvent (s : State) (t : Nat) (owned : Bool) : State :=
  let waiters := (s.infos t).event.waiters
  let s := (s.use [t]).setInfo t { s.infos t with event := .set }
  { s with tasks := fun i => if i ∈ waiters then { s.tasks i with phase := .woken t } else s.tasks i
    }.setPhase t (.finishing owned)

/-- The tracker is destroyed, and the semaphore is released. -/
def finish (s : State) (t : Nat) (owned : Bool) : State :=
  { (if owned then s.free t else s) with permits := s.permits + 1 }.setPhase t .done

/-! ## The steps -/

inductive Act where
  /-- `Run` looks at the token -/
  | check
  /-- `NextMessage` returns a message, or none -/
  | receive (tag : UInt16) (oldTag : Option UInt16)
  | stop
  /-- the semaphore is acquired, and the task is scheduled -/
  | spawn
  /-- `Run` cancels the token, and ends when it has acquired all of the semaphore -/
  | shutdown
  | wait
  /-- `HandleMessage` answers a request that is not a Tflush -/
  | handle (t type : Nat) (body : Bytes)
  | flush (t : Nat)
  | await (t : Nat)
  | flushed (t : Nat)
  | lock (t : Nat)
  /-- `send` takes bytes, would block, or fails -/
  | send (t n : Nat)
  | block (t : Nat)
  | error (t : Nat) (broken : Bool)
  /-- a suspended send goes on because the socket is ready or the token is cancelled -/
  | ready (t : Nat)
  | cancelled (t : Nat)
  | unlock (t : Nat)
  /-- the handler of the exception cancels the token -/
  | caught (t : Nat)
  | remove (t : Nat)
  | release (t : Nat)
  | set (t : Nat)
  | finish (t : Nat)
  deriving DecidableEq

def step (s : State) : Act → Option State
  | .check =>
    if s.loop = .top then some { s with loop := if s.cancelled then .stopped else .reading } else none
  | .receive tag oldTag =>
    if s.loop = .reading then some { register s tag oldTag with loop := .acquiring } else none
  | .stop => if s.loop = .reading then some { s with loop := .stopped } else none
  | .spawn =>
    if s.loop = .acquiring ∧ 0 < s.permits then
      some ({ s with loop := .top, permits := s.permits - 1 }.setPhase (s.count - 1) .handling)
    else none
  | .shutdown =>
    if s.loop = .stopped then some { s with loop := .draining, cancelled := true } else none
  | .wait =>
    if s.loop = .draining ∧ maximumMessages ≤ s.permits then
      some { s with loop := .ended, permits := s.permits - maximumMessages }
    else none
  | .handle t type body =>
    if (s.tasks t).phase = .handling ∧ (s.tasks t).oldTag = none then some (answer s t type body)
    else none
  | .flush t =>
    match (s.tasks t).phase, (s.tasks t).oldTag with
    | .handling, some oldTag => some (handleFlush s t oldTag)
    | _, _ => none
  | .await t =>
    match (s.tasks t).phase with
    | .found r => some (awaitEvent s t r)
    | _ => none
  | .flushed t =>
    match (s.tasks t).phase with
    | .woken r => some (flushed s t r)
    | _ => none
  | .lock t => if (s.tasks t).phase = .answered then some (lockSocket s t) else none
  | .send t n =>
    if (s.tasks t).phase = .sending ∧ s.broken = false ∧
        (s.tasks t).totalSent + n ≤ (s.tasks t).response.length then
      some (sendBytes s t n)
    else none
  | .block t => if (s.tasks t).phase = .sending then some (s.setPhase t .suspended) else none
  | .error t broken =>
    if (s.tasks t).phase = .sending then
      some ({ s with broken := s.broken || broken }.setPhase t .failed)
    else none
  | .ready t => if (s.tasks t).phase = .suspended then some (s.setPhase t .sending) else none
  | .cancelled t =>
    if (s.tasks t).phase = .suspended ∧ s.cancelled = true then some (s.setPhase t .failed) else none
  | .unlock t =>
    match (s.tasks t).phase with
    | .sent => some (unlockSocket s t .closing)
    | .failed => some (unlockSocket s t .caught)
    | _ => none
  | .caught t =>
    if (s.tasks t).phase = .caught then some ({ s with cancelled := true }.setPhase t .closing) else none
  | .remove t => if (s.tasks t).phase = .closing then some (remove s t) else none
  | .release t => if (s.tasks t).phase = .removed then some (release s t) else none
  | .set t =>
    match (s.tasks t).phase with
    | .setting owned => some (setEvent s t owned)
    | _ => none
  | .finish t =>
    match (s.tasks t).phase with
    | .finishing owned => some (finish s t owned)
    | _ => none

/-- The steps with what is known of the state before them. -/
inductive Step (s : State) : Act → State → Prop where
  | check (hloop : s.loop = .top) :
    Step s .check { s with loop := if s.cancelled then .stopped else .reading }
  | receive {tag : UInt16} {oldTag : Option UInt16} (hloop : s.loop = .reading) :
    Step s (.receive tag oldTag) { register s tag oldTag with loop := .acquiring }
  | stop (hloop : s.loop = .reading) : Step s .stop { s with loop := .stopped }
  | spawn (hloop : s.loop = .acquiring) (hpermits : 0 < s.permits) :
    Step s .spawn
      ({ s with loop := .top, permits := s.permits - 1 }.setPhase (s.count - 1) .handling)
  | shutdown (hloop : s.loop = .stopped) :
    Step s .shutdown { s with loop := .draining, cancelled := true }
  | wait (hloop : s.loop = .draining) (hpermits : maximumMessages ≤ s.permits) :
    Step s .wait { s with loop := .ended, permits := s.permits - maximumMessages }
  | handle {t type : Nat} {body : Bytes} (hphase : (s.tasks t).phase = .handling)
    (hflush : (s.tasks t).oldTag = none) : Step s (.handle t type body) (answer s t type body)
  | flush {t : Nat} {oldTag : UInt16} (hphase : (s.tasks t).phase = .handling)
    (hflush : (s.tasks t).oldTag = some oldTag) : Step s (.flush t) (handleFlush s t oldTag)
  | await {t r : Nat} (hphase : (s.tasks t).phase = .found r) : Step s (.await t) (awaitEvent s t r)
  | flushed {t r : Nat} (hphase : (s.tasks t).phase = .woken r) : Step s (.flushed t) (flushed s t r)
  | lock {t : Nat} (hphase : (s.tasks t).phase = .answered) : Step s (.lock t) (lockSocket s t)
  | send {t n : Nat} (hphase : (s.tasks t).phase = .sending) (hbroken : s.broken = false)
    (hroom : (s.tasks t).totalSent + n ≤ (s.tasks t).response.length) :
    Step s (.send t n) (sendBytes s t n)
  | block {t : Nat} (hphase : (s.tasks t).phase = .sending) :
    Step s (.block t) (s.setPhase t .suspended)
  | error {t : Nat} {broken : Bool} (hphase : (s.tasks t).phase = .sending) :
    Step s (.error t broken) ({ s with broken := s.broken || broken }.setPhase t .failed)
  | ready {t : Nat} (hphase : (s.tasks t).phase = .suspended) :
    Step s (.ready t) (s.setPhase t .sending)
  | cancelled {t : Nat} (hphase : (s.tasks t).phase = .suspended) (hcancelled : s.cancelled = true) :
    Step s (.cancelled t) (s.setPhase t .failed)
  | unlockSent {t : Nat} (hphase : (s.tasks t).phase = .sent) :
    Step s (.unlock t) (unlockSocket s t .closing)
  | unlockFailed {t : Nat} (hphase : (s.tasks t).phase = .failed) :
    Step s (.unlock t) (unlockSocket s t .caught)
  | caught {t : Nat} (hphase : (s.tasks t).phase = .caught) :
    Step s (.caught t) ({ s with cancelled := true }.setPhase t .closing)
  | remove {t : Nat} (hphase : (s.tasks t).phase = .closing) : Step s (.remove t) (remove s t)
  | release {t : Nat} (hphase : (s.tasks t).phase = .removed) : Step s (.release t) (release s t)
  | set {t : Nat} {owned : Bool} (hphase : (s.tasks t).phase = .setting owned) :
    Step s (.set t) (setEvent s t owned)
  | finish {t : Nat} {owned : Bool} (hphase : (s.tasks t).phase = .finishing owned) :
    Step s (.finish t) (finish s t owned)

theorem step_cases {s s' : State} {a : Act} (h : step s a = some s') : Step s a s' := by
  cases a with
  | check =>
    obtain ⟨hloop, hs⟩ := Option.ite_none_right_eq_some.mp h
    cases hs
    exact .check hloop
  | receive tag oldTag =>
    obtain ⟨hloop, hs⟩ := Option.ite_none_right_eq_some.mp h
    cases hs
    exact .receive hloop
  | stop =>
    obtain ⟨hloop, hs⟩ := Option.ite_none_right_eq_some.mp h
    cases hs
    exact .stop hloop
  | spawn =>
    obtain ⟨⟨hloop, hpermits⟩, hs⟩ := Option.ite_none_right_eq_some.mp h
    cases hs
    exact .spawn hloop hpermits
  | shutdown =>
    obtain ⟨hloop, hs⟩ := Option.ite_none_right_eq_some.mp h
    cases hs
    exact .shutdown hloop
  | wait =>
    obtain ⟨⟨hloop, hpermits⟩, hs⟩ := Option.ite_none_right_eq_some.mp h
    cases hs
    exact .wait hloop hpermits
  | handle t type body =>
    obtain ⟨⟨hphase, hflush⟩, hs⟩ := Option.ite_none_right_eq_some.mp h
    cases hs
    exact .handle hphase hflush
  | flush t =>
    simp only [step] at h
    split at h
    next oldTag hphase hflush =>
      cases h
      exact .flush hphase hflush
    next => cases h
  | await t =>
    simp only [step] at h
    split at h
    next r hphase =>
      cases h
      exact .await hphase
    next => cases h
  | flushed t =>
    simp only [step] at h
    split at h
    next r hphase =>
      cases h
      exact .flushed hphase
    next => cases h
  | lock t =>
    obtain ⟨hphase, hs⟩ := Option.ite_none_right_eq_some.mp h
    cases hs
    exact .lock hphase
  | send t n =>
    obtain ⟨⟨hphase, hbroken, hroom⟩, hs⟩ := Option.ite_none_right_eq_some.mp h
    cases hs
    exact .send hphase hbroken hroom
  | block t =>
    obtain ⟨hphase, hs⟩ := Option.ite_none_right_eq_some.mp h
    cases hs
    exact .block hphase
  | error t broken =>
    obtain ⟨hphase, hs⟩ := Option.ite_none_right_eq_some.mp h
    cases hs
    exact .error hphase
  | ready t =>
    obtain ⟨hphase, hs⟩ := Option.ite_none_right_eq_some.mp h
    cases hs
    exact .ready hphase
  | cancelled t =>
    obtain ⟨⟨hphase, hcancelled⟩, hs⟩ := Option.ite_none_right_eq_some.mp h
    cases hs
    exact .cancelled hphase hcancelled
  | unlock t =>
    simp only [step] at h
    split at h
    next hphase =>
      cases h
      exact .unlockSent hphase
    next hphase =>
      cases h
      exact .unlockFailed hphase
    next => cases h
  | caught t =>
    obtain ⟨hphase, hs⟩ := Option.ite_none_right_eq_some.mp h
    cases hs
    exact .caught hphase
  | remove t =>
    obtain ⟨hphase, hs⟩ := Option.ite_none_right_eq_some.mp h
    cases hs
    exact .remove hphase
  | release t =>
    obtain ⟨hphase, hs⟩ := Option.ite_none_right_eq_some.mp h
    cases hs
    exact .release hphase
  | set t =>
    simp only [step] at h
    split at h
    next owned hphase =>
      cases h
      exact .set hphase
    next => cases h
  | finish t =>
    simp only [step] at h
    split at h
    next owned hphase =>
      cases h
      exact .finish hphase
    next => cases h

/-! ## The fields that a function leaves -/

variable {s s' : State} {t i : Nat} {p : Phase} {th : Task} {a : Act}

@[simp] theorem setTask_self : (s.setTask t th).tasks t = th := Function.update_self ..

theorem setTask_other (h : i ≠ t) : (s.setTask t th).tasks i = s.tasks i :=
  Function.update_of_ne h ..

theorem setTask_eq {β : Type} (g : Task → β) (h : g th = g (s.tasks t)) (i : Nat) :
    g ((s.setTask t th).tasks i) = g (s.tasks i) := by
  rcases eq_or_ne i t with rfl | hi
  · rw [setTask_self, h]
  · rw [setTask_other hi]

@[simp] theorem setPhase_self : ((s.setPhase t p).tasks t).phase = p := by
  simp [State.setPhase]

theorem setPhase_other (h : i ≠ t) : (s.setPhase t p).tasks i = s.tasks i := setTask_other h

theorem setPhase_eq {β : Type} (g : Task → β) (h : g { s.tasks t with phase := p } = g (s.tasks t))
    (i : Nat) : g ((s.setPhase t p).tasks i) = g (s.tasks i) :=
  setTask_eq g h i

@[simp] theorem setInfo_self {info : RequestInfo} : (s.setInfo t info).infos t = info :=
  Function.update_self ..

theorem setInfo_other {info : RequestInfo} (h : i ≠ t) : (s.setInfo t info).infos i = s.infos i :=
  Function.update_of_ne h ..

theorem setInfo_eq {β : Type} {info : RequestInfo} (g : RequestInfo → β)
    (h : g info = g (s.infos t)) (i : Nat) : g ((s.setInfo t info).infos i) = g (s.infos i) := by
  rcases eq_or_ne i t with rfl | hi
  · rw [setInfo_self, h]
  · rw [setInfo_other hi]

theorem awaitEvent_set {r : Nat} (h : (s.infos r).event = .set) :
    awaitEvent s t r = (s.use [r]).setPhase t (.woken r) := by
  have hself : s.infos r = { s.infos r with event := .set } := by rw [← h]
  have hinfos : Function.update s.infos r { s.infos r with event := .set } = s.infos := by
    rw [← hself, Function.update_eq_self]
  simp only [awaitEvent, h, AsyncEvent.await, State.setInfo, State.use, hinfos, Bool.false_eq_true,
    if_false]

theorem awaitEvent_unset {r : Nat} {waiters : List Nat} (h : (s.infos r).event = .unset waiters) :
    awaitEvent s t r =
      ((s.use [r]).setInfo r { s.infos r with event := .unset (t :: waiters) }).setPhase t
        (.waiting r) := by
  simp only [awaitEvent, h, AsyncEvent.await, if_true]

theorem setEvent_self {owned : Bool} : ((setEvent s t owned).tasks t).phase = .finishing owned :=
  setPhase_self

theorem setEvent_other {owned : Bool} (h : i ≠ t) :
    ((setEvent s t owned).tasks i).phase =
      if i ∈ (s.infos t).event.waiters then .woken t else (s.tasks i).phase := by
  unfold setEvent
  rw [setPhase_other h]
  dsimp only
  split <;> rfl

theorem finish_tasks {owned : Bool} : (finish s t owned).tasks = (s.setPhase t .done).tasks := by
  cases owned <;> rfl

theorem unlockSocket_none {next : Phase} (h : s.socketLock.unlock.2 = none) :
    unlockSocket s t next = { s with socketLock := s.socketLock.unlock.1 }.setPhase t next := by
  simp only [unlockSocket, h]

theorem unlockSocket_some {next : Phase} {w : Nat} (h : s.socketLock.unlock.2 = some w) :
    unlockSocket s t next =
      ({ s with socketLock := s.socketLock.unlock.1 }.setPhase t next).setPhase w .sending := by
  simp only [unlockSocket, h]

theorem unlockSocket_fields {next : Phase} :
    unlockSocket s t next =
      { s with
        socketLock := s.socketLock.unlock.1
        tasks := (unlockSocket s t next).tasks } := by
  cases h : s.socketLock.unlock.2 with
  | none => simp only [unlockSocket_none h, State.setPhase, State.setTask]
  | some w => simp only [unlockSocket_some h, State.setPhase, State.setTask]

@[simp] theorem count_unlockSocket {next : Phase} : (unlockSocket s t next).count = s.count := by
  rw [unlockSocket_fields]

/-! ## The list of requests -/

/-- The parts of a task's life that `m_Requests` and `Run` know of. -/
inductive Part where
  | absent
  | acquiring
  | listed
  | gone
  deriving DecidableEq

def Phase.part : Phase → Part
  | .absent => .absent
  | .acquiring => .acquiring
  | .removed | .setting _ | .finishing _ | .done => .gone
  | _ => .listed

theorem absent_of_part (h : p.part = .absent) : p = .absent := by
  cases p <;> first | rfl | cases h

theorem acquiring_of_part (h : p.part = .acquiring) : p = .acquiring := by
  cases p <;> first | rfl | cases h

/-- The list holds the requests that were received and whose tracker was not yet destroyed. -/
structure Registry (s : State) : Prop where
  nodup : s.requests.Nodup
  mem : ∀ i, i ∈ s.requests ↔
    (s.tasks i).phase.part = .acquiring ∨ (s.tasks i).phase.part = .listed
  count : ∀ i, (s.tasks i).phase.part = .absent ↔ s.count ≤ i
  acquiring : ∀ i, (s.tasks i).phase.part = .acquiring ↔ s.loop = .acquiring ∧ i + 1 = s.count
  nonempty : s.loop = .acquiring → 0 < s.count

namespace Registry

theorem init : Registry {} where
  nodup := List.nodup_nil
  mem i := by simp [Phase.part]
  count i := by simp [Phase.part]
  acquiring i := by simp [Phase.part]
  nonempty hloop := by cases hloop

theorem frame (h : Registry s) (hrequests : s'.requests = s.requests) (hcount : s'.count = s.count)
    (hloop : s'.loop = .acquiring ↔ s.loop = .acquiring)
    (hpart : ∀ i, (s'.tasks i).phase.part = (s.tasks i).phase.part) : Registry s' where
  nodup := by
    rw [hrequests]
    exact h.nodup
  mem i := by
    rw [hrequests, hpart]
    exact h.mem i
  count i := by
    rw [hcount, hpart]
    exact h.count i
  acquiring i := by
    rw [hcount, hpart, hloop]
    exact h.acquiring i
  nonempty hacq := by
    rw [hcount]
    exact h.nonempty (hloop.mp hacq)

theorem goesOn (h : Registry s) (hpart : th.phase.part = (s.tasks t).phase.part) :
    Registry (s.setTask t th) :=
  h.frame rfl rfl Iff.rfl (setTask_eq (·.phase.part) hpart)

theorem register (h : Registry s) (hloop : s.loop ≠ .acquiring) (tag : UInt16)
    (oldTag : Option UInt16) :
    Registry { register s tag oldTag with loop := .acquiring } := by
  have hnone : ∀ j, (s.tasks j).phase.part ≠ .acquiring := fun j hj =>
    hloop ((h.acquiring j).mp hj).1
  have hself : ((Tasks.register s tag oldTag).tasks s.count).phase.part = .acquiring := by
    simp [Tasks.register, Phase.part]
  have hother : ∀ j, j ≠ s.count →
      ((Tasks.register s tag oldTag).tasks j).phase.part = (s.tasks j).phase.part := by
    intro j hj
    change ((State.setTask _ s.count _).tasks j).phase.part = _
    rw [setTask_other hj]
    rfl
  have habsent : (s.tasks s.count).phase.part = .absent := (h.count s.count).mpr le_rfl
  refine ⟨?_, fun j => ?_, fun j => ?_, fun j => ?_, fun _ => Nat.succ_pos _⟩
  · have hnot : s.count ∉ s.requests := by
      rw [h.mem, habsent]
      simp
    exact List.nodup_append.mpr ⟨h.nodup, by simp, by simpa using fun j hj => ne_of_mem_of_not_mem hj hnot⟩
  · change j ∈ s.requests ++ [s.count] ↔ _
    rw [List.mem_append, List.mem_singleton, h.mem j]
    rcases eq_or_ne j s.count with rfl | hj
    · simp [hself]
    · simp [hother j hj, hj]
  · change _ ↔ s.count + 1 ≤ j
    rcases eq_or_ne j s.count with rfl | hj
    · simp [hself]
    · rw [hother j hj, h.count]
      omega
  · change _ ↔ Loop.acquiring = .acquiring ∧ j + 1 = s.count + 1
    rcases eq_or_ne j s.count with rfl | hj
    · simp [hself]
    · rw [hother j hj]
      simp only [hnone j, false_iff]
      omega

theorem spawn (h : Registry s) (hloop : s.loop = .acquiring) (permits : Nat) :
    Registry ({ s with loop := .top, permits := permits }.setPhase (s.count - 1) .handling) := by
  have hcount := h.nonempty hloop
  have hlast : ∀ j, (s.tasks j).phase.part = .acquiring ↔ j = s.count - 1 := by
    intro j
    rw [h.acquiring j]
    simp only [hloop, true_and]
    omega
  have hself : (({ s with loop := .top, permits := permits }.setPhase (s.count - 1) .handling).tasks
      (s.count - 1)).phase.part = .listed := by
    rw [setPhase_self]
    rfl
  have hother : ∀ j, j ≠ s.count - 1 → (({ s with loop := .top, permits := permits }.setPhase
      (s.count - 1) .handling).tasks j).phase.part = (s.tasks j).phase.part := by
    intro j hj
    rw [setPhase_other hj]
  refine ⟨h.nodup, fun j => (h.mem j).trans ?_, fun j => ?_, fun j => ?_, fun hacq => ?_⟩
  · rcases eq_or_ne j (s.count - 1) with rfl | hj
    · rw [hself, (hlast _).mpr rfl]
      simp
    · rw [hother j hj]
  · change _ ↔ s.count ≤ j
    rw [← h.count j]
    rcases eq_or_ne j (s.count - 1) with rfl | hj
    · rw [hself, (hlast _).mpr rfl]
      simp
    · rw [hother j hj]
  · change _ ↔ Loop.top = .acquiring ∧ j + 1 = s.count
    simp only [reduceCtorEq, false_and, iff_false]
    rcases eq_or_ne j (s.count - 1) with rfl | hj
    · rw [hself]
      simp
    · rw [hother j hj, hlast]
      exact hj
  · cases hacq

/-- While `Run` waits for the semaphore, it waits for the last request. -/
theorem last (h : Registry s) (hloop : s.loop = .acquiring) :
    (s.tasks (s.count - 1)).phase = .acquiring :=
  acquiring_of_part
    ((h.acquiring _).mpr ⟨hloop, Nat.sub_add_cancel (h.nonempty hloop)⟩)

theorem next (h : Registry s) : (s.tasks s.count).phase = .absent :=
  absent_of_part ((h.count s.count).mpr le_rfl)

theorem remove (h : Registry s) (hphase : (s.tasks t).phase.part = .listed) :
    Registry (remove s t) := by
  have hself : ((Tasks.remove s t).tasks t).phase.part = .gone := by
    simp [Tasks.remove, Phase.part]
  have hother : ∀ j, j ≠ t →
      ((Tasks.remove s t).tasks j).phase.part = (s.tasks j).phase.part := by
    intro j hj
    change ((State.setPhase _ t _).tasks j).phase.part = _
    rw [setPhase_other hj]
    rfl
  refine ⟨h.nodup.erase t, fun j => ?_, fun j => ?_, fun j => ?_, h.nonempty⟩
  · change j ∈ s.requests.erase t ↔ _
    rw [h.nodup.mem_erase_iff, h.mem j]
    rcases eq_or_ne j t with rfl | hj
    · simp [hself]
    · simp [hother j hj, hj]
  · change _ ↔ s.count ≤ j
    rw [← h.count j]
    rcases eq_or_ne j t with rfl | hj
    · simp [hself, hphase]
    · rw [hother j hj]
  · change _ ↔ s.loop = .acquiring ∧ j + 1 = s.count
    rw [← h.acquiring j]
    rcases eq_or_ne j t with rfl | hj
    · simp [hself, hphase]
    · rw [hother j hj]

/-- Where `Run` goes on does not matter, unless it waits for the semaphore. -/
theorem run (h : Registry s) (hrequests : s'.requests = s.requests) (hcount : s'.count = s.count)
    (htasks : s'.tasks = s.tasks) (hloop : s.loop ≠ .acquiring) (hloop' : s'.loop ≠ .acquiring) :
    Registry s' :=
  h.frame hrequests hcount (by simp [hloop, hloop']) fun i => by rw [htasks]

end Registry

/-! ## Suspended tasks -/

/-- What a task is suspended for: `m_SocketLock`, or the event of a request. -/
def Phase.suspension : Phase → Option (Option Nat)
  | .locking => some none
  | .waiting r => some (some r)
  | _ => none

theorem suspension_none : p.suspension = some none ↔ p = .locking := by
  cases p <;> simp [Phase.suspension]

theorem suspension_some {r : Nat} : p.suspension = some (some r) ↔ p = .waiting r := by
  cases p <;> simp [Phase.suspension]

theorem listed_of_suspended {o : Option Nat} (h : p.suspension = some o) : p.part = .listed := by
  cases p <;> first | rfl | cases h

/-- The tasks that are suspended are those in the lists of waiters. -/
structure Waiters (s : State) : Prop where
  lock : ∀ w, w ∈ s.socketLock.waiters ↔ (s.tasks w).phase.suspension = some none
  lock_nodup : s.socketLock.waiters.Nodup
  lock_free : s.socketLock.state = none → s.socketLock.waiters = []
  event : ∀ r w, w ∈ (s.infos r).event.waiters ↔ (s.tasks w).phase.suspension = some (some r)

namespace Waiters

theorem init : Waiters {} where
  lock w := by simp [AsyncLock.waiters, Phase.suspension]
  lock_nodup := List.nodup_nil
  lock_free _ := rfl
  event r w := by simp [AsyncEvent.waiters, Phase.suspension]

theorem frame (h : Waiters s) (hlock : s'.socketLock = s.socketLock)
    (hevent : ∀ r, (s'.infos r).event = (s.infos r).event)
    (hsusp : ∀ i, (s'.tasks i).phase.suspension = (s.tasks i).phase.suspension) : Waiters s' where
  lock w := by
    rw [hlock, hsusp]
    exact h.lock w
  lock_nodup := by
    rw [hlock]
    exact h.lock_nodup
  lock_free := by
    rw [hlock]
    exact h.lock_free
  event r w := by
    rw [hevent, hsusp]
    exact h.event r w

theorem goesOn (h : Waiters s) (hsusp : th.phase.suspension = (s.tasks t).phase.suspension) :
    Waiters (s.setTask t th) :=
  h.frame rfl (fun _ => rfl) (setTask_eq (·.phase.suspension) hsusp)

theorem lockSocket (h : Waiters s) (hphase : (s.tasks t).phase = .answered) :
    Waiters (lockSocket s t) := by
  have ht : (s.tasks t).phase.suspension = none := by rw [hphase]; rfl
  unfold Tasks.lockSocket
  by_cases hfree : s.socketLock.state = none
  · rw [AsyncLock.lock_free hfree]
    have hnone : s.socketLock.waiters = [] := h.lock_free hfree
    have hwait : AsyncLock.waiters { s.socketLock with state := some [] } = [] := by
      simpa [AsyncLock.waiters, hfree] using hnone
    refine Waiters.goesOn ⟨fun w => ?_, ?_, fun _ => hwait, h.event⟩ ht.symm
    · rw [hwait, ← hnone]
      exact h.lock w
    · rw [hwait]
      exact List.nodup_nil
  · obtain ⟨hsusp, hstate, hwaiters⟩ := AsyncLock.lock_held (t := t) hfree
    have hnot : t ∉ s.socketLock.waiters := by
      rw [h.lock, ht]
      simp
    simp only [hsusp, if_true]
    refine ⟨fun w => ?_, ?_, fun hnone => absurd hnone hstate, fun r w => ?_⟩
    · change w ∈ (s.socketLock.lock t).1.waiters ↔ _
      rw [hwaiters, List.mem_append, List.mem_singleton, h.lock]
      rcases eq_or_ne w t with rfl | hw
      · simp [Phase.suspension]
      · simp [setPhase_other hw, hw]
    · change (s.socketLock.lock t).1.waiters.Nodup
      rw [hwaiters]
      exact List.nodup_append.mpr
        ⟨h.lock_nodup, by simp, by simpa using fun w hw => ne_of_mem_of_not_mem hw hnot⟩
    · refine (h.event r w).trans ?_
      rcases eq_or_ne w t with rfl | hw
      · rw [ht, setPhase_self]
        simp [Phase.suspension]
      · rw [setPhase_other hw]

/-- `Unlock` leaves the lock free, or gives it to a task that is suspended. -/
theorem unlock_cases (h : Waiters s) (ht : (s.tasks t).phase.suspension = none) (next : Phase) :
    (s.socketLock.waiters = [] ∧ s.socketLock.unlock.1.state = none ∧
        s.socketLock.unlock.1.waiters = [] ∧
        unlockSocket s t next = { s with socketLock := s.socketLock.unlock.1 }.setPhase t next) ∨
      ∃ w, w ≠ t ∧ (s.tasks w).phase = .locking ∧
        s.socketLock.waiters = w :: s.socketLock.unlock.1.waiters ∧
        s.socketLock.unlock.1.state ≠ none ∧
        unlockSocket s t next =
          ({ s with socketLock := s.socketLock.unlock.1 }.setPhase t next).setPhase w .sending := by
  obtain ⟨hnone, hwaiters, hstate, hwaiters'⟩ | ⟨w, hsome, hwaiters, hstate⟩ :=
    s.socketLock.unlock_spec
  · exact .inl ⟨hwaiters, hstate, hwaiters', unlockSocket_none hnone⟩
  · have hw : (s.tasks w).phase = .locking := by
      rw [← suspension_none, ← h.lock, hwaiters]
      exact List.mem_cons_self
    have hne : w ≠ t := by
      rintro rfl
      rw [hw] at ht
      cases ht
    refine .inr ⟨w, hne, hw, hwaiters, hstate fun hfree => ?_, unlockSocket_some hsome⟩
    rw [h.lock_free hfree] at hwaiters
    cases hwaiters

/-- The task behind `Unlock`, and the one that gets the lock. -/
theorem unlockSocket (h : Waiters s) {next : Phase} (hphase : (s.tasks t).phase.suspension = none)
    (hnext : next.suspension = none) : Waiters (unlockSocket s t next) := by
  obtain ⟨hwaiters, hstate, hwaiters', heq⟩ | ⟨w, hne, hphase', hwaiters, hstate, heq⟩ :=
    h.unlock_cases hphase next
  · rw [heq]
    refine Waiters.goesOn ⟨fun w => ?_, ?_, fun _ => hwaiters', h.event⟩ (hnext.trans hphase.symm)
    · rw [hwaiters', ← hwaiters]
      exact h.lock w
    · rw [hwaiters']
      exact List.nodup_nil
  · rw [heq]
    have hw : (s.tasks w).phase.suspension = some none := suspension_none.mpr hphase'
    have hnodup : (w :: s.socketLock.unlock.1.waiters).Nodup := hwaiters ▸ h.lock_nodup
    have hother : ∀ v, v ≠ w → ((({ s with socketLock := s.socketLock.unlock.1 }.setPhase t
        next).setPhase w .sending).tasks v).phase.suspension = (s.tasks v).phase.suspension := by
      intro v hv
      rw [setPhase_other hv]
      exact setPhase_eq (·.phase.suspension) (hnext.trans hphase.symm) v
    have hself : ((({ s with socketLock := s.socketLock.unlock.1 }.setPhase t
        next).setPhase w .sending).tasks w).phase.suspension = none := by
      rw [setPhase_self]
      rfl
    refine ⟨fun v => ?_, (List.nodup_cons.mp hnodup).2, fun hfree => ?_, fun r v => ?_⟩
    · change v ∈ s.socketLock.unlock.1.waiters ↔ _
      rcases eq_or_ne v w with rfl | hv
      · rw [hself]
        simpa using (List.nodup_cons.mp hnodup).1
      · rw [hother v hv, ← h.lock, hwaiters]
        simp [hv]
    · exact absurd hfree hstate
    · refine (h.event r v).trans ?_
      rcases eq_or_ne v w with rfl | hv
      · rw [hself, hw]
        simp
      · rw [hother v hv]

theorem awaitEvent (h : Waiters s) {r : Nat} (hphase : (s.tasks t).phase = .found r) :
    Waiters (awaitEvent s t r) := by
  have ht : (s.tasks t).phase.suspension = none := by rw [hphase]; rfl
  cases hevent : (s.infos r).event with
  | set =>
    rw [awaitEvent_set hevent]
    exact Waiters.goesOn (h.frame rfl (fun _ => rfl) fun _ => rfl) ht.symm
  | unset waiters =>
    rw [awaitEvent_unset hevent]
    refine ⟨fun w => (h.lock w).trans ?_, h.lock_nodup, h.lock_free, fun q w => ?_⟩
    · rcases eq_or_ne w t with rfl | hw
      · rw [ht, setPhase_self]
        simp [Phase.suspension]
      · rw [setPhase_other hw]
        rfl
    · have hold := h.event q w
      have hnew : w ∈ (((s.use [r]).setInfo r
          { s.infos r with event := .unset (t :: waiters) }).infos q).event.waiters ↔
          (w = t ∧ q = r) ∨ w ∈ (s.infos q).event.waiters := by
        rcases eq_or_ne q r with rfl | hq
        · rw [setInfo_self, hevent]
          simp [AsyncEvent.waiters]
        · rw [setInfo_other hq]
          simp [State.use, hq]
      refine hnew.trans ?_
      rw [hold]
      rcases eq_or_ne w t with rfl | hw
      · rw [ht, setPhase_self]
        simp [Phase.suspension, eq_comm]
      · rw [setPhase_other hw]
        simp [hw, State.use, State.setInfo]

theorem setEvent (h : Waiters s) {owned : Bool} (hphase : (s.tasks t).phase = .setting owned) :
    Waiters (setEvent s t owned) := by
  have ht : (s.tasks t).phase.suspension = none := by rw [hphase]; rfl
  have hsusp : ∀ w, ((Tasks.setEvent s t owned).tasks w).phase.suspension =
      if (s.tasks w).phase.suspension = some (some t) then none
      else (s.tasks w).phase.suspension := by
    intro w
    rcases eq_or_ne w t with rfl | hw
    · rw [setEvent_self, ht]
      rfl
    · rw [setEvent_other hw]
      simp only [h.event t w]
      split <;> rfl
  refine ⟨fun w => (h.lock w).trans ?_, h.lock_nodup, h.lock_free, fun q w => ?_⟩
  · rw [hsusp]
    split
    next hwait => simp [hwait]
    next => rfl
  · rw [hsusp]
    change w ∈ ((State.setInfo (s.use [t]) t { s.infos t with event := .set }).infos q).event.waiters ↔ _
    rcases eq_or_ne q t with rfl | hq
    · rw [setInfo_self]
      simp [AsyncEvent.waiters]
    · rw [setInfo_other hq]
      refine (h.event q w).trans ?_
      split
      next hwait => simp [hwait, hq.symm]
      next => rfl

end Waiters

theorem setEvent_eq {β : Type} (h : Waiters s) (g : Phase → β) {owned : Bool}
    (hself : g (s.tasks t).phase = g (.finishing owned)) (hwake : g (.waiting t) = g (.woken t))
    (i : Nat) : g ((setEvent s t owned).tasks i).phase = g (s.tasks i).phase := by
  rcases eq_or_ne i t with rfl | hi
  · rw [setEvent_self, hself]
  · rw [setEvent_other hi]
    split
    next hwait => rw [suspension_some.mp ((h.event t i).mp hwait), hwake]
    next => rfl

/-! ## The list and the waiters through a step -/

/-- The state that the tasks agree on. -/
structure Sane (s : State) : Prop where
  registry : Registry s
  waiters : Waiters s

namespace Sane

theorem init : Sane {} := ⟨.init, .init⟩

theorem goesOn (h : Sane s) (hphase : (s.tasks t).phase = p) (hpart : th.phase.part = p.part)
    (hsusp : th.phase.suspension = p.suspension) : Sane (s.setTask t th) :=
  ⟨h.registry.goesOn (by rw [hpart, hphase]), h.waiters.goesOn (by rw [hsusp, hphase])⟩

theorem frame (h : Sane s) (hrequests : s'.requests = s.requests) (hcount : s'.count = s.count)
    (hloop : s'.loop = s.loop) (htasks : s'.tasks = s.tasks) (hlock : s'.socketLock = s.socketLock)
    (hevent : ∀ r, (s'.infos r).event = (s.infos r).event) : Sane s' :=
  ⟨h.registry.frame hrequests hcount (by rw [hloop]) fun i => by rw [htasks],
    h.waiters.frame hlock hevent fun i => by rw [htasks]⟩

theorem unlockSocket (h : Sane s) {next : Phase} (hphase : (s.tasks t).phase = p)
    (hpart : p.part = .listed) (hnext : next.part = .listed) (hold : p.suspension = none)
    (hsusp : next.suspension = none) : Sane (unlockSocket s t next) := by
  have ht : (s.tasks t).phase.suspension = none := by rw [hphase, hold]
  refine ⟨?_, h.waiters.unlockSocket ht hsusp⟩
  have hgone : Registry ({ s with socketLock := s.socketLock.unlock.1 }.setPhase t next) :=
    Registry.goesOn (h.registry.frame rfl rfl Iff.rfl fun _ => rfl) (by rw [hnext, hphase, hpart])
  obtain ⟨-, -, -, heq⟩ | ⟨w, hne, hw, -, -, heq⟩ := h.waiters.unlock_cases ht next
  · rw [heq]
    exact hgone
  · rw [heq]
    refine hgone.goesOn ?_
    rw [setPhase_other hne]
    exact (congrArg Phase.part hw).symm

theorem setEvent (h : Sane s) {owned : Bool} (hphase : (s.tasks t).phase = .setting owned) :
    Sane (setEvent s t owned) := by
  refine ⟨h.registry.frame rfl rfl Iff.rfl ?_, h.waiters.setEvent hphase⟩
  exact setEvent_eq h.waiters Phase.part (by rw [hphase]; rfl) rfl

theorem receive (h : Sane s) (hloop : s.loop ≠ .acquiring) (tag : UInt16) (oldTag : Option UInt16) :
    Sane { register s tag oldTag with loop := .acquiring } := by
  have habsent : (s.tasks s.count).phase.part = .absent := (h.registry.count s.count).mpr le_rfl
  have hnew : (s.tasks s.count).phase.suspension = none := by
    by_contra hsusp
    obtain ⟨o, ho⟩ := Option.ne_none_iff_exists'.mp hsusp
    rw [listed_of_suspended ho] at habsent
    cases habsent
  refine ⟨h.registry.register hloop tag oldTag, h.waiters.frame rfl (fun _ => rfl) ?_⟩
  exact setTask_eq (·.phase.suspension) hnew.symm

theorem spawn (h : Sane s) (hloop : s.loop = .acquiring) (permits : Nat) :
    Sane ({ s with loop := .top, permits := permits }.setPhase (s.count - 1) .handling) := by
  have hlast : (s.tasks (s.count - 1)).phase.part = .acquiring :=
    (h.registry.acquiring _).mpr ⟨hloop, Nat.sub_add_cancel (h.registry.nonempty hloop)⟩
  have hsusp : (s.tasks (s.count - 1)).phase.suspension = none := by
    by_contra hsusp
    obtain ⟨o, ho⟩ := Option.ne_none_iff_exists'.mp hsusp
    rw [listed_of_suspended ho] at hlast
    cases hlast
  refine ⟨h.registry.spawn hloop permits, h.waiters.frame rfl (fun _ => rfl) ?_⟩
  exact setTask_eq (·.phase.suspension) hsusp.symm

theorem step (h : Sane s) (hs : step s a = some s') : Sane s' := by
  cases step_cases hs with
  | check hloop =>
    refine ⟨h.registry.run rfl rfl rfl (by simp [hloop]) ?_,
      h.waiters.frame rfl (fun _ => rfl) fun _ => rfl⟩
    dsimp only
    split <;> simp
  | receive hloop => exact h.receive (by simp [hloop]) _ _
  | stop hloop =>
    exact ⟨h.registry.run rfl rfl rfl (by simp [hloop]) (by simp),
      h.waiters.frame rfl (fun _ => rfl) fun _ => rfl⟩
  | spawn hloop _ => exact h.spawn hloop _
  | shutdown hloop =>
    exact ⟨h.registry.run rfl rfl rfl (by simp [hloop]) (by simp),
      h.waiters.frame rfl (fun _ => rfl) fun _ => rfl⟩
  | wait hloop _ =>
    exact ⟨h.registry.run rfl rfl rfl (by simp [hloop]) (by simp),
      h.waiters.frame rfl (fun _ => rfl) fun _ => rfl⟩
  | handle hphase _ => exact h.goesOn hphase rfl rfl
  | @flush t oldTag hphase _ =>
    unfold handleFlush
    have hused : Sane (s.use s.requests) := h.frame rfl rfl rfl rfl rfl fun _ => rfl
    cases search s oldTag with
    | none => exact hused.goesOn hphase rfl rfl
    | some r =>
      have hmarked : Sane ((s.use s.requests).setInfo r { s.infos r with cancelled := true }) :=
        hused.frame rfl rfl rfl rfl rfl (setInfo_eq (·.event) rfl)
      exact hmarked.goesOn hphase rfl rfl
  | @await t r hphase =>
    refine ⟨?_, h.waiters.awaitEvent hphase⟩
    refine Registry.goesOn (h.registry.frame rfl rfl Iff.rfl fun _ => rfl) ?_
    simp only [State.use, State.setInfo, hphase]
    split <;> rfl
  | @flushed t r hphase =>
    have hfreed : Sane (s.free r) := h.frame rfl rfl rfl rfl rfl (setInfo_eq (·.event) rfl)
    exact hfreed.goesOn hphase rfl rfl
  | @lock t hphase =>
    refine ⟨?_, h.waiters.lockSocket hphase⟩
    refine Registry.goesOn (h.registry.frame rfl rfl Iff.rfl fun _ => rfl) ?_
    simp only [hphase]
    split <;> rfl
  | send hphase _ _ =>
    refine Sane.goesOn (h.frame rfl rfl rfl rfl rfl fun _ => rfl) hphase ?_ ?_
    · dsimp only
      split <;> rfl
    · dsimp only
      split <;> rfl
  | block hphase => exact h.goesOn hphase rfl rfl
  | error hphase =>
    exact Sane.goesOn (h.frame rfl rfl rfl rfl rfl fun _ => rfl) hphase rfl rfl
  | ready hphase => exact h.goesOn hphase rfl rfl
  | cancelled hphase _ => exact h.goesOn hphase rfl rfl
  | unlockSent hphase => exact h.unlockSocket hphase rfl rfl rfl rfl
  | unlockFailed hphase => exact h.unlockSocket hphase rfl rfl rfl rfl
  | caught hphase =>
    exact Sane.goesOn (h.frame rfl rfl rfl rfl rfl fun _ => rfl) hphase rfl rfl
  | @remove t hphase =>
    refine ⟨h.registry.remove (by rw [hphase]; rfl), h.waiters.frame rfl (fun _ => rfl) ?_⟩
    exact setPhase_eq (·.phase.suspension) (by simp [hphase, State.use, Phase.suspension])
  | release hphase =>
    exact Sane.goesOn (h.frame rfl rfl rfl rfl rfl fun _ => rfl) hphase rfl rfl
  | set hphase => exact h.setEvent hphase
  | @finish t owned hphase =>
    have hfreed : Sane (if owned then s.free t else s) := by
      cases owned with
      | false => exact h
      | true => exact h.frame rfl rfl rfl rfl rfl (setInfo_eq (·.event) rfl)
    have htasks : (if owned then s.free t else s).tasks t = s.tasks t := by
      cases owned <;> rfl
    have hphase' : ((if owned then s.free t else s).tasks t).phase = .finishing owned := by
      rw [htasks, hphase]
    exact Sane.goesOn (hfreed.frame rfl rfl rfl rfl rfl fun _ => rfl) hphase' rfl rfl

end Sane

/-! ## The way of a task -/

/-- The next phase of the task `i` at a step of the state. -/
inductive Moves (s : State) (a : Act) (i : Nat) : Phase → Phase → Prop where
  | receive : Moves s a i .absent .acquiring
  | spawn (ha : a = .spawn) : Moves s a i .acquiring .handling
  | handle (hflush : (s.tasks i).oldTag = none) : Moves s a i .handling .answered
  | miss {oldTag : UInt16} (hflush : (s.tasks i).oldTag = some oldTag) (ha : a = .flush i)
    (hsearch : search s oldTag = none) : Moves s a i .handling .answered
  | find {oldTag : UInt16} {r : Nat} (hflush : (s.tasks i).oldTag = some oldTag) (ha : a = .flush i)
    (hsearch : search s oldTag = some r) : Moves s a i .handling (.found r)
  | wait (r : Nat) : Moves s a i (.found r) (.waiting r)
  | ready (r : Nat) (hset : (s.infos r).event = .set) : Moves s a i (.found r) (.woken r)
  | wake (r : Nat) {owned : Bool} (hset : (s.tasks r).phase = .setting owned) :
    Moves s a i (.waiting r) (.woken r)
  | flushed (r : Nat) : Moves s a i (.woken r) .answered
  | queue : Moves s a i .answered .locking
  | lock : Moves s a i .answered .sending
  | grant : Moves s a i .locking .sending
  | send (h : ∃ n, a = .send i n ∧
      (s.tasks i).response.length ≤ (s.tasks i).totalSent + n) : Moves s a i .sending .sent
  | block : Moves s a i .sending .suspended
  | resume : Moves s a i .suspended .sending
  | error (ha : ∃ broken, a = .error i broken) : Moves s a i .sending .failed
  | cancelled (ha : a = .cancelled i) : Moves s a i .suspended .failed
  | unlockSent : Moves s a i .sent .closing
  | unlockFailed : Moves s a i .failed .caught
  | caught : Moves s a i .caught .closing
  | remove : Moves s a i .closing .removed
  | release : Moves s a i .removed (.setting !(s.infos i).cancelled)
  | set (owned : Bool) : Moves s a i (.setting owned) (.finishing owned)
  | finish (owned : Bool) (ha : a = .finish i) : Moves s a i (.finishing owned) .done

def StaysOrMoves (s : State) (a : Act) (s' : State) (i : Nat) : Prop :=
  (s'.tasks i).phase = (s.tasks i).phase ∨ Moves s a i (s.tasks i).phase (s'.tasks i).phase

theorem setTask_moves {u : State} (hu : u.tasks = s.tasks) (hphase : (s.tasks t).phase = p)
    (h : Moves s a t p th.phase) (i : Nat) : StaysOrMoves s a (u.setTask t th) i := by
  unfold StaysOrMoves
  rcases eq_or_ne i t with rfl | hi
  · rw [setTask_self, hphase]
    exact .inr h
  · rw [setTask_other hi, hu]
    exact .inl rfl

theorem unlockSocket_moves (h : Sane s) {next : Phase} (hphase : (s.tasks t).phase = p)
    (hsusp : p.suspension = none) (hmove : Moves s a t p next) (i : Nat) :
    StaysOrMoves s a (unlockSocket s t next) i := by
  have ht : (s.tasks t).phase.suspension = none := by rw [hphase, hsusp]
  have hself : ∀ i, StaysOrMoves s a
      ({ s with socketLock := s.socketLock.unlock.1 }.setPhase t next) i :=
    setTask_moves rfl hphase hmove
  obtain ⟨-, -, -, heq⟩ | ⟨w, hne, hw, -, -, heq⟩ := h.waiters.unlock_cases ht next
  · rw [heq]
    exact hself i
  · rw [heq]
    unfold StaysOrMoves
    rcases eq_or_ne i w with rfl | hi
    · rw [setPhase_self, hw]
      exact .inr .grant
    · rw [setPhase_other hi]
      exact hself i

theorem setEvent_moves (h : Sane s) {owned : Bool} (ht : (s.tasks t).phase = .setting owned)
    (i : Nat) : StaysOrMoves s a (setEvent s t owned) i := by
  unfold StaysOrMoves
  rcases eq_or_ne i t with rfl | hi
  · rw [setEvent_self, ht]
    exact .inr (.set owned)
  · rw [setEvent_other hi]
    split
    next hwait =>
      rw [suspension_some.mp ((h.waiters.event t i).mp hwait)]
      exact .inr (.wake t ht)
    next => exact .inl rfl

theorem step_moves (h : Sane s) (hs : step s a = some s') (i : Nat) : StaysOrMoves s a s' i := by
  cases step_cases hs with
  | check _ | stop _ | shutdown _ | wait _ _ => exact .inl rfl
  | receive _ =>
    exact setTask_moves (s := s) (u := s.use s.requests) rfl h.registry.next .receive i
  | spawn hloop _ =>
    exact setTask_moves rfl (h.registry.last hloop) (.spawn rfl) i
  | handle hphase hflush => exact setTask_moves rfl hphase (.handle hflush) i
  | @flush t oldTag hphase hflush =>
    unfold handleFlush
    cases hsearch : search s oldTag with
    | none => exact setTask_moves rfl hphase (.miss hflush rfl hsearch) i
    | some r => exact setTask_moves rfl hphase (.find hflush rfl hsearch) i
  | @await t r hphase =>
    cases hevent : (s.infos r).event with
    | set =>
      rw [awaitEvent_set hevent]
      exact setTask_moves rfl hphase (.ready r hevent) i
    | unset waiters =>
      rw [awaitEvent_unset hevent]
      exact setTask_moves rfl hphase (.wait r) i
  | flushed hphase => exact setTask_moves rfl hphase (.flushed _) i
  | @lock t hphase =>
    refine setTask_moves rfl hphase ?_ i
    dsimp only
    split
    · exact .queue
    · exact .lock
  | @send t n hphase _ _ =>
    unfold sendBytes StaysOrMoves
    rcases eq_or_ne i t with rfl | hi
    · rw [setTask_self, hphase]
      dsimp only
      split
      next => exact .inl rfl
      next hlong => exact .inr (.send ⟨n, rfl, not_lt.mp hlong⟩)
    · rw [setTask_other hi]
      exact .inl rfl
  | block hphase => exact setTask_moves rfl hphase .block i
  | error hphase => exact setTask_moves rfl hphase (.error ⟨_, rfl⟩) i
  | ready hphase => exact setTask_moves rfl hphase .resume i
  | cancelled hphase _ => exact setTask_moves rfl hphase (.cancelled rfl) i
  | unlockSent hphase => exact unlockSocket_moves h hphase rfl .unlockSent i
  | unlockFailed hphase => exact unlockSocket_moves h hphase rfl .unlockFailed i
  | caught hphase => exact setTask_moves rfl hphase .caught i
  | remove hphase => exact setTask_moves rfl hphase .remove i
  | release hphase => exact setTask_moves rfl hphase .release i
  | set hphase => exact setEvent_moves h hphase i
  | @finish t owned hphase =>
    cases owned with
    | false => exact setTask_moves rfl hphase (.finish _ rfl) i
    | true => exact setTask_moves rfl hphase (.finish _ rfl) i

end WslFreeBSD.Plan9.Tasks
