import Mathlib.Data.List.Basic

/-!
# Events and locks of coroutines

`AsyncEvent` and `AsyncLock`. The tasks are numbers here. What one atomic operation on the state decides
is one step.
-/

namespace WslFreeBSD.Plan9

/-- `AsyncEvent`. The waiters are in LIFO order. -/
inductive AsyncEvent where
  | unset (waiters : List Nat)
  | set
  deriving DecidableEq

namespace AsyncEvent

/-- `AsyncEventTask`: the event, and whether the task is suspended. -/
def await (e : AsyncEvent) (t : Nat) : AsyncEvent × Bool :=
  match e with
  | .set => (.set, false)
  | .unset waiters => (.unset (t :: waiters), true)

def waiters : AsyncEvent → List Nat
  | .unset waiters => waiters
  | .set => []

end AsyncEvent

/-- `AsyncLock`. `state` is nothing when the lock is not held, and else the new waiters in LIFO order.
`waitList` are the older waiters in FIFO order. -/
structure AsyncLock where
  state : Option (List Nat) := none
  waitList : List Nat := []
  deriving DecidableEq

namespace AsyncLock

/-- `AsyncLockTask`: the lock, and whether the task is suspended. -/
def lock (l : AsyncLock) (t : Nat) : AsyncLock × Bool :=
  match l.state with
  | none => ({ l with state := some [] }, false)
  | some new => ({ l with state := some (t :: new) }, true)

/-- `Unlock`: the lock, and the task that gets it. -/
def unlock (l : AsyncLock) : AsyncLock × Option Nat :=
  match l.waitList with
  | t :: rest => ({ l with waitList := rest }, some t)
  | [] =>
    match (l.state.getD []).reverse with
    | t :: rest => ({ state := some [], waitList := rest }, some t)
    | [] => ({ l with state := none }, none)

/-- The tasks that wait, in the order in which they get the lock. -/
def waiters (l : AsyncLock) : List Nat := l.waitList ++ (l.state.getD []).reverse

variable {l : AsyncLock} {t : Nat}

theorem lock_free (h : l.state = none) : l.lock t = ({ l with state := some [] }, false) := by
  simp [lock, h]

theorem lock_held (h : l.state ≠ none) :
    (l.lock t).2 = true ∧ (l.lock t).1.state ≠ none ∧ (l.lock t).1.waiters = l.waiters ++ [t] := by
  obtain ⟨new, hnew⟩ := Option.ne_none_iff_exists'.mp h
  simp [lock, hnew, waiters]

theorem unlock_spec (l : AsyncLock) :
    (l.unlock.2 = none ∧ l.waiters = [] ∧ l.unlock.1.state = none ∧ l.unlock.1.waiters = []) ∨
      ∃ t, l.unlock.2 = some t ∧ l.waiters = t :: l.unlock.1.waiters ∧
        (l.state ≠ none → l.unlock.1.state ≠ none) := by
  unfold unlock waiters
  cases hwait : l.waitList with
  | cons t rest => exact .inr ⟨t, rfl, rfl, id⟩
  | nil =>
    cases hrev : (l.state.getD []).reverse with
    | cons t rest => exact .inr ⟨t, rfl, by simp, by simp⟩
    | nil => exact .inl ⟨rfl, by simp, rfl, by simp⟩

end AsyncLock

end WslFreeBSD.Plan9
