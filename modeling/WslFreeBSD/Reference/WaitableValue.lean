import WslFreeBSD.Lib.Monitor

/-!
# `WaitableValue`

`waitablevalue.h` is a monitor for at most one value: `post` waits until there is none, `get` and `try_get`
wait until there is one and take it. Any number of threads call these. Values are taken out in the order in
which they were posted, each once, and no thread sleeps on although it could go on (`reaches_waitable`).
-/

namespace WslFreeBSD.Reference

open Lib

variable {T τ : Type*}

/-- The calls. A `try_get` that waits too long returns without a value. -/
inductive WaitableCall (T : Type*) where
  | post (value : T)
  | get
  | try_get

def WaitableCall.posts? : WaitableCall T → Option T
  | .post v => some v
  | _ => none

/-- `m_value` with the conditions and effects of the calls. -/
def waitableValue (T : Type*) : Monitor (Option T) (WaitableCall T) where
  ready c m_value :=
    match c with
    | .post _ => m_value.isNone
    | _ => m_value.isSome
  effect c _ := c.posts?
  timed c :=
    match c with
    | .try_get => true
    | _ => false

namespace WaitableValue

/-- The values that have been stored, oldest first. -/
def posted (history : List (τ × WaitableCall T × Option T)) : List T := history.filterMap fun e => e.2.1.posts?

/-- The values that have been taken out, oldest first. -/
def taken (history : List (τ × WaitableCall T × Option T)) : List T := history.filterMap fun e => e.2.2

theorem posted_concat (history : List (τ × WaitableCall T × Option T)) (e : τ × WaitableCall T × Option T) :
    posted (history ++ [e]) = posted history ++ e.2.1.posts?.toList := by
  rw [posted, List.filterMap_append]
  cases h : e.2.1.posts? <;> simp [h, posted]

theorem taken_concat (history : List (τ × WaitableCall T × Option T)) (e : τ × WaitableCall T × Option T) :
    taken (history ++ [e]) = taken history ++ e.2.2.toList := by
  rw [taken, List.filterMap_append]
  cases h : e.2.2 <;> simp [h, taken]

theorem posted_eq_of_legal {history : List (τ × WaitableCall T × Option T)}
    (h : Preceded ((waitableValue T).Legal none) history) :
    posted history = taken history ++ ((waitableValue T).after none history).toList := by
  induction history using List.reverseRecOn with
  | nil => rfl
  | append_singleton history e ih =>
    obtain ⟨hfound, hready⟩ := h history e [] rfl
    rw [posted_concat, taken_concat, Monitor.after_concat, ih h.of_append, ← hfound]
    rfl

def Waits (c : WaitableCall T) (m_value : Option T) : Prop :=
  match c with
  | .post _ => m_value.isSome
  | _ => m_value = none

theorem waits_of_not_ready {c : WaitableCall T} {m_value : Option T}
    (h : (waitableValue T).ready c m_value = false) : Waits c m_value := by
  cases c with
  | post v =>
    cases m_value with
    | none => cases h
    | some x => rfl
  | get => exact Option.not_isSome_iff_eq_none.mp (Bool.eq_false_iff.mp h)
  | try_get => exact Option.not_isSome_iff_eq_none.mp (Bool.eq_false_iff.mp h)

variable [DecidableEq τ]

/-- The values leave in the order in which they came, each once; and a thread that sleeps cannot go on, unless
another one is about to wake it. -/
theorem reaches_waitable {w : Monitor.World (Option T) (WaitableCall T) τ}
    (h : Reaches (waitableValue T).step (fun _ _ => True) (Monitor.start none) w) :
    posted w.history = taken w.history ++ w.value.toList ∧
      ∀ t c, w.stage t = .asleep c → Waits c w.value ∨ ∃ u d, w.stage u = .notifying d := by
  have hsound := Monitor.reaches_sound h
  refine ⟨?_, fun t c hasleep => ?_⟩
  · rw [hsound.value]
    exact posted_eq_of_legal hsound.legal
  · cases hready : (waitableValue T).ready c w.value with
    | false => exact .inl (waits_of_not_ready hready)
    | true => exact .inr (hsound.asleep t c hasleep hready)

/-- Two threads: one takes a value for which it has waited. -/
def handover : List (Bool × Monitor.Move (WaitableCall Nat)) :=
  [(true, .call .get), (true, .lock), (true, .test), (false, .call (.post 7)), (false, .lock), (false, .test)]

theorem handover_isSome : (handover.foldlM (waitableValue Nat).step (Monitor.start none)).isSome := by decide

theorem reaches_waitable_handover :
    posted ((handover.foldlM (waitableValue Nat).step (Monitor.start none)).get handover_isSome).history = [7] ∧
      (posted ((handover.foldlM (waitableValue Nat).step (Monitor.start none)).get handover_isSome).history =
        taken ((handover.foldlM (waitableValue Nat).step (Monitor.start none)).get handover_isSome).history ++
          ((handover.foldlM (waitableValue Nat).step (Monitor.start none)).get handover_isSome).value.toList) :=
  ⟨by decide, (reaches_waitable (Reaches.start.foldlM (fun _ _ _ => trivial)
    (Option.some_get handover_isSome).symm)).1⟩

end WaitableValue

end WslFreeBSD.Reference
