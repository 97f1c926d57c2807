import WslFreeBSD.Hvinit.Processes
import WslFreeBSD.Lib.Interpret

/-!
# The start of the Plan 9 server

`plan9_start_server` and the child that it forks (`plan9_child_run`), as two processes whose steps
are taken in any order. The child says that it is ready by closing its end of the pipe, which also
happens when it ends before that; and the parent goes on in the same way whatever its `read`
returns.

So a call that has forked returns the port (`module_of_returns`), and the result is right exactly if
the child had reached its accept loop by then (`plan9Start_right_iff`). The parent by itself is the
program of the event loop (`plan9StartServer_of_calls`).
-/

namespace WslFreeBSD.Hvinit

open Lib

/-! ## The two processes -/

/-- `g_plan9`. -/
structure Plan9Module where
  childPid : Int := -1
  port : Nat := 0
  started : Bool := false
  controlPipe : Int × Int := (-1, -1)
  deriving DecidableEq, Repr

/-- Where the child is in `plan9_child_run`. -/
inductive ChildPhase where
  | backendInit
  | serverInit
  | signalling
  /-- the end of the pipe is closed -/
  | signalled
  | polling
  | accepting
  | exited
  deriving DecidableEq, Repr

/-- The child, whether it has come to its accept loop, and whether it has been waited for. -/
structure Plan9Child where
  pid : Nat
  phase : ChildPhase := .backendInit
  reachedLoop : Bool := false
  collected : Bool := false
  deriving DecidableEq, Repr

/-- Where the parent is in `plan9_start_server`. -/
inductive ParentPhase where
  | opening
  | binding
  | piping
  | forking
  | reading (pid : Nat)
  | returned (port : Nat)
  deriving DecidableEq, Repr

structure Plan9Start where
  module : Plan9Module
  parent : ParentPhase
  child : Option Plan9Child := none
  deriving DecidableEq, Repr

/-- How a call returns that waits for connections. -/
inductive WaitResult where
  | ready
  /-- `EINTR`, `EAGAIN`, or nothing to read -/
  | again
  | failed
  deriving DecidableEq, Repr

/-- What the child does, with the result. -/
inductive ChildAct where
  | backendFsInit (ok : Bool)
  | serverInit (ok : Bool)
  | controlClosed
  | loopEntered
  | polled (result : WaitResult)
  | accepted (result : WaitResult)
  | killed
  deriving DecidableEq, Repr

/-- What happens next: a call of the parent returns, or the child does something. -/
inductive StartAct where
  | opened (ok : Bool)
  | bound (ok : Bool)
  | piped (fds : Option (Nat × Nat))
  | forked (pid : Option Nat)
  | readEof
  | readFailed
  | child (a : ChildAct)
  deriving DecidableEq, Repr

/-- `plan9_child_run`. -/
def childStep : ChildPhase → ChildAct → Option ChildPhase
  | .exited, _ => none
  | _, .killed => some .exited
  | .backendInit, .backendFsInit ok => some (if ok then .serverInit else .exited)
  | .serverInit, .serverInit ok => some (if ok then .signalling else .exited)
  | .signalling, .controlClosed => some .signalled
  | .signalled, .loopEntered => some .polling
  | .polling, .polled .ready => some .accepting
  | .polling, .polled .again => some .polling
  | .polling, .polled .failed => some .exited
  | .accepting, .accepted .failed => some .exited
  | .accepting, .accepted _ => some .polling
  | _, _ => none

def ChildPhase.holdsPipe : ChildPhase → Bool
  | .backendInit | .serverInit | .signalling => true
  | _ => false

def Plan9Child.act (c : Plan9Child) (a : ChildAct) : Option Plan9Child :=
  (childStep c.phase a).map fun phase =>
    { c with phase, reachedLoop := c.reachedLoop || phase = .polling }

/-- The end of `plan9_start_server`, after `read`. -/
def Plan9Start.finish (s : Plan9Start) (pid : Nat) : Plan9Start :=
  { s with
    module := { s.module with childPid := pid, port := LX_INIT_UTILITY_VM_PLAN9_PORT, started := true }
    parent := .returned LX_INIT_UTILITY_VM_PLAN9_PORT }

/-- `plan9_start_server` and its child. -/
def startStep (s : Plan9Start) : StartAct → Option Plan9Start
  | .opened ok =>
    if s.parent = .opening then some { s with parent := if ok then .binding else .returned 0 } else none
  | .bound ok =>
    if s.parent = .binding then some { s with parent := if ok then .piping else .returned 0 } else none
  | .piped fds =>
    if s.parent = .piping then
      match fds with
      | none => some { s with parent := .returned 0 }
      | some (r, w) => some
          { s with module := { s.module with controlPipe := (r, w) }, parent := .forking }
    else none
  | .forked pid =>
    if s.parent = .forking then
      match pid with
      | none => some
          { s with module := { s.module with controlPipe := (-1, -1) }, parent := .returned 0 }
      | some pid => some
          { module := { s.module with controlPipe := (s.module.controlPipe.1, -1) }
            parent := .reading pid
            child := some { pid } }
    else none
  | .readEof =>
    match s.parent, s.child with
    | .reading pid, some c => if c.phase.holdsPipe then none else some (s.finish pid)
    | _, _ => none
  | .readFailed =>
    match s.parent with
    | .reading pid => some (s.finish pid)
    | _ => none
  | .child a =>
    match s.child with
    | some c => (c.act a).map fun c => { s with child := some c }
    | none => none

/-- The call of `plan9_start_server`. -/
def Plan9Module.call (g : Plan9Module) : Plan9Start :=
  { module := g, parent := if g.started then .returned g.port else .opening }

/-- The call has come to the state by these steps, and had not returned before the last of them. -/
inductive Plan9Module.Calls (g : Plan9Module) : List StartAct → Plan9Start → Prop where
  | call : Calls g [] g.call
  | step {acts : List StartAct} {s s' : Plan9Start} {a : StartAct} (h : Calls g acts s)
    (hcalling : ∀ port, s.parent ≠ .returned port) (hs : startStep s a = some s') : Calls g (acts ++ [a]) s'

/-- The next step of a call that has not returned. -/
def callStep (s : Plan9Start) (a : StartAct) : Option Plan9Start :=
  match s.parent with
  | .returned _ => none
  | _ => startStep s a

theorem Plan9Module.Calls.run {g : Plan9Module} {acts : List StartAct} {s s' : Plan9Start}
    (h : g.Calls acts s) (more : List StartAct) (hmore : more.foldlM callStep s = some s') :
    g.Calls (acts ++ more) s' := by
  induction more generalizing acts s with
  | nil =>
    cases hmore
    rwa [List.append_nil]
  | cons a more ih =>
    obtain ⟨t, ht, hrest⟩ := Option.bind_eq_some_iff.mp hmore
    rw [callStep] at ht
    split at ht
    · cases ht
    · rename_i hcalling
      rw [List.append_cons]
      exact ih (h.step hcalling ht) hrest

/-- `plan9_stop_server` on `g_plan9`. -/
def Plan9Module.stop (g : Plan9Module) : Plan9Module :=
  if ¬ g.started ∨ g.childPid < 0 then g
  else { controlPipe := (if 0 ≤ g.controlPipe.1 then -1 else g.controlPipe.1, g.controlPipe.2) }

/-- The values of `g_plan9` outside of the two functions. -/
inductive Plan9Module.Reachable : Plan9Module → Prop where
  | initial : Reachable {}
  | started {g : Plan9Module} {acts : List StartAct} {s : Plan9Start} {port : Nat} (h : Reachable g)
    (hcalls : g.Calls acts s) (hreturned : s.parent = .returned port) : Reachable s.module
  | stopped {g : Plan9Module} (h : Reachable g) : Reachable g.stop

/-! ## What the parent knows -/

/-- The server is taken for started, with a child that nobody has waited for. -/
def Plan9Start.Started (s : Plan9Start) : Prop :=
  ∃ (r : Nat) (c : Plan9Child), s.module =
      { childPid := c.pid, port := LX_INIT_UTILITY_VM_PLAN9_PORT, started := true, controlPipe := (r, -1) } ∧
    s.child = some c ∧ c.collected = false

/-- A call on an idle `g_plan9`: what has been set so far, and whether there is a child. -/
def Plan9Start.Follows (s : Plan9Start) : Prop :=
  match s.parent with
  | .opening | .binding | .piping => s.module = {} ∧ s.child = none
  | .forking => (∃ r w : Nat, s.module = { controlPipe := (r, w) }) ∧ s.child = none
  | .reading pid => ∃ (r : Nat) (c : Plan9Child), s.module = { controlPipe := (r, -1) } ∧
      s.child = some c ∧ c.pid = pid ∧ c.collected = false
  | .returned port => (port = 0 ∧ s.module = {} ∧ s.child = none) ∨
      (port = LX_INIT_UTILITY_VM_PLAN9_PORT ∧ s.Started)

theorem follows_finish {s : Plan9Start} {pid : Nat} (h : s.Follows) (hread : s.parent = .reading pid) :
    (s.finish pid).Follows := by
  unfold Plan9Start.Follows at h
  rw [hread] at h
  obtain ⟨r, c, hmodule, hchild, rfl, hcollected⟩ := h
  refine Or.inr ⟨rfl, r, c, ?_, hchild, hcollected⟩
  rw [Plan9Start.finish, hmodule]

theorem Plan9Child.act_same {c c' : Plan9Child} {a : ChildAct} (h : c.act a = some c') :
    c'.pid = c.pid ∧ c'.collected = c.collected := by
  obtain ⟨phase, -, rfl⟩ := Option.map_eq_some_iff.mp h
  exact ⟨rfl, rfl⟩

theorem Plan9Start.Follows.child {s : Plan9Start} {c c' : Plan9Child} (h : s.Follows)
    (hchild : s.child = some c) (hsame : c'.pid = c.pid ∧ c'.collected = c.collected) :
    ({ s with child := some c' } : Plan9Start).Follows := by
  obtain ⟨module, parent, child⟩ := s
  obtain rfl : child = some c := hchild
  cases parent with
  | opening => cases h.2
  | binding => cases h.2
  | piping => cases h.2
  | forking => cases h.2
  | reading pid =>
    obtain ⟨r, d, hmodule, hd, hpid, hcollected⟩ := h
    obtain rfl : c = d := Option.some.inj hd
    exact ⟨r, c', hmodule, rfl, hsame.1.trans hpid, hsame.2.trans hcollected⟩
  | returned port =>
    rcases h with ⟨-, -, hnone⟩ | ⟨hport, r, d, hmodule, hd, hcollected⟩
    · cases hnone
    · obtain rfl : c = d := Option.some.inj hd
      refine Or.inr ⟨hport, r, c', ?_, rfl, hsame.2.trans hcollected⟩
      rw [hsame.1]
      exact hmodule

theorem follows_step {s s' : Plan9Start} {a : StartAct} (h : s.Follows) (hs : startStep s a = some s') :
    s'.Follows := by
  obtain ⟨module, parent, child⟩ := s
  cases a with
  | opened ok =>
    cases parent <;> cases hs
    cases ok with
    | true => exact h
    | false => exact Or.inl ⟨rfl, h⟩
  | bound ok =>
    cases parent <;> cases hs
    cases ok with
    | true => exact h
    | false => exact Or.inl ⟨rfl, h⟩
  | piped fds =>
    cases parent <;> try cases hs
    obtain ⟨rfl, rfl⟩ := h
    cases fds with
    | none =>
      cases hs
      exact Or.inl ⟨rfl, rfl, rfl⟩
    | some fds =>
      cases hs
      exact ⟨⟨fds.1, fds.2, rfl⟩, rfl⟩
  | forked pid =>
    cases parent <;> try cases hs
    obtain ⟨⟨r, w, rfl⟩, rfl⟩ := h
    cases pid with
    | none =>
      cases hs
      exact Or.inl ⟨rfl, rfl, rfl⟩
    | some pid =>
      cases hs
      exact ⟨r, { pid }, rfl, rfl, rfl, rfl⟩
  | readEof =>
    cases parent <;> try cases hs
    cases child with
    | none => cases hs
    | some c =>
      obtain ⟨-, hs⟩ := Option.ite_none_left_eq_some.mp hs
      cases hs
      exact follows_finish h rfl
  | readFailed =>
    cases parent <;> cases hs
    exact follows_finish h rfl
  | child a =>
    cases child with
    | none => cases hs
    | some c =>
      obtain ⟨c', hact, rfl⟩ := Option.map_eq_some_iff.mp hs
      exact h.child rfl (Plan9Child.act_same hact)

theorem Plan9Module.Calls.follows {acts : List StartAct} {s : Plan9Start}
    (h : Plan9Module.Calls {} acts s) : s.Follows := by
  induction h with
  | call => exact ⟨rfl, rfl⟩
  | step _ _ hs ih => exact follows_step ih hs

theorem Plan9Module.Calls.eq_call {g : Plan9Module} {acts : List StartAct} {s : Plan9Start}
    (h : g.Calls acts s) (hstarted : g.started = true) : acts = [] ∧ s = g.call := by
  induction h with
  | call => exact ⟨rfl, rfl⟩
  | step _ hcalling _ ih =>
    refine absurd ?_ (hcalling g.port)
    rw [ih.2, Plan9Module.call, if_pos hstarted]

/-- Between two servers `g_plan9` is as it was at first. -/
theorem Plan9Module.Reachable.idle_or {g : Plan9Module} (h : g.Reachable) :
    g = {} ∨ g.started = true ∧ 0 ≤ g.childPid ∧ 0 ≤ g.controlPipe.1 ∧ g.controlPipe.2 = -1 := by
  induction h with
  | initial => exact Or.inl rfl
  | @started g acts s port _ hcalls hreturned ih =>
    rcases ih with rfl | hstarted
    · have hfollows := hcalls.follows
      unfold Plan9Start.Follows at hfollows
      rw [hreturned] at hfollows
      rcases hfollows with ⟨-, hmodule, -⟩ | ⟨-, r, c, hmodule, -⟩
      · exact Or.inl hmodule
      · rw [hmodule]
        exact Or.inr ⟨rfl, Int.natCast_nonneg _, Int.natCast_nonneg _, rfl⟩
    · rw [(hcalls.eq_call hstarted.1).2]
      exact Or.inr hstarted
  | @stopped g _ ih =>
    rcases ih with rfl | ⟨hstarted, hpid, hread, hwrite⟩
    · exact Or.inl rfl
    · refine Or.inl ?_
      rw [Plan9Module.stop, if_neg (by simp [hstarted, hpid]), if_pos hread, hwrite]

/-- What a call on a reachable `g_plan9` returns: the port whenever there is a child. -/
theorem module_of_returns {g : Plan9Module} {acts : List StartAct} {s : Plan9Start} {port : Nat}
    (hg : g.Reachable) (h : g.Calls acts s) (hreturned : s.parent = .returned port) :
    match s.child with
    | none => s.module = g ∧ (g.started = true ∨ port = 0)
    | some c => port = LX_INIT_UTILITY_VM_PLAN9_PORT ∧ s.module.started = true ∧ c.collected = false := by
  rcases hg.idle_or with rfl | ⟨hstarted, -⟩
  · have hfollows := h.follows
    unfold Plan9Start.Follows at hfollows
    rw [hreturned] at hfollows
    rcases hfollows with ⟨hport, hmodule, hchild⟩ | ⟨hport, r, c, hmodule, hchild, hcollected⟩
    · rw [hchild]
      exact ⟨hmodule, Or.inr hport⟩
    · rw [hchild, hmodule]
      exact ⟨hport, rfl, hcollected⟩
  · rw [(h.eq_call hstarted).2]
    exact ⟨rfl, Or.inl hstarted⟩

/-! ## The program of the event loop -/

/-- What the calls of the parent return in a run. -/
def parentActs (acts : List StartAct) : List StartAct :=
  acts.filter fun
    | .child _ => false
    | _ => true

/-- The calls of a program, answered by what is to happen next. -/
def startAnswer : (e : Op) → List StartAct → e.Answer × List StartAct
  | .acquire .rootDirectory, .opened ok :: acts => (ok, acts)
  | .acquire (.plan9Listener _), .bound ok :: acts => (ok, acts)
  | .acquire .pipe, .piped fds :: acts => (fds.isSome, acts)
  | .fork, .forked pid :: acts => (pid, acts)
  | e, acts => (plainEnvironment [] e, acts)

/-- What the event loop keeps of `g_plan9`. -/
def Plan9Module.kept (g : Plan9Module) : Plan9 :=
  ⟨if 0 ≤ g.childPid then some g.childPid.toNat else none, g.port, g.started⟩

/-- What the parent has been told so far, in a call on an idle `g_plan9`. -/
def Plan9Start.Heard (s : Plan9Start) (heard : List StartAct) : Prop :=
  match s.parent with
  | .opening => heard = []
  | .binding => heard = [.opened true]
  | .piping => heard = [.opened true, .bound true]
  | .forking => ∃ fds, heard = [.opened true, .bound true, .piped (some fds)]
  | .reading pid => ∃ fds, heard = [.opened true, .bound true, .piped (some fds), .forked (some pid)]
  | .returned port =>
    (port = 0 ∧ (heard = [.opened false] ∨ heard = [.opened true, .bound false] ∨
      heard = [.opened true, .bound true, .piped none] ∨
      ∃ fds, heard = [.opened true, .bound true, .piped (some fds), .forked none])) ∨
    (port = LX_INIT_UTILITY_VM_PLAN9_PORT ∧ ∃ fds pid last, s.module.childPid = (pid : Nat) ∧
      heard = [.opened true, .bound true, .piped (some fds), .forked (some pid), last])

theorem heard_step {s s' : Plan9Start} {acts : List StartAct} {a : StartAct} (h : s.Heard (parentActs acts))
    (hcalling : ∀ port, s.parent ≠ .returned port) (hs : startStep s a = some s') :
    s'.Heard (parentActs (acts ++ [a])) := by
  have hacts : parentActs (acts ++ [a]) = parentActs acts ++ parentActs [a] := List.filter_append _ _
  rw [hacts]
  obtain ⟨module, parent, child⟩ := s
  cases a with
  | opened ok =>
    cases parent <;> cases hs
    cases ok with
    | true => exact congrArg (· ++ [StartAct.opened true]) h
    | false => exact Or.inl ⟨rfl, Or.inl (congrArg (· ++ [StartAct.opened false]) h)⟩
  | bound ok =>
    cases parent <;> cases hs
    cases ok with
    | true => exact congrArg (· ++ [StartAct.bound true]) h
    | false => exact Or.inl ⟨rfl, Or.inr (Or.inl (congrArg (· ++ [StartAct.bound false]) h))⟩
  | piped fds =>
    cases parent <;> try cases hs
    cases fds with
    | none =>
      cases hs
      exact Or.inl ⟨rfl, Or.inr (Or.inr (Or.inl (congrArg (· ++ [StartAct.piped none]) h)))⟩
    | some fds =>
      cases hs
      exact ⟨fds, congrArg (· ++ [StartAct.piped (some fds)]) h⟩
  | forked pid =>
    cases parent <;> try cases hs
    obtain ⟨fds, hfds⟩ := h
    cases pid with
    | none =>
      cases hs
      exact Or.inl ⟨rfl, Or.inr (Or.inr (Or.inr ⟨fds, congrArg (· ++ [StartAct.forked none]) hfds⟩))⟩
    | some pid =>
      cases hs
      exact ⟨fds, congrArg (· ++ [StartAct.forked (some pid)]) hfds⟩
  | readEof =>
    cases parent <;> try cases hs
    cases child with
    | none => cases hs
    | some c =>
      obtain ⟨-, hs⟩ := Option.ite_none_left_eq_some.mp hs
      cases hs
      obtain ⟨fds, hfds⟩ := h
      exact Or.inr ⟨rfl, fds, _, _, rfl, congrArg (· ++ [StartAct.readEof]) hfds⟩
  | readFailed =>
    cases parent <;> cases hs
    obtain ⟨fds, hfds⟩ := h
    exact Or.inr ⟨rfl, fds, _, _, rfl, congrArg (· ++ [StartAct.readFailed]) hfds⟩
  | child b =>
    cases child with
    | none => cases hs
    | some c =>
      obtain ⟨c', -, rfl⟩ := Option.map_eq_some_iff.mp hs
      change Plan9Start.Heard _ (parentActs acts ++ [])
      rw [List.append_nil]
      cases parent with
      | returned port => exact absurd rfl (hcalling port)
      | _ => exact h

theorem Plan9Module.Calls.heard {acts : List StartAct} {s : Plan9Start}
    (h : Plan9Module.Calls {} acts s) : s.Heard (parentActs acts) := by
  induction h with
  | call => exact rfl
  | step _ hcalling hs ih => exact heard_step ih hcalling hs

theorem plan9StartServer_of_calls {g : Plan9Module} {acts : List StartAct} {s : Plan9Start} {port : Nat}
    (hg : g.Reachable) (h : g.Calls acts s) (hreturned : s.parent = .returned port) :
    ((plan9StartServer g.kept).interpret startAnswer (parentActs acts)).1 = (s.module.kept, port) := by
  rcases hg.idle_or with rfl | ⟨hstarted, -⟩
  · have hheard := h.heard
    have hfollows := h.follows
    unfold Plan9Start.Heard at hheard
    unfold Plan9Start.Follows at hfollows
    rw [hreturned] at hheard hfollows
    rcases hheard with ⟨rfl, hheard⟩ | ⟨rfl, fds, pid, last, hpid, hheard⟩
    · have hmodule : s.module = {} := by
        rcases hfollows with ⟨-, hmodule, -⟩ | ⟨hport, -⟩
        · exact hmodule
        · cases hport
      rw [hmodule]
      rcases hheard with hheard | hheard | hheard | ⟨fds, hheard⟩ <;> rw [hheard] <;> rfl
    · have hmodule : ∃ r : Nat, s.module =
          ⟨(pid : Int), LX_INIT_UTILITY_VM_PLAN9_PORT, true, ((r : Int), -1)⟩ := by
        rcases hfollows with ⟨hport, -⟩ | ⟨-, r, c, hmodule, -⟩
        · cases hport
        · rw [hmodule] at hpid
          exact ⟨r, by rw [hmodule, ← hpid]⟩
      obtain ⟨r, hmodule⟩ := hmodule
      rw [hmodule, hheard]
      rfl
  · obtain ⟨rfl, rfl⟩ := h.eq_call hstarted
    rw [Plan9Module.call, if_pos hstarted] at hreturned ⊢
    cases hreturned
    have hkept : g.kept.started = true := hstarted
    rw [plan9StartServer, if_pos hkept]
    rfl

/-! ## What the child has done -/

def childActs (acts : List StartAct) : List ChildAct :=
  acts.filterMap fun
    | .child a => some a
    | _ => none

/-- What the child does up to its accept loop if nothing fails and nobody kills it. -/
def readyActs : List ChildAct :=
  [.backendFsInit true, .serverInit true, .controlClosed, .loopEntered]

def Plan9Start.Ran (s : Plan9Start) (acts : List StartAct) : Prop :=
  match s.child with
  | none => (∀ pid, .forked (some pid) ∉ acts) ∧ childActs acts = []
  | some c => ∃ pid, .forked (some pid) ∈ acts ∧
      (childActs acts).foldlM Plan9Child.act { pid } = some c

theorem Plan9Start.Ran.append {s s' : Plan9Start} {acts : List StartAct} {a : StartAct}
    (h : s.Ran acts) (hchild : s'.child = s.child) (hfork : ∀ pid, a ≠ .forked (some pid))
    (hacts : childActs [a] = []) : s'.Ran (acts ++ [a]) := by
  have happend : childActs (acts ++ [a]) = childActs acts := by
    rw [childActs, List.filterMap_append, ← childActs, ← childActs, hacts, List.append_nil]
  unfold Plan9Start.Ran at h ⊢
  rw [hchild, happend]
  cases hc : s.child with
  | none =>
    rw [hc] at h
    refine ⟨fun pid hmem => ?_, h.2⟩
    rcases List.mem_append.mp hmem with hmem | hmem
    · exact h.1 pid hmem
    · exact hfork pid (List.mem_singleton.mp hmem).symm
  | some c =>
    rw [hc] at h
    obtain ⟨pid, hmem, hfold⟩ := h
    exact ⟨pid, List.mem_append_left _ hmem, hfold⟩

theorem child_of_step {s s' : Plan9Start} {a : StartAct} (hs : startStep s a = some s')
    (hfork : ∀ pid, a ≠ .forked (some pid)) (hact : ∀ b, a ≠ .child b) : s'.child = s.child := by
  obtain ⟨module, parent, child⟩ := s
  cases a with
  | opened ok =>
    cases parent <;> cases hs
    rfl
  | bound ok =>
    cases parent <;> cases hs
    rfl
  | piped fds =>
    cases parent <;> try cases hs
    cases fds <;> cases hs <;> rfl
  | forked pid =>
    cases parent <;> try cases hs
    cases pid with
    | none =>
      cases hs
      rfl
    | some pid => exact absurd rfl (hfork pid)
  | readEof =>
    cases parent <;> try cases hs
    cases child with
    | none => cases hs
    | some c =>
      obtain ⟨-, hs⟩ := Option.ite_none_left_eq_some.mp hs
      cases hs
      rfl
  | readFailed =>
    cases parent <;> cases hs
    rfl
  | child b => exact absurd rfl (hact b)

theorem ran_step {s s' : Plan9Start} {acts : List StartAct} {a : StartAct} (hf : s.Follows)
    (h : s.Ran acts) (hs : startStep s a = some s') : s'.Ran (acts ++ [a]) := by
  have hsame (hfork : ∀ pid, a ≠ .forked (some pid)) (hact : ∀ b, a ≠ .child b)
      (hacts : childActs [a] = []) : s'.Ran (acts ++ [a]) :=
    h.append (child_of_step hs hfork hact) hfork hacts
  cases a with
  | opened ok => exact hsame (by simp) (by simp) rfl
  | bound ok => exact hsame (by simp) (by simp) rfl
  | piped fds => exact hsame (by simp) (by simp) rfl
  | readEof => exact hsame (by simp) (by simp) rfl
  | readFailed => exact hsame (by simp) (by simp) rfl
  | forked pid =>
    cases pid with
    | none => exact hsame (by simp) (by simp) rfl
    | some pid =>
      obtain ⟨module, parent, child⟩ := s
      cases parent <;> try cases hs
      obtain ⟨-, rfl⟩ := hf
      refine ⟨pid, by simp, ?_⟩
      rw [childActs, List.filterMap_append, ← childActs, h.2]
      rfl
  | child b =>
    obtain ⟨module, parent, child⟩ := s
    cases child with
    | none => cases hs
    | some c =>
      obtain ⟨d, hact, rfl⟩ := Option.map_eq_some_iff.mp hs
      obtain ⟨pid, hmem, hfold⟩ := h
      refine ⟨pid, List.mem_append_left _ hmem, ?_⟩
      rw [childActs, List.filterMap_append, ← childActs, List.foldlM_append, hfold]
      exact (Option.bind_some ..).trans (by simpa using hact)

theorem Plan9Module.Calls.ran {acts : List StartAct} {s : Plan9Start}
    (h : Plan9Module.Calls {} acts s) : s.Ran acts := by
  induction h with
  | call => exact ⟨fun _ => List.not_mem_nil, rfl⟩
  | step hcalls _ hs ih => exact ran_step hcalls.follows ih hs

/-- What is left to do before the accept loop, if the child can still come to it. -/
def ChildPhase.toLoop : ChildPhase → Option (List ChildAct)
  | .backendInit => some readyActs
  | .serverInit => some [.serverInit true, .controlClosed, .loopEntered]
  | .signalling => some [.controlClosed, .loopEntered]
  | .signalled => some [.loopEntered]
  | _ => none

theorem toLoop_of_childStep {phase phase' : ChildPhase} {a b : ChildAct} {left : List ChildAct}
    (h : childStep phase a = some phase') (hleft : phase.toLoop = some (b :: left)) :
    (a = b ∧ left = [] ∧ phase' = .polling) ∨ (a = b ∧ phase'.toLoop = some left ∧ left ≠ []) ∨
      (a ≠ b ∧ phase' = .exited) := by
  have hnext {p : ChildPhase} (hp : some p = some phase') : p = phase' := Option.some.inj hp
  cases phase with
  | backendInit =>
    obtain ⟨rfl, rfl⟩ := List.cons.inj (Option.some.inj hleft)
    cases a with
    | backendFsInit ok => cases ok <;> cases hnext h <;> simp [ChildPhase.toLoop]
    | killed => cases hnext h; simp
    | _ => cases h
  | serverInit =>
    obtain ⟨rfl, rfl⟩ := List.cons.inj (Option.some.inj hleft)
    cases a with
    | serverInit ok => cases ok <;> cases hnext h <;> simp [ChildPhase.toLoop]
    | killed => cases hnext h; simp
    | _ => cases h
  | signalling =>
    obtain ⟨rfl, rfl⟩ := List.cons.inj (Option.some.inj hleft)
    cases a with
    | controlClosed => cases hnext h; simp [ChildPhase.toLoop]
    | killed => cases hnext h; simp
    | _ => cases h
  | signalled =>
    obtain ⟨rfl, rfl⟩ := List.cons.inj (Option.some.inj hleft)
    cases a with
    | loopEntered => cases hnext h; simp
    | killed => cases hnext h; simp
    | _ => cases h
  | polling => cases hleft
  | accepting => cases hleft
  | exited => cases hleft

theorem reachedLoop_of_run {c c' : Plan9Child} {acts : List ChildAct}
    (h : acts.foldlM Plan9Child.act c = some c') (hreached : c.reachedLoop = true) :
    c'.reachedLoop = true := by
  induction acts generalizing c with
  | nil =>
    cases h
    exact hreached
  | cons a acts ih =>
    obtain ⟨d, hact, hrest⟩ := Option.bind_eq_some_iff.mp h
    obtain ⟨phase, -, rfl⟩ := Option.map_eq_some_iff.mp hact
    exact ih hrest (by simp [hreached])

theorem eq_of_exited {c c' : Plan9Child} {acts : List ChildAct} (hc : c.phase = .exited)
    (h : acts.foldlM Plan9Child.act c = some c') : c' = c := by
  cases acts with
  | nil =>
    cases h
    rfl
  | cons a acts =>
    obtain ⟨d, hact, -⟩ := Option.bind_eq_some_iff.mp h
    rw [Plan9Child.act, hc] at hact
    cases hact

theorem reachedLoop_iff_prefix {c c' : Plan9Child} {left acts : List ChildAct}
    (h : acts.foldlM Plan9Child.act c = some c') (hreached : c.reachedLoop = false)
    (hleft : c.phase.toLoop = some left) (hne : left ≠ []) : c'.reachedLoop = true ↔ left <+: acts := by
  induction acts generalizing c left with
  | nil =>
    cases h
    simp [hreached, hne]
  | cons a acts ih =>
    obtain ⟨d, hact, hrest⟩ := Option.bind_eq_some_iff.mp h
    obtain ⟨phase', hphase, rfl⟩ := Option.map_eq_some_iff.mp hact
    obtain ⟨b, left, rfl⟩ := List.exists_cons_of_ne_nil hne
    rw [List.cons_prefix_cons]
    rcases toLoop_of_childStep hphase hleft with ⟨rfl, rfl, rfl⟩ | ⟨rfl, hnext, hmore⟩ | ⟨hother, rfl⟩
    · simpa using reachedLoop_of_run hrest (by simp)
    · have hstill : phase' ≠ .polling := by
        rintro rfl
        cases hnext
      rw [ih hrest (by simp [hreached, hstill]) hnext hmore]
      simp
    · rw [eq_of_exited rfl hrest]
      simp [hreached, Ne.symm hother]

/-! ## What a call must return -/

/-- A call that has forked returns a port for a server that has come to its accept loop; otherwise it
returns 0, has waited for the child, and leaves `g_plan9` as it was. -/
def StartRight (g : Plan9Module) (s : Plan9Start) (port : Nat) : Prop :=
  match s.child with
  | none => s.module = g ∧ (g.started = true ∨ port = 0)
  | some c => (port ≠ 0 ∧ s.module.started = true ∧ c.reachedLoop = true) ∨
      (port = 0 ∧ c.collected = true ∧ s.module = g)

/-- The call is right exactly if it has not forked, or the child has come to its loop, with nothing
failed, before the call returns. -/
theorem plan9Start_right_iff {g : Plan9Module} {acts : List StartAct} {s : Plan9Start} {port : Nat}
    (hg : g.Reachable) (h : g.Calls acts s) (hreturned : s.parent = .returned port) :
    StartRight g s port ↔ (∀ pid, .forked (some pid) ∉ acts) ∨ readyActs <+: childActs acts := by
  have hmodule := module_of_returns hg h hreturned
  have hran : s.Ran acts := by
    rcases hg.idle_or with rfl | ⟨hstarted, -⟩
    · exact h.ran
    · obtain ⟨rfl, rfl⟩ := h.eq_call hstarted
      exact ⟨fun _ => List.not_mem_nil, rfl⟩
  unfold StartRight
  unfold Plan9Start.Ran at hran
  cases hchild : s.child with
  | none =>
    rw [hchild] at hmodule hran
    exact ⟨fun _ => Or.inl hran.1, fun _ => hmodule⟩
  | some c =>
    rw [hchild] at hmodule hran
    obtain ⟨rfl, hstarted, hcollected⟩ := hmodule
    obtain ⟨pid, hmem, hfold⟩ := hran
    have hloop := reachedLoop_iff_prefix hfold rfl rfl (List.cons_ne_nil _ _)
    have hnotfork : ¬ ∀ pid, StartAct.forked (some pid) ∉ acts := fun hnone => hnone pid hmem
    simp only [hcollected, hstarted, hloop, hnotfork, LX_INIT_UTILITY_VM_PLAN9_PORT]
    simp

/-- A child that comes to its accept loop before the call returns. -/
theorem plan9Start_right_ready :
    StartRight {} { module := { childPid := 7, port := 50001, started := true, controlPipe := (5, -1) }
                    parent := .returned 50001
                    child := some { pid := 7, phase := .polling, reachedLoop := true } } 50001 := by
  have hcalls := (Plan9Module.Calls.call (g := {})).run
    [.opened true, .bound true, .piped (some (5, 6)), .forked (some 7), .child (.backendFsInit true),
      .child (.serverInit true), .child .controlClosed, .child .loopEntered, .readEof] rfl
  exact (plan9Start_right_iff .initial hcalls rfl).mpr (Or.inr (by decide))

/-- The backend cannot be initialised: the child ends, which closes the pipe, and the call returns the
port. -/
theorem plan9Start_not_right : ¬ ∀ (g : Plan9Module) (acts : List StartAct) (s : Plan9Start) (port : Nat),
    g.Reachable → g.Calls acts s → s.parent = .returned port → StartRight g s port := by
  intro hright
  have hcalls := (Plan9Module.Calls.call (g := {})).run
    [.opened true, .bound true, .piped (some (5, 6)), .forked (some 7), .child (.backendFsInit false),
      .readEof] rfl
  rcases hright _ _ _ 50001 .initial hcalls rfl with ⟨-, -, hreached⟩ | ⟨hport, -⟩
  · cases hreached
  · cases hport

end WslFreeBSD.Hvinit
