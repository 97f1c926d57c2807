import Mathlib.Data.Finset.Lattice.Fold
import Mathlib.Order.Lattice.Nat
import WslFreeBSD.Lib.Descriptors
import WslFreeBSD.Bridge.Passes

/-!
# The resources of a session

A session creates the interop socket and its file, the SIGCHLD pipe with its handler, and the
PTY, in this order. Three pieces of code give them back: the return after a failed `forkpty`,
the return for a child that has already exited, and the code after the loop. Only the last one
knows about the interop socket.

`Process` is what the kernel keeps for the bridge between two sessions, and `Served` says that
every session of the multi-session loop of `main` gives back what it took. The passes of the
poll loop take and release nothing (`inLoop_iterate`), so that the resources of a session are
decided before the loop.

Left out: the connection that `wsl_interop_try_accept` accepts, which it closes again on its
only path.
-/

namespace WslFreeBSD.Bridge

open Lib Protocol

/-! ## Resources -/

/-- The descriptors `main` accepts for a session. -/
inductive MainFd where
  | initC
  | initialC
  | clientSockets (i : Fin 5)
  deriving DecidableEq, Repr

/-- A call that takes or releases something the kernel keeps. -/
inductive Resource where
  | fd (c : FdCall (MainFd ⊕ Fd))
  | socketFile (present : Bool)
  | sigchldHandler (installed : Bool)
  deriving DecidableEq, Repr

def Act.resource? : Act → Option Resource
  | .opened fd => some (.fd (.opens (.inr fd)))
  | .closed fd => some (.fd (.closes (.inr fd)))
  | .socketFile present => some (.socketFile present)
  | .sigchldHandler installed => some (.sigchldHandler installed)
  | _ => none

/-- What the kernel keeps for the bridge. -/
structure Process where
  fds : FdTable (MainFd ⊕ Fd)
  socketFile : Bool
  sigchldHandler : Bool

namespace Process

def apply (k : Numbering) (p : Process) : Resource → Process
  | .fd c => { p with fds := p.fds.call k c }
  | .socketFile present => { p with socketFile := present }
  | .sigchldHandler installed => { p with sigchldHandler := installed }

def applyAll (k : Numbering) (p : Process) (rs : List Resource) : Process := rs.foldl (apply k) p

end Process

def Resource.fdCall? : Resource → Option (FdCall (MainFd ⊕ Fd))
  | .fd c => some c
  | _ => none

theorem fds_applyAll (k : Numbering) (p : Process) (rs : List Resource) :
    (p.applyAll k rs).fds = p.fds.calls k (rs.filterMap Resource.fdCall?) := by
  induction rs generalizing p with
  | nil => rfl
  | cons r rs ih =>
    cases r with
    | fd c => exact ih _
    | socketFile present => exact ih _
    | sigchldHandler installed => exact ih _

theorem applyAll_append (k : Numbering) (p : Process) (rs rs' : List Resource) :
    p.applyAll k (rs ++ rs') = (p.applyAll k rs).applyAll k rs' := List.foldl_append

theorem applyAll_keeps {α : Type*} (f : Process → α) (k : Numbering) {rs : List Resource}
    (hf : ∀ r ∈ rs, ∀ p, f (p.apply k r) = f p) (p : Process) : f (p.applyAll k rs) = f p := by
  induction rs generalizing p with
  | nil => rfl
  | cons r rs ih =>
    have hrs : ∀ r' ∈ rs, ∀ p, f (p.apply k r') = f p := fun r' hr' =>
      hf r' (List.mem_cons_of_mem _ hr')
    exact (ih hrs _).trans (hf r List.mem_cons_self p)

/-! ## Sessions of the multi-session loop -/

/-- The results of the calls of `wsl_interop_create_server`. -/
structure ServerCalls where
  mkdir : Bool := true
  socket : Bool := true
  bind : Bool := true
  listen : Bool := true
  deriving DecidableEq, Repr

namespace ServerCalls

def result (c : ServerCalls) : CreateServer :=
  if ¬ c.mkdir then .noDirectory
  else if c.socket ∧ c.bind ∧ c.listen then .listening
  else .failed

/-- What `wsl_interop_create_server` does besides the actions of a session's trace: it removes a
stale socket file, and a server that fails on the way gives back what it has. -/
def acts (c : ServerCalls) : List Act :=
  if ¬ c.mkdir then []
  else .socketFile false ::
    if ¬ c.socket then []
    else if ¬ c.bind then [.opened .interopListen, .closed .interopListen]
    else if ¬ c.listen then
      [.opened .interopListen, .socketFile true, .closed .interopListen, .socketFile false]
    else []

end ServerCalls

/-- A session that has returned. -/
structure SessionRun where
  setup : Setup
  server : ServerCalls
  passes : List Pass
  final : WaitStatus
  trace : List Act
  value : Int
  created : server.result = setup.server
  returns : runSession setup passes final = .returned trace value

def acceptedSockets : List MainFd :=
  [.initC, .initialC, .clientSockets 0, .clientSockets 1, .clientSockets 2, .clientSockets 3,
    .clientSockets 4]

namespace SessionRun

/-- One pass of the multi-session loop: the sockets are accepted, the session runs, the sockets
are closed. -/
def resources (x : SessionRun) : List Resource :=
  acceptedSockets.map (fun v => .fd (.opens (.inl v))) ++
    (x.server.acts ++ x.trace).filterMap Act.resource? ++
    acceptedSockets.map fun v => .fd (.closes (.inl v))

def after (k : Numbering) (p : Process) (x : SessionRun) : Process := p.applyAll k x.resources

end SessionRun

/-- The session between `p` and `p'` gave back what it took. -/
structure Released (x : SessionRun) (p p' : Process) : Prop where
  fds : p'.fds.used = p.fds.used
  closed : ∀ fd, .opened fd ∈ x.trace → .closed fd ∈ x.trace
  unlinked : .socketFile true ∈ x.trace → p'.socketFile = false
  restored : p'.sigchldHandler = false

/-- Every session of the loop gives back what it took. -/
def Served (k : Numbering) : Process → List SessionRun → Prop
  | _, [] => True
  | p, x :: xs => Released x p (x.after k p) ∧ Served k (x.after k p) xs

/-! ## The passes take and release nothing -/

/-- From `s` to `s'` nothing was taken or released. -/
abbrev InLoop : Session → Session → Prop := Adds fun a => a.resource? = none

theorem InLoop.resources {s s' : Session} (h : InLoop s s') :
    s'.trace.filterMap Act.resource? = s.trace.filterMap Act.resource? := by
  obtain ⟨acts, ht, hacts⟩ := h
  rw [ht, List.filterMap_append, List.filterMap_eq_nil_iff.mpr hacts, List.append_nil]

theorem inLoop_of_inPass {s s' : Session} (h : InPass s s') : InLoop s s' :=
  h.mono fun a ha => by cases a <;> first | rfl | cases ha

theorem inLoop_timers (s : Session) (i : Pass) : InLoop s (s.timers i) := by
  have hsize : ∀ s : Session, InLoop s (s.sizeCheck i) := by
    intro s
    refine ⟨s.sizeCheckActs i, rfl, fun a ha => ?_⟩
    obtain ⟨rows, cols, rfl⟩ := mem_sizeCheckActs ha
    rfl
  exact (inLoop_of_inPass ((inPass_now s i.now).trans (inPass_escalate _ i))).trans (hsize _)

theorem inLoop_iterate (cfg : Setup) (s : Session) (i : Pass) :
    After (InLoop s) (InLoop s) (Session.iterate cfg s i) := by
  have hdeliver : InLoop s (s.deliver cfg i) := inLoop_of_inPass (inPass_deliver s cfg i)
  unfold Session.iterate
  dsimp only
  split
  · split <;> exact hdeliver
  · have hfailed : InLoop (s.deliver cfg i)
        { s.deliver cfg i with trace := (s.deliver cfg i).trace ++ [.pollFailed] } :=
      ⟨_, rfl, by simp [Act.resource?]⟩
    split
    · exact hdeliver.trans hfailed
    · exact hdeliver.trans (hfailed.trans (inLoop_of_inPass (inPass_killAndWait _ _)))
  · split
    · exact hdeliver
    · have htimers := hdeliver.trans (inLoop_timers (s.deliver cfg i) i)
      split
      · exact htimers.trans (inLoop_of_inPass (inPass_childExited _ i _))
      · split <;> exact htimers.trans (inLoop_of_inPass (inPass_channels _ cfg _ i))

/-! ## The three return paths -/

def cleanupActs (cfg : Setup) : List Act :=
  [.closed .pty] ++ (if cfg.server = .listening then [.closed .interopListen] else []) ++
    (if cfg.server = .noDirectory then [] else [.socketFile false]) ++ Session.closeSigchld cfg

/-- What a session takes from `forkpty` on, and what it gives back before it returns. -/
def returnActs (cfg : Setup) : List Act :=
  if ¬ cfg.forkpty then Session.closeSigchld cfg
  else if cfg.early.isSome then [.opened .pty, .closed .pty] ++ Session.closeSigchld cfg
  else .opened .pty :: cleanupActs cfg

theorem resources_cleanup (cfg : Setup) (s : Session) (final : WaitStatus) :
    (s.cleanup cfg final).trace.filterMap Act.resource? =
      s.trace.filterMap Act.resource? ++ (cleanupActs cfg).filterMap Act.resource? := by
  have hleft : InLoop s { s with trace := s.trace ++ [.loopLeft] } :=
    ⟨_, rfl, by simp [Act.resource?]⟩
  unfold Session.cleanup
  dsimp only
  split
  · rw [← hleft.resources]
    simp only [cleanupActs, List.filterMap_append, List.append_assoc]
  · have hkill := hleft.trans (inLoop_of_inPass (inPass_killAndWait _ final))
    rw [← InLoop.resources hkill]
    simp only [cleanupActs, List.filterMap_append, List.append_assoc]

theorem resources_trace {cfg : Setup} {passes : List Pass} {final : WaitStatus} {t : List Act}
    {v : Int} (hret : runSession cfg passes final = .returned t v) :
    t.filterMap Act.resource? = (openActs cfg ++ returnActs cfg).filterMap Act.resource? := by
  unfold runSession at hret
  unfold returnActs
  split at hret
  · rename_i hfork
    cases hret
    rw [if_pos hfork]
  · rename_i hfork
    rw [if_neg hfork]
    split at hret
    · rename_i status hearly
      cases hret
      rw [hearly, Option.isSome_some, if_pos rfl]
      simp only [List.filterMap_append, List.append_assoc]
      rfl
    · rename_i hearly
      rw [hearly, Option.isSome_none, if_neg Bool.false_ne_true]
      have hrun : After (InLoop (Session.init cfg)) (InLoop (Session.init cfg))
          (runLoop (Session.iterate cfg) (Session.init cfg) passes) := by
        refine runLoop_inv (fun s i hs => ?_) (Adds.refl _)
        have hstep := inLoop_iterate cfg s i
        cases hr : Session.iterate cfg s i with
        | inl s' =>
          rw [hr] at hstep
          exact hs.trans hstep
        | inr s' =>
          rw [hr] at hstep
          exact hs.trans hstep
      split at hret
      · cases hret
      · rename_i s hs
        rw [hs] at hrun
        cases hret
        rw [resources_cleanup, hrun.resources]
        simp [Session.init, Act.resource?]

/-! ## What is left over -/

def Leaks (cfg : Setup) : Prop := cfg.server = .listening ∧ ¬ (cfg.forkpty = true ∧ cfg.early = none)

instance (cfg : Setup) : Decidable (Leaks cfg) := inferInstanceAs (Decidable (_ ∧ ¬ (_ ∧ _)))

def fdCalls (t : List Act) : List (FdCall (MainFd ⊕ Fd)) :=
  (t.filterMap Act.resource?).filterMap Resource.fdCall?

def acceptedVars : Finset (MainFd ⊕ Fd) := (acceptedSockets.map Sum.inl).toFinset

theorem owned_server (c : ServerCalls) : owned acceptedVars (fdCalls c.acts) = some acceptedVars := by
  obtain ⟨mkdir, socket, bind, listen⟩ := c
  cases mkdir <;> cases socket <;> cases bind <;> cases listen <;> decide

theorem owned_session (cfg : Setup) :
    owned acceptedVars (fdCalls (openActs cfg ++ returnActs cfg)) =
      some (if Leaks cfg then insert (.inr .interopListen) acceptedVars else acceptedVars) := by
  obtain ⟨server, pipe, forkpty, winsize, channel, interop, early, earlySend, startTime⟩ := cfg
  cases server <;> cases pipe <;> cases forkpty <;> cases early <;> rfl

theorem fdCalls_resources (x : SessionRun) : x.resources.filterMap Resource.fdCall? =
    acceptedSockets.map (fun v => .opens (.inl v)) ++ (fdCalls x.server.acts ++ fdCalls x.trace) ++
      acceptedSockets.map fun v => .closes (.inl v) := by
  simp only [SessionRun.resources, fdCalls, List.filterMap_append]
  rfl

theorem owned_resources (x : SessionRun) :
    owned ∅ (x.resources.filterMap Resource.fdCall?) =
      some (if Leaks x.setup then {.inr .interopListen} else ∅) := by
  have haccept : owned (∅ : Finset (MainFd ⊕ Fd))
      (acceptedSockets.map fun v => .opens (.inl v)) = some acceptedVars := by decide
  have hsession : fdCalls x.trace = fdCalls (openActs x.setup ++ returnActs x.setup) := by
    rw [fdCalls, fdCalls, resources_trace x.returns]
  rw [fdCalls_resources, owned_append, owned_append, haccept, Option.bind_some, owned_append,
    owned_server, Option.bind_some, hsession, owned_session, Option.bind_some]
  split <;> decide

theorem fds_after_iff (k : Numbering) (p : Process) (x : SessionRun) :
    (x.after k p).fds.used = p.fds.used ↔ ¬ Leaks x.setup := by
  have howns := (Owns.start p.fds).calls k (owned_resources x)
  rw [← fds_applyAll] at howns
  change (p.applyAll k x.resources).fds.used = p.fds.used ↔ _
  rw [howns.used_eq_iff]
  split
  · rename_i hleak
    simp [hleak]
  · rename_i hleak
    simp [hleak]

theorem returnActs_end (cfg : Setup) : ∃ acts, returnActs cfg = acts ++ Session.closeSigchld cfg := by
  unfold returnActs
  split
  · exact ⟨[], rfl⟩
  · split
    · exact ⟨[.opened .pty, .closed .pty], rfl⟩
    · exact ⟨.opened .pty :: ([.closed .pty] ++ _ ++ _), rfl⟩

theorem resources_end (x : SessionRun) {acts : List Act}
    (hacts : returnActs x.setup = acts ++ Session.closeSigchld x.setup) : ∃ rs closes,
      x.resources = rs ++ acts.filterMap Act.resource? ++ .sigchldHandler false :: closes ∧
        ∀ r ∈ closes, ∃ c, r = .fd c := by
  refine ⟨acceptedSockets.map (fun v => .fd (.opens (.inl v))) ++
      (x.server.acts ++ openActs x.setup).filterMap Act.resource?,
    ((if x.setup.pipe then [.closed .sigchldRead, .closed .sigchldWrite] else []).filterMap
      Act.resource?) ++ acceptedSockets.map (fun v => .fd (.closes (.inl v))), ?_, ?_⟩
  · unfold SessionRun.resources
    rw [List.filterMap_append, resources_trace x.returns, hacts]
    simp only [List.filterMap_append, List.append_assoc]
    rfl
  · intro r hr
    rcases List.mem_append.mp hr with hr | hr
    · cases hpipe : x.setup.pipe with
      | false => simp [hpipe] at hr
      | true =>
        simp only [hpipe, if_true, List.filterMap_cons, Act.resource?, List.filterMap_nil,
          List.mem_cons, List.not_mem_nil, or_false] at hr
        rcases hr with rfl | rfl
        · exact ⟨_, rfl⟩
        · exact ⟨_, rfl⟩
    · obtain ⟨v, -, rfl⟩ := List.mem_map.mp hr
      exact ⟨_, rfl⟩

theorem restored_after (k : Numbering) (p : Process) (x : SessionRun) :
    (x.after k p).sigchldHandler = false := by
  obtain ⟨acts, hacts⟩ := returnActs_end x.setup
  obtain ⟨rs, closes, heq, hcloses⟩ := resources_end x hacts
  have hkeep : ∀ q : Process, (q.applyAll k closes).sigchldHandler = q.sigchldHandler :=
    applyAll_keeps Process.sigchldHandler k fun r hr q => by
      obtain ⟨c, rfl⟩ := hcloses r hr
      rfl
  rw [SessionRun.after, heq, applyAll_append]
  exact hkeep _

theorem unlinked_after (k : Numbering) (p : Process) (x : SessionRun)
    (hserver : x.setup.server = .listening) (hfork : x.setup.forkpty = true)
    (hearly : x.setup.early = none) : (x.after k p).socketFile = false := by
  have hacts : returnActs x.setup = [.opened .pty, .closed .pty, .closed .interopListen,
      .socketFile false] ++ Session.closeSigchld x.setup := by
    simp [returnActs, cleanupActs, hserver, hfork, hearly]
  obtain ⟨rs, closes, heq, hcloses⟩ := resources_end x hacts
  have hkeep : ∀ q : Process,
      (q.applyAll k (.sigchldHandler false :: closes)).socketFile = q.socketFile := by
    refine applyAll_keeps Process.socketFile k fun r hr q => ?_
    rcases List.mem_cons.mp hr with rfl | hr
    · rfl
    · obtain ⟨c, rfl⟩ := hcloses r hr
      rfl
  rw [SessionRun.after, heq, applyAll_append, hkeep, applyAll_append]
  rfl

theorem resource?_inj {a b : Act} {r : Resource} (ha : a.resource? = some r)
    (hb : b.resource? = some r) : a = b := by
  cases a <;> cases b <;> simp_all [Act.resource?] <;> grind

theorem mem_trace_iff (x : SessionRun) {a : Act} {r : Resource} (ha : a.resource? = some r) :
    a ∈ x.trace ↔ a ∈ openActs x.setup ++ returnActs x.setup := by
  have hmem : ∀ t : List Act, a ∈ t ↔ r ∈ t.filterMap Act.resource? := by
    intro t
    rw [List.mem_filterMap]
    constructor
    · exact fun h => ⟨a, h, ha⟩
    · rintro ⟨b, hb, hr⟩
      rwa [resource?_inj ha hr]
  rw [hmem, resources_trace x.returns, ← hmem]

theorem listening_of_socketFile {cfg : Setup}
    (h : .socketFile true ∈ openActs cfg ++ returnActs cfg) : cfg.server = .listening := by
  obtain ⟨server, pipe, forkpty, winsize, channel, interop, early, earlySend, startTime⟩ := cfg
  revert h
  cases server <;> cases pipe <;> cases forkpty <;> cases early <;>
    simp [openActs, returnActs, cleanupActs, Session.closeSigchld]

theorem closed_of_opened {cfg : Setup} (hleak : ¬ Leaks cfg) {fd : Fd}
    (h : .opened fd ∈ openActs cfg ++ returnActs cfg) :
    .closed fd ∈ openActs cfg ++ returnActs cfg := by
  obtain ⟨server, pipe, forkpty, winsize, channel, interop, early, earlySend, startTime⟩ := cfg
  revert h
  cases server <;> cases pipe <;> cases forkpty <;> cases early <;>
    simp_all [Leaks, openActs, returnActs, cleanupActs, Session.closeSigchld] <;> tauto

theorem released_iff (k : Numbering) (p : Process) (x : SessionRun) :
    Released x p (x.after k p) ↔
      (x.setup.server = .listening → x.setup.forkpty = true ∧ x.setup.early = none) := by
  have hnot : ¬ Leaks x.setup ↔
      (x.setup.server = .listening → x.setup.forkpty = true ∧ x.setup.early = none) := by
    unfold Leaks
    exact not_and_not_right
  rw [← hnot]
  constructor
  · exact fun h => (fds_after_iff k p x).mp h.fds
  · intro hleak
    refine ⟨(fds_after_iff k p x).mpr hleak, fun fd h => ?_, fun h => ?_, restored_after k p x⟩
    · exact (mem_trace_iff x rfl).mpr (closed_of_opened hleak ((mem_trace_iff x rfl).mp h))
    · have hserver := listening_of_socketFile ((mem_trace_iff x rfl).mp h)
      obtain ⟨hfork, hearly⟩ := hnot.mp hleak hserver
      exact unlinked_after k p x hserver hfork hearly

/-- Over any number of sessions, every one of them gives back what it took exactly if the two
return paths before the loop are taken only by sessions without an interop socket. -/
theorem served_iff (k : Numbering) (p : Process) (xs : List SessionRun) :
    Served k p xs ↔ ∀ x ∈ xs, x.setup.server = .listening →
      x.setup.forkpty = true ∧ x.setup.early = none := by
  induction xs generalizing p with
  | nil => simp [Served]
  | cons x xs ih => rw [Served, released_iff, ih, List.forall_mem_cons]

def nextNumber : Numbering where
  pick used := used.sup id + 1
  fresh used h := by
    have hle : used.sup id + 1 ≤ used.sup id := Finset.le_sup (f := id) h
    omega

/-- The bridge with its standard descriptors and the listening socket. -/
def bridgeProcess : Process where
  fds := { used := {0, 1, 2, 3}, var := fun _ => 0 }
  socketFile := false
  sigchldHandler := false

def earlySession : SessionRun where
  setup := { early := some (.exited 1) }
  server := {}
  passes := []
  final := .exited 1
  trace := _
  value := 1
  created := rfl
  returns := rfl

theorem early_exit_leaks_listener : ¬ Served nextNumber bridgeProcess [earlySession] := by
  intro h
  have hfds : (earlySession.after nextNumber bridgeProcess).fds.used = {0, 1, 2, 3} := h.1.fds
  revert hfds
  decide

end WslFreeBSD.Bridge
