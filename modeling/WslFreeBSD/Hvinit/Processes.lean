import WslFreeBSD.Hvinit.Ops

/-!
# Child processes of `hvinit`

The GNS engine and the file server run in children whose pids are globals (`hvinit.c`,
`plan9_server.h`); a socket relay runs in a child that nobody records. `reap_children` collects
any child. The programs are those of the parent.
-/

namespace WslFreeBSD.Hvinit

open Lib Protocol

/-- Acquires one thing after another; the first failure ends it. -/
def acquireAll : List Acquired → InitProgram Bool
  | [] => pure true
  | what :: rest => do
    if ← Program.perform (Op.acquire what) then acquireAll rest else pure false

/-! ## The GNS engine -/

/-- `gns_start_engine`: `g_gns_pid` afterwards. A missing DNS channel is not fatal. -/
def gnsStartEngine (featureFlags : UInt32) (gnsPid : Option Nat) : InitProgram (Option Nat) := do
  if ← Program.perform (Op.hvConnect PORT_HVS_GNS) then
    if featureFlags &&& 0x20 ≠ 0 then
      let _ ← Program.perform (Op.hvConnect PORT_HVS)
    match ← Program.perform Op.fork with
    | none => pure gnsPid
    | some pid => pure (some pid)
  else pure gnsPid

/-- `gns_stop_engine`. -/
def gnsStopEngine : Option Nat → InitProgram (Option Nat)
  | none => pure none
  | some pid => do
    Program.perform (Op.kill pid .term)
    let _ ← Program.perform (Op.waitpid pid false)
    pure none

/-! ## The file server -/

/-- `plan9_start_server`: `g_plan9` afterwards, and the port, which is 0 if the server could not
be started. -/
def plan9StartServer (p : Plan9) : InitProgram (Plan9 × Nat) :=
  if p.started then pure (p, p.port)
  else do
    if ← acquireAll [.rootDirectory, .plan9Listener LX_INIT_UTILITY_VM_PLAN9_PORT, .pipe] then
      match ← Program.perform Op.fork with
      | none => pure (p, 0)
      | some pid =>
        pure (⟨some pid, LX_INIT_UTILITY_VM_PLAN9_PORT, true⟩, LX_INIT_UTILITY_VM_PLAN9_PORT)
    else pure (p, 0)

/-- The wait for a child that has got `SIGTERM`, at most `n` times; whether it is still running
afterwards. -/
def plan9AwaitExit (pid : Nat) : Nat → InitProgram Bool
  | 0 => pure true
  | n + 1 => do
    match ← Program.perform (Op.waitpid pid true) with
    | .running => plan9AwaitExit pid n
    | .collected | .failed => pure false

/-- Ends the child, with `SIGKILL` or with `SIGTERM` and five seconds of time. -/
def plan9Terminate (pid : Nat) (force : Bool) : InitProgram Unit :=
  if force then Program.perform (Op.kill pid .kill)
  else do
    Program.perform (Op.kill pid .term)
    if ← plan9AwaitExit pid 50 then
      Program.perform (Op.kill pid .kill)
      let _ ← Program.perform (Op.waitpid pid false)

/-- `plan9_stop_server`. -/
def plan9StopServer (p : Plan9) (force : Bool) : InitProgram (Plan9 × Bool) :=
  match p.childPid with
  | none => pure (p, true)
  | some pid =>
    if p.started then do
      plan9Terminate pid force
      let _ ← Program.perform (Op.waitpid pid false)
      pure ({}, true)
    else pure (p, true)

/-- `plan9_is_running`. -/
def plan9IsRunning (p : Plan9) : Bool := p.started && p.childPid.isSome

/-- The stop of the server at the end of the process. -/
def plan9Shutdown (p : Plan9) : InitProgram Plan9 :=
  if plan9IsRunning p then do
    let out ← plan9StopServer p true
    pure out.1
  else pure p

/-! ## Other children -/

/-- `reap_children`. -/
def reapChildren : InitProgram Unit := do
  let _ ← Program.perform Op.waitAny

/-- `gns_handle_start_socket_relay`. -/
def gnsHandleStartSocketRelay (msg : Bytes) : InitProgram Unit :=
  if messageSize msg < 32 then pure ()
  else do
    if ← acquireAll [.relayListener (leAt 14 2 msg)] then
      let _ ← Program.perform Op.fork

/-! ## What the programs use -/

theorem uses_acquireAll (whats : List Acquired) : Uses [.system] (acquireAll whats) := by
  induction whats with
  | nil => exact Program.only_pure true
  | cons what whats ih =>
    refine (uses_perform List.mem_cons_self).bind fun got => ?_
    exact ih.ite (Program.only_pure false)

theorem uses_gnsStartEngine (featureFlags : UInt32) (gnsPid : Option Nat) :
    Uses [.system, .processes] (gnsStartEngine featureFlags gnsPid) := by
  have hfork : Uses [.system, .processes] (do
      match ← Program.perform Op.fork with
      | none => pure gnsPid
      | some pid => pure (some pid) : InitProgram (Option Nat)) := by
    refine (uses_perform (List.mem_cons_of_mem _ List.mem_cons_self)).bind fun pid => ?_
    cases pid <;> exact Program.only_pure _
  refine (uses_perform List.mem_cons_self).bind fun connected => ?_
  refine Program.Only.ite ?_ (Program.only_pure gnsPid)
  refine Program.Only.ite ?_ hfork
  exact (uses_perform List.mem_cons_self).bind fun _ => hfork

theorem uses_gnsStopEngine (gnsPid : Option Nat) : Uses [.processes] (gnsStopEngine gnsPid) := by
  cases gnsPid with
  | none => exact Program.only_pure none
  | some pid =>
    refine (uses_perform List.mem_cons_self).bind fun _ => ?_
    exact (uses_perform List.mem_cons_self).bind fun _ => Program.only_pure none

theorem uses_plan9StartServer (p : Plan9) : Uses [.system, .processes] (plan9StartServer p) := by
  refine Program.Only.ite (Program.only_pure _) ?_
  refine Program.Only.bind ((uses_acquireAll _).mono (by simp)) fun got => ?_
  refine Program.Only.ite ?_ (Program.only_pure _)
  refine (uses_perform (List.mem_cons_of_mem _ List.mem_cons_self)).bind fun pid => ?_
  cases pid <;> exact Program.only_pure _

theorem uses_plan9AwaitExit (pid n : Nat) : Uses [.processes] (plan9AwaitExit pid n) := by
  induction n with
  | zero => exact Program.only_pure true
  | succ n ih =>
    refine (uses_perform List.mem_cons_self).bind fun waited => ?_
    cases waited with
    | running => exact ih
    | collected => exact Program.only_pure false
    | failed => exact Program.only_pure false

theorem uses_plan9Terminate (pid : Nat) (force : Bool) : Uses [.processes] (plan9Terminate pid force) := by
  have hperform : ∀ {e : Op}, e.subsystem = .processes → Uses [.processes]
      (Program.perform e : InitProgram (Op.Answer e)) := fun h => uses_perform (by simp [h])
  refine Program.Only.ite (hperform rfl) ?_
  refine (hperform rfl).bind fun _ => (uses_plan9AwaitExit pid 50).bind fun running => ?_
  refine Program.Only.ite ?_ (Program.only_pure ())
  exact (hperform rfl).bind fun _ => (hperform rfl).bind fun _ => Program.only_pure ()

theorem uses_plan9StopServer (p : Plan9) (force : Bool) :
    Uses [.processes] (plan9StopServer p force) := by
  unfold plan9StopServer
  split
  · exact Program.only_pure _
  · refine Program.Only.ite ?_ (Program.only_pure _)
    refine (uses_plan9Terminate _ force).bind fun _ => ?_
    exact (uses_perform List.mem_cons_self).bind fun _ => Program.only_pure _

theorem uses_plan9Shutdown (p : Plan9) : Uses [.processes] (plan9Shutdown p) := by
  refine Program.Only.ite ?_ (Program.only_pure p)
  exact (uses_plan9StopServer p true).bind fun _ => Program.only_pure _

theorem uses_reapChildren : Uses [.processes] reapChildren :=
  (uses_perform List.mem_cons_self).bind fun _ => Program.only_pure ()

theorem uses_gnsHandleStartSocketRelay (msg : Bytes) :
    Uses [.system, .processes] (gnsHandleStartSocketRelay msg) := by
  refine Program.Only.ite (Program.only_pure ()) ?_
  refine Program.Only.bind ((uses_acquireAll _).mono (by simp)) fun got => ?_
  refine Program.Only.ite ?_ (Program.only_pure ())
  exact (uses_perform (List.mem_cons_of_mem _ List.mem_cons_self)).bind fun _ => Program.only_pure ()

end WslFreeBSD.Hvinit
