import WslFreeBSD.Gns.Engine
import WslFreeBSD.Hvinit.Mounts
import WslFreeBSD.Hvinit.Network
import WslFreeBSD.Hvinit.Processes

/-!
# The event loop of `hvinit`

`event_loop` (`hvinit.c`): every pass waits for the init channel and for `SIGCHLD`, collects
children, receives one message and handles it. `TerminateInstance` ends the process; the end of the
channel, an incomplete message and a failed `poll` leave the loop.
-/

namespace WslFreeBSD.Hvinit

open Lib Protocol Config

/-! ## Queries -/

/-- `gns_handle_query_networking_mode`: the mode of the environment variable. -/
def networkingMode (value : Option Bytes) : Nat :=
  match nonEmpty value with
  | none => 0
  | some text =>
    let mode := toInt32 (strtolDec text)
    if mode = 2 then 1 else if mode = 3 then 2 else 0

def gnsHandleQueryNetworkingMode (msg : Bytes) : InitProgram Unit := do
  let value ← Program.perform (Op.getenv (ascii "WSL2_NETWORKING_MODE"))
  sendResultUint32 (sequenceNumber msg) (networkingMode value)

/-- The text of a file in the buffer of 64 bytes, without the white space at its end. -/
def guidText : FileRead → Bytes
  | .contents bytes => (bytes.take 63).rdropWhile fun c => c = 10 || c = 13 || c = 32 || c = 9
  | .missing | .failed => []

/-- The loop of `gns_get_vm_guid_string` over the files that may contain the id. -/
def gnsGetVmGuidString : List String → InitProgram Bytes
  | [] => pure (ascii "00000000-0000-0000-0000-000000000000")
  | path :: paths => do
    let guid := guidText (← Program.perform (Op.readFile (ascii path)))
    if guid ≠ [] then pure guid else gnsGetVmGuidString paths

def guidPaths : List String := ["/etc/hostid", "/etc/machine-id", "/proc/sys/kernel/random/boot_id"]

/-- `gns_get_vm_id_u32`: the number written by the first hexadecimal digits. -/
def gnsGetVmIdU32 (guid : Bytes) : Nat :=
  let digits := (guid.takeWhile fun c => (hexVal c).isSome).take 8
  if digits = [] then 0xB5D00001 else hexAcc 0 digits

/-- `gns_handle_query_vm_id`; the second look at the files is for the log. -/
def gnsHandleQueryVmId (msg : Bytes) : InitProgram Unit := do
  let guid ← gnsGetVmGuidString guidPaths
  let _ ← gnsGetVmGuidString guidPaths
  sendResultUint32 (sequenceNumber msg) (gnsGetVmIdU32 guid)

/-! ## Handlers -/

/-- A message with a text at its end; the size is the low half of a `size_t`. -/
def textMessage (type seq : Nat) (fields text : Bytes) : Bytes :=
  header type ((headerSize + fields.length + (text.length + 1)) % 2 ^ 32) seq ++
    (fields ++ (text ++ [0]))

/-- A string of `Buffer`, which starts at `fixed`; an offset outside is the empty string. -/
def bufferText (msg : Bytes) (fixed offset : Nat) : Bytes :=
  if offset < messageSize msg - fixed then cString msg (fixed + offset) else []

/-- `handle_window_size_changed`. -/
def handleWindowSizeChanged (notifyOpen : Bool) (msg : Bytes) : InitProgram Unit :=
  if messageSize msg < 16 ∨ ¬ notifyOpen then pure () else send .notify msg

/-- The commands of `[boot] command`. -/
def bootCommand (g : Globals) : InitProgram Unit :=
  match g.text .bootCommand with
  | none => pure ()
  | some command => Program.perform (Op.system command)

/-- The mount of the drives of a bitmap with the settings of `[automount]`. -/
def mountDrives (g : Globals) (bitmap : BitVec 32) (ownerUid : Nat) (elevated : Bool) :
    InitProgram (List Bytes × Nat) :=
  drvfsMountVolumes g.mountedFs bitmap ownerUid elevated
    ((g.text .automountRoot).getD (ascii "/mnt")) (g.text .automountOptions) g.featureFlags

def handleRemountDrvfs (g : Globals) (msg : Bytes) : InitProgram Globals :=
  if messageSize msg < 28 then do
    sendResultInt32 (sequenceNumber msg) (-1)
    pure g
  else do
    let out ← mountDrives g (BitVec.ofNat 32 (leAt 16 4 msg)) (leAt 24 4 msg) (leAt 12 1 msg ≠ 0)
    sendResultInt32 (sequenceNumber msg) 0
    pure { g with mountedFs := out.1 }

def handleStopPlan9Server (g : Globals) (msg : Bytes) : InitProgram Globals :=
  if messageSize msg < 16 then do
    sendResultBool (sequenceNumber msg) false
    pure g
  else do
    let out ← plan9StopServer g.plan9 (leAt 12 4 msg ≠ 0)
    sendResultBool (sequenceNumber msg) out.2
    pure { g with plan9 := out.1 }

def handleKernelVersion (msg : Bytes) : InitProgram Unit := do
  let uts ← Program.perform Op.uname
  let version := (uts.map Subtype.val).getD (ascii "unknown")
  send .init (textMessage LxMessageResultInt32 (sequenceNumber msg) (leBytes 4 0) version)

/-- The response to both virtiofs requests: `Result` 0 and the tag at offset 0. -/
def sendVirtioFsResponse (seq : Nat) (tag : Bytes) : InitProgram Unit :=
  send .init (textMessage LxInitMessageAddVirtioFsDeviceResponse seq (leBytes 4 0 ++ leBytes 4 0) tag)

def handleAddVirtioFsDevice (msg : Bytes) : InitProgram Unit :=
  if messageSize msg < 24 then sendResultInt32 (sequenceNumber msg) (-1)
  else do
    let path := bufferText msg 24 (leAt 16 4 msg)
    let options := bufferText msg 24 (leAt 20 4 msg)
    Program.perform (Op.system (snprintf 512 (ascii "mount -t virtiofs wsl-virtiofs " ++ path ++
      ascii " -o " ++ options ++ ascii " 2>/dev/null")))
    sendVirtioFsResponse (sequenceNumber msg) (ascii "wsl-virtiofs")

def handleRemountVirtioFsDevice (msg : Bytes) : InitProgram Unit :=
  if messageSize msg < 20 then sendResultInt32 (sequenceNumber msg) (-1)
  else do
    let tag := bufferText msg 20 (leAt 16 4 msg)
    Program.perform (Op.system (snprintf 512 (ascii "umount " ++ tag ++
      ascii " 2>/dev/null; mount -t virtiofs " ++ tag ++ [32] ++ tag ++ ascii " 2>/dev/null")))
    sendVirtioFsResponse (sequenceNumber msg) tag

def handleStartDistroInit (g : Globals) (msg : Bytes) : InitProgram Unit := do
  bootCommand g
  sendResultInt32 (sequenceNumber msg) 0

/-- `handle_terminate_instance` up to its `exit`. -/
def handleTerminateInstance (g : Globals) (msg : Bytes) : InitProgram Globals := do
  sendResultUint32 (sequenceNumber msg) 0
  let gnsPid ← gnsStopEngine g.gnsPid
  let plan9 ← plan9Shutdown g.plan9
  fsUnmountAll g.mountedFs
  Program.perform Op.sync
  pure { g with gnsPid, plan9 }

/-- A handler that leaves the globals as they are. -/
def keep (g : Globals) (h : InitProgram Unit) : InitProgram Globals := do
  h
  pure g

/-- The `switch` of `event_loop`. -/
def dispatch (notifyOpen : Bool) (g : Globals) (msg : Bytes) : InitProgram Globals :=
  let type := messageType msg
  if type = LxInitMessageTerminateInstance then handleTerminateInstance g msg
  else if type = LxInitMessageWindowSizeChanged then keep g (handleWindowSizeChanged notifyOpen msg)
  else if type = LxInitMessageNetworkInformation then
    keep g (gnsHandleNetworkInformation g.generateResolvconf g.resolvconfPath msg)
  else if type = LxInitMessageTimezoneInformation then
    keep g (timezoneHandleMessage msg (g.flag .timeUseWindowsTimezone))
  else if type = LxInitMessageStartSocketRelay then keep g (gnsHandleStartSocketRelay msg)
  else if type = LxInitMessageQueryNetworkingMode then keep g (gnsHandleQueryNetworkingMode msg)
  else if type = LxInitMessageQueryVmId then keep g (gnsHandleQueryVmId msg)
  else if type = LxInitMessageRemountDrvfs then handleRemountDrvfs g msg
  else if type = LxInitMessageStopPlan9Server then handleStopPlan9Server g msg
  else if type = LxInitMessageKernelVersion then keep g (handleKernelVersion msg)
  else if type = LxInitMessageAddVirtioFsDevice then keep g (handleAddVirtioFsDevice msg)
  else if type = LxInitMessageRemountVirtioFsDevice then keep g (handleRemountVirtioFsDevice msg)
  else if type = LxInitMessageStartDistroInit then keep g (handleStartDistroInit g msg)
  else pure g

/-! ## What the programs use -/

theorem uses_send (channel : Channel) (m : Bytes) : Uses [.channels] (send channel m) :=
  uses_perform List.mem_cons_self

theorem uses_bootCommand (g : Globals) : Uses [.system] (bootCommand g) := by
  unfold bootCommand
  split
  · exact Program.only_pure ()
  · exact uses_perform List.mem_cons_self

theorem uses_gnsGetVmGuidString (paths : List String) :
    Uses [.files] (gnsGetVmGuidString paths) := by
  induction paths with
  | nil => exact Program.only_pure _
  | cons path paths ih =>
    refine (uses_perform List.mem_cons_self).bind fun read => ?_
    exact (Program.only_pure _).ite ih

section Handlers

variable (m : Bytes)

theorem uses_gnsHandleQueryNetworkingMode :
    Uses [.system, .channels] (gnsHandleQueryNetworkingMode m) :=
  (uses_perform List.mem_cons_self).bind fun _ => (uses_send _ _).mono (by simp)

theorem uses_gnsHandleQueryVmId : Uses [.files, .channels] (gnsHandleQueryVmId m) := by
  have hguid : Uses [.files, .channels] (gnsGetVmGuidString guidPaths) :=
    (uses_gnsGetVmGuidString guidPaths).mono (by simp)
  exact hguid.bind fun _ => hguid.bind fun _ => (uses_send _ _).mono (by simp)

theorem uses_handleWindowSizeChanged (notifyOpen : Bool) :
    Uses [.channels] (handleWindowSizeChanged notifyOpen m) :=
  (Program.only_pure ()).ite (uses_send _ _)

theorem uses_handleKernelVersion : Uses [.system, .channels] (handleKernelVersion m) :=
  (uses_perform List.mem_cons_self).bind fun _ => (uses_send _ _).mono (by simp)

theorem uses_handleAddVirtioFsDevice : Uses [.system, .channels] (handleAddVirtioFsDevice m) := by
  refine Program.Only.ite ((uses_send _ _).mono (by simp)) ?_
  exact (uses_perform List.mem_cons_self).bind fun _ => (uses_send _ _).mono (by simp)

theorem uses_handleRemountVirtioFsDevice :
    Uses [.system, .channels] (handleRemountVirtioFsDevice m) := by
  refine Program.Only.ite ((uses_send _ _).mono (by simp)) ?_
  exact (uses_perform List.mem_cons_self).bind fun _ => (uses_send _ _).mono (by simp)

theorem uses_handleStartDistroInit (g : Globals) :
    Uses [.system, .channels] (handleStartDistroInit g m) :=
  Program.Only.bind ((uses_bootCommand g).mono (by simp)) fun _ => (uses_send _ _).mono (by simp)

end Handlers

/-- A property of programs holds of what is done for a message if it holds of the four handlers that
concern mounts and children, of all others and of doing nothing. -/
theorem dispatch_cases (notifyOpen : Bool) (g : Globals) (m : Bytes)
    {P : InitProgram Globals → Prop}
    (hterminate : messageType m = LxInitMessageTerminateInstance → P (handleTerminateInstance g m))
    (hremount : P (handleRemountDrvfs g m)) (hstop : P (handleStopPlan9Server g m))
    (hrelay : P (keep g (gnsHandleStartSocketRelay m)))
    (hkeep : ∀ h, Uses [.channels, .files, .system] h → P (keep g h)) (hnothing : P (pure g)) :
    P (dispatch notifyOpen g m) := by
  have hhandler : ∀ {ss : List Subsystem} {h : InitProgram Unit}, Uses ss h →
      ss ⊆ [.channels, .files, .system] → P (keep g h) := fun hh hss => hkeep _ (hh.mono hss)
  unfold dispatch
  dsimp only
  refine iteInduction (motive := P) hterminate fun _ => ?_
  refine iteInduction (motive := P) (fun _ =>
    hhandler (uses_handleWindowSizeChanged m notifyOpen) (by simp)) fun _ => ?_
  refine iteInduction (motive := P) (fun _ =>
    hhandler (uses_gnsHandleNetworkInformation _ _ m) (by simp)) fun _ => ?_
  refine iteInduction (motive := P) (fun _ =>
    hhandler (uses_timezoneHandleMessage m _) (by simp)) fun _ => ?_
  refine iteInduction (motive := P) (fun _ => hrelay) fun _ => ?_
  refine iteInduction (motive := P) (fun _ =>
    hhandler (uses_gnsHandleQueryNetworkingMode m) (by simp)) fun _ => ?_
  refine iteInduction (motive := P) (fun _ =>
    hhandler (uses_gnsHandleQueryVmId m) (by simp)) fun _ => ?_
  refine iteInduction (motive := P) (fun _ => hremount) fun _ => ?_
  refine iteInduction (motive := P) (fun _ => hstop) fun _ => ?_
  refine iteInduction (motive := P) (fun _ =>
    hhandler (uses_handleKernelVersion m) (by simp)) fun _ => ?_
  refine iteInduction (motive := P) (fun _ =>
    hhandler (uses_handleAddVirtioFsDevice m) (by simp)) fun _ => ?_
  refine iteInduction (motive := P) (fun _ =>
    hhandler (uses_handleRemountVirtioFsDevice m) (by simp)) fun _ => ?_
  exact iteInduction (motive := P) (fun _ =>
    hhandler (uses_handleStartDistroInit m g) (by simp)) fun _ => hnothing

/-! ## The loop -/

/-- The process: what the host has sent on the init channel or will send and has not been received,
and everything that was done, oldest first. -/
structure Init where
  globals : Globals := {}
  notifyOpen : Bool := true
  incoming : Bytes := []
  trace : InitTrace := []

/-- How the wait of a pass ends. When it is over without an error, whether there is a `SIGCHLD`,
whether the init channel is readable, and whether the rest of a message arrives in time. -/
inductive Wakeup where
  | interrupted
  | failed
  | ready (sigchld readable arrives : Bool)
  deriving DecidableEq, Repr

/-- The loop is left, or the process exits. -/
inductive Ended where
  | left (s : Init)
  | exited (s : Init)

def Ended.state : Ended → Init
  | .left s => s
  | .exited s => s

namespace Init

variable (env : InitEnvironment)

def exec (p : Globals → InitProgram Globals) (s : Init) : Init :=
  let out := (p s.globals).run env s.trace
  { s with globals := out.1, trace := out.2 }

/-- `recv_all`, the same code as `gns_recv_all`. -/
def recvAll (arrives : Bool) (n : Nat) (incoming : Bytes) : Option (Bytes × Bytes) :=
  Gns.gnsRecvAll arrives n incoming

/-- Receives a message and handles it. A header that announces less than itself is dropped. -/
def receive (arrives : Bool) (s : Init) : Init ⊕ Ended :=
  match recvAll arrives headerSize s.incoming with
  | none => .inr (.left s)
  | some (hdr, rest) =>
    if messageSize hdr < headerSize then .inl { s with incoming := rest }
    else
      match recvAll arrives (messageSize hdr - headerSize) rest with
      | none => .inr (.left { s with incoming := rest })
      | some (payload, rest) =>
        let s := { s with incoming := rest }.exec env (dispatch s.notifyOpen · (hdr ++ payload))
        if messageType hdr = LxInitMessageTerminateInstance then .inr (.exited s) else .inl s

/-- The `SIGCHLD` branch. -/
def reap (s : Init) : Init := s.exec env fun g => keep g reapChildren

/-- One pass of `event_loop`. -/
def pass (s : Init) : Wakeup → Init ⊕ Ended
  | .interrupted => .inl s
  | .failed => .inr (.left s)
  | .ready sigchld readable arrives =>
    let s := if sigchld then s.reap env else s
    if readable then s.receive env arrives else .inl s

/-- `event_loop` after some passes, or when it has ended. -/
def eventLoop (s : Init) (ws : List Wakeup) : Init ⊕ Ended := runLoop (pass env) s ws

/-- The state of the loop, or the one in which it has ended. -/
def stateOf : Init ⊕ Ended → Init := Sum.elim id Ended.state

/-! ## What a pass can do -/

theorem recvAll_length {arrives : Bool} {n : Nat} {incoming got rest : Bytes}
    (h : recvAll arrives n incoming = some (got, rest)) : got.length = n := by
  unfold recvAll Gns.gnsRecvAll at h
  split at h
  · rename_i hc
    obtain ⟨rfl, -⟩ := Prod.mk.inj (Option.some.inj h)
    rw [List.length_take]
    omega
  · cases h

theorem receive_cases (env : InitEnvironment) (s : Init) (arrives : Bool) :
    (∃ rest, s.receive env arrives = .inr (.left { s with incoming := rest })) ∨
    (∃ rest, s.receive env arrives = .inl { s with incoming := rest }) ∨
    ∃ rest m, (messageType m ≠ LxInitMessageTerminateInstance ∧ s.receive env arrives =
        .inl ({ s with incoming := rest }.exec env (dispatch s.notifyOpen · m))) ∨
      (messageType m = LxInitMessageTerminateInstance ∧ s.receive env arrives =
        .inr (.exited ({ s with incoming := rest }.exec env (dispatch s.notifyOpen · m)))) := by
  unfold receive
  cases hheader : recvAll arrives headerSize s.incoming with
  | none => exact .inl ⟨s.incoming, rfl⟩
  | some got =>
    obtain ⟨hdr, rest⟩ := got
    dsimp only
    split
    · exact .inr (.inl ⟨rest, rfl⟩)
    · cases recvAll arrives (messageSize hdr - headerSize) rest with
      | none => exact .inl ⟨rest, rfl⟩
      | some got =>
        obtain ⟨payload, rest⟩ := got
        have htype : messageType (hdr ++ payload) = messageType hdr :=
          leAt_append_of_le (by rw [recvAll_length hheader]; decide) payload
        refine .inr (.inr ⟨rest, hdr ++ payload, ?_⟩)
        rw [htype]
        dsimp only
        split
        · rename_i hterm
          exact .inr ⟨hterm, rfl⟩
        · rename_i hterm
          exact .inl ⟨hterm, rfl⟩

end Init

/-- A statement about a loop that has been left and one about a process that has exited. -/
def Ended.Meets (I Q : Init → Prop) : Ended → Prop
  | .left s => I s
  | .exited s => Q s

/-- An invariant of the loop, and what holds after `TerminateInstance`. -/
structure LoopInvariant (env : InitEnvironment) (I Q : Init → Prop) : Prop where
  frame : ∀ s rest, I s → I { s with incoming := rest }
  reap : ∀ s, I s → I (s.reap env)
  dispatch : ∀ s m, messageType m ≠ LxInitMessageTerminateInstance → I s →
    I (s.exec env (Hvinit.dispatch s.notifyOpen · m))
  terminate : ∀ s m, messageType m = LxInitMessageTerminateInstance → I s →
    Q (s.exec env (Hvinit.dispatch s.notifyOpen · m))

namespace LoopInvariant

variable {env : InitEnvironment} {I Q : Init → Prop}

theorem receive (h : LoopInvariant env I Q) {s : Init} (hs : I s) (arrives : Bool) :
    After I (Ended.Meets I Q) (s.receive env arrives) := by
  obtain ⟨rest, hr⟩ | ⟨rest, hr⟩ | ⟨rest, m, ⟨hm, hr⟩ | ⟨hm, hr⟩⟩ :=
    Init.receive_cases env s arrives
  · rw [hr]
    exact h.frame s rest hs
  · rw [hr]
    exact h.frame s rest hs
  · rw [hr]
    exact h.dispatch { s with incoming := rest } m hm (h.frame s rest hs)
  · rw [hr]
    exact h.terminate { s with incoming := rest } m hm (h.frame s rest hs)

theorem pass (h : LoopInvariant env I Q) {s : Init} (hs : I s) (w : Wakeup) :
    After I (Ended.Meets I Q) (s.pass env w) := by
  cases w with
  | interrupted => exact hs
  | failed => exact hs
  | ready sigchld readable arrives =>
    have hreaped : I (if sigchld then s.reap env else s) := by
      split
      · exact h.reap s hs
      · exact hs
    unfold Init.pass
    dsimp only
    split
    · exact h.receive hreaped arrives
    · exact hreaped

theorem eventLoop (h : LoopInvariant env I Q) {s : Init} (hs : I s) (ws : List Wakeup) :
    After I (Ended.Meets I Q) (s.eventLoop env ws) :=
  runLoop_inv (fun _ w hs => h.pass hs w) hs

end LoopInvariant

end WslFreeBSD.Hvinit
