import WslFreeBSD.Lib.WriteLoop
import WslFreeBSD.Bridge.Reader

/-!
# `run_session`

The model of `run_session` (`hvbridge.c`): one console session, from the creation of the
interop socket to the last `close`. Everything the environment decides (the results of system
calls, the bytes that arrive, the signals) is an input: `Setup` for the part before the loop
and one `Pass` for each pass of the poll loop. Everything the code does that can be observed
is recorded, oldest first, in `Session.trace`.

A pass is a composition of the branches of the loop body, in the order of the source. Two
fields of the state belong to the kernel and not to the program: the size of the terminal and
whether the child has been collected (`waitpid` has nothing to report after that).

`signal(3)` installs restarting handlers, so that the blocking `waitpid` after a `SIGKILL`
returns with the child's status.

Left out: log output, the log statistics, and the background colour sniffer, which only reads
the bytes that pass by.
-/

namespace WslFreeBSD.Bridge

open Lib Protocol

/-! ## Processes and terminals -/

/-- A status collected by `waitpid`. -/
inductive WaitStatus where
  | exited (code : UInt8)
  | signaled (sig : Nat)
  deriving DecidableEq, Repr

/-- `WIFEXITED(status) ? WEXITSTATUS(status) : -1`. -/
def WaitStatus.exitCode : WaitStatus → Int
  | .exited code => code.toNat
  | .signaled _ => -1

inductive Signal where
  | hup
  | kill
  deriving DecidableEq, Repr

/-- `struct winsize`. -/
structure Winsize where
  rows : UInt16 := 0
  cols : UInt16 := 0
  xpixel : UInt16 := 0
  ypixel : UInt16 := 0
  deriving DecidableEq, Repr

/-- `struct font_size_tracker`. -/
structure FontSizeTracker where
  trackedRows : UInt16
  trackedCols : UInt16
  trackedXpixel : UInt16
  trackedYpixel : UInt16
  deriving DecidableEq, Repr

def fontSizeTrackerInit (rows cols xpixel ypixel : UInt16) : FontSizeTracker :=
  ⟨rows, cols, xpixel, ypixel⟩

/-- The tracker takes over the new size; the result says whether the cell size in pixels
changed while all sizes involved are known. -/
def fontSizeCheckChange (t : FontSizeTracker) (rows cols xpixel ypixel : UInt16) :
    FontSizeTracker × Bool :=
  let known := xpixel > 0 && cols > 0 && ypixel > 0 && rows > 0 && t.trackedXpixel > 0 &&
    t.trackedCols > 0 && t.trackedYpixel > 0 && t.trackedRows > 0
  let changed := (xpixel != t.trackedXpixel || ypixel != t.trackedYpixel) && known &&
    (t.trackedXpixel / t.trackedCols != xpixel / cols ||
      t.trackedYpixel / t.trackedRows != ypixel / rows)
  (⟨rows, cols, xpixel, ypixel⟩, changed)

def fontSizeSyncAfterResize (rows cols xpixel ypixel : UInt16) : FontSizeTracker :=
  ⟨rows, cols, xpixel, ypixel⟩

/-- `update_pty_winsize`: the terminal keeps its size when a dimension is zero or the `ioctl`
fails. -/
def updatePtyWinsize (pty : Winsize) (rows cols : UInt16) (ioctl : Bool) : Winsize :=
  if rows = 0 ∨ cols = 0 then pty
  else if ioctl then { rows := rows, cols := cols }
  else pty

/-! ## Writing -/

/-- The messages `run_session` writes to the control channel. -/
inductive ControlMessage where
  | windowSizeChanged (rows cols : UInt16)
  | nack (seq : Nat)
  | exitStatus (code : Int)
  | relayed (m : Bytes)
  deriving DecidableEq, Repr

def ControlMessage.bytes : ControlMessage → Bytes
  | .windowSizeChanged rows cols =>
    header LxInitMessageWindowSizeChanged 16 0 ++ (leBytes 2 rows.toNat ++ leBytes 2 cols.toNat)
  | .nack seq => header LxMessageResultBool 16 seq ++ leBytes 4 0
  | .exitStatus code => header LxInitMessageExitStatus 16 1 ++ leBytes 4 (code % 2 ^ 32).toNat
  | .relayed m => m

/-- `send_all` and `write_all` wait for a blocked descriptor once more, 5 s and 1 s, and give
up on a timeout and on any error, `EINTR` included. -/
def waitsWhenBlocked : WriteResult → Bool
  | .wouldBlock writable => writable
  | _ => false

def sendAll (results : List WriteResult) (buf : Bytes) : Bytes × Bool :=
  writeLoop waitsWhenBlocked results buf

def writeAll (results : List WriteResult) (buf : Bytes) : Bytes × Bool :=
  writeLoop waitsWhenBlocked results buf

/-- The send loop of `wsl_interop_relay_message` retries after `EINTR` only. -/
def retriesInterrupted : WriteResult → Bool
  | .interrupted => true
  | _ => false

def relaySend (results : List WriteResult) (buf : Bytes) : Bytes × Bool :=
  writeLoop retriesInterrupted results buf

/-! ## Actions -/

inductive Fd where
  | control
  | stdin
  | stdout
  | pty
  | sigchldRead
  | sigchldWrite
  | channel
  | interop
  | interopListen
  deriving DecidableEq, Repr

/-- What a session does, as far as it can be observed. -/
inductive Act where
  | opened (fd : Fd)
  | closed (fd : Fd)
  | sigchldHandler (installed : Bool)
  | socketFile (present : Bool)
  | poll (fds : List Fd)
  | pollFailed
  | now (t : Int)
  | kill (sig : Signal)
  | collected (status : WaitStatus)
  | disconnect (deadline : Int)
  | loopLeft
  | recv (fd : Fd) (r : RecvResult)
  | write (fd : Fd) (buf taken : Bytes)
  | controlMessage (m : Bytes)
  | controlWrite (m : ControlMessage) (taken : Bytes)
  | interopMessage (m : Bytes)
  | childReply (seq result : Nat)
  | resolvConf (contents : Bytes)
  | unlinkLocaltime
  | symlinkLocaltime (target : Bytes)
  deriving DecidableEq, Repr

/-! ## Inputs -/

/-- `revents & POLLIN` of the polled descriptors. -/
structure Revents where
  control : Bool := false
  stdin : Bool := false
  pty : Bool := false
  sigchld : Bool := false
  channel : Bool := false
  interop : Bool := false
  interopListen : Bool := false
  deriving DecidableEq, Repr

/-- How `poll` returns. A timeout is `ready` with nothing set. -/
inductive PollResult where
  | ready (revents : Revents)
  | interrupted
  | failed
  deriving DecidableEq, Repr

/-- A connection of a child process to the interop socket: what the two `recv` calls of
`wsl_interop_relay_message` return (`none` for 0 or an error), whether the allocations
succeed, and how the control socket answers the relayed message. -/
structure LocalConn where
  header : Option Bytes := none
  body : Option Bytes := none
  mallocBody : Bool := true
  mallocFull : Bool := true
  sends : List WriteResult := []
  deriving DecidableEq, Repr

/-- How `wsl_interop_create_server` ends. The path of the socket is set unless the directory
could not be made. -/
inductive CreateServer where
  | noDirectory
  | failed
  | listening
  deriving DecidableEq, Repr

/-- The environment before the loop. `early` is the result of the `waitpid` that looks for a
child that has already exited. -/
structure Setup where
  server : CreateServer := .listening
  pipe : Bool := true
  forkpty : Bool := true
  winsize : Winsize := { rows := 24, cols := 80 }
  channel : Bool := true
  interop : Bool := true
  early : Option WaitStatus := none
  earlySend : List WriteResult := []
  startTime : Int := 0
  deriving DecidableEq, Repr

/-- The environment during one pass of the loop. -/
structure Pass where
  controlArrive : Bytes := []
  controlClose : Bool := false
  interopArrive : Bytes := []
  interopClose : Bool := false
  guestResize : Option Winsize := none
  terminate : Bool := false
  poll : PollResult := .ready {}
  pollFailedWait : WaitStatus := .signaled 9
  now : Int := 0
  escalateWait : Option WaitStatus := none
  sizeIoctl : Bool := true
  sizeSend : List WriteResult := []
  sigchldWait : Option WaitStatus := none
  drain : List (Bytes × List WriteResult) := []
  exitSend : List WriteResult := []
  controlRecv : RecvChoice := .upTo 0
  disconnectTime : Int := 0
  setIoctl : Bool := true
  getIoctl : Bool := true
  resolvOpen : Bool := true
  symlink : Bool := true
  nackSend : List WriteResult := []
  stdinRecv : RecvResult := .wouldBlock
  ptySend : List WriteResult := []
  ptyRead : RecvResult := .wouldBlock
  stdoutSend : List WriteResult := []
  channelRecv : RecvResult := .wouldBlock
  channelSend : List WriteResult := []
  interopRecv : RecvChoice := .upTo 0
  accept : Option LocalConn := none
  deriving DecidableEq, Repr

/-! ## State -/

structure Session where
  cr : Reader controlBufSize
  ir : Reader interopBufSize
  controlIn : InSocket
  interopIn : InSocket
  stdinOpen : Bool
  hostDisconnected : Bool
  childReaped : Bool
  sighupSent : Bool
  sigkillSent : Bool
  sessionDone : Bool
  shutdownDeadline : Int
  exitCode : Int
  fst : FontSizeTracker
  lastSizeCheck : Int
  terminate : Bool
  pty : Winsize
  childGone : Bool
  trace : List Act

namespace Session

/-- `waitpid(pid, &status, WNOHANG) == pid`. -/
def waitpidNohang (s : Session) (dead : Option WaitStatus) : Option WaitStatus :=
  if s.childGone then none else dead

/-- `kill(pid, SIGKILL); waitpid(pid, &s, 0); child_reaped = 1`. -/
def killAndWait (s : Session) (status : WaitStatus) : Session :=
  { s with
    childReaped := true
    childGone := true
    trace := s.trace ++ [.kill .kill] ++ if s.childGone then [] else [.collected status] }

/-- The poll set built at the top of the loop, without the descriptors that are `-1`. -/
def pollSet (s : Session) (cfg : Setup) : List Fd :=
  (if s.hostDisconnected then [] else [.control]) ++
  (if !s.hostDisconnected && s.stdinOpen then [.stdin] else []) ++
  [.pty] ++
  (if cfg.pipe then [.sigchldRead] else []) ++
  (if !s.hostDisconnected && cfg.channel then [.channel] else []) ++
  (if !s.hostDisconnected && cfg.interop then [.interop] else []) ++
  (if cfg.server = .listening then [.interopListen] else [])

/-- What the host, the guest and the signals did by the time `poll` returns. -/
def deliver (s : Session) (cfg : Setup) (i : Pass) : Session :=
  { s with
    controlIn := s.controlIn.deliver i.controlArrive i.controlClose
    interopIn := s.interopIn.deliver i.interopArrive i.interopClose
    pty := i.guestResize.getD s.pty
    terminate := s.terminate || i.terminate
    trace := s.trace ++ [.poll (s.pollSet cfg)] }

/-! ## The branches of the loop body -/

/-- `SIGKILL` escalation after the shutdown deadline. -/
def escalate (s : Session) (i : Pass) : Session :=
  if s.hostDisconnected ∧ ¬ s.childReaped ∧ ¬ s.sigkillSent ∧ s.shutdownDeadline ≤ i.now then
    match s.waitpidNohang i.escalateWait with
    | some status =>
      { s with
        sigkillSent := true
        childReaped := true
        childGone := true
        sessionDone := true
        trace := s.trace ++ [.kill .kill, .collected status] }
    | none => { s with sigkillSent := true, trace := s.trace ++ [.kill .kill] }
  else s

/-- The periodic size check runs at most once a second while the host is connected. -/
def sizeCheckDue (s : Session) (i : Pass) : Bool :=
  !s.hostDisconnected && i.now - s.lastSizeCheck ≥ 1

def sizeCheckActs (s : Session) (i : Pass) : List Act :=
  if s.sizeCheckDue i && i.sizeIoctl &&
      (s.pty.rows != s.fst.trackedRows || s.pty.cols != s.fst.trackedCols) then
    [.controlWrite (.windowSizeChanged s.pty.rows s.pty.cols)
      (sendAll i.sizeSend (ControlMessage.windowSizeChanged s.pty.rows s.pty.cols).bytes).1]
  else []

def sizeCheck (s : Session) (i : Pass) : Session :=
  { s with
    lastSizeCheck := if s.sizeCheckDue i then i.now else s.lastSizeCheck
    fst :=
      if s.sizeCheckDue i && i.sizeIoctl then
        (fontSizeCheckChange s.fst s.pty.rows s.pty.cols s.pty.xpixel s.pty.ypixel).1
      else s.fst
    trace := s.trace ++ s.sizeCheckActs i }

/-- The drain of the PTY after the child's exit: it stops at a `poll` timeout (the end of the
list), at the end of the output, and at a failed send. -/
def drainActs (connected : Bool) : List (Bytes × List WriteResult) → List Act
  | [] => []
  | (chunk, results) :: rest =>
    if chunk.take 4096 = [] then [.recv .pty (.got [])]
    else if connected then
      let w := sendAll results (chunk.take 4096)
      [.recv .pty (.got (chunk.take 4096)), .write .stdout (chunk.take 4096) w.1] ++
        if w.2 then drainActs connected rest else []
    else .recv .pty (.got (chunk.take 4096)) :: drainActs connected rest

def exitActs (s : Session) (i : Pass) (status : WaitStatus) : List Act :=
  if s.hostDisconnected then []
  else [.controlWrite (.exitStatus status.exitCode)
    (sendAll i.exitSend (ControlMessage.exitStatus status.exitCode).bytes).1]

/-- The SIGCHLD branch once the child is collected; the loop is left after it. -/
def childExited (s : Session) (i : Pass) (status : WaitStatus) : Session :=
  { s with
    childReaped := true
    childGone := true
    sessionDone := true
    exitCode := if s.hostDisconnected then s.exitCode else status.exitCode
    trace := s.trace ++ [.collected status] ++ drainActs (!s.hostDisconnected) i.drain ++
      s.exitActs i status }

/-- Start of the graceful shutdown, for a closed channel and for `TerminateInstance`. -/
def disconnect (s : Session) (time : Int) : Session :=
  { s with
    hostDisconnected := true
    sighupSent := true
    shutdownDeadline := time + 5
    trace := s.trace ++ [.disconnect (time + 5)] ++ if s.sighupSent then [] else [.kill .hup] }

end Session

/-- What the message switch of the control branch does: the size records afterwards, whether
it starts the shutdown, and its actions. -/
structure Dispatched where
  fst : FontSizeTracker
  pty : Winsize
  terminate : Bool := false
  acts : List Act := []

/-- The `switch` over the message at the start of the reader's buffer. -/
def controlDispatch (mem : Bytes) (fst : FontSizeTracker) (pty : Winsize) (i : Pass) :
    Dispatched :=
  if messageType mem = LxInitMessageWindowSizeChanged then
    if 16 ≤ messageSize mem then
      let rows := UInt16.ofNat (leAt 12 2 mem)
      let cols := UInt16.ofNat (leAt 14 2 mem)
      let pty' := updatePtyWinsize pty rows cols i.setIoctl
      let fst' :=
        if i.getIoctl then fontSizeSyncAfterResize rows cols pty'.xpixel pty'.ypixel
        else fontSizeSyncAfterResize rows cols fst.trackedXpixel fst.trackedYpixel
      { fst := fst', pty := pty' }
    else { fst := fst, pty := pty }
  else if messageType mem = LxInitMessageTerminateInstance then
    { fst := fst, pty := pty, terminate := true }
  else if messageType mem = LxInitMessageNetworkInformation then
    { fst := fst
      pty := pty
      acts :=
        if 20 ≤ messageSize mem ∧ leAt 16 4 mem < messageSize mem - 20 ∧ i.resolvOpen then
          [.resolvConf (cString mem (20 + leAt 16 4 mem))]
        else [] }
  else if messageType mem = LxInitMessageTimezoneInformation then
    { fst := fst
      pty := pty
      acts :=
        if 16 ≤ messageSize mem ∧ leAt 12 4 mem < messageSize mem - 16 then
          -- `zone_path` has room for 255 characters
          let path := (ascii "/usr/share/zoneinfo/" ++ cString mem (16 + leAt 12 4 mem)).take 255
          .unlinkLocaltime :: if i.symlink then [.symlinkLocaltime path] else []
        else [] }
  else
    { fst := fst
      pty := pty
      acts := [.controlWrite (.nack (sequenceNumber mem))
        (sendAll i.nackSend (ControlMessage.nack (sequenceNumber mem)).bytes).1] }

/-- `wsl_interop_relay_message`. -/
def wslInteropRelayMessage (conn : LocalConn) : List Act :=
  match conn.header with
  | none => []
  | some h =>
    let hdr := h.take 12
    if hdr.length < 12 ∨ messageSize hdr < headerSize ∨ messageSize hdr > 65536 then []
    else
      let bodyLen := messageSize hdr - headerSize
      let body :=
        if bodyLen = 0 then some []
        else if conn.mallocBody then
          (conn.body.map (·.take bodyLen)).filter fun b => b.length = bodyLen
        else none
      match body with
      | none => []
      | some b =>
        if messageType hdr = LxInitMessageCreateProcessUtilityVm then
          if conn.mallocFull then
            let w := relaySend conn.sends (hdr ++ b)
            -- `EIO` when the message did not go out whole
            [.controlWrite (.relayed (hdr ++ b)) w.1,
              .childReply (sequenceNumber hdr) (if w.2 then 0 else 5)]
          else []
        else [.childReply (sequenceNumber hdr) 0]

namespace Session

def recvActs (fd : Fd) (r : Option RecvResult) : List Act := r.toList.map (.recv fd)

/-- The state after the `control_try_read` of the control branch. -/
def controlReceived (s : Session) (out : TryRead controlBufSize) : Session :=
  { s with
    cr := out.reader
    controlIn := out.socket
    trace := s.trace ++ recvActs .control out.recvd }

/-- The message at the start of the buffer is consumed and handled. -/
def controlHandled (s : Session) (i : Pass) : Session :=
  let d := controlDispatch s.cr.buf s.fst s.pty i
  { s with
    cr := controlConsume s.cr (messageSize s.cr.buf)
    fst := d.fst
    pty := d.pty
    trace := s.trace ++ (.controlMessage s.cr.message :: d.acts) }

def controlBranch (s : Session) (rev : Revents) (i : Pass) : Session :=
  if s.hostDisconnected ∨ ¬ rev.control then s
  else
    let out := controlTryRead s.cr s.controlIn i.controlRecv
    let s := s.controlReceived out
    match out.code with
    | .error => s.disconnect i.disconnectTime
    | .needMore => s
    | .message =>
      if (controlDispatch s.cr.buf s.fst s.pty i).terminate then
        (s.controlHandled i).disconnect i.disconnectTime
      else s.controlHandled i

end Session

/-- A result for a buffer of `n` bytes. -/
def RecvResult.limit (n : Nat) : RecvResult → RecvResult
  | .got bytes => .got (bytes.take n)
  | r => r

namespace Session

/-- The terminal input branch runs while the host is connected and the descriptor is open. -/
def stdinReady (s : Session) (rev : Revents) : Bool :=
  !s.hostDisconnected && s.stdinOpen && rev.stdin

def stdinActs (s : Session) (rev : Revents) (i : Pass) : List Act :=
  let r := i.stdinRecv.limit 4096
  if s.stdinReady rev then
    .recv .stdin r ::
      if r.bytes = [] then [] else [.write .pty r.bytes (writeAll i.ptySend r.bytes).1]
  else []

/-- The terminal input branch reads from the host and writes to the PTY. -/
def stdinBranch (s : Session) (rev : Revents) (i : Pass) : Session :=
  let r := i.stdinRecv.limit 4096
  { s with
    -- the end of the stream and a persistent error retire the descriptor
    stdinOpen := s.stdinOpen && !(s.stdinReady rev && (r == .got [] || r == .failed))
    trace := s.trace ++ s.stdinActs rev i }

def ptyActs (s : Session) (rev : Revents) (i : Pass) : List Act :=
  let r := i.ptyRead.limit 4096
  if rev.pty then
    .recv .pty r ::
      if r.bytes = [] ∨ s.hostDisconnected then []
      else [.write .stdout r.bytes (sendAll i.stdoutSend r.bytes).1]
  else []

/-- The terminal output branch; the output is discarded after a disconnect. -/
def ptyBranch (s : Session) (rev : Revents) (i : Pass) : Session :=
  { s with trace := s.trace ++ s.ptyActs rev i }

def channelActs (s : Session) (cfg : Setup) (rev : Revents) (i : Pass) : List Act :=
  let r := i.channelRecv.limit 4096
  if !s.hostDisconnected && cfg.channel && rev.channel then
    .recv .channel r ::
      if r.bytes = [] then [] else [.write .channel r.bytes (sendAll i.channelSend r.bytes).1]
  else []

def channelBranch (s : Session) (cfg : Setup) (rev : Revents) (i : Pass) : Session :=
  { s with trace := s.trace ++ s.channelActs cfg rev i }

/-- The state after the `interop_try_read` of the interop branch. -/
def interopReceived (s : Session) (out : TryRead interopBufSize) : Session :=
  { s with
    ir := out.reader
    interopIn := out.socket
    trace := s.trace ++ recvActs .interop out.recvd }

/-- The message at the start of the buffer is handled and consumed. `interop_process_message`
answers on the interop channel; it is recorded as the message it is called with. -/
def interopHandled (s : Session) : Session :=
  { s with
    ir := interopConsume s.ir (messageSize s.ir.buf)
    trace := s.trace ++ [.interopMessage s.ir.message] }

/-- The interop channel branch; a return value of `-1` is ignored. -/
def interopBranch (s : Session) (cfg : Setup) (rev : Revents) (i : Pass) : Session :=
  if !s.hostDisconnected && cfg.interop && rev.interop then
    let out := interopTryRead s.ir s.interopIn i.interopRecv
    let s := s.interopReceived out
    match out.code with
    | .message => s.interopHandled
    | _ => s
  else s

def localActs (cfg : Setup) (rev : Revents) (i : Pass) : List Act :=
  if cfg.server = .listening ∧ rev.interopListen then
    (i.accept.map wslInteropRelayMessage).getD []
  else []

/-- The local interop socket is served even after a disconnect. -/
def localBranch (s : Session) (cfg : Setup) (rev : Revents) (i : Pass) : Session :=
  { s with trace := s.trace ++ localActs cfg rev i }

def channels (s : Session) (cfg : Setup) (rev : Revents) (i : Pass) : Session :=
  let s := s.controlBranch rev i
  let s := s.stdinBranch rev i
  let s := s.ptyBranch rev i
  let s := s.channelBranch cfg rev i
  let s := s.interopBranch cfg rev i
  s.localBranch cfg rev i

/-- The part of a pass before the SIGCHLD branch. -/
def timers (s : Session) (i : Pass) : Session :=
  ({ s with trace := s.trace ++ [.now i.now] : Session }.escalate i).sizeCheck i

/-- The child's status, if the SIGCHLD branch collects it. -/
def sigchld (s : Session) (cfg : Setup) (rev : Revents) (i : Pass) : Option WaitStatus :=
  if cfg.pipe ∧ rev.sigchld then s.waitpidNohang i.sigchldWait else none

/-- One pass of the loop: `inl` goes back to `poll`, `inr` leaves the loop. -/
def iterate (cfg : Setup) (s : Session) (i : Pass) : Session ⊕ Session :=
  let s := s.deliver cfg i
  match i.poll with
  | .interrupted => if s.terminate then .inr s else .inl s
  | .failed =>
    let s : Session := { s with trace := s.trace ++ [.pollFailed] }
    if s.childReaped then .inr s else .inr (s.killAndWait i.pollFailedWait)
  | .ready rev =>
    if s.terminate then .inr s
    else
      let s := s.timers i
      match s.sigchld cfg rev i with
      | some status => .inr (s.childExited i status)
      | none =>
        let s := s.channels cfg rev i
        if s.sessionDone then .inr s else .inl s

/-- The closing of the SIGCHLD pipe and of its handler. -/
def closeSigchld (cfg : Setup) : List Act :=
  .sigchldHandler false ::
    if cfg.pipe then [.closed .sigchldRead, .closed .sigchldWrite] else []

def cleanup (cfg : Setup) (s : Session) (final : WaitStatus) : Session :=
  let s : Session := { s with trace := s.trace ++ [.loopLeft] }
  let s := if s.childReaped then s else s.killAndWait final
  { s with
    trace := s.trace ++ [.closed .pty] ++
      (if cfg.server = .listening then [.closed .interopListen] else []) ++
      (if cfg.server = .noDirectory then [] else [.socketFile false]) ++
      closeSigchld cfg }

end Session

/-! ## Which actions a branch can take -/

section Membership

variable {s : Session} {cfg : Setup} {rev : Revents} {i : Pass} {a : Act}

theorem mem_recvActs {fd : Fd} {r : Option RecvResult} (h : a ∈ Session.recvActs fd r) :
    ∃ x, a = .recv fd x := by
  obtain ⟨x, -, rfl⟩ := List.mem_map.mp h
  exact ⟨x, rfl⟩

theorem trace_escalate (s : Session) (i : Pass) : ∃ acts,
    (s.escalate i).trace = s.trace ++ acts ∧
      ∀ a ∈ acts, a = .kill .kill ∨ ∃ status, a = .collected status := by
  unfold Session.escalate
  split
  · split
    · rename_i status _
      exact ⟨[.kill .kill, .collected status], rfl, by simp⟩
    · exact ⟨[.kill .kill], rfl, by simp⟩
  · exact ⟨[], (List.append_nil _).symm, by simp⟩

theorem trace_disconnect (s : Session) (time : Int) : ∃ acts,
    (s.disconnect time).trace = s.trace ++ acts ∧
      ∀ a ∈ acts, a = .disconnect (time + 5) ∨ a = .kill .hup := by
  refine ⟨.disconnect (time + 5) :: if s.sighupSent then [] else [.kill .hup], ?_, ?_⟩
  · simp [Session.disconnect]
  · cases s.sighupSent <;> simp

theorem trace_pollFailed (s : Session) (status : WaitStatus) : ∃ acts,
    (({ s with trace := s.trace ++ [.pollFailed] } : Session).killAndWait status).trace =
        s.trace ++ acts ∧
      ∀ a ∈ acts, a = .pollFailed ∨ a = .kill .kill ∨ a = .collected status := by
  refine ⟨[.pollFailed, .kill .kill] ++ if s.childGone then [] else [.collected status], ?_, ?_⟩
  · simp [Session.killAndWait]
  · cases s.childGone <;> simp

theorem mem_sizeCheckActs (h : a ∈ s.sizeCheckActs i) :
    ∃ rows cols, a = .controlWrite (.windowSizeChanged rows cols)
      (sendAll i.sizeSend (ControlMessage.windowSizeChanged rows cols).bytes).1 := by
  unfold Session.sizeCheckActs at h
  split at h
  · exact ⟨_, _, List.mem_singleton.mp h⟩
  · cases h

theorem mem_drainActs {connected : Bool} {reads : List (Bytes × List WriteResult)}
    (h : a ∈ Session.drainActs connected reads) :
    (∃ r, a = .recv .pty r) ∨ ∃ buf taken, a = .write .stdout buf taken := by
  induction reads with
  | nil => cases h
  | cons read reads ih =>
    obtain ⟨chunk, results⟩ := read
    unfold Session.drainActs at h
    split at h
    · exact .inl ⟨_, List.mem_singleton.mp h⟩
    · split at h
      · rcases List.mem_append.mp h with h | h
        · simp only [List.mem_cons, List.not_mem_nil, or_false] at h
          rcases h with rfl | rfl
          · exact .inl ⟨_, rfl⟩
          · exact .inr ⟨_, _, rfl⟩
        · split at h
          · exact ih h
          · cases h
      · rcases List.mem_cons.mp h with rfl | h
        · exact .inl ⟨_, rfl⟩
        · exact ih h

theorem mem_exitActs {status : WaitStatus} (h : a ∈ s.exitActs i status) :
    a = .controlWrite (.exitStatus status.exitCode)
      (sendAll i.exitSend (ControlMessage.exitStatus status.exitCode).bytes).1 := by
  unfold Session.exitActs at h
  split at h
  · cases h
  · exact List.mem_singleton.mp h

theorem controlDispatch_acts (mem : Bytes) (fst : FontSizeTracker) (pty : Winsize) (i : Pass) :
    (∀ a ∈ (controlDispatch mem fst pty i).acts, (∃ contents, a = .resolvConf contents) ∨
      a = .unlinkLocaltime ∨ ∃ target, a = .symlinkLocaltime target) ∨
    ∃ seq, (controlDispatch mem fst pty i).acts =
      [.controlWrite (.nack seq) (sendAll i.nackSend (ControlMessage.nack seq).bytes).1] := by
  unfold controlDispatch
  split
  · refine .inl fun a h => ?_
    split at h <;> cases h
  · split
    · exact .inl fun a h => by cases h
    · split
      · refine .inl fun a h => ?_
        dsimp only at h
        split at h
        · exact .inl ⟨_, List.mem_singleton.mp h⟩
        · cases h
      · split
        · refine .inl fun a h => ?_
          dsimp only at h
          split at h
          · rcases List.mem_cons.mp h with rfl | h
            · exact .inr (.inl rfl)
            · split at h
              · exact .inr (.inr ⟨_, List.mem_singleton.mp h⟩)
              · cases h
          · cases h
        · exact .inr ⟨_, rfl⟩

theorem mem_controlDispatch {mem : Bytes} {fst : FontSizeTracker} {pty : Winsize}
    (h : a ∈ (controlDispatch mem fst pty i).acts) :
    (∃ contents, a = .resolvConf contents) ∨ a = .unlinkLocaltime ∨
      (∃ target, a = .symlinkLocaltime target) ∨ ∃ seq taken, a = .controlWrite (.nack seq) taken := by
  rcases controlDispatch_acts mem fst pty i with hall | ⟨seq, heq⟩
  · obtain hc | hu | ht := hall a h
    · exact .inl hc
    · exact .inr (.inl hu)
    · exact .inr (.inr (.inl ht))
  · rw [heq] at h
    exact .inr (.inr (.inr ⟨_, _, List.mem_singleton.mp h⟩))

theorem mem_stdinActs (h : a ∈ s.stdinActs rev i) :
    (∃ r, a = .recv .stdin r) ∨ ∃ buf taken, a = .write .pty buf taken := by
  unfold Session.stdinActs at h
  dsimp only at h
  split at h
  · rcases List.mem_cons.mp h with rfl | h
    · exact .inl ⟨_, rfl⟩
    · split at h
      · cases h
      · exact .inr ⟨_, _, List.mem_singleton.mp h⟩
  · cases h

theorem mem_ptyActs (h : a ∈ s.ptyActs rev i) :
    (∃ r, a = .recv .pty r) ∨ ∃ buf taken, a = .write .stdout buf taken := by
  unfold Session.ptyActs at h
  dsimp only at h
  split at h
  · rcases List.mem_cons.mp h with rfl | h
    · exact .inl ⟨_, rfl⟩
    · split at h
      · cases h
      · exact .inr ⟨_, _, List.mem_singleton.mp h⟩
  · cases h

theorem mem_channelActs (h : a ∈ s.channelActs cfg rev i) :
    (∃ r, a = .recv .channel r) ∨ ∃ buf taken, a = .write .channel buf taken := by
  unfold Session.channelActs at h
  dsimp only at h
  split at h
  · rcases List.mem_cons.mp h with rfl | h
    · exact .inl ⟨_, rfl⟩
    · split at h
      · cases h
      · exact .inr ⟨_, _, List.mem_singleton.mp h⟩
  · cases h

theorem wslInteropRelayMessage_eq (conn : LocalConn) :
    wslInteropRelayMessage conn = [] ∨ (∃ seq, wslInteropRelayMessage conn = [.childReply seq 0]) ∨
      ∃ h m seq result, conn.header = some h ∧ m.length = messageSize h ∧
        messageFormat.WellFormed m ∧ wslInteropRelayMessage conn =
          [.controlWrite (.relayed m) (relaySend conn.sends m).1, .childReply seq result] := by
  unfold wslInteropRelayMessage
  split
  · exact .inl rfl
  · rename_i h hh
    dsimp only
    split
    · exact .inl rfl
    · rename_i hhdr
      split
      · exact .inl rfl
      · rename_i b hb
        split
        · split
          · have hlen : (h.take 12).length = headerSize := by
              simp only [List.length_take, headerSize] at hhdr ⊢
              omega
            have hbody : b.length = messageSize (h.take 12) - headerSize := by
              split at hb
              · rename_i hz
                cases hb
                rw [hz]
                rfl
              · split at hb
                · obtain ⟨-, hb⟩ := Option.filter_eq_some_iff.mp hb
                  exact of_decide_eq_true hb
                · cases hb
            have hsize : messageSize (h.take 12 ++ b) = messageSize (h.take 12) :=
              messageFormat.sizeOf_append _ _ (by rw [hlen]; exact le_rfl)
            have hsum : headerSize + (messageSize (h.take 12) - headerSize) =
                messageSize (h.take 12) := by omega
            have htake : messageSize (h.take 12) = messageSize h := leAt_take (by decide)
            have htotal : (h.take 12 ++ b).length = messageSize (h.take 12) := by
              rw [List.length_append, hlen, hbody, hsum]
            refine .inr (.inr ⟨h, h.take 12 ++ b, _, _, hh, htotal.trans htake, ⟨?_, ?_⟩, rfl⟩)
            · change headerSize ≤ _
              rw [List.length_append, hlen]
              exact Nat.le_add_right _ _
            · change messageSize (h.take 12 ++ b) = _
              rw [hsize, htotal]
          · exact .inl rfl
        · exact .inr (.inl ⟨_, rfl⟩)

theorem mem_localActs (h : a ∈ Session.localActs cfg rev i) :
    (∃ seq result, a = .childReply seq result) ∨
      ∃ m taken, a = .controlWrite (.relayed m) taken := by
  unfold Session.localActs at h
  split at h
  · cases hacc : i.accept with
    | none =>
      rw [hacc] at h
      cases h
    | some conn =>
      rw [hacc] at h
      change a ∈ wslInteropRelayMessage conn at h
      rcases wslInteropRelayMessage_eq conn with heq | ⟨seq, heq⟩ | ⟨_, m, seq, result, -, -, -, heq⟩
      · rw [heq] at h
        cases h
      · rw [heq] at h
        exact .inl ⟨_, _, List.mem_singleton.mp h⟩
      · rw [heq] at h
        simp only [List.mem_cons, List.not_mem_nil, or_false] at h
        rcases h with rfl | rfl
        · exact .inr ⟨_, _, rfl⟩
        · exact .inl ⟨_, _, rfl⟩
  · cases h

end Membership

/-! ## The session -/

/-- The actions before `forkpty`. -/
def openActs (cfg : Setup) : List Act :=
  (if cfg.server = .listening then [.socketFile true, .opened .interopListen] else []) ++
  (if cfg.pipe then [.opened .sigchldRead, .opened .sigchldWrite, .sigchldHandler true] else [])

def Session.init (cfg : Setup) : Session where
  cr := Reader.init controlBufSize
  ir := Reader.init interopBufSize
  controlIn := {}
  interopIn := {}
  stdinOpen := true
  hostDisconnected := false
  childReaped := false
  sighupSent := false
  sigkillSent := false
  sessionDone := false
  shutdownDeadline := 0
  exitCode := -1
  fst := fontSizeTrackerInit cfg.winsize.rows cfg.winsize.cols cfg.winsize.xpixel cfg.winsize.ypixel
  lastSizeCheck := cfg.startTime
  terminate := false
  pty := cfg.winsize
  childGone := false
  trace := openActs cfg ++ [.opened .pty]

theorem mem_initTrace {cfg : Setup} {a : Act} (h : a ∈ (Session.init cfg).trace) :
    (∃ fd, a = .opened fd) ∨ a = .socketFile true ∨ a = .sigchldHandler true := by
  rcases List.mem_append.mp h with h | h
  · rcases List.mem_append.mp h with h | h
    · split at h
      · simp only [List.mem_cons, List.not_mem_nil, or_false] at h
        rcases h with rfl | rfl
        · exact .inr (.inl rfl)
        · exact .inl ⟨_, rfl⟩
      · cases h
    · split at h
      · simp only [List.mem_cons, List.not_mem_nil, or_false] at h
        rcases h with rfl | rfl | rfl
        · exact .inl ⟨_, rfl⟩
        · exact .inl ⟨_, rfl⟩
        · exact .inr (.inr rfl)
      · cases h
  · exact .inl ⟨_, List.mem_singleton.mp h⟩

/-- How far a session has come: it waits in `poll`, or it has returned a value. -/
inductive Outcome where
  | running (s : Session)
  | returned (trace : List Act) (value : Int)

/-- The return path of a child that has exited before the loop. -/
def earlyExit (cfg : Setup) (status : WaitStatus) : Outcome :=
  .returned
    (openActs cfg ++ [.opened .pty, .collected status,
      .controlWrite (.exitStatus status.exitCode)
        (sendAll cfg.earlySend (ControlMessage.exitStatus status.exitCode).bytes).1,
      .closed .pty] ++ Session.closeSigchld cfg)
    status.exitCode

def runSession (cfg : Setup) (passes : List Pass) (final : WaitStatus) : Outcome :=
  if ¬ cfg.forkpty then .returned (openActs cfg ++ Session.closeSigchld cfg) (-1)
  else
    match cfg.early with
    | some status => earlyExit cfg status
    | none =>
      match runLoop (Session.iterate cfg) (Session.init cfg) passes with
      | .inl s => .running s
      | .inr s => .returned (s.cleanup cfg final).trace s.exitCode

end WslFreeBSD.Bridge
