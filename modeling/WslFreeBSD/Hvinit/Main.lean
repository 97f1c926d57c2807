import WslFreeBSD.Hvinit.EventLoop

/-!
# The handshake of `hvinit`

`main` (`hvinit.c`): the channels are connected, `Initialize` and `CreateSession` are received with
single calls of `recv`, and the event loop is entered. A `recv` returns at most what it asks for and
at most what is there; how much that is at the three calls is the input `Cuts`. Memory that the
process does not initialise is the input `Memory`.

Without an init channel the process waits for ever, since nothing can be received; it is followed up
to there.
-/

namespace WslFreeBSD.Hvinit

open Lib Protocol Config

/-! ## Messages -/

/-- What is in uninitialised memory: the padding in `LX_MINI_INIT_CREATE_INSTANCE_RESULT` and the
buffer for `CreateSession`. -/
structure Memory where
  padding : Bytes
  createSession : Bytes
  length_padding : padding.length = 4
  length_createSession : createSession.length = 24

def zeroMemory : Memory := ⟨List.replicate 4 0, List.replicate 24 0, rfl, rfl⟩

/-- `send_create_instance_result`. -/
def sendCreateInstanceResult (memory : Memory) : InitProgram Unit :=
  send .init (header LxMiniInitMessageCreateInstanceResult 52 1 ++ (leBytes 4 0 ++ leBytes 4 0 ++
    memory.padding ++ leBytes 8 1 ++ leBytes 4 PORT_HVS_BSD ++ leBytes 4 0 ++
    (ascii "No warnings" ++ [0])))

/-- `send_configuration_info_response`. -/
def sendConfigurationInfoResponse (g : Globals) (seq : Nat) : InitProgram Unit :=
  let defaultUid := (g.config.map fun cfg => cfg.drvfsDefaultOwner.toNat).getD 1
  send .init (header LxInitMessageInitializeResponse 68 seq ++ (leBytes 4 g.plan9.port ++
    leBytes 4 defaultUid ++ leBytes 4 PORT_HVS_BSD ++ leBytes 8 0 ++ leBytes 8 0 ++ leBytes 4 0 ++
    leBytes 4 14 ++ (ascii "GenericFlavor" ++ [0] ++ ascii "1.0.0" ++ [0])))

/-- `send_create_session_response`. -/
def sendCreateSessionResponse (port seq : Nat) : InitProgram Unit :=
  send .init (header LxInitMessageCreateSessionResponse 16 seq ++ leBytes 4 port)

/-- `send_oobe_result`; its sequence number is the one of a channel of its own. -/
def sendOobeResult (result : Nat) (defaultUid : Int) : InitProgram Unit :=
  send .init (header LxInitMessageOobeResult 24 1 ++
    (leBytes 4 result ++ leBytes 8 (defaultUid % 2 ^ 64).toNat))

/-! ## The Initialize message -/

/-- The digits of `%x`. -/
def lowerHex (n : Nat) : Bytes := (Nat.toDigits 16 n).map fun c => UInt8.ofNat c.toNat

/-- `wsl_config_parse` and the environment variables that are set from the result. -/
def parseInitialize (g : Globals) (msg : Bytes) : InitProgram Globals :=
  let out := wslConfigParse wslConfigInit (some msg)
  if out.1 = 0 then do
    match out.2.distributionName with
    | none => pure ()
    | some name => Program.perform (Op.setenv (ascii "WSL_DISTRO_NAME") name)
    Program.perform (Op.setenv (ascii "WSL_FEATURE_FLAGS")
      (snprintf 16 (lowerHex out.2.featureFlags.toNat)))
    pure { g with config := some out.2 }
  else pure g

/-- `wsl_conf_parse_file` on what is found in the file. -/
def wslConfOf : FileRead → Option WslConf
  | .missing => some (wslConfParseFile wslConfInit none)
  | .contents stream => some (wslConfParseFile wslConfInit (some stream))
  | .failed => none

/-- `[user] default` overrides the owner of the drives. -/
def resolveUser (g : Globals) : InitProgram Globals :=
  match g.text .userDefault, g.config with
  | some user, some cfg => do
    match ← Program.perform (Op.getpwnam user) with
    | none => pure g
    | some uid => pure { g with config := some { cfg with drvfsDefaultOwner := uid } }
  | _, _ => pure g

def WSL_CONF_FILE : Bytes := ascii "/etc/wsl.conf"

def readWslConf (g : Globals) : InitProgram Globals := do
  let file ← Program.perform (Op.readFile WSL_CONF_FILE)
  match wslConfOf file with
  | none => pure g
  | some conf => resolveUser { g with wslConf := some conf }

def applyTimezone (g : Globals) : InitProgram Unit :=
  timezoneApply (g.config.bind WslConfig.timezone) (g.flag .timeUseWindowsTimezone)

/-- Host name, domain name and `/etc/hosts`. -/
def applyNetwork (g : Globals) : InitProgram Unit :=
  match g.config with
  | none => pure ()
  | some cfg => do
    networkApplyHostname cfg.hostname (g.text .networkHostname)
    networkApplyDomainname cfg.domainname
    networkGenerateHosts cfg.hostname cfg.domainname cfg.windowsHosts (g.flag .networkGenerateHosts)

/-- The drives of the message; the table afterwards. -/
def mountInitial (g : Globals) : InitProgram (List Bytes × Nat) :=
  match g.config with
  | none => pure (g.mountedFs, 0)
  | some cfg =>
    if cfg.drvfsMount ≠ 0 ∧ g.flag .automountEnabled then
      mountDrives g cfg.drvfsVolumesBitmap.toBitVec cfg.drvfsDefaultOwner.toNat cfg.drvfsElevated
    else pure (g.mountedFs, 0)

/-- The settings of the message and of `/etc/wsl.conf`. -/
def loadSettings (g : Globals) (msg : Bytes) : InitProgram Globals := do
  let g ← parseInitialize g msg
  readWslConf g

/-- What is done with the settings; `InitializeResponse` is the last step. -/
def applySettings (g : Globals) (seq : Nat) : InitProgram Globals := do
  applyTimezone g
  applyNetwork g
  let mounted ← mountInitial g
  bootCommand g
  Program.perform (Op.setenv (ascii "WSL_APPEND_WINDOWS_PATH")
    (ascii (if g.flag .interopAppendWindowsPath then "1" else "0")))
  let server ← plan9StartServer g.plan9
  let g : Globals := { g with
    mountedFs := mounted.1
    generateResolvconf := g.flag .networkGenerateResolvconf
    plan9 := server.1 }
  sendConfigurationInfoResponse g seq
  pure g

/-- What `main` does with a complete `Initialize` message. -/
def handleInitialize (g : Globals) (msg : Bytes) : InitProgram Globals := do
  let g ← loadSettings g msg
  applySettings g (sequenceNumber msg)

/-! ## What the programs use -/

theorem uses_parseInitialize (g : Globals) (msg : Bytes) : Uses [.system] (parseInitialize g msg) := by
  refine Program.Only.ite ?_ (Program.only_pure g)
  cases (wslConfigParse wslConfigInit (some msg)).2.distributionName with
  | none => exact (uses_perform List.mem_cons_self).bind fun _ => Program.only_pure _
  | some name =>
    refine (uses_perform List.mem_cons_self).bind fun _ => ?_
    exact (uses_perform List.mem_cons_self).bind fun _ => Program.only_pure _

theorem uses_resolveUser (g : Globals) : Uses [.system] (resolveUser g) := by
  unfold resolveUser
  split
  · refine (uses_perform List.mem_cons_self).bind fun uid => ?_
    cases uid <;> exact Program.only_pure _
  · exact Program.only_pure g

theorem uses_loadSettings (g : Globals) (msg : Bytes) :
    Uses [.system, .files] (loadSettings g msg) := by
  refine Program.Only.bind ((uses_parseInitialize g msg).mono (by simp)) fun g => ?_
  refine (uses_perform (List.mem_cons_of_mem _ List.mem_cons_self)).bind fun file => ?_
  cases wslConfOf file with
  | none => exact Program.only_pure g
  | some conf => exact (uses_resolveUser _).mono (by simp)

theorem loadSettings_eq (g : Globals) (msg : Bytes) : (loadSettings g msg).Ensures fun g' _ =>
    ∃ config wslConf, g' = { g with config, wslConf } := by
  have hparse : (parseInitialize g msg).Ensures fun g' _ => ∃ config, g' = { g with config } := by
    unfold parseInitialize
    dsimp only
    split
    · cases (wslConfigParse wslConfigInit (some msg)).2.distributionName with
      | none => exact fun _ => ⟨_, rfl⟩
      | some name => exact fun _ _ => ⟨_, rfl⟩
    · exact ⟨g.config, rfl⟩
  have huser : ∀ g : Globals, (resolveUser g).Ensures fun g' _ => ∃ config, g' = { g with config } := by
    intro g
    unfold resolveUser
    split
    · intro uid
      cases uid with
      | none => exact ⟨g.config, rfl⟩
      | some uid => exact ⟨_, rfl⟩
    · exact ⟨g.config, rfl⟩
  refine Program.ensures_bind.mpr (hparse.mono ?_)
  rintro _ t ⟨config, rfl⟩
  refine Program.ensures_bind.mpr (Program.ensures_perform.mpr fun file => ?_)
  cases wslConfOf file with
  | none => exact ⟨config, g.wslConf, rfl⟩
  | some conf =>
    refine (huser _).mono ?_
    rintro _ u ⟨config', rfl⟩
    exact ⟨config', some conf, rfl⟩

theorem uses_mountInitial (g : Globals) : Uses [.system, .mounts] (mountInitial g) := by
  unfold mountInitial
  split
  · exact Program.only_pure _
  · exact Program.Only.ite (uses_drvfsMountVolumes _ _ _ _ _ _ _) (Program.only_pure _)

theorem uses_applyNetwork (g : Globals) : Uses [.names, .system, .files] (applyNetwork g) := by
  unfold applyNetwork
  split
  · exact Program.only_pure ()
  · refine (uses_networkApplyHostname _ _).bind fun _ => ?_
    refine Program.Only.bind ((uses_networkApplyDomainname _).mono (by simp)) fun _ => ?_
    exact (uses_networkGenerateHosts _ _ _ _).mono (by simp)

/-! ## Receiving the handshake -/

/-- How many bytes the three `recv` calls find. -/
structure Cuts where
  header : Nat
  body : Nat
  session : Nat
  deriving DecidableEq, Repr

/-- One `recv` for `n` bytes: what it returns, and the rest of the stream. -/
def recvOnce (n available : Nat) (incoming : Bytes) : Bytes × Bytes :=
  (incoming.take (min n available), incoming.drop (min n available))

namespace Init

variable (env : InitEnvironment)

/-- The `Initialize` message; an incomplete header or body is left where it is. -/
def receiveInitialize (cuts : Cuts) (s : Init) : Init :=
  let hdr := recvOnce headerSize cuts.header s.incoming
  if hdr.1.length ≠ headerSize ∨ messageSize hdr.1 < headerSize then { s with incoming := hdr.2 }
  else
    let payloadLen := messageSize hdr.1 - headerSize
    -- no `recv` for an empty body
    let body := if payloadLen = 0 then ([], hdr.2) else recvOnce payloadLen cuts.body hdr.2
    let s := { s with incoming := body.2 }
    if body.1.length ≠ payloadLen then s else s.exec env (handleInitialize · (hdr.1 ++ body.1))

/-- The `CreateSession` message. The sequence number is read from the buffer, whatever part of it
was received. -/
def receiveCreateSession (memory : Memory) (cuts : Cuts) (s : Init) : Init :=
  let got := recvOnce 24 cuts.session s.incoming
  let s := { s with incoming := got.2 }
  if got.1 = [] then s
  else
    let createSess := got.1 ++ memory.createSession.drop got.1.length
    s.exec env fun g =>
      keep g (sendCreateSessionResponse PORT_HVS_BSD (sequenceNumber createSess))

/-- The user of `OobeResult`: the owner of the drives, unless it is unknown or 0. -/
def oobeUid (g : Globals) : Int :=
  match g.config with
  | none => -1
  | some cfg => if cfg.drvfsDefaultOwner = 0 then -1 else cfg.drvfsDefaultOwner.toNat

/-- `OobeResult` and the start of the GNS engine. -/
def enterLoop (g : Globals) : InitProgram Globals := do
  sendOobeResult 0 (oobeUid g)
  let gnsPid ← gnsStartEngine g.featureFlags g.gnsPid
  pure { g with gnsPid }

/-- From `Initialize` to the event loop. -/
def handshake (memory : Memory) (cuts : Cuts) (s : Init) : Init :=
  ((s.receiveInitialize env cuts).receiveCreateSession env memory cuts).exec env enterLoop

/-- An `Initialize` message is handled, or bytes are skipped. -/
theorem receiveInitialize_cases (cuts : Cuts) (s : Init) :
    (∃ rest, s.receiveInitialize env cuts = { s with incoming := rest }) ∨
    ∃ rest msg, s.receiveInitialize env cuts =
      { s with incoming := rest }.exec env (handleInitialize · msg) := by
  unfold receiveInitialize
  dsimp only
  generalize recvOnce headerSize cuts.header s.incoming = hdr
  by_cases hshort : hdr.1.length ≠ headerSize ∨ messageSize hdr.1 < headerSize
  · rw [if_pos hshort]
    exact .inl ⟨hdr.2, rfl⟩
  · rw [if_neg hshort]
    generalize (if messageSize hdr.1 - headerSize = 0 then ([], hdr.2)
      else recvOnce (messageSize hdr.1 - headerSize) cuts.body hdr.2) = body
    split
    · exact .inl ⟨body.2, rfl⟩
    · exact .inr ⟨body.2, hdr.1 ++ body.1, rfl⟩

/-- `CreateSession` is answered, or nothing was received. -/
theorem receiveCreateSession_cases (memory : Memory) (cuts : Cuts) (s : Init) :
    (∃ rest, s.receiveCreateSession env memory cuts = { s with incoming := rest }) ∨
    ∃ rest seq, s.receiveCreateSession env memory cuts = { s with incoming := rest }.exec env
      fun g => keep g (sendCreateSessionResponse PORT_HVS_BSD seq) := by
  unfold receiveCreateSession
  dsimp only
  split
  · exact .inl ⟨_, rfl⟩
  · exact .inr ⟨_, _, rfl⟩

/-- The end of `main`. -/
def leaveLoop (g : Globals) : InitProgram Globals := do
  let gnsPid ← gnsStopEngine g.gnsPid
  pure { g with gnsPid }

/-- `main` goes on after the event loop has been left, but not after an `exit`. -/
def finish : Init ⊕ Ended → Init ⊕ Ended
  | .inr (.left s) => .inr (.left (s.exec env leaveLoop))
  | out => out

end Init

/-! ## The whole process -/

/-- `gns_configure_test_paths`: the path of the resolver configuration. -/
def gnsConfigureTestPaths (g : Globals) : InitProgram Globals := do
  match nonEmpty (← Program.perform (Op.getenv (ascii "WSL_TEST_ROOT"))) with
  | none => pure g
  | some root =>
    let path := root ++ ascii "/resolv.conf"
    if path.length < 512 then pure { g with resolvconfPath := path.take 255 } else pure g

/-- The channels up to `CreateInstanceResult`: whether the notify channel is open, unless the
capability or the init channel is missing. -/
def connectChannels (memory : Memory) : InitProgram (Option Bool) := do
  if ← Program.perform (Op.hvConnect PORT_HVS) then
    if ← Program.perform Op.sendCapabilities then
      let notifyOpen ← Program.perform (Op.hvConnect PORT_HVS)
      if ← Program.perform Op.recvCapabilities then
        if ← Program.perform (Op.hvConnect PORT_HVS) then
          sendCreateInstanceResult memory
          pure (some notifyOpen)
        else pure none
      else pure none
    else pure none
  else pure none

/-- `main` up to the handshake. -/
def boot (memory : Memory) : InitProgram (Globals × Option Bool) := do
  let g ← gnsConfigureTestPaths {}
  let mountedFs ← initializeFilesystems g.mountedFs
  let connected ← connectChannels memory
  pure ({ g with mountedFs }, connected)

theorem uses_gnsConfigureTestPaths (g : Globals) : Uses [.system] (gnsConfigureTestPaths g) := by
  refine (uses_perform List.mem_cons_self).bind fun root => ?_
  cases nonEmpty root with
  | none => exact Program.only_pure g
  | some root => exact Program.Only.ite (Program.only_pure _) (Program.only_pure g)

theorem gnsConfigureTestPaths_eq (g : Globals) : (gnsConfigureTestPaths g).Ensures fun g' _ =>
    ∃ resolvconfPath, g' = { g with resolvconfPath } := by
  refine Program.ensures_bind.mpr (Program.ensures_perform.mpr fun root => ?_)
  cases nonEmpty root with
  | none => exact ⟨g.resolvconfPath, rfl⟩
  | some root =>
    dsimp only
    split
    · exact ⟨_, rfl⟩
    · exact ⟨g.resolvconfPath, rfl⟩

theorem uses_connectChannels (memory : Memory) :
    Uses [.system, .channels] (connectChannels memory) := by
  have hnone : Uses [.system, .channels] (pure none : InitProgram (Option Bool)) :=
    Program.only_pure none
  refine (uses_perform List.mem_cons_self).bind fun _ => Program.Only.ite ?_ hnone
  refine (uses_perform List.mem_cons_self).bind fun _ => Program.Only.ite ?_ hnone
  refine (uses_perform List.mem_cons_self).bind fun notifyOpen => ?_
  refine (uses_perform List.mem_cons_self).bind fun _ => Program.Only.ite ?_ hnone
  refine (uses_perform List.mem_cons_self).bind fun _ => Program.Only.ite ?_ hnone
  refine Program.Only.bind ((uses_send _ _).mono (by simp)) fun _ => ?_
  exact Program.only_pure _

/-- The process that the host boots, sending `incoming` on the init channel: after some passes of
the event loop, or when it has ended. -/
def main (env : InitEnvironment) (memory : Memory) (cuts : Cuts) (incoming : Bytes)
    (ws : List Wakeup) : Option (Init ⊕ Ended) :=
  let booted := (boot memory).run env []
  booted.1.2.map fun notifyOpen =>
    let s : Init := { globals := booted.1.1, notifyOpen, incoming, trace := booted.2 }
    Init.finish env ((s.handshake env memory cuts).eventLoop env ws)

def exited? : Option (Init ⊕ Ended) → Option Init
  | some (.inr (.exited s)) => some s
  | _ => none

/-! ## A short run -/

/-- An `Initialize` message with the drives of a bitmap. -/
def initializeWith (bitmap : UInt32) : Bytes :=
  header LxInitMessageInitialize 53 1 ++ fieldBytes [0, 0, 0, 0, 0, 0, bitmap, 0, 0, 1] ++ [0]

def createSessionMessage : Bytes := header 2 24 2 ++ List.replicate 12 0

def terminateMessage : Bytes := header LxInitMessageTerminateInstance 12 3

/-- A run with the handshake in one piece, ended by `TerminateInstance`. -/
def runWith (bitmap : UInt32) : Option Init :=
  exited? (main plainEnvironment zeroMemory ⟨12, 41, 24⟩
    (initializeWith bitmap ++ createSessionMessage ++ terminateMessage) [.ready false true true])

end WslFreeBSD.Hvinit
