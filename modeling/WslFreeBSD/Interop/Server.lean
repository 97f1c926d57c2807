import WslFreeBSD.Memory.StringReads

/-!
# The interop server

`interop_process_message` answers the queries of the interop channel and starts guest processes. It
is modelled as an `Access` over the reader's buffer: what it does is computed from the bytes it
reads, and in the buffer the bytes of later messages follow the message.

`CreateProcess` is careful with the command line and the environment, which it looks at with
`strnlen`, but the test of the command line's range adds two numbers of the message in 32 bits; the
working directory, the name of a queried variable and the user name of a login session are read up to
their NUL. What the server does depends on nothing but the message exactly for the messages of
`SelfContained` (`depends_on_message_iff`).
-/

namespace WslFreeBSD.Interop

open Lib Lib.Access Protocol Memory

/-! ## What the server does -/

/-- An argument of `printf`. -/
inductive Arg
  | num (n : Nat)
  | str (s : Bytes)
  | strerror (errno : Nat)
  deriving DecidableEq, Repr

/-- What the child of a `fork` does stands behind it, before the parent goes on. -/
inductive Effect
  | print (format : String) (args : List Arg)
  | perror (text : String)
  | send (message : Bytes)
  | fork
  | putenv (entry : Bytes)
  | chdir (dir : Bytes)
  | execlp (cmdline : Bytes)
  | exit (code : Nat)
  deriving DecidableEq, Repr

inductive ForkResult
  | failed (errno : Nat)
  | child (pid : Nat)
  deriving DecidableEq, Repr

/-- What the server sees besides the message. -/
structure InteropEnvironment where
  getenv : Bytes → Option Bytes
  files : Bytes → Hvinit.FileRead
  malloc : Bool
  fork : ForkResult
  /-- The error of `chdir`, if it fails. -/
  chdir : Bytes → Option Nat
  execlp : Bool

/-! ## Replies -/

/-- `interop_send_bool`, `interop_send_int32` and `interop_send_uint8`. -/
def interopSendResult (type seq value : Nat) : Effect := .send (Hvinit.resultMessage type seq value)

/-- `interop_send_env_var_response` and `interop_send_vm_id_response`. -/
def interopSendText (malloc : Bool) (type seq : Nat) (text : Bytes) : List Effect :=
  if malloc then [.send (Hvinit.textMessage type seq [] text)] else []

/-- `interop_send_create_process_response`, with the padding before the end of the structure. -/
def interopSendCreateProcessResponse (seq result signalPipeId flags : Nat) : Effect :=
  .send (header LxInitMessageCreateProcessResponse 32 seq ++
    structBytes [(4, result), (8, signalPipeId), (4, flags), (4, 0)])

/-- `interop_get_vm_id_string`. -/
def interopGetVmIdString (files : Bytes → Hvinit.FileRead) : List String → Bytes
  | [] => ascii "00000000-0000-0000-0000-000000000000"
  | path :: paths =>
    let id := Hvinit.guidText (files (ascii path))
    if id ≠ [] then cString id 0 else interopGetVmIdString files paths

/-! ## `CreateProcess` -/

/-- `cp_min`: the header and `sizeof(struct LX_INIT_CREATE_PROCESS_COMMON)`. `Buffer` starts here. -/
def cpMin : Nat := 64

/-- The test of the command line's place. The sum is computed in 32 bits. -/
def CommandLineSelected (bufferSize offset count : Nat) : Prop :=
  (0 < count ∧ (offset + count) % 2 ^ 32 ≤ bufferSize) ∨ (count = 0 ∧ offset < bufferSize)

instance (bufferSize offset count : Nat) : Decidable (CommandLineSelected bufferSize offset count) :=
  inferInstanceAs (Decidable (_ ∨ _))

def emptyCommandLine (seq : Nat) : List Effect :=
  [.print "[interop] CreateProcess: empty command line\n" [],
    interopSendCreateProcessResponse seq 2 0 0]

/-- The loop over the environment, from the entry `i` at `p` on. -/
def readEnvironment (bufferSize : Nat) : (count i p : Nat) → Access (List Effect)
  | 0, _, _ => pure []
  | count + 1, i, p =>
    if p < bufferSize then do
      let entry ← bounded (cpMin + p) (bufferSize - p)
      if bufferSize - p ≤ entry.length then
        pure [.print "[interop] env entry %u: unterminated string, skipping\n" [.num i]]
      else do
        let rest ← readEnvironment bufferSize count (i + 1) (p + (entry.length + 1))
        pure (if entry ≠ [] then .putenv entry :: rest else rest)
    else pure []

/-- The entries of the environment; the test of its place wraps around in 32 bits as well. -/
def environmentEntries (n : Nat) : Access (List Effect) := do
  let environmentOffset ← field 28 4
  let environmentCount ← field 32 2
  if 0 < environmentCount ∧ (environmentOffset + 1) % 2 ^ 32 ≤ n - cpMin then
    readEnvironment (n - cpMin) environmentCount 0 environmentOffset
  else pure []

def changeDirectory (env : InteropEnvironment) (cwd : Option Bytes) : List Effect :=
  match cwd.filter (· ≠ []) with
  | none => []
  | some dir => .chdir dir :: ((env.chdir dir).map fun errno =>
      Effect.print "[interop] chdir '%s': %s\n" [.str dir, .strerror errno]).toList

def execShell (env : InteropEnvironment) (cmdline : Bytes) : List Effect :=
  .execlp cmdline :: if env.execlp then [] else [.perror "[interop] execlp", .exit 127]

/-- From the first `printf` with the command line on. -/
def launch (env : InteropEnvironment) (n seq : Nat) (cmdline : Bytes) : Access (List Effect) := do
  let currentWorkingDirectoryOffset ← field 16 4
  let cwd ← bufferString n cpMin currentWorkingDirectoryOffset
  let environmentCount ← field 32 2
  let started := [.print "[interop] CreateProcess: cmdline='%s' cwd='%s' env_count=%u\n"
    [.str cmdline, .str (cwd.getD (ascii "(none)")), .num environmentCount], .fork]
  match env.fork with
  | .failed errno =>
    pure (started ++
      [.perror "[interop] fork", interopSendCreateProcessResponse seq errno 0 0])
  | .child pid => do
    let entries ← environmentEntries n
    pure (started ++ entries ++ changeDirectory env cwd ++ execShell env cmdline ++
      [.print "[interop] CreateProcess: child pid=%d\n" [.num pid],
        interopSendCreateProcessResponse seq 0 pid 0])

def createProcess (env : InteropEnvironment) (n : Nat) : Access (List Effect) := do
  let seq ← field 8 4
  if n < cpMin then
    pure [.print "[interop] CreateProcess: message too small (%zu < %zu)\n" [.num n, .num cpMin],
      interopSendCreateProcessResponse seq 22 0 0]
  else do
    let commandLineOffset ← field 20 4
    let commandLineCount ← field 24 2
    if CommandLineSelected (n - cpMin) commandLineOffset commandLineCount then do
      -- `buffer_size - (size_t)(cmdline - buffer)`
      let cmdMax := (n - cpMin + 2 ^ 64 - commandLineOffset) % 2 ^ 64
      let cmdline ← bounded (cpMin + commandLineOffset) cmdMax
      if cmdMax ≤ cmdline.length then
        pure (.print "[interop] CreateProcess: unterminated command line\n" [] ::
          emptyCommandLine seq)
      else if cmdline = [] then pure (emptyCommandLine seq)
      else launch env n seq cmdline
    else pure (emptyCommandLine seq)

/-! ## The other messages -/

def queryEnvironmentVariable (env : InteropEnvironment) : Access (List Effect) := do
  let varName ← string headerSize
  let value := (env.getenv varName).getD []
  let seq ← field 8 4
  pure (.print "[interop] QueryEnvironmentVariable '%s' -> '%s'\n" [.str varName, .str value] ::
    interopSendText env.malloc LxInitMessageQueryEnvironmentVariable seq value)

def createLoginSession (n : Nat) : Access (List Effect) := do
  let seq ← field 8 4
  if 20 ≤ n then do
    let uid ← field 12 4
    let gid ← field 16 4
    let username ← string 20
    pure [.print "[interop] CreateLoginSession uid=%u gid=%u username='%s' -> false (systemd disabled on FreeBSD)\n"
        [.num uid, .num gid, .str username],
      interopSendResult LxMessageResultBool seq 0]
  else
    pure [.print "[interop] CreateLoginSession -> false (systemd disabled)\n" [],
      interopSendResult LxMessageResultBool seq 0]

/-- A query that is answered with 0 whatever is in the message. -/
def answerZero (text : String) (type : Nat) : Access (List Effect) := do
  let seq ← field 8 4
  pure [.print text [], interopSendResult type seq 0]

def queryVmId (env : InteropEnvironment) : Access (List Effect) := do
  let seq ← field 8 4
  let id := interopGetVmIdString env.files Hvinit.guidPaths
  pure (.print "[interop] QueryVmId -> %s\n" [.str id] ::
    interopSendText env.malloc LxInitMessageQueryVmId seq id)

def unhandledMessage (type : Nat) : Access (List Effect) := do
  let size ← field 4 4
  let seq ← field 8 4
  pure [.print "[interop] unhandled message type=%u (size=%u, seq=%u)\n"
    [.num type, .num size, .num seq]]

/-- `interop_process_message`. -/
def interopProcessMessage (env : InteropEnvironment) (n : Nat) : Access (List Effect) := do
  let type ← field 0 4
  if type = LxInitMessageQueryDrvfsElevated then
    answerZero "[interop] QueryDrvfsElevated -> false\n" LxMessageResultBool
  else if type = LxInitMessageQueryEnvironmentVariable then queryEnvironmentVariable env
  else if type = LxInitMessageQueryFeatureFlags then
    answerZero "[interop] QueryFeatureFlags -> 0\n" LxMessageResultInt32
  else if type = LxInitMessageCreateLoginSession then createLoginSession n
  else if type = LxInitMessageQueryNetworkingMode then
    answerZero "[interop] QueryNetworkingMode -> NAT(0)\n" LxMessageResultUint8
  else if type = LxInitMessageQueryVmId then queryVmId env
  else if type = LxInitMessageCreateProcess then createProcess env n
  else unhandledMessage type

/-! ## Messages that are enough -/

section SelfContained

variable (msg : Bytes)

def Selects : Prop :=
  cpMin ≤ msg.length ∧ CommandLineSelected (msg.length - cpMin) (leAt 20 4 msg) (leAt 24 2 msg)

/-- The server gets as far as the working directory: the command line is inside the message,
terminated there and not empty. -/
def Launches : Prop :=
  Selects msg ∧ Terminated msg (cpMin + leAt 20 4 msg) ∧ cString msg (cpMin + leAt 20 4 msg) ≠ []

/-- The strings that are read up to their NUL have one, and the sum that places the command line does
not place it behind the message. -/
structure SelfContained : Prop where
  variable_name : messageType msg = LxInitMessageQueryEnvironmentVariable → Terminated msg headerSize
  user_name : messageType msg = LxInitMessageCreateLoginSession → 20 ≤ msg.length → Terminated msg 20
  command_line : messageType msg = LxInitMessageCreateProcess → Selects msg →
    cpMin + leAt 20 4 msg ≤ msg.length
  working_directory : messageType msg = LxInitMessageCreateProcess → Launches msg →
    leAt 16 4 msg < msg.length - cpMin → Terminated msg (cpMin + leAt 16 4 msg)

end SelfContained

/-! ## What stays inside the message -/

section Inside

variable {env : InteropEnvironment} {msg rest : Bytes}

theorem inside_answerZero (hlen : 12 ≤ msg.length) (text : String) (type : Nat) :
    (answerZero text type).Inside (msg ++ rest) msg.length :=
  (inside_field_bind (by omega)).mpr (inside_pure _)

theorem inside_queryVmId (hlen : 12 ≤ msg.length) :
    (queryVmId env).Inside (msg ++ rest) msg.length :=
  (inside_field_bind (by omega)).mpr (inside_pure _)

theorem inside_unhandledMessage (hlen : 12 ≤ msg.length) (type : Nat) :
    (unhandledMessage type).Inside (msg ++ rest) msg.length := by
  refine (inside_field_bind (by omega)).mpr ?_
  exact (inside_field_bind (by omega)).mpr (inside_pure _)

theorem inside_queryEnvironmentVariable (hlen : 12 ≤ msg.length) :
    (queryEnvironmentVariable env).Inside (msg ++ rest) msg.length ↔ Terminated msg headerSize := by
  unfold queryEnvironmentVariable
  rw [inside_string_bind, inside_field_bind (by omega)]
  exact and_iff_left (inside_pure _)

theorem inside_createLoginSession (hlen : 12 ≤ msg.length) :
    (createLoginSession msg.length).Inside (msg ++ rest) msg.length ↔
      (20 ≤ msg.length → Terminated msg 20) := by
  unfold createLoginSession
  rw [inside_field_bind (by omega)]
  by_cases h : 20 ≤ msg.length
  · rw [if_pos h, inside_field_bind (by omega), inside_field_bind (by omega), inside_string_bind,
      and_iff_left (inside_pure _)]
    exact ⟨fun hterminated _ => hterminated, fun hall => hall h⟩
  · rw [if_neg h]
    exact iff_of_true (inside_pure _) fun hle => absurd hle h

theorem inside_readEnvironment (count i p : Nat) :
    (readEnvironment (msg.length - cpMin) count i p).Inside (msg ++ rest) msg.length := by
  induction count generalizing i p with
  | zero => exact inside_pure _
  | succ count ih =>
    unfold readEnvironment
    by_cases hp : p < msg.length - cpMin
    · have hend : cpMin + p + (msg.length - cpMin - p) ≤ msg.length := by omega
      rw [if_pos hp, inside_bounded_bind hend]
      split
      · exact inside_pure _
      · exact inside_bind.mpr ⟨ih _ _, fun _ _ => inside_pure _⟩
    · rw [if_neg hp]
      exact inside_pure _

theorem inside_environmentEntries (hlen : cpMin ≤ msg.length) :
    (environmentEntries msg.length).Inside (msg ++ rest) msg.length := by
  have hlen' : 64 ≤ msg.length := hlen
  unfold environmentEntries
  rw [inside_field_bind (by omega), inside_field_bind (by omega)]
  split
  · exact inside_readEnvironment _ _ _
  · exact inside_pure _

theorem inside_launch (hlen : cpMin ≤ msg.length) (seq : Nat) (cmdline : Bytes) :
    (launch env msg.length seq cmdline).Inside (msg ++ rest) msg.length ↔
      (leAt 16 4 msg < msg.length - cpMin → Terminated msg (cpMin + leAt 16 4 msg)) := by
  have hlen' : 64 ≤ msg.length := hlen
  unfold launch
  rw [inside_field_bind (by omega), inside_bufferString_bind, inside_field_bind (by omega)]
  refine and_iff_left ?_
  split
  · exact inside_pure _
  · exact inside_bind.mpr ⟨inside_environmentEntries hlen, fun _ _ => inside_pure _⟩

theorem cmdMax_eq {bufferSize offset : Nat} (h : offset ≤ bufferSize) (hb : bufferSize < 2 ^ 64) :
    (bufferSize + 2 ^ 64 - offset) % 2 ^ 64 = bufferSize - offset := by
  omega

theorem cmdMax_pos {bufferSize offset : Nat} (h : bufferSize < offset) (ho : offset < 2 ^ 32) :
    0 < (bufferSize + 2 ^ 64 - offset) % 2 ^ 64 := by
  omega

theorem inside_createProcess (hlen : 12 ≤ msg.length) (hmax : msg.length < 2 ^ 32) :
    (createProcess env msg.length).Inside (msg ++ rest) msg.length ↔
      (Selects msg → cpMin + leAt 20 4 msg ≤ msg.length) ∧
        (Launches msg → leAt 16 4 msg < msg.length - cpMin →
          Terminated msg (cpMin + leAt 16 4 msg)) := by
  unfold createProcess Launches
  rw [inside_field_bind (by omega)]
  by_cases hsmall : msg.length < cpMin
  · have hselects : ¬ Selects msg := fun h => absurd h.1 (Nat.not_le.mpr hsmall)
    rw [if_pos hsmall]
    exact iff_of_true (inside_pure _) ⟨fun h => absurd h hselects, fun h => absurd h.1 hselects⟩
  have hcp : 64 ≤ msg.length := Nat.le_of_not_lt hsmall
  rw [if_neg hsmall, inside_field_bind (by omega), inside_field_bind (by omega)]
  by_cases hselected :
      CommandLineSelected (msg.length - cpMin) (leAt 20 4 msg) (leAt 24 2 msg)
  swap
  · have hselects : ¬ Selects msg := fun h => hselected h.2
    rw [if_neg hselected]
    exact iff_of_true (inside_pure _) ⟨fun h => absurd h hselects, fun h => absurd h.1 hselects⟩
  have hselects : Selects msg := ⟨hcp, hselected⟩
  have hoffset : leAt 20 4 msg < 2 ^ 32 := leAt_lt 20 4 msg
  rw [if_pos hselected]
  by_cases hout : msg.length - cpMin < leAt 20 4 msg
  · -- the sum has wrapped around: the first look at the command line is outside
    have hbehind : msg.length ≤ cpMin + leAt 20 4 msg := by omega
    refine iff_of_false (fun h => ?_) fun h => ?_
    · exact not_inside_bounded hbehind (cmdMax_pos hout hoffset) (inside_bind.mp h).1
    · have := h.1 hselects
      omega
  have hin : leAt 20 4 msg ≤ msg.length - cpMin := Nat.le_of_not_lt hout
  have hend : cpMin + leAt 20 4 msg ≤ msg.length := by
    unfold cpMin at hin ⊢
    omega
  have hdrop : (msg.drop (cpMin + leAt 20 4 msg)).length = msg.length - cpMin - leAt 20 4 msg := by
    rw [List.length_drop]
    omega
  have hcut : cut msg (cpMin + leAt 20 4 msg) (msg.length - cpMin - leAt 20 4 msg) =
      cString msg (cpMin + leAt 20 4 msg) := by
    rw [cut, ← hdrop, List.take_length, cString]
  have hterminated : Terminated msg (cpMin + leAt 20 4 msg) ↔
      ¬ msg.length - cpMin - leAt 20 4 msg ≤ (cString msg (cpMin + leAt 20 4 msg)).length := by
    rw [Nat.not_le, ← hdrop]
    exact (length_takeWhile_lt_iff _).symm
  rw [cmdMax_eq hin (by omega), inside_bounded_bind (by omega), hcut, hterminated]
  simp only [hselects, hend, true_and, forall_const]
  by_cases hle : msg.length - cpMin - leAt 20 4 msg ≤ (cString msg (cpMin + leAt 20 4 msg)).length
  · rw [if_pos hle]
    exact iff_of_true (inside_pure _) fun h => absurd hle h.1
  rw [if_neg hle]
  by_cases hempty : cString msg (cpMin + leAt 20 4 msg) = []
  · rw [if_pos hempty]
    exact iff_of_true (inside_pure _) fun h => absurd hempty h.2
  · rw [if_neg hempty, inside_launch hcp]
    exact ⟨fun hcwd _ => hcwd, fun hall => hall ⟨hle, hempty⟩⟩

theorem selfContained_iff : SelfContained msg ↔
    (messageType msg = LxInitMessageQueryEnvironmentVariable → Terminated msg headerSize) ∧
      (messageType msg = LxInitMessageCreateLoginSession → 20 ≤ msg.length → Terminated msg 20) ∧
      (messageType msg = LxInitMessageCreateProcess →
        (Selects msg → cpMin + leAt 20 4 msg ≤ msg.length) ∧
          (Launches msg → leAt 16 4 msg < msg.length - cpMin →
            Terminated msg (cpMin + leAt 16 4 msg))) := by
  constructor
  · intro h
    exact ⟨h.variable_name, h.user_name, fun ht => ⟨h.command_line ht, h.working_directory ht⟩⟩
  · rintro ⟨hname, huser, hprocess⟩
    exact ⟨hname, huser, fun ht => (hprocess ht).1, fun ht => (hprocess ht).2⟩

theorem selfContained_of_type (hname : messageType msg ≠ LxInitMessageQueryEnvironmentVariable)
    (huser : messageType msg ≠ LxInitMessageCreateLoginSession)
    (hprocess : messageType msg ≠ LxInitMessageCreateProcess) : SelfContained msg where
  variable_name h := absurd h hname
  user_name h := absurd h huser
  command_line h := absurd h hprocess
  working_directory h := absurd h hprocess

theorem inside_interopProcessMessage (hlen : 12 ≤ msg.length) (hmax : msg.length < 2 ^ 32) :
    (interopProcessMessage env msg.length).Inside (msg ++ rest) msg.length ↔ SelfContained msg := by
  unfold interopProcessMessage
  rw [inside_field_bind (by omega)]
  have htype : leAt 0 4 msg = messageType msg := rfl
  rw [htype]
  have hother {x : Access (List Effect)} {type : Nat} (h : messageType msg = type)
      (hx : x.Inside (msg ++ rest) msg.length)
      (hname : type ≠ LxInitMessageQueryEnvironmentVariable)
      (huser : type ≠ LxInitMessageCreateLoginSession)
      (hprocess : type ≠ LxInitMessageCreateProcess) :
      x.Inside (msg ++ rest) msg.length ↔ SelfContained msg :=
    iff_of_true hx (selfContained_of_type (h ▸ hname) (h ▸ huser) (h ▸ hprocess))
  split
  next h => exact hother h (inside_answerZero hlen _ _) (by decide) (by decide) (by decide)
  split
  next h =>
    rw [inside_queryEnvironmentVariable hlen, selfContained_iff, h]
    simp [LxInitMessageQueryEnvironmentVariable, LxInitMessageCreateLoginSession,
      LxInitMessageCreateProcess]
  split
  next h => exact hother h (inside_answerZero hlen _ _) (by decide) (by decide) (by decide)
  split
  next h =>
    rw [inside_createLoginSession hlen, selfContained_iff, h]
    simp [LxInitMessageQueryEnvironmentVariable, LxInitMessageCreateLoginSession,
      LxInitMessageCreateProcess]
  split
  next h => exact hother h (inside_answerZero hlen _ _) (by decide) (by decide) (by decide)
  split
  next h => exact hother h (inside_queryVmId hlen) (by decide) (by decide) (by decide)
  split
  next h =>
    rw [inside_createProcess hlen hmax, selfContained_iff, h]
    simp [LxInitMessageQueryEnvironmentVariable, LxInitMessageCreateLoginSession,
      LxInitMessageCreateProcess]
  next hname _ huser _ _ hprocess =>
    exact iff_of_true (inside_unhandledMessage hlen _) (selfContained_of_type hname huser hprocess)

/-! ## Independence -/

/-- In a buffer that starts with the message, the server reads no byte behind it and does the same
whatever is there. -/
def DependsOnMessage (env : InteropEnvironment) (msg : Bytes) : Prop :=
  (∀ rest, ∀ j ∈ ((interopProcessMessage env msg.length).run (msg ++ rest)).2, j < msg.length) ∧
    ∀ rest rest', ((interopProcessMessage env msg.length).run (msg ++ rest)).1 =
      ((interopProcessMessage env msg.length).run (msg ++ rest')).1

/-- **What the server does depends on nothing but the message exactly if the message is
self-contained**, whatever the environment is. -/
theorem depends_on_message_iff (env : InteropEnvironment) (msg : Bytes)
    (hwf : messageFormat.WellFormed msg) : DependsOnMessage env msg ↔ SelfContained msg := by
  have hlen : 12 ≤ msg.length := hwf.1
  have hmax : msg.length < 2 ^ 32 := by
    have hsize : messageSize msg = msg.length := hwf.2
    rw [← hsize]
    exact leAt_lt 4 4 msg
  constructor
  · intro h
    exact (inside_interopProcessMessage hlen hmax).mp (h.1 [])
  · intro h
    have hinside (rest : Bytes) :
        (interopProcessMessage env msg.length).Inside (msg ++ rest) msg.length :=
      (inside_interopProcessMessage hlen hmax).mpr h
    refine ⟨hinside, fun rest rest' => ?_⟩
    have htake : (msg ++ rest).take msg.length = (msg ++ rest').take msg.length := by
      rw [List.take_left, List.take_left]
    rw [(hinside rest').run_eq htake]

def bareEnvironment : InteropEnvironment where
  getenv _ := none
  files _ := .missing
  malloc := true
  fork := .failed 35
  chdir _ := some 2
  execlp := false

/-- A query for `A`, with the NUL inside the message. -/
theorem depends_on_message_query :
    DependsOnMessage bareEnvironment
      (header LxInitMessageQueryEnvironmentVariable 14 1 ++ (ascii "A" ++ [0])) :=
  (depends_on_message_iff bareEnvironment _ ⟨by decide, by decide⟩).mpr
    { variable_name := fun _ => by decide
      user_name := fun h => absurd h (by decide)
      command_line := fun h => absurd h (by decide)
      working_directory := fun h => absurd h (by decide) }

/-- A query for `A` without a NUL: the first byte of the next message belongs to the name. -/
theorem query_runs_into_next_message :
    ¬ ∀ (env : InteropEnvironment) (msg : Bytes), messageFormat.WellFormed msg →
      DependsOnMessage env msg := by
  intro h
  have hsame := (h bareEnvironment
    (header LxInitMessageQueryEnvironmentVariable 13 1 ++ ascii "A") ⟨by decide, by decide⟩).2
      [0] [66, 0]
  exact absurd hsame (by decide)

end Inside

end WslFreeBSD.Interop
