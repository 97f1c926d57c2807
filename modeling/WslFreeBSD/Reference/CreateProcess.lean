import WslFreeBSD.Lib.CText

/-!
# Creating a process for the service

`ProcessCreateProcessMessage` sends two results: the port of a socket, and the result of the execution. The
child that accepts a connection and executes the command writes the number of its error to a pipe; if the
execution succeeds, the pipe is closed without data. A guard sends the second result on every way out.

The parent then tests the number where the count of bytes is meant, so that only two errors come through
(`createProcess_results_iff`).
-/

namespace WslFreeBSD.Reference.CreateProcess

open Lib

/-! ## The message -/

/-- `sizeof(CREATE_PROCESS_MESSAGE)`: the header, `PathIndex` and `CommandLineIndex`. -/
def messageSize : Nat := 20

def pathIndex (message : Bytes) : Nat := leAt 12 4 message

def commandLineIndex (message : Bytes) : Nat := leAt 16 4 message

/-- `FromSpan`: the rest of the span from an offset on, if a string ends in it. -/
def fromSpan (span : Bytes) (offset : Nat) : Option Bytes :=
  if span.length < offset then none
  else if 0 ∈ span.drop offset then some (span.drop offset)
  else none

def cString (memory : Bytes) : Bytes := memory.takeWhile (· ≠ 0)

/-- The loop over the arguments. There is no result if it goes on behind the message. -/
def argumentArray : (fuel : Nat) → (Arguments : Bytes) → Option (List Bytes)
  | 0, _ => none
  | fuel + 1, Arguments =>
    if Arguments = [] then none
    else if cString Arguments = [] then some []
    else (argumentArray fuel (Arguments.drop ((cString Arguments).length + 1))).map (cString Arguments :: ·)

/-- The path and the arguments of a message that is laid out for `FromSpan`: strings with a NUL behind each of
them, and an empty one behind the last argument. -/
structure WellFormed (message path : Bytes) (arguments : List Bytes) : Prop where
  size : messageSize ≤ message.length
  path_plain : 0 ∉ path
  path_at : path ++ [0] <+: message.drop (pathIndex message)
  arguments_plain : ∀ argument ∈ arguments, argument ≠ [] ∧ 0 ∉ argument
  arguments_at : arguments.flatMap (· ++ [0]) ++ [0] <+: message.drop (commandLineIndex message)

/-! ## System calls -/

/-- An error number of Linux. -/
structure Errno where
  number : Nat
  pos : 0 < number
  lt : number < 4096
  deriving DecidableEq, Repr

theorem eintr_pos : 0 < 4 := by decide

theorem eintr_lt : 4 < 4096 := by decide

theorem einval_pos : 0 < 22 := by decide

theorem einval_lt : 22 < 4096 := by decide

def EINTR : Errno := ⟨4, eintr_pos, eintr_lt⟩

def EINVAL : Errno := ⟨22, einval_pos, einval_lt⟩

/-- How the system calls end, those of the child first. -/
structure Calls where
  /-- `UtilAcceptVsock`, with its timeout. -/
  accept : Except Errno Unit
  dup2Stdin : Except Errno Unit
  dup2Stdout : Except Errno Unit
  /-- The error of `execv`, which does not return otherwise. -/
  execv : Bytes → List Bytes → Option Errno
  write : Except Errno Unit
  /-- `UtilListenVsockAnyPort`, with `svm_port`. -/
  listen : Except Errno UInt32
  pipe : Except Errno Unit
  fork : Except Errno Unit
  read : Except Errno Unit

variable (calls : Calls)

/-- The function of the child up to its handler; without an error the process has been replaced. -/
def child (path : Bytes) (arguments : List Bytes) : Except Errno Unit := do
  calls.accept
  calls.dup2Stdin
  calls.dup2Stdout
  match calls.execv path arguments with
  | none => pure ()
  | some error => throw error

def controlPipe (path : Bytes) (arguments : List Bytes) : Bytes :=
  match child calls path arguments, calls.write with
  | .error error, .ok _ => leBytes 4 error.number
  | _, _ => []

/-- `execResult` after `read`. -/
def readExecResult (data : Bytes) : Int :=
  let execResult := toInt32 (leValue (data.take 4))
  if (data.take 4).length = 0 then 0
  else if execResult = 4 then execResult.natAbs
  else EINVAL.number

/-- The part behind the guard: `execResult` at its end, or what is thrown. There is no result if the arguments
go on behind the message. -/
def execute (message : Bytes) : Option (Except Errno Int) :=
  match fromSpan message (pathIndex message), fromSpan message (commandLineIndex message) with
  | some path, some commandLine =>
    (argumentArray commandLine.length commandLine).map fun arguments => do
      calls.pipe
      calls.fork
      calls.read
      pure (readExecResult (controlPipe calls (cString path) arguments))
  | _, _ => some (.error EINVAL)

/-- `ProcessCreateProcessMessage`: the results that are sent, and what is returned or thrown. -/
def processCreateProcessMessage (message : Bytes) : Option (List Int × Except Errno Int) :=
  if message.length < messageSize then some ([], .ok (-1))
  else
    match calls.listen with
    | .error error => some ([], .error error)
    | .ok port =>
      (execute calls message).map fun outcome =>
        match outcome with
        | .ok execResult => ([toInt32 port.toNat, execResult], .ok 0)
        | .error error => ([toInt32 port.toNat, -1], .error error)

/-! ## What is promised -/

def failure (path : Bytes) (arguments : List Bytes) : Option Errno :=
  [calls.accept, calls.dup2Stdin, calls.dup2Stdout].findSome? (fun call =>
    match call with
    | .ok _ => none
    | .error error => some error) <|> calls.execv path arguments

def expectedResult (path : Bytes) (arguments : List Bytes) : Int :=
  match failure calls path arguments with
  | none => 0
  | some error => error.number

/-- The calls around the child do not fail. -/
structure Surrounded (port : UInt32) : Prop where
  listen : calls.listen = .ok port
  pipe : calls.pipe = .ok ()
  fork : calls.fork = .ok ()
  write : calls.write = .ok ()
  read : calls.read = .ok ()

/-! ## Reading the message -/

theorem cString_append {text : Bytes} (h : 0 ∉ text) (rest : Bytes) : cString (text ++ 0 :: rest) = text := by
  have hplain : ∀ c ∈ text, decide (c ≠ 0) = true := fun c hc =>
    decide_eq_true (ne_of_mem_of_not_mem hc h)
  rw [cString, List.takeWhile_append_of_pos hplain, List.takeWhile_cons_of_neg (by simp), List.append_nil]

theorem argumentArray_of_strings {arguments : List Bytes}
    (h : ∀ argument ∈ arguments, argument ≠ [] ∧ 0 ∉ argument) (rest : Bytes) {fuel : Nat}
    (hfuel : arguments.length < fuel) :
    argumentArray fuel (arguments.flatMap (· ++ [0]) ++ 0 :: rest) = some arguments := by
  induction arguments generalizing fuel with
  | nil =>
    cases fuel with
    | zero => exact absurd hfuel (Nat.not_lt_zero _)
    | succ fuel => rfl
  | cons argument arguments ih =>
    obtain ⟨hne, hplain⟩ := h argument List.mem_cons_self
    cases fuel with
    | zero => exact absurd hfuel (Nat.not_lt_zero _)
    | succ fuel =>
      have hmemory : (argument :: arguments).flatMap (· ++ [0]) ++ 0 :: rest =
          argument ++ 0 :: (arguments.flatMap (· ++ [0]) ++ 0 :: rest) := by simp
      have hlong : argument ++ 0 :: (arguments.flatMap (· ++ [0]) ++ 0 :: rest) ≠ [] := by simp
      have hrest : (argument ++ 0 :: (arguments.flatMap (· ++ [0]) ++ 0 :: rest)).drop (argument.length + 1) =
          arguments.flatMap (· ++ [0]) ++ 0 :: rest := by
        rw [List.append_cons, List.drop_left' (by simp)]
      rw [hmemory, argumentArray, if_neg hlong, cString_append hplain, if_neg hne, hrest,
        ih (fun other hother => h other (List.mem_cons_of_mem _ hother)) (Nat.lt_of_succ_lt_succ hfuel)]
      rfl

theorem fromSpan_of_prefix {span text : Bytes} {offset : Nat} (h : text ++ [0] <+: span.drop offset) :
    ∃ rest, fromSpan span offset = some (text ++ 0 :: rest) ∧ span.drop offset = text ++ 0 :: rest := by
  obtain ⟨rest, hrest⟩ := h
  rw [List.append_assoc, List.singleton_append] at hrest
  have hlt : offset < span.length := by
    refine Nat.lt_of_not_le fun hle => ?_
    rw [List.drop_of_length_le hle] at hrest
    simp at hrest
  refine ⟨rest, ?_, hrest.symm⟩
  rw [fromSpan, if_neg (by omega), ← hrest, if_pos (by simp)]

theorem length_le_flatMap (arguments : List Bytes) :
    arguments.length ≤ (arguments.flatMap (· ++ [0])).length := by
  induction arguments with
  | nil => exact Nat.le_refl _
  | cons argument arguments ih =>
    rw [List.flatMap_cons, List.length_cons, List.length_append, List.length_append, List.length_singleton]
    omega

/-! ## The results -/

section Results

variable {calls} {message path : Bytes} {arguments : List Bytes} {port : UInt32}

theorem child_eq (path : Bytes) (arguments : List Bytes) :
    child calls path arguments =
      match failure calls path arguments with
      | none => .ok ()
      | some error => .error error := by
  unfold child failure
  cases calls.accept with
  | error error => rfl
  | ok _ =>
    cases calls.dup2Stdin with
    | error error => rfl
    | ok _ =>
      cases calls.dup2Stdout with
      | error error => rfl
      | ok _ =>
        cases calls.execv path arguments with
        | none => rfl
        | some error => rfl

/-- The number of the error is compared with the size of an `int`. -/
theorem readExecResult_leBytes (error : Errno) :
    readExecResult (leBytes 4 error.number) = if error = EINTR then 4 else 22 := by
  have hlt := error.lt
  have htake : (leBytes 4 error.number).take 4 = leBytes 4 error.number := List.take_of_length_le (by simp)
  have hvalue : toInt32 (leValue (leBytes 4 error.number)) = error.number := by
    rw [leValue_leBytes (by omega), toInt32]
    omega
  have hsize : ¬ (leBytes 4 error.number).length = 0 := by simp
  have hnumber : (error.number : Int) = 4 ↔ error = EINTR := by
    obtain ⟨number, hpos, hnumber⟩ := error
    rw [EINTR, Errno.mk.injEq]
    exact Nat.cast_inj
  unfold readExecResult
  dsimp only
  rw [htake, hvalue, if_neg hsize]
  by_cases heq : error = EINTR
  · rw [if_pos (hnumber.mpr heq), if_pos heq, hnumber.mpr heq]
    rfl
  · rw [if_neg fun h => heq (hnumber.mp h), if_neg heq]
    rfl

theorem processCreateProcessMessage_eq (hmessage : WellFormed message path arguments)
    (hcalls : Surrounded calls port) :
    processCreateProcessMessage calls message =
      some ([toInt32 port.toNat, readExecResult (controlPipe calls path arguments)], .ok 0) := by
  obtain ⟨rest, hpath, -⟩ := fromSpan_of_prefix hmessage.path_at
  obtain ⟨rest', hcommandLine, -⟩ := fromSpan_of_prefix hmessage.arguments_at
  have hfuel : arguments.length < (arguments.flatMap (· ++ [0]) ++ 0 :: rest').length := by
    have hle := length_le_flatMap arguments
    rw [List.length_append, List.length_cons]
    omega
  have harray := argumentArray_of_strings hmessage.arguments_plain rest' hfuel
  have hexecute : execute calls message = some (.ok (readExecResult (controlPipe calls path arguments))) := by
    unfold execute
    rw [hpath, hcommandLine]
    dsimp only
    rw [harray, Option.map_some, cString_append hmessage.path_plain, hcalls.pipe, hcalls.fork, hcalls.read]
    rfl
  rw [processCreateProcessMessage, if_neg (Nat.not_lt.mpr hmessage.size), hcalls.listen, hexecute]
  rfl

theorem readExecResult_controlPipe (hcalls : Surrounded calls port) (path : Bytes) (arguments : List Bytes) :
    readExecResult (controlPipe calls path arguments) =
      match failure calls path arguments with
      | none => 0
      | some error => if error = EINTR then 4 else 22 := by
  unfold controlPipe
  rw [child_eq, hcalls.write]
  cases failure calls path arguments with
  | none => rfl
  | some error => exact readExecResult_leBytes error

/-- The port and the result of the execution are sent exactly if the child succeeds or fails with `EINTR` or
`EINVAL`. -/
theorem createProcess_results_iff (hmessage : WellFormed message path arguments)
    (hcalls : Surrounded calls port) :
    processCreateProcessMessage calls message =
        some ([toInt32 port.toNat, expectedResult calls path arguments], .ok 0) ↔
      ∀ error, failure calls path arguments = some error → error = EINTR ∨ error = EINVAL := by
  rw [processCreateProcessMessage_eq hmessage hcalls, readExecResult_controlPipe hcalls, expectedResult]
  cases failure calls path arguments with
  | none => exact iff_of_true rfl fun error h => absurd h.symm (Option.some_ne_none error)
  | some error =>
    have hnumber (other : Errno) : error = other ↔ error.number = other.number := by
      obtain ⟨number, hpos, hlt⟩ := error
      obtain ⟨number', hpos', hlt'⟩ := other
      rw [Errno.mk.injEq]
    have hall : (∀ other, some error = some other → other = EINTR ∨ other = EINVAL) ↔
        error = EINTR ∨ error = EINVAL :=
      ⟨fun h => h error rfl, fun h other hother => Option.some.inj hother ▸ h⟩
    rw [hall]
    dsimp only
    by_cases hintr : error = EINTR
    · subst hintr
      exact iff_of_true rfl (Or.inl rfl)
    · rw [if_neg hintr, hnumber EINVAL]
      simp only [hintr, false_or, Option.some.injEq, Prod.mk.injEq, List.cons.injEq, true_and, and_true]
      exact ⟨fun h => by exact_mod_cast h.symm, fun h => by exact_mod_cast h.symm⟩

end Results

/-- The path `/a` and the argument `a`. -/
def shortMessage : Bytes :=
  List.replicate 12 0 ++ leBytes 4 20 ++ leBytes 4 23 ++ (ascii "/a" ++ [0]) ++ (ascii "a" ++ [0, 0])

theorem wellFormed_shortMessage : WellFormed shortMessage (ascii "/a") [ascii "a"] :=
  ⟨by decide, by decide, by decide, by decide, by decide⟩

/-- The only call that fails is `execv`. -/
def failingExec (error : Errno) : Calls where
  accept := .ok ()
  dup2Stdin := .ok ()
  dup2Stdout := .ok ()
  execv := fun _ _ => some error
  write := .ok ()
  listen := .ok 1024
  pipe := .ok ()
  fork := .ok ()
  read := .ok ()

theorem surrounded_failingExec (error : Errno) : Surrounded (failingExec error) 1024 :=
  ⟨rfl, rfl, rfl, rfl, rfl⟩

theorem createProcess_results_einval :
    processCreateProcessMessage (failingExec EINVAL) shortMessage = some ([1024, 22], .ok 0) := by
  have hport : toInt32 (1024 : UInt32).toNat = 1024 := by decide
  have hexpected : expectedResult (failingExec EINVAL) (ascii "/a") [ascii "a"] = 22 := by decide
  have h := (createProcess_results_iff wellFormed_shortMessage (surrounded_failingExec EINVAL)).mpr
    fun _ h => Or.inr (Option.some.inj h).symm
  rwa [hport, hexpected] at h

/-- The command does not exist (`ENOENT`), and the service is told that an argument is invalid. -/
theorem createProcess_results_enoent :
    ¬ ∀ (calls : Calls) (message path : Bytes) (arguments : List Bytes) (port : UInt32),
      WellFormed message path arguments → Surrounded calls port →
        processCreateProcessMessage calls message =
          some ([toInt32 port.toNat, expectedResult calls path arguments], .ok 0) := by
  intro h
  have hcalls := surrounded_failingExec ⟨2, by decide, by decide⟩
  have hsent := h _ _ _ _ _ wellFormed_shortMessage hcalls
  rw [processCreateProcessMessage_eq wellFormed_shortMessage hcalls] at hsent
  revert hsent
  decide

end WslFreeBSD.Reference.CreateProcess
