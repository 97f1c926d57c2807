import Mathlib.Data.List.TakeWhile
import WslFreeBSD.Lib.Lines

/-!
# Running a command

`UtilExecCommandLine` of `util.cpp` runs a command with `popen` and reads its output with `fgets`. The
loop that reads and the exit of the function share the variable `Result`: it is -1 when the loop starts
and the loop does not change it, so with a string for the output the loop is left behind its first string
(`readLoop_captured`). What is returned is made from the status of the command, so this is not noticed.

The whole output is captured exactly if the first string is all of it (`execCommandLine_complete_iff`).
-/

namespace WslFreeBSD.Reference

open Lib

/-- How a command ends. -/
inductive ChildStatus where
  | exited (code : UInt8)
  | signaled (signal : Nat)
  deriving DecidableEq, Repr

/-- A command that was started: what it writes, and what `pclose` reports when the pipe is closed behind
the first `consumed` bytes. A command that still writes can be killed by a signal then. -/
structure CommandRun where
  output : Bytes
  status : (consumed : Nat) → Option ChildStatus

/-- `UtilProcessChildExitCode`. -/
def processChildExitCode (status : ChildStatus) (expectedStatus : Int) : Int :=
  match status with
  | .exited code => if code.toNat = expectedStatus then 0 else -1
  | .signaled _ => -1

/-- The loop over `fgets`, with `result` for the value of `Result`: how many bytes are read, and what is
in `Output` behind it. Without an `Output` the strings are written to `stdout`. -/
def readLoop (result : Int) : List Bytes → Option Bytes → Nat × Option Bytes
  | [], output => (0, output)
  | buffer :: rest, some output =>
    let output := output ++ cString buffer 0
    if result < 0 then (buffer.length, some output)
    else
      let (consumed, output) := readLoop result rest (some output)
      (buffer.length + consumed, output)
  | buffer :: rest, none =>
    let (consumed, output) := readLoop result rest none
    (buffer.length + consumed, output)

/-- What `UtilExecCommandLine` returns and leaves in `Output`, for what `popen` makes of the command line.
An error of `fgets` ends the loop like the end of the output, the result is overwritten in any case. -/
def execCommandLine (pipe : Option CommandRun) (output : Option Bytes) (expectedStatus : Int) :
    Int × Option Bytes :=
  match pipe with
  | none => (-1, output)
  | some run =>
    let (consumed, output) := readLoop (-1) (fgetsAll 1024 run.output) output
    match run.status consumed with
    | none => (-1, output)
    | some status => (processChildExitCode status expectedStatus, output)

/-! ## With an output -/

/-- While `Result` is negative the loop ends behind the first string. -/
theorem readLoop_captured {result : Int} (h : result < 0) (pieces : List Bytes) (output : Bytes) :
    readLoop result pieces (some output) =
      ((pieces.headD []).length, some (output ++ cString (pieces.headD []) 0)) := by
  cases pieces with
  | nil => simp [readLoop, cString]
  | cons buffer rest =>
    rw [readLoop]
    exact if_pos h

/-- The first string that `fgets` reads. -/
def firstRead (text : Bytes) : Bytes := (fgetsAll 1024 text).headD []

theorem execCommandLine_captured (run : CommandRun) (output : Bytes) (expectedStatus : Int) :
    (execCommandLine (some run) (some output) expectedStatus).2 =
      some (output ++ cString (firstRead run.output) 0) := by
  rw [execCommandLine, readLoop_captured (by decide)]
  dsimp only
  split <;> rfl

theorem firstRead_subset (text : Bytes) : firstRead text ⊆ text := by
  intro b hb
  have hflat : (fgetsAll 1024 text).flatten = text := flatten_fgetsFrom _ _ text
  rw [firstRead] at hb
  cases hpieces : fgetsAll 1024 text with
  | nil =>
    rw [hpieces] at hb
    cases hb
  | cons buffer rest =>
    rw [hpieces] at hb hflat
    rw [← hflat]
    exact List.mem_append_left _ hb

theorem firstRead_eq_iff (text : Bytes) : firstRead text = text ↔ text.length ≤ 1023 ∧ 10 ∉ text.dropLast :=
  headD_fgetsFrom_eq_iff (by decide) text

theorem firstRead_line {line : Bytes} (hline : 10 ∉ line) (hlength : line.length < 1023) (text : Bytes) :
    firstRead (line ++ 10 :: text) = line ++ [10] := headD_fgetsFrom_line hline hlength text

theorem cString_of_not_mem {text : Bytes} (h : 0 ∉ text) : cString text 0 = text := by
  rw [cString, List.drop_zero, List.takeWhile_eq_self_iff]
  intro b hb
  exact decide_eq_true fun hzero => h (hzero ▸ hb)

/-- A command that exits as expected has its whole output in `Output`, and 0 is returned, exactly if the
output has at most 1023 bytes and a line break at most at its end. -/
theorem execCommandLine_complete_iff {run : CommandRun} {code : UInt8} (hnul : 0 ∉ run.output)
    (hexit : run.status run.output.length = some (.exited code)) (output : Bytes) :
    execCommandLine (some run) (some output) code.toNat = (0, some (output ++ run.output)) ↔
      run.output.length ≤ 1023 ∧ 10 ∉ run.output.dropLast := by
  have hcaptured := execCommandLine_captured run output code.toNat
  rw [cString_of_not_mem fun hmem => hnul (firstRead_subset _ hmem)] at hcaptured
  rw [← firstRead_eq_iff]
  constructor
  · intro h
    rw [h] at hcaptured
    exact (List.append_cancel_left (Option.some.inj hcaptured)).symm
  · intro hfirst
    rw [hfirst] at hcaptured
    refine Prod.ext ?_ hcaptured
    have hread : (fgetsAll 1024 run.output).headD [] = run.output := hfirst
    rw [execCommandLine, readLoop_captured (by decide), hread]
    dsimp only
    rw [hexit]
    exact if_pos rfl

/-! ## Without an output -/

theorem readLoop_stdout (result : Int) (pieces : List Bytes) :
    readLoop result pieces none = (pieces.flatten.length, none) := by
  induction pieces with
  | nil => rfl
  | cons buffer rest ih =>
    rw [readLoop, ih, List.flatten_cons, List.length_append]

/-- Without an `Output` all is read, and the result is made from the status behind it. -/
theorem execCommandLine_stdout (run : CommandRun) (expectedStatus : Int) :
    execCommandLine (some run) none expectedStatus =
      ((run.status run.output.length).elim (-1) (processChildExitCode · expectedStatus), none) := by
  have hflat : (fgetsAll 1024 run.output).flatten = run.output := flatten_fgetsFrom _ _ run.output
  rw [execCommandLine, readLoop_stdout, hflat]
  dsimp only
  cases run.status run.output.length <;> rfl

end WslFreeBSD.Reference
