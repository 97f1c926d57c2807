import WslFreeBSD.Config.WslConf
import WslFreeBSD.Lib.PathText

/-!
# wslpath

`wslpath.c`: the automount root that the program reads from `/etc/wsl.conf` by a parser of its own,
and the conversion of paths in both directions. Strings are byte strings without their NUL; a result
that does not fit into its buffer is an error.
-/

namespace WslFreeBSD.Paths

open Lib Config

/-- `PATH_MAX` of FreeBSD. -/
def pathMax : Nat := 1024

/-! ## The automount root -/

/-- The buffer and the flag of `read_automount_root`. -/
structure RootState where
  buf : Bytes
  inAutomount : Bool
  deriving DecidableEq, Repr

/-- A text up to a quote, if it starts and ends with one. -/
def unquote (value : Bytes) : Bytes :=
  if value.head? = some 34 ∧ 34 ∈ value.tail then value.tail.takeWhile (· ≠ 34) else value

/-- The loop that strips a key at its end, which leaves carriage returns. -/
def stripKey (key : Bytes) : Bytes := (key.dropWhile isBlank).rdropWhile isBlank

/-- One pass of the loop of `read_automount_root`. A line and a value are stripped as by
`wsl_conf_strip`. -/
def readRootLine (bufSize : Nat) (st : RootState) (line : Bytes) : RootState :=
  let p := wslConfStrip (cString line 0)
  if p = [] ∨ p.head? = some 35 ∨ p.head? = some 59 then st
  else if p.head? = some 91 then
    if 93 ∈ p then
      { st with inAutomount := eqIgnoringCase (p.tail.takeWhile (· ≠ 93)) (ascii "automount") }
    else st
  else if ¬ st.inAutomount then st
  else if 61 ∉ p then st
  else
    let key := stripKey (p.takeWhile (· ≠ 61))
    let value := unquote (wslConfStrip (p.dropWhile (· ≠ 61)).tail)
    if eqIgnoringCase key (ascii "root") ∧ value ≠ [] then { st with buf := value.take (bufSize - 1) }
    else st

/-- `read_automount_root`, for a file that exists or does not. -/
def readAutomountRoot (bufSize : Nat) (file : Option Bytes) : Bytes :=
  if bufSize < 5 then []
  else
    match file with
    | none => ascii "/mnt"
    | some text =>
      withoutTrailingSlash
        ((fgetsAll 512 text).foldl (readRootLine bufSize) ⟨ascii "/mnt", false⟩).buf

/-! ## Conversions -/

/-- Why a conversion fails. -/
inductive Errno where
  | nameTooLong
  /-- the error of `getcwd` -/
  | getcwd
  deriving DecidableEq, Repr

/-- `replace_sep`. -/
def replaceSep (s : Bytes) (old new : UInt8) : Bytes := s.map fun c => if c = old then new else c

/-- `snprintf` with the check of its result. -/
def printInto (size : Nat) (text : Bytes) : Except Errno Bytes :=
  if size ≤ text.length then .error .nameTooLong else .ok text

/-- The absolute path of the input of `to_windows`. -/
def absolutePath (cwd : Option Bytes) (input : Bytes) : Except Errno Bytes :=
  if input.head? = some 47 then .ok input
  else
    match cwd with
    | none => .error .getcwd
    | some cwd => printInto pathMax (cwd ++ 47 :: input)

/-- What follows `wsl/` in a path below the mount root. -/
def uncRest (rest : Bytes) : Option Bytes :=
  let after := rest.drop 3
  if (ascii "wsl").isPrefixOf rest ∧ (after = [] ∨ after.head? = some 47) then some after.tail else none

/-- The drive letter of a path below the mount root, and what follows it. -/
def driveRest : Bytes → Option (UInt8 × Bytes)
  | [] => none
  | c :: after =>
    if isAlpha c ∧ (after = [] ∨ after.head? = some 47) then some (c, after.tail) else none

/-- `to_windows`. -/
def toWindows (mountRoot : Bytes) (cwd : Option Bytes) (input : Bytes) (outSize : Nat)
    (mixed : Bool) : Except Errno Bytes := do
  let winSep : UInt8 := if mixed then 47 else 92
  let path ← absolutePath cwd input
  let plain := (replaceSep · 47 winSep) <$> printInto outSize path
  if mountRoot ≠ [] ∧ mountRoot.isPrefixOf path ∧ (path.drop mountRoot.length).head? = some 47 then
    let rest := path.drop (mountRoot.length + 1)
    match uncRest rest with
    | some unc => (replaceSep · 47 winSep) <$> printInto outSize (92 :: 92 :: unc)
    | none =>
      match driveRest rest with
      | some (c, remainder) =>
        let drive := [toUpper c, 58, winSep]
        (fun out => drive ++ replaceSep (out.drop 3) 47 winSep) <$> printInto outSize (drive ++ remainder)
      | none => plain
  else plain

/-- `to_unix`. -/
def toUnix (mountRoot input : Bytes) (outSize : Nat) : Except Errno Bytes :=
  let input := if (ascii "\\\\?\\").isPrefixOf input then input.drop 4 else input
  let output :=
    if (ascii "\\\\").isPrefixOf input then mountRoot ++ ascii "/wsl/" ++ input.drop 2
    else
      match input with
      | c :: 58 :: after =>
        if isAlpha c then
          let rest := if after.head? = some 92 ∨ after.head? = some 47 then after.tail else after
          if rest = [] then mountRoot ++ [47, toLower c] else mountRoot ++ 47 :: toLower c :: 47 :: rest
        else input
      | _ => input
  (replaceSep · 92 47) <$> printInto outSize output

end WslFreeBSD.Paths
