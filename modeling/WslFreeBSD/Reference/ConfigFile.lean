import Mathlib.Data.List.DropRight
import WslFreeBSD.Lib.CText

/-!
# The parser of .wslconfig

`ParseConfigFile` of `configfile.cpp` reads a file character by character and jumps between labels.
Here the characters are folded over a state. The state has one `Mode` for every place at which the
next character is read, a function for every mode says what happens to that character, and the
labels are functions of their own. `finish` is what happens at the end of the file.

With an output key the text of the file is written out again as it is read, with the new value of
that key. `ConfigKey` has what this needs of the class: its names and its value. Its fields have what
the `FAIL_FAST_IF`s ask of the first name, that it is a section and a key with a dot between them.

Files are ASCII, and they are read without an error. Warnings and the numbers of the lines are left
out; the calls of `SetConfig` are recorded, as C strings.
-/

namespace WslFreeBSD.Reference.ConfigFile

open Lib

/-! ## Keys -/

/-- The key whose value is written. `otherNames` are the names after the first one. -/
structure ConfigKey where
  inSection : Bytes
  name : Bytes
  otherNames : List Bytes
  /-- `GetValue` -/
  value : Bytes
  section_ne : inSection ≠ []
  name_ne : name ≠ []
  no_dot : 46 ∉ inSection

/-- `GetNames`. -/
def ConfigKey.getNames (k : ConfigKey) : List Bytes :=
  (k.inSection ++ 46 :: k.name) :: k.otherNames

/-- `Matches` with one argument. -/
def ConfigKey.matchesName (k : ConfigKey) (name : Bytes) : Bool :=
  k.getNames.any fun e => eqIgnoringCase e name

/-- `Matches` with two arguments: the first `length` characters are compared. -/
def ConfigKey.matchesStart (k : ConfigKey) (name : Bytes) (length : Nat) : Bool :=
  k.getNames.any fun e => eqIgnoringCase (e.take length) (name.take length)

/-- What the parser is asked for: `CFG_SKIP_INVALID_LINES`, `outputKey` and `removeKey`. -/
structure Options where
  skipInvalidLines : Bool
  outputKey : Option ConfigKey
  removeKey : Bool

def Options.updateConfigFile (o : Options) : Bool := o.outputKey.isSome

/-- `updateConfigFile && !removeKey && outputKey.value().Matches(name)`. -/
def Options.sets (o : Options) (name : Bytes) : Bool :=
  !o.removeKey && o.outputKey.any (·.matchesName name)

/-- `updateConfigFile && removeKey && outputKey.value().Matches(name)`. -/
def Options.removes (o : Options) (name : Bytes) : Bool :=
  o.removeKey && o.outputKey.any (·.matchesName name)

/-! ## The state -/

/-- Where the next character is read. -/
inductive Mode where
  /-- in front of a line, where spaces are skipped -/
  | lineStart
  /-- after a `\r` there -/
  | carriageReturn
  /-- in a comment -/
  | comment
  /-- after a `\r` in a comment -/
  | commentReturn
  /-- after the `[` of a header -/
  | sectionStart
  | sectionName
  /-- after the `]` -/
  | afterBracket
  | key
  /-- in the spaces after a key -/
  | beforeEquals
  /-- in the spaces after the `=` -/
  | afterEquals
  | value
  /-- after a `\` in a value -/
  | escape
  /-- in the rest of an invalid line -/
  | invalid
  /-- the result is -1 -/
  | failed
  deriving DecidableEq, Repr

/-- The locals of `ParseConfigFile`, and the calls of `SetConfig` so far: a name and a value. -/
structure State where
  mode : Mode
  key : Bytes
  sectionLength : Nat
  value : Bytes
  trimmedLength : Nat
  inQuote : Bool
  trailingComment : Bool
  calls : List (Bytes × Bytes)
  configFileOutput : Bytes
  newKeyValueInsertPos : Nat
  outputKeyValueUpdated : Bool
  firstMatchedKey : Bool
  matchedKey : Bool

def State.init : State :=
  ⟨.lineStart, [0], 0, [0], 0, false, false, [], [], 0, false, false, false⟩

def isHSpace (c : UInt8) : Bool := c = 32 || c = 9

/-- The character 0xFFFF, which is written where a line is found to be malformed at the end of the
file. No ASCII file has the byte that stands for it. -/
def weof : UInt8 := 255

/-- `resize` of a string. -/
def resize (s : Bytes) (n : Nat) : Bytes := s.take n ++ List.replicate (n - s.length) 0

/-- Characters are added to the output, in update mode. -/
def State.write (o : Options) (st : State) (s : Bytes) : State :=
  if o.updateConfigFile then { st with configFileOutput := st.configFileOutput ++ s } else st

/-! ## Labels -/

/-- `NewLine`, with the character that was read last. -/
def newLine (o : Options) (st : State) (ch : UInt8) : State :=
  let st := if st.trailingComment && st.matchedKey then st.write o [10] else st
  { st.write o [ch] with mode := if ch = 35 then .comment else .lineStart }

/-- The end of a comment: the place for a new key is in front of the line break. -/
def endComment (st : State) : State :=
  if st.trailingComment then
    { st with
      mode := .lineStart
      newKeyValueInsertPos := st.configFileOutput.length - 1
      trailingComment := false }
  else { st with mode := .lineStart }

/-- `InvalidLine`. -/
def invalidLine (o : Options) (st : State) (ch : UInt8) : State :=
  if !o.skipInvalidLines then { st with mode := .failed }
  else if ch = 10 then newLine o st ch
  else { st with mode := .invalid }

/-- The way to `InvalidLine` from outside of a value: in update mode the character is written and
becomes 0. -/
def malformed (o : Options) (st : State) (ch : UInt8) : State :=
  invalidLine o (st.write o [ch]) (if o.updateConfigFile then 0 else ch)

/-- What `ParseSection` does before the header is read: a key of the section that ends here is
inserted. -/
def endSection (o : Options) (st : State) : State :=
  match o.outputKey with
  | none => st
  | some k =>
    if !st.outputKeyValueUpdated && !o.removeKey && 0 < st.sectionLength &&
        k.matchesStart (cString st.key 0) st.sectionLength then
      { st with
        configFileOutput :=
          st.configFileOutput.take st.newKeyValueInsertPos ++ 10 :: (k.name ++ 61 :: k.value) ++
            st.configFileOutput.drop st.newKeyValueInsertPos
        outputKeyValueUpdated := true }
    else st

/-- The output without its last line and the break in front of it. -/
def dropLastLine (output : Bytes) : Bytes :=
  if 10 ∈ output then (output.rdropWhile (· ≠ 10)).dropLast else output

def startValue (o : Options) (st : State) : State :=
  let name := cString st.key 0
  { st with
    mode := .value
    firstMatchedKey := !st.outputKeyValueUpdated && o.sets name
    matchedKey := o.removes name
    configFileOutput :=
      if o.removes name then dropLastLine st.configFileOutput else st.configFileOutput
    value := []
    trimmedLength := 0
    inQuote := false }

/-- What `ValueDone` does with a value. -/
def storeValue (o : Options) (st : State) : State :=
  if st.firstMatchedKey then
    { st.write o ((o.outputKey.elim [] (·.value)) ++ st.value.drop st.trimmedLength) with
      outputKeyValueUpdated := true }
  else if !st.matchedKey then
    { st with
      value := resize st.value st.trimmedLength
      calls := st.calls ++ [(cString st.key 0, cString (resize st.value st.trimmedLength) 0)]
      newKeyValueInsertPos := st.configFileOutput.length }
  else st

/-- `ValueDone`. -/
def valueDone (o : Options) (st : State) (ch : UInt8) : State :=
  if st.inQuote && (!st.firstMatchedKey || !st.matchedKey) then invalidLine o st ch
  else newLine o (storeValue o st) ch

/-! ## Characters -/

/-- The characters of a value are written, unless they are replaced or removed. -/
def State.writeValue (o : Options) (st : State) (s : Bytes) : State :=
  if st.firstMatchedKey || st.matchedKey then st else st.write o s

def atLineStart (o : Options) (st : State) (ch : UInt8) : State :=
  if isHSpace ch then st.write o [ch]
  else if ch = 13 then { st with mode := .carriageReturn }
  else if ch = 10 ∨ ch = 35 then newLine o st ch
  else if ch = 91 then { (endSection o st).write o [ch] with mode := .sectionStart }
  else if !isAlpha ch then malformed o st ch
  else
    let key := resize st.key st.sectionLength
    { st.write o [ch] with
      mode := .key
      key := (if key = [] then [] else key ++ [46]) ++ [ch] }

def atSectionStart (o : Options) (st : State) (ch : UInt8) : State :=
  if !isAlpha ch then malformed o st ch
  else { st.write o [ch] with mode := .sectionName, key := [ch] }

def atSectionName (o : Options) (st : State) (ch : UInt8) : State :=
  if isAlnum ch then { st.write o [ch] with key := st.key ++ [ch] }
  else if ch ≠ 93 then malformed o st ch
  else { st.write o [ch] with mode := .afterBracket }

def atAfterBracket (o : Options) (st : State) (ch : UInt8) : State :=
  if isHSpace ch then st.write o [ch]
  else if ch = 10 ∨ ch = 13 then newLine o { st with sectionLength := st.key.length } ch
  else if ch = 35 then
    newLine o { st with sectionLength := st.key.length, trailingComment := true } ch
  else malformed o st ch

def atBeforeEquals (o : Options) (st : State) (ch : UInt8) : State :=
  if isHSpace ch then { st.write o [ch] with mode := .beforeEquals }
  else if ch ≠ 61 then malformed o st ch
  else { st.write o [ch] with mode := .afterEquals }

def atKey (o : Options) (st : State) (ch : UInt8) : State :=
  if isAlnum ch then { st.write o [ch] with key := st.key ++ [ch] } else atBeforeEquals o st ch

def atValue (o : Options) (st : State) (ch : UInt8) : State :=
  if ch = 10 ∨ ch = 13 then valueDone o st ch
  else if ch = 35 ∧ !st.inQuote then valueDone o { st with trailingComment := true } ch
  else
    let st := if ch = 35 then st else st.writeValue o [ch]
    if ch = 34 then { st with inQuote := !st.inQuote, trimmedLength := st.value.length }
    else if ch = 92 then { st with mode := .escape }
    else
      { st with
        value := st.value ++ [ch]
        trimmedLength := if isHSpace ch then st.trimmedLength else st.value.length + 1 }

def atAfterEquals (o : Options) (st : State) (ch : UInt8) : State :=
  if isHSpace ch then st.write o [ch] else atValue o (startValue o st) ch

/-- What an escape sequence stands for; `\r` and `\n` are skipped. -/
def unescape (ch : UInt8) : Option Bytes :=
  if ch = 92 ∨ ch = 34 then some [ch]
  else if ch = 98 then some [8]
  else if ch = 110 then some [10]
  else if ch = 116 then some [9]
  else if ch = 13 ∨ ch = 10 then some []
  else none

def endEscape (st : State) (s : Bytes) : State :=
  { st with
    mode := .value
    value := st.value ++ s
    trimmedLength := (st.value ++ s).length }

def atEscape (o : Options) (st : State) (ch : UInt8) : State :=
  let st := st.writeValue o [ch]
  match unescape ch with
  | some s => endEscape st s
  | none => if st.firstMatchedKey then endEscape st [] else invalidLine o st 92

def atInvalid (o : Options) (st : State) (ch : UInt8) : State :=
  if ch = 10 then newLine o st ch else if ch = 13 then st else st.write o [ch]

def step (o : Options) (st : State) (ch : UInt8) : State :=
  match st.mode with
  | .lineStart => atLineStart o st ch
  | .carriageReturn =>
    -- any other character than a line break is pushed back
    if ch = 10 then newLine o st 13 else atLineStart o (newLine o st 13) ch
  | .comment =>
    let st := st.write o [ch]
    if ch = 10 then endComment st
    else if ch = 13 then { st with mode := .commentReturn }
    else st
  | .commentReturn => if ch = 10 then endComment st else { st with mode := .comment }
  | .sectionStart => atSectionStart o st ch
  | .sectionName => atSectionName o st ch
  | .afterBracket => atAfterBracket o st ch
  | .key => atKey o st ch
  | .beforeEquals => atBeforeEquals o st ch
  | .afterEquals => atAfterEquals o st ch
  | .value => atValue o st ch
  | .escape => atEscape o st ch
  | .invalid => atInvalid o st ch
  | .failed => st

def run (o : Options) (st : State) (s : Bytes) : State := s.foldl (step o) st

/-! ## Steps -/

section Steps

variable {o : Options} {st : State} {c : UInt8}

theorem step_lineStart (h : st.mode = .lineStart) : step o st c = atLineStart o st c := by
  rw [step, h]

theorem step_sectionStart (h : st.mode = .sectionStart) : step o st c = atSectionStart o st c := by
  rw [step, h]

theorem step_sectionName (h : st.mode = .sectionName) : step o st c = atSectionName o st c := by
  rw [step, h]

theorem step_afterBracket (h : st.mode = .afterBracket) : step o st c = atAfterBracket o st c := by
  rw [step, h]

theorem step_key (h : st.mode = .key) : step o st c = atKey o st c := by
  rw [step, h]

theorem step_beforeEquals (h : st.mode = .beforeEquals) : step o st c = atBeforeEquals o st c := by
  rw [step, h]

theorem step_afterEquals (h : st.mode = .afterEquals) : step o st c = atAfterEquals o st c := by
  rw [step, h]

theorem step_value (h : st.mode = .value) : step o st c = atValue o st c := by
  rw [step, h]

theorem step_escape (h : st.mode = .escape) : step o st c = atEscape o st c := by
  rw [step, h]

theorem step_invalid (h : st.mode = .invalid) : step o st c = atInvalid o st c := by
  rw [step, h]

theorem step_comment (h : st.mode = .comment) :
    step o st c =
      if c = 10 then endComment (st.write o [c])
      else if c = 13 then { st.write o [c] with mode := .commentReturn }
      else st.write o [c] := by
  rw [step, h]

end Steps

@[simp] theorem run_nil (o : Options) (st : State) : run o st [] = st := rfl

@[simp] theorem run_cons (o : Options) (st : State) (c : UInt8) (s : Bytes) :
    run o st (c :: s) = run o (step o st c) s := rfl

theorem run_append (o : Options) (st : State) (s t : Bytes) :
    run o st (s ++ t) = run o (run o st s) t := List.foldl_append

theorem run_concat (o : Options) (st : State) (s : Bytes) (c : UInt8) :
    run o st (s ++ [c]) = step o (run o st s) c := run_append o st s [c]

/-! ## The end of the file -/

/-- `WriteNewKeyValue`; the text `start` is written only if there is a file. -/
def writeNewKeyValue (k : ConfigKey) (start : Bytes) (st : State) : State :=
  let header :=
    if 0 < st.sectionLength && k.matchesStart (cString st.key 0) st.sectionLength then []
    else 91 :: (k.inSection ++ [93, 10])
  { st with
    configFileOutput := st.configFileOutput ++ start ++ header ++ k.name ++ 61 :: k.value
    outputKeyValueUpdated := true }

/-- The test of `feof`. -/
def endOfFile (o : Options) (start : Bytes) (st : State) : State :=
  match o.outputKey with
  | none => st
  | some k =>
    if !st.outputKeyValueUpdated && !o.removeKey then writeNewKeyValue k start st else st

/-- `InvalidLine` when nothing follows. -/
def invalidEnd (o : Options) (st : State) : State :=
  if o.skipInvalidLines then endOfFile o [10] st else { st with mode := .failed }

/-- `ValueDone` when nothing follows. -/
def valueEnd (o : Options) (st : State) : State :=
  if st.inQuote && (!st.firstMatchedKey || !st.matchedKey) then invalidEnd o st
  else endOfFile o [10] (storeValue o st)

def finish (o : Options) (st : State) : State :=
  match st.mode with
  | .lineStart | .invalid => endOfFile o [10] st
  | .carriageReturn => endOfFile o [10] (newLine o st 13)
  | .comment | .commentReturn => endOfFile o [10] (endComment st)
  | .sectionStart | .sectionName | .key | .beforeEquals => invalidEnd o (st.write o [weof])
  | .afterBracket => endOfFile o [10] { st with sectionLength := st.key.length }
  | .afterEquals => valueEnd o (startValue o st)
  | .value => valueEnd o st
  | .escape =>
    if st.firstMatchedKey then valueEnd o (endEscape st []) else invalidEnd o st
  | .failed => st

/-- `ParseConfigFile`, for a file or `NULL`: the state when it returns. -/
def parseConfigFile (o : Options) : Option Bytes → State
  | none => endOfFile o [] State.init
  | some file => finish o (run o State.init file)

end WslFreeBSD.Reference.ConfigFile
