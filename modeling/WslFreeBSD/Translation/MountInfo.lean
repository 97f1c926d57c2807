import WslFreeBSD.Lib.LineFields

/-!
# Lines of the mount table

`MountParseMountInfoLine` of `mountutil.c` takes a line of `/proc/self/mountinfo` apart in its memory. The
fields are strings that end in the line itself, and an entry points to them; characters that the kernel
escapes as octal numbers are decoded in place. Pointers into the line are offsets in its memory.

Every entry is recovered from its line (`mountParseMountInfoLine_spec`), unless its super options are empty.
-/

namespace WslFreeBSD.Translation.MountInfo

open Lib

/-! ## Fields -/

def MountFieldId : Nat := 0
def MountFieldParentId : Nat := 1
def MountFieldDevice : Nat := 2
def MountFieldRoot : Nat := 3
def MountFieldMountPoint : Nat := 4
def MountFieldMountOptions : Nat := 5
def MountFieldOptionalFields : Nat := 6
def MountFieldFileSystemType : Nat := 7
def MountFieldSource : Nat := 8
def MountFieldSuperOptions : Nat := 9
def MountFieldMax : Nat := MountFieldSuperOptions

/-- `MOUNT_ENTRY`, with offsets for pointers. -/
structure MountEntry where
  Id : Int
  ParentId : Int
  Device : Nat
  Root : Nat
  MountPoint : Nat
  MountOptions : Nat
  FileSystemType : Nat
  Source : Nat
  SuperOptions : Nat

/-- `MOUNT_FIELD_SEP`. -/
def isFieldSep (c : UInt8) : Bool := c = 32

/-- A newline, which may be at the end of the last field. -/
def isLineEnd (c : UInt8) : Bool := c = 10

/-- `MountNextField`: the memory, the new value of `*line`, and the field. -/
def mountNextField (memory : Bytes) (line field : Nat) : Bytes × Nat × Option Nat :=
  if field = 0 then strtokR isFieldSep memory line
  else if field < MountFieldMax then strtokR isFieldSep memory line
  else strtokR isLineEnd memory line

/-! ## Device numbers -/

/-- `makedev` of the C library: the number has bits of `major` and `minor` in turn. -/
def makedev (major minor : Int) : Nat :=
  let major := (major % 2 ^ 32).toNat
  let minor := (minor % 2 ^ 32).toNat
  major / 2 ^ 12 * 2 ^ 44 + minor / 2 ^ 8 * 2 ^ 20 + major % 2 ^ 12 * 2 ^ 8 + minor % 2 ^ 8

/-- `major` of the C library, as an `int`. -/
def majorOf (device : Nat) : Int := toInt32 (device / 2 ^ 44 % 2 ^ 20 * 2 ^ 12 + device / 2 ^ 8 % 2 ^ 12 : Nat)

/-- `minor` of the C library, as an `int`. -/
def minorOf (device : Nat) : Int := toInt32 (device / 2 ^ 20 % 2 ^ 24 * 2 ^ 8 + device % 2 ^ 8 : Nat)

/-- `MountParseDevice`: the memory and the device, or nothing if there is no separator. -/
def mountParseDevice (memory : Bytes) (field : Nat) : Option (Bytes × Nat) :=
  let text := cString memory field
  if 58 ∈ text then
    let separator := field + (text.takeWhile (· ≠ 58)).length
    let memory := memory.set separator 0
    some (memory, makedev (atoi memory field) (atoi memory (separator + 1)))
  else none

/-! ## Escapes -/

/-- The loop of `MountFieldUnescapeOctal`, with the number of characters that are left. -/
def unescapeOctalFrom (memory : Bytes) : (left : Nat) → (string : Nat) → (localUnescaped : UInt8) → Option UInt8
  | 0, _, localUnescaped => some localUnescaped
  | left + 1, string, localUnescaped =>
    let character := memory.getD string 0
    if character < 48 ∨ 55 < character then none
    else unescapeOctalFrom memory left (string + 1) ((localUnescaped <<< 3) ||| (character - 48))

/-- `MountFieldUnescapeOctal`. -/
def mountFieldUnescapeOctal (memory : Bytes) (string : Nat) : Option UInt8 :=
  unescapeOctalFrom memory 3 string 0

/-- The loop of `MountFieldUnescape`; there is no result if the fuel runs out. -/
def unescapeFrom (field : Nat) : (fuel : Nat) → (index insertionIndex : Nat) → (memory : Bytes) → Option Bytes
  | 0, _, _, _ => none
  | fuel + 1, index, insertionIndex, memory =>
    let current := memory.getD (field + index) 0
    if current = 0 then some (memory.set (field + insertionIndex) 0)
    else
      match if current = 92 then mountFieldUnescapeOctal memory (field + index + 1) else none with
      | some unescaped =>
        unescapeFrom field fuel (index + 3 + 1) (insertionIndex + 1)
          (memory.set (field + insertionIndex) unescaped)
      | none =>
        unescapeFrom field fuel (index + 1) (insertionIndex + 1)
          (if insertionIndex < index then memory.set (field + insertionIndex) current else memory)

/-- `MountFieldUnescape`. -/
def mountFieldUnescape (memory : Bytes) (field : Nat) : Option Bytes :=
  unescapeFrom field (memory.length + 1) 0 0 memory

/-! ## Lines -/

/-- The variables of `MountParseMountInfoLine`. -/
structure ParseState where
  memory : Bytes
  line : Nat
  current : Option Nat
  field : Nat
  entry : MountEntry

/-- `current = MountNextField(&line, field)`. -/
def ParseState.next (st : ParseState) : ParseState :=
  let found := mountNextField st.memory st.line st.field
  { st with memory := found.1, line := found.2.1, current := found.2.2 }

/-- The loop over the optional fields; there is no result if the fuel runs out. -/
def skipOptionalFields : (fuel : Nat) → ParseState → Option ParseState
  | 0, _ => none
  | fuel + 1, st =>
    match st.current with
    | none => some st
    | some current =>
      if cString st.memory current = ascii "-" then some st else skipOptionalFields fuel st.next

/-- What ends the loop over the fields before its end. -/
inductive Stop where
  | malformedDevice (st : ParseState)
  | outOfFuel

/-- The `switch` over the field. The case of the device goes on into that of the root. -/
def parseField (st : ParseState) (current : Nat) : Except Stop ParseState :=
  if st.field = MountFieldId then .ok { st with entry.Id := atoi st.memory current }
  else if st.field = MountFieldParentId then .ok { st with entry.ParentId := atoi st.memory current }
  else if st.field = MountFieldDevice then
    match mountParseDevice st.memory current with
    | none => .error (.malformedDevice st)
    | some (memory, device) =>
      .ok { st with memory := memory, entry := { st.entry with Device := device, Root := current } }
  else if st.field = MountFieldRoot then .ok { st with entry.Root := current }
  else if st.field = MountFieldMountPoint then .ok { st with entry.MountPoint := current }
  else if st.field = MountFieldMountOptions then .ok { st with entry.MountOptions := current }
  else if st.field = MountFieldOptionalFields then
    match skipOptionalFields (st.memory.length + 1) st with
    | none => .error .outOfFuel
    | some st => .ok st
  else if st.field = MountFieldFileSystemType then .ok { st with entry.FileSystemType := current }
  else if st.field = MountFieldSource then .ok { st with entry.Source := current }
  else if st.field = MountFieldSuperOptions then .ok { st with entry.SuperOptions := current }
  else .ok st

def parseFields : (fuel : Nat) → ParseState → Except Stop ParseState
  | 0, _ => .error .outOfFuel
  | fuel + 1, st =>
    match st.current with
    | none => .ok st
    | some current =>
      if MountFieldMax < st.field then .ok st
      else do
        let st ← parseField st current
        parseFields fuel (ParseState.next { st with field := st.field + 1 })

/-- `MountParseMountInfoLine`: the result, the memory of the line and the entry. -/
def mountParseMountInfoLine (memory : Bytes) (line : Nat) (entry : MountEntry) :
    Option (Int × Bytes × MountEntry) :=
  match parseFields (MountFieldMax + 2) (ParseState.next ⟨memory, line, none, 0, entry⟩) with
  | .error .outOfFuel => none
  | .error (.malformedDevice st) => some (-1, st.memory, st.entry)
  | .ok st =>
    if st.field ≤ MountFieldMax then some (-1, st.memory, st.entry)
    else do
      let memory ← mountFieldUnescape st.memory st.entry.Root
      let memory ← mountFieldUnescape memory st.entry.Source
      let memory ← mountFieldUnescape memory st.entry.MountPoint
      return (0, memory, st.entry)

/-! ## What a line says -/

/-- The characters that the kernel escapes in names: tab, newline, space and backslash. -/
def needsEscape (c : UInt8) : Bool := c = 9 || c = 10 || c = 32 || c = 92

def octalEscape (c : UInt8) : Bytes := [92, 48 + c / 64, 48 + c / 8 % 8, 48 + c % 8]

def escapeChar (c : UInt8) : Bytes := if needsEscape c then octalEscape c else [c]

def escapeName (name : Bytes) : Bytes := name.flatMap escapeChar

/-- An `int`. -/
def IsInt (n : Int) : Prop := -2 ^ 31 ≤ n ∧ n < 2 ^ 31

/-- A name that is escaped in a line. -/
structure Name where
  bytes : Bytes
  nonempty : bytes ≠ []
  plain : 0 ∉ bytes

/-- A field that is not escaped. -/
structure Word where
  bytes : Bytes
  nonempty : bytes ≠ []
  plain : ∀ c ∈ bytes, c ≠ 0 ∧ c ≠ 32

/-- A mount, as the kernel describes it in a line. -/
structure Mount where
  id : Int
  parentId : Int
  major : Int
  minor : Int
  root : Name
  mountPoint : Name
  options : Word
  optionalFields : List Bytes
  fileSystemType : Word
  source : Name
  superOptions : Bytes
  ints : ∀ n ∈ [id, parentId, major, minor], IsInt n
  optional_plain : ∀ field ∈ optionalFields, (∀ c ∈ field, c ≠ 0 ∧ c ≠ 32) ∧ field ≠ ascii "-"
  super_plain : ∀ c ∈ superOptions, c ≠ 0 ∧ c ≠ 10

/-- The optional fields and the hyphen behind them. -/
def optionalText (fields : List Bytes) : Bytes := fields.flatMap (· ++ [32]) ++ [45, 32]

/-- The fields of a line up to the super options, in front of what comes behind them. -/
def Mount.fields (m : Mount) (rest : Bytes) : Bytes :=
  decimal m.id ++ 32 :: (decimal m.parentId ++ 32 :: ((decimal m.major ++ 58 :: decimal m.minor) ++ 32 ::
    (escapeName m.root.bytes ++ 32 :: (escapeName m.mountPoint.bytes ++ 32 :: (m.options.bytes ++ 32 ::
      (optionalText m.optionalFields ++ (m.fileSystemType.bytes ++ 32 ::
        (escapeName m.source.bytes ++ 32 :: rest))))))))

/-- The end of a line: a newline unless it is the last one of a file without it, a NUL, and what is left over
of the buffer. -/
def lineEnd (newline : Bool) (after : Bytes) : Bytes := (if newline then [10] else []) ++ 0 :: after

def Mount.memory (m : Mount) (newline : Bool) (after : Bytes) : Bytes :=
  m.fields (m.superOptions ++ lineEnd newline after)

/-- An entry has everything of a mount: its numbers, and strings in the memory that it points to. -/
structure Describes (memory : Bytes) (entry : MountEntry) (m : Mount) : Prop where
  id : entry.Id = m.id
  parentId : entry.ParentId = m.parentId
  device : entry.Device = makedev m.major m.minor
  major : majorOf entry.Device = m.major
  minor : minorOf entry.Device = m.minor
  root : cString memory entry.Root = m.root.bytes
  mountPoint : cString memory entry.MountPoint = m.mountPoint.bytes
  options : cString memory entry.MountOptions = m.options.bytes
  fileSystemType : cString memory entry.FileSystemType = m.fileSystemType.bytes
  source : cString memory entry.Source = m.source.bytes
  superOptions : cString memory entry.SuperOptions = m.superOptions

/-! ## Device numbers -/

theorem majorOf_makedev {major : Int} (h : IsInt major) (minor : Int) :
    majorOf (makedev major minor) = major := by
  obtain ⟨hlow, hhigh⟩ := h
  have hlt : (minor % 2 ^ 32).toNat < 2 ^ 32 := by omega
  have hmajor : (major % 2 ^ 32).toNat < 2 ^ 32 := by omega
  have hvalue : makedev major minor / 2 ^ 44 % 2 ^ 20 * 2 ^ 12 + makedev major minor / 2 ^ 8 % 2 ^ 12 =
      (major % 2 ^ 32).toNat := by
    simp only [makedev]
    omega
  rw [majorOf, hvalue, toInt32]
  omega

theorem minorOf_makedev (major : Int) {minor : Int} (h : IsInt minor) :
    minorOf (makedev major minor) = minor := by
  obtain ⟨hlow, hhigh⟩ := h
  have hlt : (minor % 2 ^ 32).toNat < 2 ^ 32 := by omega
  have hvalue : makedev major minor / 2 ^ 20 % 2 ^ 24 * 2 ^ 8 + makedev major minor % 2 ^ 8 =
      (minor % 2 ^ 32).toNat := by
    simp only [makedev]
    omega
  rw [minorOf, hvalue, toInt32]
  omega

/-! ## Decoding in place -/

theorem needsEscape_iff {c : UInt8} : needsEscape c = true ↔ c = 9 ∨ c = 10 ∨ c = 32 ∨ c = 92 := by
  simp [needsEscape, or_assoc]

theorem getD_append_add (before s : Bytes) (k : Nat) :
    (before ++ s).getD (before.length + k) 0 = s.getD k 0 := by
  rw [List.getD_eq_getElem?_getD, List.getD_eq_getElem?_getD,
    List.getElem?_append_right (Nat.le_add_right _ _), Nat.add_sub_cancel_left]

theorem mountFieldUnescapeOctal_eq {c : UInt8} (h : needsEscape c = true) (before rest : Bytes) :
    mountFieldUnescapeOctal (before ++ (octalEscape c ++ rest)) (before.length + 1) = some c := by
  have hget := getD_append_add before (octalEscape c ++ rest)
  have hfirst : (octalEscape c ++ rest).getD 1 0 = 48 + c / 64 := rfl
  have hsecond : (octalEscape c ++ rest).getD 2 0 = 48 + c / 8 % 8 := rfl
  have hthird : (octalEscape c ++ rest).getD 3 0 = 48 + c % 8 := rfl
  simp only [mountFieldUnescapeOctal, unescapeOctalFrom, Nat.add_assoc, Nat.reduceAdd, hget, hfirst, hsecond,
    hthird]
  rcases needsEscape_iff.mp h with rfl | rfl | rfl | rfl
  · decide
  · decide
  · decide
  · decide

theorem set_junk (before junk consumed rest : Bytes) (c : UInt8) (hne : consumed ≠ []) :
    ∃ junk', (before ++ junk ++ (consumed ++ rest)).set before.length c = before ++ [c] ++ junk' ++ rest ∧
      junk'.length + 1 = junk.length + consumed.length := by
  obtain ⟨x, xs, hx⟩ := List.exists_cons_of_ne_nil (List.append_ne_nil_of_right_ne_nil junk hne)
  refine ⟨xs, ?_, ?_⟩
  · have hsplit : before ++ junk ++ (consumed ++ rest) = before ++ x :: (xs ++ rest) := by
      rw [List.append_assoc, ← List.append_assoc junk, hx, List.cons_append]
    rw [hsplit, set_append_cons]
    simp
  · have hlength := congrArg List.length hx
    rw [List.length_append, List.length_cons] at hlength
    omega

theorem length_le_escapeName (name : Bytes) : name.length ≤ (escapeName name).length := by
  induction name with
  | nil => exact Nat.le_refl 0
  | cons c name ih =>
    have hchar : 1 ≤ (escapeChar c).length := by
      unfold escapeChar
      split
      · exact Nat.succ_pos 3
      · exact Nat.le_refl 1
    rw [escapeName, List.flatMap_cons, List.length_append, ← escapeName, List.length_cons]
    omega

section Loop

variable {field fuel index insertionIndex : Nat} {memory : Bytes}

theorem unescapeFrom_end (hcurrent : memory.getD (field + index) 0 = 0) :
    unescapeFrom field (fuel + 1) index insertionIndex memory =
      some (memory.set (field + insertionIndex) 0) := if_pos hcurrent

theorem unescapeFrom_escape {unescaped : UInt8} (hcurrent : memory.getD (field + index) 0 = 92)
    (hoctal : mountFieldUnescapeOctal memory (field + index + 1) = some unescaped) :
    unescapeFrom field (fuel + 1) index insertionIndex memory =
      unescapeFrom field fuel (index + 4) (insertionIndex + 1)
        (memory.set (field + insertionIndex) unescaped) := by
  have hnul : memory.getD (field + index) 0 ≠ 0 := by
    rw [hcurrent]
    decide
  refine (if_neg hnul).trans ?_
  simp only [hcurrent, if_true, hoctal]

theorem unescapeFrom_plain {c : UInt8} (hcurrent : memory.getD (field + index) 0 = c) (hnul : c ≠ 0)
    (hplain : c ≠ 92) :
    unescapeFrom field (fuel + 1) index insertionIndex memory =
      unescapeFrom field fuel (index + 1) (insertionIndex + 1)
        (if insertionIndex < index then memory.set (field + insertionIndex) c else memory) := by
  have hcurrent' : memory.getD (field + index) 0 ≠ 0 := by rwa [hcurrent]
  refine (if_neg hcurrent').trans ?_
  simp only [hcurrent, if_neg hplain]

end Loop

/-- One step of the loop: behind what it has `written` stands what is left over, and then what it reads. -/
theorem unescapeFrom_char {c : UInt8} (hnul : c ≠ 0) (before written junk rest : Bytes) (fuel : Nat) :
    ∃ junk', unescapeFrom before.length (fuel + 1) (written.length + junk.length) written.length
        (before ++ written ++ junk ++ (escapeChar c ++ rest)) =
      unescapeFrom before.length fuel (written.length + junk.length + (escapeChar c).length)
        (written.length + 1) (before ++ (written ++ [c]) ++ junk' ++ rest) ∧
      junk'.length + 1 = junk.length + (escapeChar c).length := by
  have hne : escapeChar c ≠ [] := by
    unfold escapeChar
    split
    · exact List.cons_ne_nil _ _
    · exact List.cons_ne_nil _ _
  obtain ⟨junk', hset, hlength⟩ := set_junk (before ++ written) junk (escapeChar c) rest c hne
  have hindex : before.length + (written.length + junk.length) = (before ++ written ++ junk).length := by
    rw [List.length_append, List.length_append, Nat.add_assoc]
  rw [List.length_append, List.append_assoc before written [c]] at hset
  refine ⟨junk', ?_, hlength⟩
  by_cases hc : needsEscape c = true
  · have hchar : escapeChar c = octalEscape c := if_pos hc
    rw [hchar] at hset ⊢
    have hcurrent : (before ++ written ++ junk ++ (octalEscape c ++ rest)).getD
        (before.length + (written.length + junk.length)) 0 = 92 := by
      rw [hindex]
      exact getD_append_cons _ _ _
    have hoctal := mountFieldUnescapeOctal_eq hc (before ++ written ++ junk) rest
    rw [← hindex] at hoctal
    rw [unescapeFrom_escape hcurrent hoctal, hset]
    rfl
  · have hchar : escapeChar c = [c] := if_neg hc
    rw [hchar] at hset hlength ⊢
    have hcurrent : (before ++ written ++ junk ++ ([c] ++ rest)).getD
        (before.length + (written.length + junk.length)) 0 = c := by
      rw [hindex]
      exact getD_append_cons _ _ _
    have hslash : c ≠ 92 := by
      rintro rfl
      exact hc rfl
    have hmemory : (if written.length < written.length + junk.length then
          (before ++ written ++ junk ++ ([c] ++ rest)).set (before.length + written.length) c
        else before ++ written ++ junk ++ ([c] ++ rest)) = before ++ (written ++ [c]) ++ junk' ++ rest := by
      split
      · exact hset
      · next hnone =>
        -- nothing is left over, and the character stands where it has to be written
        obtain rfl : junk = [] := List.length_eq_zero_iff.mp (by omega)
        have hnil : junk' = [] := List.length_eq_zero_iff.mp (by simpa using hlength)
        rw [hnil]
        simp
    rw [unescapeFrom_plain hcurrent hnul hslash, hmemory]
    rfl

theorem unescapeFrom_eq {name : Bytes} (hplain : 0 ∉ name) (before written junk rest : Bytes) {fuel : Nat}
    (hfuel : name.length < fuel) :
    ∃ junk', unescapeFrom before.length fuel (written.length + junk.length) written.length
        (before ++ written ++ junk ++ (escapeName name ++ 0 :: rest)) =
          some (before ++ (written ++ name) ++ 0 :: (junk' ++ rest)) ∧
      junk'.length + name.length = junk.length + (escapeName name).length := by
  obtain ⟨fuel, rfl⟩ := Nat.exists_eq_succ_of_ne_zero (Nat.ne_of_gt (Nat.zero_lt_of_lt hfuel))
  induction name generalizing written junk fuel with
  | nil =>
    obtain ⟨junk', hset, hlength⟩ := set_junk (before ++ written) junk [0] rest 0 (List.cons_ne_nil _ _)
    have hcurrent := getD_append_cons (before ++ written ++ junk) 0 rest
    rw [List.length_append, List.length_append, Nat.add_assoc] at hcurrent
    rw [List.length_append] at hset
    refine ⟨junk', ?_, by simpa [escapeName] using hlength⟩
    refine (unescapeFrom_end hcurrent).trans (congrArg some (hset.trans ?_))
    simp
  | cons c name ih =>
    rw [List.length_cons, Nat.succ_lt_succ_iff] at hfuel
    rw [List.mem_cons, not_or] at hplain
    obtain ⟨fuel, rfl⟩ := Nat.exists_eq_succ_of_ne_zero (Nat.ne_of_gt (Nat.zero_lt_of_lt hfuel))
    obtain ⟨junk', hstep, hlength⟩ := unescapeFrom_char (Ne.symm hplain.1) before written junk
      (escapeName name ++ 0 :: rest) (fuel + 1)
    obtain ⟨junk'', hloop, hlength'⟩ := ih hplain.2 (written ++ [c]) junk' fuel hfuel
    have hindex : (written ++ [c]).length + junk'.length =
        written.length + junk.length + (escapeChar c).length := by
      rw [List.length_append, List.length_singleton]
      omega
    rw [hindex, List.length_append, List.length_singleton, ← hstep] at hloop
    have hescape : escapeName (c :: name) ++ 0 :: rest = escapeChar c ++ (escapeName name ++ 0 :: rest) :=
      List.append_assoc (escapeChar c) (escapeName name) (0 :: rest)
    have hname : written ++ [c] ++ name = written ++ c :: name := by simp
    have hescapeLength : (escapeName (c :: name)).length = (escapeChar c).length + (escapeName name).length :=
      List.length_append
    refine ⟨junk'', ?_, ?_⟩
    · rw [hescape, hloop, hname]
    · rw [List.length_cons, hescapeLength]
      omega

/-- `MountFieldUnescape` decodes a name, and changes nothing else. -/
theorem mountFieldUnescape_spec {memory name : Bytes} {field : Nat} (hplain : 0 ∉ name)
    (h : HoldsAt memory field (escapeName name)) :
    ∃ memory', mountFieldUnescape memory field = some memory' ∧ HoldsAt memory' field name ∧
      KeepsBut (Covers field ((escapeName name).length + 1)) memory memory' := by
  obtain ⟨rest, hrest⟩ := h.drop_eq
  have hend := h.end_le
  have hfield : (memory.take field).length = field := by
    rw [List.length_take]
    omega
  have hmemory : memory = memory.take field ++ [] ++ [] ++ (escapeName name ++ 0 :: rest) := by
    rw [← hrest, List.append_nil, List.append_nil, List.take_append_drop]
  have hle := length_le_escapeName name
  obtain ⟨junk, hloop, hlength⟩ := unescapeFrom_eq hplain (memory.take field) [] [] rest
    (show name.length < memory.length + 1 by omega)
  rw [← hmemory, hfield, List.nil_append] at hloop
  rw [List.length_nil, Nat.zero_add] at hlength
  refine ⟨_, hloop, ?_, ?_⟩
  · have hholds := HoldsAt.of_append (memory.take field) name (junk ++ rest)
    rwa [hfield, List.append_assoc, List.singleton_append] at hholds
  · have hpart : (name ++ 0 :: junk).length = (escapeName name ++ [0]).length := by
      rw [List.length_append, List.length_append, List.length_cons, List.length_singleton]
      omega
    have hkeeps := KeepsBut.replace (memory.take field) rest hpart
    have hold : memory.take field ++ (escapeName name ++ [0]) ++ rest = memory := by
      rw [List.append_assoc, List.append_assoc, List.singleton_append, ← hrest, List.take_append_drop]
    rw [hold, hfield, List.length_append, List.length_singleton] at hkeeps
    simpa using hkeeps

/-! ## The loop over the fields -/

/-- The loop has found a token behind what is `done`, and ended it with a NUL. -/
def stateAt (done token rest : Bytes) (field : Nat) (entry : MountEntry) : ParseState :=
  ⟨done ++ token ++ [0] ++ rest, (done ++ token ++ [0]).length, some done.length, field, entry⟩

theorem next_word {field : Nat} (hfield : field < MountFieldMax) {gap token : Bytes}
    (hgap : ∀ c ∈ gap, c = 32) (hne : token ≠ []) (htoken : ∀ c ∈ token, c ≠ 0 ∧ c ≠ 32)
    (done rest : Bytes) (current : Option Nat) (entry : MountEntry) :
    ParseState.next ⟨done ++ gap ++ (token ++ 32 :: rest), done.length, current, field, entry⟩ =
      stateAt (done ++ gap) token rest field entry := by
  have hsep : ∀ c ∈ gap, isFieldSep c = true := fun c hc => decide_eq_true (hgap c hc)
  have hword : ∀ c ∈ token, c ≠ 0 ∧ isFieldSep c = false := fun c hc =>
    ⟨(htoken c hc).1, decide_eq_false (htoken c hc).2⟩
  have hfound := @strtokR_token isFieldSep done gap token rest rfl hsep hne hword 32 rfl
  have hnext : mountNextField (done ++ gap ++ (token ++ 32 :: rest)) done.length field =
      (done ++ gap ++ token ++ 0 :: rest, (done ++ gap ++ token).length + 1,
        some (done ++ gap).length) := by
    rw [← List.append_assoc (done ++ gap), ← hfound]
    rw [mountNextField, if_pos hfield, ite_self]
  rw [ParseState.next, hnext]
  simp [stateAt]
  omega

theorem parseFields_word {fuel field field' : Nat} (hsucc : field + 1 = field')
    (hfield : field' < MountFieldMax) {token token' next : Bytes} (hne : next ≠ [])
    (hnext : ∀ c ∈ next, c ≠ 0 ∧ c ≠ 32) {done rest : Bytes} {entry entry' : MountEntry}
    (hparse : parseField (stateAt done token (next ++ 32 :: rest) field entry) done.length =
      .ok { stateAt done token' (next ++ 32 :: rest) field entry' with
        line := (done ++ token ++ [0]).length })
    (hlength : token'.length = token.length) :
    parseFields (fuel + 1) (stateAt done token (next ++ 32 :: rest) field entry) =
      parseFields fuel (stateAt (done ++ token' ++ [0]) next rest field' entry') := by
  subst hsucc
  have hline : (done ++ token ++ [0]).length = (done ++ token' ++ [0]).length := by
    simp only [List.length_append, hlength]
  have hword := next_word hfield (List.forall_mem_nil _) hne hnext (done ++ token' ++ [0]) rest
    (some done.length) entry'
  rw [List.append_nil, ← hline] at hword
  have hopen : ¬ MountFieldMax < field := by omega
  change (if MountFieldMax < field then _ else _) = _
  rw [if_neg hopen, hparse]
  exact congrArg (parseFields fuel) hword

theorem decimal_plain (n : Int) : ∀ c ∈ decimal n, c ≠ 0 ∧ c ≠ 32 := fun c hc =>
  ⟨((decimal_chars n).2 c hc).1, ((decimal_chars n).2 c hc).2.1⟩

theorem device_plain (major minor : Int) : ∀ c ∈ decimal major ++ 58 :: decimal minor, c ≠ 0 ∧ c ≠ 32 := by
  intro c hc
  rcases List.mem_append.mp hc with hc | hc
  · exact decimal_plain major c hc
  · rcases List.mem_cons.mp hc with rfl | hc
    · decide
    · exact decimal_plain minor c hc

theorem mountParseDevice_eq {major minor : Int} (hmajor : IsInt major) (hminor : IsInt minor)
    (done rest : Bytes) :
    mountParseDevice (done ++ (decimal major ++ 58 :: decimal minor) ++ [0] ++ rest) done.length =
      some (done ++ (decimal major ++ 0 :: decimal minor) ++ [0] ++ rest, makedev major minor) := by
  have hplain : 0 ∉ decimal major ++ 58 :: decimal minor := fun hmem =>
    (device_plain major minor 0 hmem).1 rfl
  have htext := (HoldsAt.of_append done (decimal major ++ 58 :: decimal minor) rest).cString_eq hplain
  have hbefore : (decimal major ++ 58 :: decimal minor).takeWhile (· ≠ 58) = decimal major := by
    rw [List.takeWhile_append_of_pos fun c hc => decide_eq_true ((decimal_chars major).2 c hc).2.2]
    simp
  have hset : (done ++ (decimal major ++ 58 :: decimal minor) ++ [0] ++ rest).set
      (done.length + (decimal major).length) 0 =
        done ++ (decimal major ++ 0 :: decimal minor) ++ [0] ++ rest := by
    have hsplit := set_append_cons (done ++ decimal major) 58 0 (decimal minor ++ [0] ++ rest)
    rw [List.length_append] at hsplit
    simp only [List.append_assoc, List.cons_append] at hsplit ⊢
    exact hsplit
  have hfirst : atoi (done ++ (decimal major ++ 0 :: decimal minor) ++ [0] ++ rest) done.length = major := by
    have hread := atoi_decimal hmajor.1 hmajor.2 (rfl : isDecDigit 0 = false) done
      (decimal minor ++ [0] ++ rest)
    simpa using hread
  have hsecond : atoi (done ++ (decimal major ++ 0 :: decimal minor) ++ [0] ++ rest)
      (done.length + (decimal major).length + 1) = minor := by
    have hread := atoi_decimal hminor.1 hminor.2 (rfl : isDecDigit 0 = false)
      (done ++ decimal major ++ [0]) rest
    have hlength : (done ++ decimal major ++ [0]).length = done.length + (decimal major).length + 1 := by
      rw [List.length_append, List.length_append, List.length_singleton]
    rw [hlength] at hread
    simpa using hread
  unfold mountParseDevice
  simp only [htext, hbefore, hset, hfirst, hsecond]
  exact if_pos (by simp)

theorem skipOptionalFields_hyphen (fuel : Nat) (done rest : Bytes) (field : Nat) (entry : MountEntry) :
    skipOptionalFields (fuel + 1) (stateAt done [45] rest field entry) =
      some (stateAt done [45] rest field entry) := by
  have htext : cString (done ++ [45] ++ [0] ++ rest) done.length = ascii "-" :=
    (HoldsAt.of_append done [45] rest).cString_eq (by decide)
  exact if_pos htext

theorem skipOptionalFields_word {token : Bytes} (hplain : 0 ∉ token) (hother : token ≠ ascii "-")
    (fuel : Nat) (done rest : Bytes) (field : Nat) (entry : MountEntry) :
    skipOptionalFields (fuel + 1) (stateAt done token rest field entry) =
      skipOptionalFields fuel (stateAt done token rest field entry).next := by
  have htext := (HoldsAt.of_append done token rest).cString_eq hplain
  have hne : cString (done ++ token ++ [0] ++ rest) done.length ≠ ascii "-" := by
    rw [htext]
    exact hother
  exact if_neg hne

theorem skipOptionalFields_eq {fields : List Bytes}
    (hfields : ∀ field ∈ fields, (∀ c ∈ field, c ≠ 0 ∧ c ≠ 32) ∧ field ≠ ascii "-") {gap : Bytes}
    (hgap : ∀ c ∈ gap, c = 32) (done rest : Bytes) (current : Option Nat) (entry : MountEntry) {fuel : Nat}
    (hfuel : fields.length < fuel) :
    ∃ skipped hyphen, skipOptionalFields fuel (ParseState.next
        ⟨done ++ gap ++ (optionalText fields ++ rest), done.length, current, MountFieldOptionalFields, entry⟩) =
      some ⟨done ++ skipped ++ rest, (done ++ skipped).length, some hyphen, MountFieldOptionalFields,
        entry⟩ := by
  have hopen : MountFieldOptionalFields < MountFieldMax := by decide
  induction fields generalizing gap done current fuel with
  | nil =>
    obtain ⟨fuel, rfl⟩ := Nat.exists_eq_succ_of_ne_zero (Nat.ne_of_gt hfuel)
    have hnext := next_word hopen hgap (List.cons_ne_nil 45 []) (by decide) done rest current entry
    have hstart : optionalText [] ++ rest = [45] ++ 32 :: rest := rfl
    refine ⟨gap ++ [45] ++ [0], (done ++ gap).length, ?_⟩
    rw [hstart, hnext, skipOptionalFields_hyphen, stateAt]
    simp only [List.append_assoc]
  | cons field fields ih =>
    obtain ⟨hplain, hother⟩ := hfields field List.mem_cons_self
    have hrest := fun other hmem => hfields other (List.mem_cons_of_mem field hmem)
    rw [List.length_cons] at hfuel
    by_cases hempty : field = []
    · -- two spaces in a row are one gap
      have hwide : ∀ c ∈ gap ++ [32], c = 32 := by
        intro c hc
        rcases List.mem_append.mp hc with hc | hc
        · exact hgap c hc
        · exact List.mem_singleton.mp hc
      obtain ⟨skipped, hyphen, hskip⟩ := ih hrest hwide done current (Nat.lt_of_succ_lt hfuel)
      have hstart : done ++ gap ++ (optionalText (field :: fields) ++ rest) =
          done ++ (gap ++ [32]) ++ (optionalText fields ++ rest) := by
        rw [hempty]
        simp [optionalText]
      exact ⟨skipped, hyphen, hstart ▸ hskip⟩
    · obtain ⟨fuel, rfl⟩ := Nat.exists_eq_succ_of_ne_zero (Nat.ne_of_gt (Nat.zero_lt_of_lt hfuel))
      have hnul : 0 ∉ field := fun hmem => (hplain 0 hmem).1 rfl
      obtain ⟨skipped, hyphen, hskip⟩ := ih hrest (List.forall_mem_nil _) (done ++ gap ++ field ++ [0])
        (some (done ++ gap).length) (Nat.lt_of_succ_lt_succ hfuel)
      have hnext := next_word hopen hgap hempty hplain done (optionalText fields ++ rest) current entry
      have hstart : optionalText (field :: fields) ++ rest =
          field ++ 32 :: (optionalText fields ++ rest) := by simp [optionalText]
      refine ⟨gap ++ field ++ [0] ++ skipped, hyphen, ?_⟩
      rw [hstart, hnext, skipOptionalFields_word hnul hother]
      rw [List.append_nil] at hskip
      simp only [stateAt, List.append_assoc] at hskip ⊢
      exact hskip

theorem length_next (st : ParseState) : st.next.memory.length = st.memory.length := by
  have hlength : (mountNextField st.memory st.line st.field).1.length = st.memory.length := by
    unfold mountNextField
    split
    · exact length_strtokR _ _ _
    · split
      · exact length_strtokR _ _ _
      · exact length_strtokR _ _ _
  exact hlength

theorem length_le_optionalText (fields : List Bytes) : fields.length ≤ (optionalText fields).length := by
  induction fields with
  | nil => exact Nat.zero_le _
  | cons field fields ih =>
    simp only [optionalText, List.flatMap_cons, List.length_append, List.length_cons, List.length_nil] at ih ⊢
    omega

theorem parseFields_succ {fuel current : Nat} {st st' : ParseState} (hcurrent : st.current = some current)
    (hfield : st.field ≤ MountFieldMax) (hparse : parseField st current = .ok st') :
    parseFields (fuel + 1) st = parseFields fuel (ParseState.next { st' with field := st'.field + 1 }) := by
  rw [parseFields]
  simp only [hcurrent, if_neg (Nat.not_lt.mpr hfield), hparse]
  rfl

theorem parseFields_optional {fields : List Bytes}
    (hfields : ∀ field ∈ fields, (∀ c ∈ field, c ≠ 0 ∧ c ≠ 32) ∧ field ≠ ascii "-") {token : Bytes}
    (hne : token ≠ []) (htoken : ∀ c ∈ token, c ≠ 0 ∧ c ≠ 32) (fuel : Nat) (done options rest : Bytes)
    (entry : MountEntry) :
    ∃ skipped, parseFields (fuel + 2) (stateAt done options
        (optionalText fields ++ (token ++ 32 :: rest)) MountFieldMountOptions entry) =
      parseFields fuel (stateAt (done ++ options ++ [0] ++ skipped) token rest MountFieldFileSystemType
        { entry with MountOptions := done.length }) := by
  obtain ⟨st, hst⟩ : ∃ st, st = ParseState.next ⟨done ++ options ++ [0] ++ [] ++
      (optionalText fields ++ (token ++ 32 :: rest)), (done ++ options ++ [0]).length, some done.length,
      MountFieldOptionalFields, { entry with MountOptions := done.length }⟩ := ⟨_, rfl⟩
  have hfield : st.field = MountFieldOptionalFields := by rw [hst]; rfl
  have hfuel : fields.length < st.memory.length + 1 := by
    rw [hst, length_next]
    have := length_le_optionalText fields
    simp only [List.length_append]
    omega
  obtain ⟨skipped, hyphen, hskip⟩ := skipOptionalFields_eq hfields (List.forall_mem_nil _)
    (done ++ options ++ [0]) (token ++ 32 :: rest) (some done.length)
    { entry with MountOptions := done.length } hfuel
  rw [← hst] at hskip
  refine ⟨skipped, ?_⟩
  have hfirst : parseFields (fuel + 2) (stateAt done options
      (optionalText fields ++ (token ++ 32 :: rest)) MountFieldMountOptions entry) =
        parseFields (fuel + 1) st := by
    have hparse : parseField (stateAt done options (optionalText fields ++ (token ++ 32 :: rest))
        MountFieldMountOptions entry) done.length = .ok (stateAt done options
          (optionalText fields ++ (token ++ 32 :: rest)) MountFieldMountOptions
            { entry with MountOptions := done.length }) := rfl
    rw [parseFields_succ rfl (show MountFieldMountOptions ≤ MountFieldMax by decide) hparse, hst,
      List.append_nil]
    rfl
  rw [hfirst]
  cases hcurrent : st.current with
  | none =>
    rw [skipOptionalFields, hcurrent] at hskip
    have hst' := congrArg ParseState.current (Option.some.inj hskip)
    rw [hcurrent] at hst'
    cases hst'
  | some current =>
    have hparse : parseField st current = .ok ⟨done ++ options ++ [0] ++ skipped ++ (token ++ 32 :: rest),
        (done ++ options ++ [0] ++ skipped).length, some hyphen, MountFieldOptionalFields,
        { entry with MountOptions := done.length }⟩ := by
      unfold parseField
      simp only [hfield, hskip]
      rfl
    rw [parseFields_succ hcurrent (by rw [hfield]; decide) hparse]
    have hnext := next_word (show MountFieldFileSystemType < MountFieldMax by decide) (List.forall_mem_nil _)
      hne htoken (done ++ options ++ [0] ++ skipped) rest (some hyphen)
      { entry with MountOptions := done.length }
    rw [List.append_nil] at hnext
    exact congrArg (parseFields fuel) hnext

theorem next_last {text : Bytes} (hne : text ≠ []) (htext : ∀ c ∈ text, c ≠ 0 ∧ c ≠ 10) (newline : Bool)
    (done after : Bytes) (current : Option Nat) (entry : MountEntry) :
    ∃ after' line,
      ParseState.next ⟨done ++ (text ++ lineEnd newline after), done.length, current, MountFieldSuperOptions,
        entry⟩ = ⟨done ++ text ++ [0] ++ after', line, some done.length, MountFieldSuperOptions, entry⟩ ∧
      ∀ current entry,
        ParseState.next ⟨done ++ text ++ [0] ++ after', line, current, MountFieldMax + 1, entry⟩ =
          ⟨done ++ text ++ [0] ++ after', line, none, MountFieldMax + 1, entry⟩ := by
  have hword : ∀ c ∈ text, c ≠ 0 ∧ isLineEnd c = false := fun c hc =>
    ⟨(htext c hc).1, decide_eq_false (htext c hc).2⟩
  cases newline with
  | true =>
    have hfound := @strtokR_token isLineEnd done [] text (0 :: after) rfl (List.forall_mem_nil _) hne hword
      10 rfl
    have hend := @strtokR_end isLineEnd (done ++ text ++ [0]) [] after rfl (List.forall_mem_nil _)
    rw [List.append_nil] at hfound hend
    have hmemory : done ++ text ++ 0 :: 0 :: after = done ++ text ++ [0] ++ 0 :: after := by simp
    have hline : (done ++ text).length + 1 = (done ++ text ++ [0]).length := by
      simp only [List.length_append, List.length_singleton]
    have hstart : done ++ (text ++ lineEnd true after) = done ++ text ++ 10 :: 0 :: after := by
      simp [lineEnd]
    rw [hmemory, hline] at hfound
    refine ⟨0 :: after, (done ++ text ++ [0]).length, ?_, fun current entry => ?_⟩
    · have hnext : mountNextField (done ++ text ++ 10 :: 0 :: after) done.length
        MountFieldSuperOptions = _ := hfound
      rw [hstart, ParseState.next, hnext]
    · have hnext : mountNextField (done ++ text ++ [0] ++ 0 :: after) (done ++ text ++ [0]).length
        (MountFieldMax + 1) = _ := hend
      rw [ParseState.next, hnext]
  | false =>
    have hfound := @strtokR_last isLineEnd done text after hne hword
    have hend := @strtokR_end isLineEnd (done ++ text) [] after rfl (List.forall_mem_nil _)
    rw [List.append_nil] at hend
    have hmemory : done ++ text ++ 0 :: after = done ++ text ++ [0] ++ after := by simp
    have hstart : done ++ (text ++ lineEnd false after) = done ++ text ++ [0] ++ after := by simp [lineEnd]
    rw [hmemory] at hfound hend
    refine ⟨after, (done ++ text).length, ?_, fun current entry => ?_⟩
    · have hnext : mountNextField (done ++ text ++ [0] ++ after) done.length
        MountFieldSuperOptions = _ := hfound
      rw [hstart, ParseState.next, hnext]
    · have hnext : mountNextField (done ++ text ++ [0] ++ after) (done ++ text).length
        (MountFieldMax + 1) = _ := hend
      rw [ParseState.next, hnext]

theorem next_empty (newline : Bool) (done after : Bytes) (current : Option Nat) (entry : MountEntry) :
    (ParseState.next ⟨done ++ lineEnd newline after, done.length, current, MountFieldSuperOptions,
      entry⟩).current = none := by
  have hgap : ∀ c ∈ (if newline then [10] else [] : Bytes), isLineEnd c = true := by
    cases newline with
    | true => decide
    | false => exact List.forall_mem_nil _
  have hend := @strtokR_end isLineEnd done (if newline then [10] else []) after rfl hgap
  rw [List.append_assoc] at hend
  have hnext : mountNextField (done ++ lineEnd newline after) done.length MountFieldSuperOptions = _ := hend
  rw [ParseState.next, hnext]

/-! ## The entry of a line -/

theorem escapeName_plain (name : Name) :
    escapeName name.bytes ≠ [] ∧ ∀ c ∈ escapeName name.bytes, c ≠ 0 ∧ c ≠ 32 := by
  have hchar : ∀ c : UInt8, c ≠ 0 → ∀ d ∈ escapeChar c, d ≠ 0 ∧ d ≠ 32 := by
    intro c hc d hd
    unfold escapeChar at hd
    split at hd
    · next hescape =>
      have hoctal : ∀ d ∈ octalEscape c, d ≠ 0 ∧ d ≠ 32 := by
        rcases needsEscape_iff.mp hescape with rfl | rfl | rfl | rfl
        · decide
        · decide
        · decide
        · decide
      exact hoctal d hd
    · next hplain =>
      obtain rfl := List.mem_singleton.mp hd
      refine ⟨hc, ?_⟩
      rintro rfl
      exact hplain rfl
  refine ⟨?_, fun d hd => ?_⟩
  · intro hnil
    have hlength := length_le_escapeName name.bytes
    rw [hnil] at hlength
    exact name.nonempty (List.length_eq_zero_iff.mp (Nat.le_zero.mp hlength))
  · obtain ⟨c, hc, hd⟩ := List.mem_flatMap.mp hd
    refine hchar c ?_ d hd
    rintro rfl
    exact name.plain hc

theorem atoi_stateAt {n : Int} (h : IsInt n) (done rest : Bytes) :
    atoi (done ++ decimal n ++ [0] ++ rest) done.length = n := by
  have hread := atoi_decimal h.1 h.2 (rfl : isDecDigit 0 = false) done rest
  rwa [List.append_assoc, List.singleton_append]

theorem parseField_id {n : Int} (h : IsInt n) (done rest : Bytes) (entry : MountEntry) :
    parseField (stateAt done (decimal n) rest MountFieldId entry) done.length =
      .ok (stateAt done (decimal n) rest MountFieldId { entry with Id := n }) := by
  have hread := atoi_stateAt h done rest
  have hparse : parseField (stateAt done (decimal n) rest MountFieldId entry) done.length =
      .ok (stateAt done (decimal n) rest MountFieldId
        { entry with Id := atoi (done ++ decimal n ++ [0] ++ rest) done.length }) := rfl
  rw [hparse, hread]

theorem parseField_parentId {n : Int} (h : IsInt n) (done rest : Bytes) (entry : MountEntry) :
    parseField (stateAt done (decimal n) rest MountFieldParentId entry) done.length =
      .ok (stateAt done (decimal n) rest MountFieldParentId { entry with ParentId := n }) := by
  have hread := atoi_stateAt h done rest
  have hparse : parseField (stateAt done (decimal n) rest MountFieldParentId entry) done.length =
      .ok (stateAt done (decimal n) rest MountFieldParentId
        { entry with ParentId := atoi (done ++ decimal n ++ [0] ++ rest) done.length }) := rfl
  rw [hparse, hread]

theorem parseField_device {major minor : Int} (hmajor : IsInt major) (hminor : IsInt minor)
    (done rest : Bytes) (entry : MountEntry) :
    parseField (stateAt done (decimal major ++ 58 :: decimal minor) rest MountFieldDevice entry) done.length =
      .ok { stateAt done (decimal major ++ 0 :: decimal minor) rest MountFieldDevice
              { entry with Device := makedev major minor, Root := done.length } with
            line := (done ++ (decimal major ++ 58 :: decimal minor) ++ [0]).length } := by
  have hdevice := mountParseDevice_eq hmajor hminor done rest
  unfold parseField
  simp only [stateAt, hdevice]
  rfl

theorem parseField_root (done token rest : Bytes) (entry : MountEntry) :
    parseField (stateAt done token rest MountFieldRoot entry) done.length =
      .ok (stateAt done token rest MountFieldRoot { entry with Root := done.length }) := rfl

theorem parseField_mountPoint (done token rest : Bytes) (entry : MountEntry) :
    parseField (stateAt done token rest MountFieldMountPoint entry) done.length =
      .ok (stateAt done token rest MountFieldMountPoint { entry with MountPoint := done.length }) := rfl

theorem parseField_fileSystemType (done token rest : Bytes) (entry : MountEntry) :
    parseField (stateAt done token rest MountFieldFileSystemType entry) done.length =
      .ok (stateAt done token rest MountFieldFileSystemType { entry with FileSystemType := done.length }) := rfl

/-- What an entry has of a mount, when the loop has come to the source: the numbers, and strings in the part of
the memory that is done, one behind the other. -/
structure Located (done : Bytes) (entry : MountEntry) (m : Mount) : Prop where
  id : entry.Id = m.id
  parentId : entry.ParentId = m.parentId
  device : entry.Device = makedev m.major m.minor
  root : HoldsAt done entry.Root (escapeName m.root.bytes)
  mountPoint : HoldsAt done entry.MountPoint (escapeName m.mountPoint.bytes)
  options : HoldsAt done entry.MountOptions m.options.bytes
  fileSystemType : HoldsAt done entry.FileSystemType m.fileSystemType.bytes
  root_le : entry.Root + ((escapeName m.root.bytes).length + 1) ≤ entry.MountPoint
  mountPoint_le : entry.MountPoint + ((escapeName m.mountPoint.bytes).length + 1) ≤ entry.MountOptions
  options_le : entry.MountOptions + (m.options.bytes.length + 1) ≤ entry.FileSystemType

theorem parseFields_front (m : Mount) (fuel : Nat) (rest : Bytes) (entry : MountEntry) :
    ∃ done entry', parseFields (fuel + 8) (ParseState.next ⟨m.fields rest, 0, none, MountFieldId, entry⟩) =
        parseFields fuel (stateAt done (escapeName m.source.bytes) rest MountFieldSource entry') ∧
      Located done entry' m := by
  have hid := m.ints m.id (by simp)
  have hparent := m.ints m.parentId (by simp)
  have hmajor := m.ints m.major (by simp)
  have hminor := m.ints m.minor (by simp)
  obtain ⟨hrootNe, hrootPlain⟩ := escapeName_plain m.root
  obtain ⟨hpointNe, hpointPlain⟩ := escapeName_plain m.mountPoint
  obtain ⟨hsourceNe, hsourcePlain⟩ := escapeName_plain m.source
  have hdeviceNe : decimal m.major ++ 58 :: decimal m.minor ≠ [] := by simp
  have hstart : ParseState.next ⟨m.fields rest, 0, none, MountFieldId, entry⟩ =
      stateAt [] (decimal m.id) _ MountFieldId entry :=
    next_word (by decide) (List.forall_mem_nil _) (decimal_chars m.id).1 (decimal_plain m.id) [] _ none entry
  rw [hstart,
    parseFields_word (show MountFieldId + 1 = MountFieldParentId from rfl) (by decide)
      (decimal_chars m.parentId).1 (decimal_plain m.parentId) (parseField_id hid _ _ _) rfl,
    parseFields_word (show MountFieldParentId + 1 = MountFieldDevice from rfl) (by decide) hdeviceNe
      (device_plain m.major m.minor) (parseField_parentId hparent _ _ _) rfl,
    parseFields_word (show MountFieldDevice + 1 = MountFieldRoot from rfl) (by decide) hrootNe
      hrootPlain (parseField_device hmajor hminor _ _ _) (by simp),
    parseFields_word (show MountFieldRoot + 1 = MountFieldMountPoint from rfl) (by decide) hpointNe
      hpointPlain (parseField_root _ _ _ _) rfl,
    parseFields_word (show MountFieldMountPoint + 1 = MountFieldMountOptions from rfl) (by decide)
      m.options.nonempty m.options.plain (parseField_mountPoint _ _ _ _) rfl]
  obtain ⟨skipped, hoptional⟩ := parseFields_optional m.optional_plain m.fileSystemType.nonempty
    m.fileSystemType.plain (fuel + 1) _ m.options.bytes (escapeName m.source.bytes ++ 32 :: rest) _
  rw [hoptional, parseFields_word (show MountFieldFileSystemType + 1 = MountFieldSource from rfl) (by decide)
    hsourceNe hsourcePlain (parseField_fileSystemType _ _ _ _) rfl]
  -- each string was the last one of what was done when it was found
  refine ⟨_, _, rfl, rfl, rfl, rfl, ?_, ?_, ?_, ?_, ?_, ?_, ?_⟩
  · dsimp only
    exact (((((((HoldsAt.at_end _ _).append _).append _).append _).append _).append _).append _).append _
  · dsimp only
    exact (((((HoldsAt.at_end _ _).append _).append _).append _).append _).append _
  · dsimp only
    exact (((HoldsAt.at_end _ _).append _).append _).append _
  · dsimp only
    exact HoldsAt.at_end _ _
  · simp only [List.length_append, List.length_singleton]
    omega
  · simp only [List.length_append, List.length_singleton]
    omega
  · simp only [List.length_append, List.length_singleton]
    omega

theorem parseFields_back {text : Bytes} (hne : text ≠ []) (htext : ∀ c ∈ text, c ≠ 0 ∧ c ≠ 10)
    (newline : Bool) (fuel : Nat) (done source after : Bytes) (entry : MountEntry) :
    ∃ after' line, parseFields (fuel + 3)
        (stateAt done source (text ++ lineEnd newline after) MountFieldSource entry) =
      .ok ⟨done ++ source ++ [0] ++ text ++ [0] ++ after', line, none, MountFieldMax + 1,
        { entry with Source := done.length, SuperOptions := (done ++ source ++ [0]).length }⟩ := by
  obtain ⟨after', line, hlast, hend⟩ := next_last hne htext newline (done ++ source ++ [0]) after
    (some done.length) { entry with Source := done.length }
  refine ⟨after', line, ?_⟩
  have hsource : parseField (stateAt done source (text ++ lineEnd newline after) MountFieldSource entry)
      done.length = .ok (stateAt done source (text ++ lineEnd newline after) MountFieldSource
        { entry with Source := done.length }) := rfl
  have hnext : ParseState.next
      { stateAt done source (text ++ lineEnd newline after) MountFieldSource
          { entry with Source := done.length } with field := MountFieldSource + 1 } = _ := hlast
  have hsuper : parseField ⟨done ++ source ++ [0] ++ text ++ [0] ++ after', line,
      some (done ++ source ++ [0]).length, MountFieldSuperOptions, { entry with Source := done.length }⟩
      (done ++ source ++ [0]).length =
        .ok ⟨done ++ source ++ [0] ++ text ++ [0] ++ after', line, some (done ++ source ++ [0]).length,
          MountFieldSuperOptions,
          { entry with Source := done.length, SuperOptions := (done ++ source ++ [0]).length }⟩ := rfl
  rw [parseFields_succ rfl (show MountFieldSource ≤ MountFieldMax by decide) hsource]
  have hround := @parseFields_succ (fuel + 1) _ _ _ rfl
    (show MountFieldSuperOptions ≤ MountFieldMax by decide) hsuper
  have hstop := hend (some (done ++ source ++ [0]).length)
    { entry with Source := done.length, SuperOptions := (done ++ source ++ [0]).length }
  calc parseFields (fuel + 2) _ = parseFields (fuel + 2) _ := congrArg (parseFields (fuel + 2)) hnext
    _ = parseFields (fuel + 1) _ := hround
    _ = parseFields (fuel + 1) _ := congrArg (parseFields (fuel + 1)) hstop
    _ = _ := rfl

theorem parseFields_missing (newline : Bool) (fuel : Nat) (done source after : Bytes) (entry : MountEntry) :
    ∃ st, parseFields (fuel + 2) (stateAt done source (lineEnd newline after) MountFieldSource entry) = .ok st ∧
      st.field = MountFieldSuperOptions := by
  obtain ⟨st, hst⟩ : ∃ st, st = ParseState.next ⟨done ++ source ++ [0] ++ lineEnd newline after,
    (done ++ source ++ [0]).length, some done.length, MountFieldSuperOptions,
    { entry with Source := done.length }⟩ := ⟨_, rfl⟩
  have hcurrent : st.current = none := by
    rw [hst]
    exact next_empty _ _ _ _ _
  have hsource : parseField (stateAt done source (lineEnd newline after) MountFieldSource entry) done.length =
      .ok (stateAt done source (lineEnd newline after) MountFieldSource
        { entry with Source := done.length }) := rfl
  refine ⟨st, ?_, by rw [hst]; rfl⟩
  have hstop : parseFields (fuel + 1) st = .ok st := by
    rw [parseFields]
    simp only [hcurrent]
  rw [parseFields_succ rfl (show MountFieldSource ≤ MountFieldMax by decide) hsource, ← hstop, hst]
  rfl

/-! ## Whole lines -/

theorem Located.decode {done more : Bytes} {entry : MountEntry} {m : Mount} (h : Located done entry m)
    (hsource : HoldsAt (done ++ more) entry.Source (escapeName m.source.bytes))
    (hsource_le : done.length ≤ entry.Source)
    (hsuper : HoldsAt (done ++ more) entry.SuperOptions m.superOptions)
    (hsuper_le : entry.Source + ((escapeName m.source.bytes).length + 1) ≤ entry.SuperOptions) :
    ∃ first second third, mountFieldUnescape (done ++ more) entry.Root = some first ∧
      mountFieldUnescape first entry.Source = some second ∧
      mountFieldUnescape second entry.MountPoint = some third ∧ Describes third entry m := by
  have hroot_le := h.root_le
  have hpoint_le := h.mountPoint_le
  have hoptions_le := h.options_le
  have htype_le := h.fileSystemType.end_le
  have hrootLength := length_le_escapeName m.root.bytes
  have hsourceLength := length_le_escapeName m.source.bytes
  have hpointLength := length_le_escapeName m.mountPoint.bytes
  obtain ⟨first, hfirst, hroot1, hkeeps1⟩ := mountFieldUnescape_spec m.root.plain (h.root.append more)
  have hpoint1 := (h.mountPoint.append more).keeps_beside hkeeps1 (Or.inr hroot_le)
  have hoptions1 := (h.options.append more).keeps_beside hkeeps1 (Or.inr (by omega))
  have htype1 := (h.fileSystemType.append more).keeps_beside hkeeps1 (Or.inr (by omega))
  have hsource1 := hsource.keeps_beside hkeeps1 (Or.inr (by omega))
  have hsuper1 := hsuper.keeps_beside hkeeps1 (Or.inr (by omega))
  obtain ⟨second, hsecond, hsource2, hkeeps2⟩ := mountFieldUnescape_spec m.source.plain hsource1
  have hroot2 := hroot1.keeps_beside hkeeps2 (Or.inl (by omega))
  have hpoint2 := hpoint1.keeps_beside hkeeps2 (Or.inl (by omega))
  have hoptions2 := hoptions1.keeps_beside hkeeps2 (Or.inl (by omega))
  have htype2 := htype1.keeps_beside hkeeps2 (Or.inl (by omega))
  have hsuper2 := hsuper1.keeps_beside hkeeps2 (Or.inr hsuper_le)
  obtain ⟨third, hthird, hpoint3, hkeeps3⟩ := mountFieldUnescape_spec m.mountPoint.plain hpoint2
  have hroot3 := hroot2.keeps_beside hkeeps3 (Or.inl (by omega))
  have hoptions3 := hoptions2.keeps_beside hkeeps3 (Or.inr hpoint_le)
  have htype3 := htype2.keeps_beside hkeeps3 (Or.inr (by omega))
  have hsource3 := hsource2.keeps_beside hkeeps3 (Or.inr (by omega))
  have hsuper3 := hsuper2.keeps_beside hkeeps3 (Or.inr (by omega))
  have hword : ∀ word : Word, 0 ∉ word.bytes := fun word hmem => (word.plain 0 hmem).1 rfl
  refine ⟨first, second, third, hfirst, hsecond, hthird, h.id, h.parentId, h.device, ?_, ?_,
    hroot3.cString_eq m.root.plain, hpoint3.cString_eq m.mountPoint.plain,
    hoptions3.cString_eq (hword m.options), htype3.cString_eq (hword m.fileSystemType),
    hsource3.cString_eq m.source.plain, hsuper3.cString_eq fun hmem => (m.super_plain 0 hmem).1 rfl⟩
  · rw [h.device]
    exact majorOf_makedev (m.ints m.major (by simp)) m.minor
  · rw [h.device]
    exact minorOf_makedev m.major (m.ints m.minor (by simp))

/-- The line of a mount gives the mount, if there are super options. -/
theorem mountParseMountInfoLine_spec (m : Mount) (hsuper : m.superOptions ≠ []) (newline : Bool) (after : Bytes)
    (entry : MountEntry) :
    ∃ memory entry', mountParseMountInfoLine (m.memory newline after) 0 entry = some (0, memory, entry') ∧
      Describes memory entry' m := by
  obtain ⟨done, middle, hfront, hlocated⟩ := parseFields_front m 3 (m.superOptions ++ lineEnd newline after)
    entry
  obtain ⟨after', line, hback⟩ := parseFields_back hsuper m.super_plain newline 0 done
    (escapeName m.source.bytes) after middle
  have hloop := hfront.trans hback
  have hsplit : done ++ escapeName m.source.bytes ++ [0] ++ m.superOptions ++ [0] ++ after' =
      done ++ (escapeName m.source.bytes ++ [0] ++ m.superOptions ++ [0] ++ after') := by simp
  have hsourceAt := (((HoldsAt.at_end done (escapeName m.source.bytes)).append m.superOptions).append
    [0]).append after'
  have hsuperAt := (HoldsAt.at_end (done ++ escapeName m.source.bytes ++ [0]) m.superOptions).append after'
  rw [hsplit] at hsourceAt hsuperAt hloop
  have hentry : ∀ source superOptions : Nat,
      Located done { middle with Source := source, SuperOptions := superOptions } m := fun _ _ =>
    ⟨hlocated.id, hlocated.parentId, hlocated.device, hlocated.root, hlocated.mountPoint, hlocated.options,
      hlocated.fileSystemType, hlocated.root_le, hlocated.mountPoint_le, hlocated.options_le⟩
  obtain ⟨first, second, third, hfirst, hsecond, hthird, hdescribes⟩ := (hentry _ _).decode hsourceAt
    (Nat.le_refl _) hsuperAt (by simp only [List.length_append, List.length_singleton]; omega)
  refine ⟨third, _, ?_, hdescribes⟩
  have hfields : ¬ MountFieldMax + 1 ≤ MountFieldMax := by decide
  change parseFields (MountFieldMax + 2)
    (ParseState.next ⟨m.memory newline after, 0, none, 0, entry⟩) = _ at hloop
  unfold mountParseMountInfoLine
  simp only [hloop, if_neg hfields, hfirst, hsecond, hthird, Option.bind_eq_bind, Option.bind_some,
    Option.pure_def]

theorem name_plain {bytes : Bytes} (h : bytes.all (· ≠ 0) = true) : 0 ∉ bytes := by
  intro hmem
  exact absurd rfl (of_decide_eq_true (List.all_eq_true.mp h 0 hmem))

theorem word_plain {bytes : Bytes} (h : bytes.all (fun c => c ≠ 0 ∧ c ≠ 32) = true) :
    ∀ c ∈ bytes, c ≠ 0 ∧ c ≠ 32 := fun c hmem => of_decide_eq_true (List.all_eq_true.mp h c hmem)

theorem share_ints : ∀ n ∈ [(22 : Int), 1, 8, 300], IsInt n := by
  simp [IsInt]

theorem share_optional : ∀ field ∈ [ascii "shared:1", ascii "master:2"],
    (∀ c ∈ field, c ≠ 0 ∧ c ≠ 32) ∧ field ≠ ascii "-" := by
  intro field hmem
  rcases List.mem_pair.mp hmem with rfl | rfl
  · exact ⟨word_plain rfl, by decide⟩
  · exact ⟨word_plain rfl, by decide⟩

theorem share_super : ∀ c ∈ ascii "rw,aname=drvfs;path=C:\\my files", c ≠ 0 ∧ c ≠ 10 := by
  decide

/-- A share of a drive, with a digit behind a backslash in its source. -/
def share : Mount where
  id := 22
  parentId := 1
  major := 8
  minor := 300
  root := ⟨ascii "/", by decide, name_plain rfl⟩
  mountPoint := ⟨ascii "/mnt/my files", by decide, name_plain rfl⟩
  options := ⟨ascii "rw,noatime", by decide, word_plain rfl⟩
  optionalFields := [ascii "shared:1", ascii "master:2"]
  fileSystemType := ⟨ascii "9p", by decide, word_plain rfl⟩
  source := ⟨ascii "C:\\1 2", by decide, name_plain rfl⟩
  superOptions := ascii "rw,aname=drvfs;path=C:\\my files"
  ints := share_ints
  optional_plain := share_optional
  super_plain := share_super

def emptyEntry : MountEntry := ⟨0, 0, 0, 0, 0, 0, 0, 0, 0⟩

theorem mountParseMountInfoLine_share :
    ∃ memory entry, mountParseMountInfoLine (share.memory true []) 0 emptyEntry = some (0, memory, entry) ∧
      Describes memory entry share :=
  mountParseMountInfoLine_spec share (by decide) true [] emptyEntry

theorem mountParseMountInfoLine_missing (m : Mount) (hsuper : m.superOptions = []) (newline : Bool)
    (after : Bytes) (entry : MountEntry) :
    ∃ memory entry', mountParseMountInfoLine (m.memory newline after) 0 entry = some (-1, memory, entry') := by
  obtain ⟨done, middle, hfront, -⟩ := parseFields_front m 3 (lineEnd newline after) entry
  obtain ⟨st, hmissing, hfield⟩ := parseFields_missing newline 1 done (escapeName m.source.bytes) after middle
  have hmemory : m.memory newline after = m.fields (lineEnd newline after) := by
    rw [Mount.memory, hsuper, List.nil_append]
  have hloop : parseFields (MountFieldMax + 2) (ParseState.next ⟨m.memory newline after, 0, none, 0, entry⟩) =
      .ok st := by
    rw [hmemory]
    exact hfront.trans hmissing
  have hle : st.field ≤ MountFieldMax := by
    rw [hfield]
    decide
  refine ⟨st.memory, st.entry, ?_⟩
  unfold mountParseMountInfoLine
  simp only [hloop, if_pos hle]

theorem no_super : ∀ c ∈ ([] : Bytes), c ≠ 0 ∧ c ≠ 10 := List.forall_mem_nil _

def bareShare : Mount := { share with superOptions := [], super_plain := no_super }

/-- Not every mount is recovered from its line. -/
theorem bareShare_not_recovered :
    ¬ ∀ (m : Mount) (newline : Bool) (after : Bytes) (entry : MountEntry),
      ∃ memory entry', mountParseMountInfoLine (m.memory newline after) 0 entry = some (0, memory, entry') ∧
        Describes memory entry' m := by
  intro hall
  obtain ⟨memory, entry, hfound, -⟩ := hall bareShare true [] emptyEntry
  obtain ⟨memory', entry', hmissing⟩ := mountParseMountInfoLine_missing bareShare rfl true [] emptyEntry
  rw [hmissing] at hfound
  have hresult : (-1 : Int) = 0 := congrArg Prod.fst (Option.some.inj hfound)
  exact absurd hresult (by decide)

end WslFreeBSD.Translation.MountInfo
