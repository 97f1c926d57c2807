import WslFreeBSD.Lib.Access
import WslFreeBSD.Bridge.Session
import WslFreeBSD.Hvinit.EventLoop
import WslFreeBSD.Interop.CreateNtProcess

/-!
# Strings selected by an offset

Seven handlers take strings out of the buffer at the end of a message by an offset the message
carries. Here each of them is the code that reads the message, as an `Access` over a memory in which
the message comes first: which bytes it reads, and the strings it gets.

All of them check the offset against the size of the buffer. The strings themselves are read up to
their NUL, by `%s`, `fputs` or `strdup`; only the argument and environment vectors of
`parse_create_process_info` are cut off at the end of the message. So a handler stays inside the
message exactly if every string it selects is terminated there (`reads_inside_iff`), and then it
gets what the models of the handlers say (`readTimezone_value` and its neighbours).
-/

namespace WslFreeBSD.Memory

open Lib Lib.Access Protocol

/-! ## The handlers -/

/-- `(offset < buf_size) ? Buffer + offset : ...`, and the string there; `Buffer` starts at
`fixed` and ends with the message of `n` bytes. -/
def bufferString (n fixed offset : Nat) : Access (Option Bytes) :=
  if offset < n - fixed then do
    let s ← string (fixed + offset)
    pure (some s)
  else pure none

/-- `gns_handle_network_information`: the header and the contents. Both are printed. -/
def readNetworkInformation (n : Nat) : Access (Option (Option Bytes × Option Bytes)) :=
  if n ≤ 20 then pure none
  else do
    let fileHeaderIndex ← field 12 4
    let fileHeader ← bufferString n 20 fileHeaderIndex
    let fileContentsIndex ← field 16 4
    let fileContents ← bufferString n 20 fileContentsIndex
    pure (some (fileHeader, fileContents))

/-- `timezone_handle_message`: the zone. -/
def readTimezone (n : Nat) : Access (Option Bytes) :=
  if n < 16 then pure none
  else do
    let tzOffset ← field 12 4
    bufferString n 16 tzOffset

/-- `AddVirtioFsDevice`: the path and the options. -/
def readAddVirtioFsDevice (n : Nat) : Access (Option (Bytes × Bytes)) :=
  if n < 24 then pure none
  else do
    let pathOffset ← field 16 4
    let optionsOffset ← field 20 4
    let path ← bufferString n 24 pathOffset
    let options ← bufferString n 24 optionsOffset
    pure (some (path.getD [], options.getD []))

/-- `RemountVirtioFsDevice`: the tag. -/
def readRemountVirtioFsDevice (n : Nat) : Access (Option Bytes) :=
  if n < 20 then pure none
  else do
    let tagOffset ← field 16 4
    let tag ← bufferString n 20 tagOffset
    pure (some (tag.getD []))

/-- `NetworkInformation` in a session: the contents, if the file could be opened. -/
def readSessionNetworkInformation (resolvOpen : Bool) (n : Nat) : Access (Option Bytes) :=
  if n < 20 then pure none
  else do
    let fileContentsIndex ← field 16 4
    if resolvOpen then bufferString n 20 fileContentsIndex else pure none

/-- `TimezoneInformation` in a session: the zone. -/
def readSessionTimezoneInformation (n : Nat) : Access (Option Bytes) :=
  if n < 16 then pure none
  else do
    let timezoneOffset ← field 12 4
    bufferString n 16 timezoneOffset

/-- The loop over `count` strings from `p` on: each is copied by `strndup` and measured by
`strnlen`, which look at the same bytes. -/
def readPacked : (count p remaining : Nat) → Access (List Bytes)
  | 0, _, _ => pure []
  | count + 1, p, remaining =>
    if remaining = 0 then pure []
    else do
      let s ← bounded p remaining
      if remaining ≤ s.length then pure [s]
      else do
        let rest ← readPacked count (p + (s.length + 1)) (remaining - (s.length + 1))
        pure (s :: rest)

/-- A vector of strings; it is there if the count is not 0 and the array was allocated. -/
def readVector (calloc : Bool) (count offset n : Nat) : Access (Option (List Bytes)) :=
  if 0 < count ∧ offset < n - Interop.commonBufferOffset ∧ calloc then do
    let strings ← readPacked count (Interop.commonBufferOffset + offset)
      (n - Interop.commonBufferOffset - offset)
    pure (some strings)
  else pure none

/-- Which allocations of `parse_create_process_info` succeed: the structure and the two arrays. -/
structure Allocations where
  info : Bool
  argv : Bool
  envp : Bool

/-- `parse_create_process_info`. -/
def readCreateProcessInfo (calloc : Allocations) (n : Nat) :
    Access (Option Interop.CreateProcessInfo) :=
  if n ≤ Interop.commonBufferOffset ∨ ¬ calloc.info then pure none
  else do
    let filenameOffset ← field 16 4
    let filename ← bufferString n Interop.commonBufferOffset filenameOffset
    let currentWorkingDirectoryOffset ← field 20 4
    let cwd ← bufferString n Interop.commonBufferOffset currentWorkingDirectoryOffset
    let commandLineOffset ← field 24 4
    let commandLineCount ← field 28 2
    let argv ← readVector calloc.argv commandLineCount commandLineOffset n
    let environmentOffset ← field 32 4
    let environmentCount ← field 36 2
    let envp ← readVector calloc.envp environmentCount environmentOffset n
    pure (some { filename := filename, cwd := cwd, argv := argv, envp := envp })

/-- The handlers; what they do with files and allocations is a parameter. -/
inductive Handler
  | networkInformation
  | timezone
  | addVirtioFsDevice
  | remountVirtioFsDevice
  | sessionNetworkInformation (resolvOpen : Bool)
  | sessionTimezoneInformation
  | createProcess (calloc : Allocations)

/-- The addresses a handler reads, for a message of `n` bytes. -/
def Handler.reads (n : Nat) (m : Bytes) : Handler → List Nat
  | .networkInformation => ((readNetworkInformation n).run m).2
  | .timezone => ((readTimezone n).run m).2
  | .addVirtioFsDevice => ((readAddVirtioFsDevice n).run m).2
  | .remountVirtioFsDevice => ((readRemountVirtioFsDevice n).run m).2
  | .sessionNetworkInformation resolvOpen => ((readSessionNetworkInformation resolvOpen n).run m).2
  | .sessionTimezoneInformation => ((readSessionTimezoneInformation n).run m).2
  | .createProcess calloc => ((readCreateProcessInfo calloc n).run m).2

/-! ## The strings selected -/

/-- Offsets into the buffer, as offsets into the message. -/
def inBuffer (n fixed : Nat) (offsets : List Nat) : List Nat :=
  (offsets.filter (· < n - fixed)).map (fixed + ·)

/-- Where the strings start that a handler reads up to their NUL. -/
def Handler.selected (msg : Bytes) : Handler → List Nat
  | .networkInformation => inBuffer msg.length 20 [leAt 12 4 msg, leAt 16 4 msg]
  | .timezone | .sessionTimezoneInformation => inBuffer msg.length 16 [leAt 12 4 msg]
  | .addVirtioFsDevice => inBuffer msg.length 24 [leAt 16 4 msg, leAt 20 4 msg]
  | .remountVirtioFsDevice => inBuffer msg.length 20 [leAt 16 4 msg]
  | .sessionNetworkInformation resolvOpen =>
    if resolvOpen then inBuffer msg.length 20 [leAt 16 4 msg] else []
  | .createProcess calloc =>
    if calloc.info then
      inBuffer msg.length Interop.commonBufferOffset [leAt 16 4 msg, leAt 20 4 msg]
    else []

/-- Every string a handler selects ends inside the message. -/
def AllTerminated (h : Handler) (msg : Bytes) : Prop := ∀ off ∈ h.selected msg, Terminated msg off

section Terminated

variable {n fixed offset : Nat} {msg : Bytes} {offsets : List Nat}

theorem terminated_inBuffer_cons :
    (∀ off ∈ inBuffer n fixed (offset :: offsets), Terminated msg off) ↔
      (offset < n - fixed → Terminated msg (fixed + offset)) ∧
        ∀ off ∈ inBuffer n fixed offsets, Terminated msg off := by
  unfold inBuffer
  by_cases h : offset < n - fixed <;> simp [h]

theorem terminated_inBuffer_nil : ∀ off ∈ inBuffer n fixed [], Terminated msg off := by
  simp [inBuffer]

theorem inBuffer_of_le (h : n ≤ fixed) : inBuffer n fixed offsets = [] := by
  simp [inBuffer, Nat.sub_eq_zero_of_le h]

end Terminated

/-! ## What stays inside -/

section Inside

variable {α : Type} {msg rest : Bytes} {fixed offset : Nat}

theorem inside_bufferString : (bufferString msg.length fixed offset).Inside (msg ++ rest) msg.length ↔
    (offset < msg.length - fixed → Terminated msg (fixed + offset)) := by
  unfold bufferString
  by_cases h : offset < msg.length - fixed
  · rw [if_pos h, inside_string_bind]
    simp [h, inside_pure]
  · rw [if_neg h]
    simp [h, inside_pure]

/-- The string of an offset, as the models of the handlers have it. -/
def stringAt (msg : Bytes) (fixed offset : Nat) : Option Bytes :=
  if offset < msg.length - fixed then some (cString msg (fixed + offset)) else none

theorem run_bufferString (h : offset < msg.length - fixed → Terminated msg (fixed + offset)) :
    ((bufferString msg.length fixed offset).run (msg ++ rest)).1 = some (stringAt msg fixed offset) := by
  unfold bufferString stringAt
  by_cases hlt : offset < msg.length - fixed
  · rw [if_pos hlt, if_pos hlt, value_bind (run_string (h hlt))]
    rfl
  · rw [if_neg hlt, if_neg hlt]
    rfl

theorem inside_bufferString_bind {f : Option Bytes → Access α} :
    (bufferString msg.length fixed offset >>= f).Inside (msg ++ rest) msg.length ↔
      (offset < msg.length - fixed → Terminated msg (fixed + offset)) ∧
        (f (stringAt msg fixed offset)).Inside (msg ++ rest) msg.length := by
  rw [inside_bind, inside_bufferString]
  refine and_congr_right fun h => ?_
  rw [run_bufferString h]
  simp

theorem readPacked_spec (rest : Bytes) (count : Nat) {p remaining : Nat}
    (h : p + remaining = msg.length) :
    (readPacked count p remaining).Inside (msg ++ rest) msg.length ∧
      ((readPacked count p remaining).run (msg ++ rest)).1 =
        some (Interop.packedStrings count (msg.drop p)) := by
  induction count generalizing p remaining with
  | zero => exact ⟨inside_pure _, rfl⟩
  | succ count ih =>
    have hlength : (msg.drop p).length = remaining := by
      rw [List.length_drop]
      omega
    have hcut : cut msg p remaining = (msg.drop p).takeWhile (· ≠ 0) := by
      rw [cut, ← hlength, List.take_length]
    unfold readPacked Interop.packedStrings
    by_cases hzero : remaining = 0
    · rw [if_pos hzero, if_pos (List.eq_nil_of_length_eq_zero (hlength.trans hzero))]
      exact ⟨inside_pure _, rfl⟩
    · have hne : msg.drop p ≠ [] := fun hnil => hzero (by rw [← hlength, hnil]; rfl)
      rw [if_neg hzero, if_neg hne, inside_bounded_bind h.le, value_bind (run_bounded h.le), hcut]
      dsimp only
      rw [hlength]
      by_cases hle : remaining ≤ ((msg.drop p).takeWhile (· ≠ 0)).length
      · rw [if_pos hle, if_pos hle]
        exact ⟨inside_pure _, rfl⟩
      · -- the string is terminated: the loop goes on behind its NUL
        have hrest : p + (((msg.drop p).takeWhile (· ≠ 0)).length + 1) +
            (remaining - (((msg.drop p).takeWhile (· ≠ 0)).length + 1)) = msg.length := by omega
        obtain ⟨hinside, hrun⟩ := ih hrest
        rw [if_neg hle, if_neg hle, inside_bind, value_bind hrun, ← List.drop_drop]
        exact ⟨⟨hinside, fun a _ => inside_pure _⟩, rfl⟩

theorem readVector_spec (rest : Bytes) (count : Nat) (calloc : Bool) :
    (readVector calloc count offset msg.length).Inside (msg ++ rest) msg.length ∧
      ((readVector calloc count offset msg.length).run (msg ++ rest)).1 =
        some (if 0 < count ∧ offset < msg.length - Interop.commonBufferOffset ∧ calloc then
          some (Interop.packedStrings count ((msg.drop Interop.commonBufferOffset).drop offset))
        else none) := by
  unfold readVector
  split
  next h =>
    have hend : Interop.commonBufferOffset + offset +
        (msg.length - Interop.commonBufferOffset - offset) = msg.length := by omega
    obtain ⟨hinside, hrun⟩ := readPacked_spec rest count hend
    rw [inside_bind, value_bind hrun, List.drop_drop]
    exact ⟨⟨hinside, fun a _ => inside_pure _⟩, rfl⟩
  next => exact ⟨inside_pure _, rfl⟩

theorem inside_readVector_bind {calloc : Bool} {count : Nat} {f : Option (List Bytes) → Access α}
    (h : ∀ a, (f a).Inside (msg ++ rest) msg.length) :
    (readVector calloc count offset msg.length >>= f).Inside (msg ++ rest) msg.length :=
  inside_bind.mpr ⟨(readVector_spec rest count calloc).1, fun a _ => h a⟩

end Inside

/-! ## Each handler -/

section Handlers

variable {msg rest : Bytes}

theorem inside_iff_of_le {α : Type} {a : α} {n fixed : Nat} {offsets : List Nat}
    (h : msg.length ≤ fixed) :
    (pure a : Access α).Inside (msg ++ rest) n ↔
      ∀ off ∈ inBuffer msg.length fixed offsets, Terminated msg off := by
  simp [inside_pure, inBuffer_of_le h]

theorem inside_networkInformation :
    (readNetworkInformation msg.length).Inside (msg ++ rest) msg.length ↔
      AllTerminated .networkInformation msg := by
  unfold readNetworkInformation AllTerminated Handler.selected
  split
  next h => exact inside_iff_of_le h
  next h =>
    rw [inside_field_bind (by omega), inside_bufferString_bind, inside_field_bind (by omega),
      inside_bufferString_bind, terminated_inBuffer_cons, terminated_inBuffer_cons,
      and_iff_left (inside_pure _), and_iff_left terminated_inBuffer_nil]

theorem inside_timezone :
    (readTimezone msg.length).Inside (msg ++ rest) msg.length ↔ AllTerminated .timezone msg := by
  unfold readTimezone AllTerminated Handler.selected
  split
  next h => exact inside_iff_of_le h.le
  next h =>
    rw [inside_field_bind (by omega), inside_bufferString, terminated_inBuffer_cons,
      and_iff_left terminated_inBuffer_nil]

theorem inside_addVirtioFsDevice :
    (readAddVirtioFsDevice msg.length).Inside (msg ++ rest) msg.length ↔
      AllTerminated .addVirtioFsDevice msg := by
  unfold readAddVirtioFsDevice AllTerminated Handler.selected
  split
  next h => exact inside_iff_of_le h.le
  next h =>
    rw [inside_field_bind (by omega), inside_field_bind (by omega), inside_bufferString_bind,
      inside_bufferString_bind, terminated_inBuffer_cons, terminated_inBuffer_cons,
      and_iff_left (inside_pure _), and_iff_left terminated_inBuffer_nil]

theorem inside_remountVirtioFsDevice :
    (readRemountVirtioFsDevice msg.length).Inside (msg ++ rest) msg.length ↔
      AllTerminated .remountVirtioFsDevice msg := by
  unfold readRemountVirtioFsDevice AllTerminated Handler.selected
  split
  next h => exact inside_iff_of_le h.le
  next h =>
    rw [inside_field_bind (by omega), inside_bufferString_bind, terminated_inBuffer_cons,
      and_iff_left (inside_pure _), and_iff_left terminated_inBuffer_nil]

theorem inside_sessionNetworkInformation (resolvOpen : Bool) :
    (readSessionNetworkInformation resolvOpen msg.length).Inside (msg ++ rest) msg.length ↔
      AllTerminated (.sessionNetworkInformation resolvOpen) msg := by
  unfold readSessionNetworkInformation AllTerminated Handler.selected
  dsimp only
  cases resolvOpen with
  | false =>
    split
    next h => simp [inside_pure]
    next h =>
      rw [inside_field_bind (by omega)]
      simp [inside_pure]
  | true =>
    split
    next h => exact inside_iff_of_le h.le
    next h =>
      rw [inside_field_bind (by omega), if_pos rfl, if_pos rfl, inside_bufferString,
        terminated_inBuffer_cons, and_iff_left terminated_inBuffer_nil]

theorem inside_createProcess (calloc : Allocations) :
    (readCreateProcessInfo calloc msg.length).Inside (msg ++ rest) msg.length ↔
      AllTerminated (.createProcess calloc) msg := by
  unfold readCreateProcessInfo AllTerminated Handler.selected
  dsimp only
  cases hinfo : calloc.info with
  | false => simp [inside_pure]
  | true =>
    split
    next h => exact inside_iff_of_le (by simpa using h)
    next h =>
      have hlen : 68 < msg.length := by simpa [Interop.commonBufferOffset] using h
      rw [inside_field_bind (by omega), inside_bufferString_bind, inside_field_bind (by omega),
        inside_bufferString_bind, if_pos rfl, terminated_inBuffer_cons, terminated_inBuffer_cons,
        and_iff_left terminated_inBuffer_nil, ← and_assoc]
      refine and_iff_left ?_
      -- what is left reads fields and the two vectors
      rw [inside_field_bind (by omega), inside_field_bind (by omega)]
      refine inside_readVector_bind fun argv => ?_
      rw [inside_field_bind (by omega), inside_field_bind (by omega)]
      exact inside_readVector_bind fun envp => inside_pure _

/-! ## What is read

When the strings end inside the message, the reads give what the models of the handlers compute from
the message. -/

theorem value_field_bind {α : Type} {off k : Nat} {f : Nat → Access α} (h : off + k ≤ msg.length) :
    ((field off k >>= f).run (msg ++ rest)).1 = ((f (leAt off k msg)).run (msg ++ rest)).1 :=
  value_bind (run_field h) f

theorem value_bufferString_bind {α : Type} {fixed offset : Nat} {f : Option Bytes → Access α}
    (h : offset < msg.length - fixed → Terminated msg (fixed + offset)) :
    ((bufferString msg.length fixed offset >>= f).run (msg ++ rest)).1 =
      ((f (stringAt msg fixed offset)).run (msg ++ rest)).1 :=
  value_bind (run_bufferString h) f

theorem value_readNetworkInformation (hsize : messageSize msg = msg.length) (hlen : 20 < msg.length)
    (h : AllTerminated .networkInformation msg) :
    ((readNetworkInformation msg.length).run (msg ++ rest)).1 =
      some (some (stringAt msg 20 (leAt 12 4 msg), Hvinit.fileContents msg)) := by
  unfold AllTerminated Handler.selected at h
  rw [terminated_inBuffer_cons, terminated_inBuffer_cons] at h
  rw [readNetworkInformation, if_neg (by omega), value_field_bind (by omega),
    value_bufferString_bind h.1, value_field_bind (by omega), value_bufferString_bind h.2.1,
    Hvinit.fileContents, hsize]
  rfl

theorem value_readTimezone (hsize : messageSize msg = msg.length) (h : AllTerminated .timezone msg) :
    ((readTimezone msg.length).run (msg ++ rest)).1 = some (Hvinit.messageTimezone msg) := by
  unfold AllTerminated Handler.selected at h
  rw [terminated_inBuffer_cons] at h
  unfold readTimezone Hvinit.messageTimezone
  rw [hsize]
  by_cases hlen : msg.length < 16
  · rw [if_pos hlen, if_neg (by omega)]
    rfl
  · rw [if_neg hlen, value_field_bind (by omega), run_bufferString h.1, stringAt]
    by_cases hoff : leAt 12 4 msg < msg.length - 16
    · rw [if_pos hoff, if_pos ⟨by omega, hoff⟩]
    · rw [if_neg hoff, if_neg fun hand => hoff hand.2]

theorem getD_stringAt (hsize : messageSize msg = msg.length) (fixed offset : Nat) :
    (stringAt msg fixed offset).getD [] = Hvinit.bufferText msg fixed offset := by
  unfold stringAt Hvinit.bufferText
  rw [hsize]
  split <;> rfl

theorem value_readAddVirtioFsDevice (hsize : messageSize msg = msg.length) (hlen : 24 ≤ msg.length)
    (h : AllTerminated .addVirtioFsDevice msg) :
    ((readAddVirtioFsDevice msg.length).run (msg ++ rest)).1 =
      some (some (Hvinit.bufferText msg 24 (leAt 16 4 msg),
        Hvinit.bufferText msg 24 (leAt 20 4 msg))) := by
  unfold AllTerminated Handler.selected at h
  rw [terminated_inBuffer_cons, terminated_inBuffer_cons] at h
  rw [readAddVirtioFsDevice, if_neg (by omega), value_field_bind (by omega),
    value_field_bind (by omega), value_bufferString_bind h.1, value_bufferString_bind h.2.1,
    getD_stringAt hsize, getD_stringAt hsize]
  rfl

theorem value_readRemountVirtioFsDevice (hsize : messageSize msg = msg.length)
    (hlen : 20 ≤ msg.length) (h : AllTerminated .remountVirtioFsDevice msg) :
    ((readRemountVirtioFsDevice msg.length).run (msg ++ rest)).1 =
      some (some (Hvinit.bufferText msg 20 (leAt 16 4 msg))) := by
  unfold AllTerminated Handler.selected at h
  rw [terminated_inBuffer_cons] at h
  rw [readRemountVirtioFsDevice, if_neg (by omega), value_field_bind (by omega),
    value_bufferString_bind h.1, getD_stringAt hsize]
  rfl

theorem value_readCreateProcessInfo (h : AllTerminated (.createProcess ⟨true, true, true⟩) msg) :
    ((readCreateProcessInfo ⟨true, true, true⟩ msg.length).run (msg ++ rest)).1 =
      some (Interop.parseCreateProcessInfo (some msg)) := by
  unfold AllTerminated Handler.selected at h
  dsimp only at h
  rw [if_pos rfl, terminated_inBuffer_cons, terminated_inBuffer_cons] at h
  unfold readCreateProcessInfo Interop.parseCreateProcessInfo
  by_cases hlen : msg.length ≤ Interop.commonBufferOffset
  · rw [if_pos (.inl hlen)]
    simp only [hlen, if_true, ite_self]
    rfl
  · have hlt : 68 < msg.length := Nat.lt_of_not_le hlen
    have hdrop (offset : Nat) : cString (msg.drop Interop.commonBufferOffset) offset =
        cString msg (Interop.commonBufferOffset + offset) := by
      rw [cString, cString, List.drop_drop]
    have hsmall : ¬ msg.length < Interop.commonBufferOffset := fun hle => hlen hle.le
    rw [if_neg (by simp [hlen])]
    dsimp only
    rw [if_neg hsmall, if_neg hlen, value_field_bind (by omega), value_bufferString_bind h.1,
      value_field_bind (by omega), value_bufferString_bind h.2.1, value_field_bind (by omega),
      value_field_bind (by omega),
      value_bind (readVector_spec rest _ _).2, value_field_bind (by omega),
      value_field_bind (by omega), value_bind (readVector_spec rest _ _).2]
    simp only [hdrop, List.length_drop, stringAt, and_true]
    rfl

/-! ## All of them -/

/-- **A handler reads nothing outside its message exactly if every string it selects by an offset is
terminated inside the message**, whatever is behind the message. -/
theorem reads_inside_iff (h : Handler) (msg rest : Bytes) :
    (∀ j ∈ h.reads msg.length (msg ++ rest), j < msg.length) ↔ AllTerminated h msg := by
  cases h with
  | networkInformation => exact inside_networkInformation
  | timezone => exact inside_timezone
  | addVirtioFsDevice => exact inside_addVirtioFsDevice
  | remountVirtioFsDevice => exact inside_remountVirtioFsDevice
  | sessionNetworkInformation resolvOpen => exact inside_sessionNetworkInformation resolvOpen
  | sessionTimezoneInformation => exact inside_timezone
  | createProcess calloc => exact inside_createProcess calloc

/-- `TimezoneInformation` with the zone `UTC` and no NUL behind it: the session reads on. -/
theorem unterminated_zone_leaves_message :
    ¬ ∀ (h : Handler) (msg rest : Bytes), messageSize msg = msg.length →
      ∀ j ∈ h.reads msg.length (msg ++ rest), j < msg.length := by
  intro hall
  have h := hall .sessionTimezoneInformation
    (header LxInitMessageTimezoneInformation 19 1 ++ leBytes 4 0 ++ ascii "UTC")
    [88, 0] (by decide) 19 (by decide)
  exact absurd h (by decide)

end Handlers

end WslFreeBSD.Memory
