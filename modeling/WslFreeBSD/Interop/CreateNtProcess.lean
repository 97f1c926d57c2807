import WslFreeBSD.Config.Initialize
import WslFreeBSD.Bridge.Session

/-!
# Starting a Windows process from the guest

`wsl-interop` packs a command into a `CreateNtProcessUtilityVm` message
(`build_create_nt_process_message`), the session relays it from the interop socket to the host
(`wsl_interop_relay_message`), and `parse_create_process_info` of the bridge reads messages of
the same type. The two ends declare the layout separately: `Port` on one side is `Rows` and
`Columns` on the other, and the strings start at byte 68 on both.

`createProcess_arrives` is the round trip through all three.

Allocations of `parse_create_process_info` succeed here. A string that is not terminated inside
the message runs on behind it in the source; here it ends with the message.
-/

namespace WslFreeBSD.Interop

open Lib Protocol Config Bridge

/-! ## Building -/

/-- `offsetof(struct LX_INIT_CREATE_NT_PROCESS_UTILITY_VM, Common.Buffer)`, which is also the
offset of `Common.Buffer` in the `LX_INIT_CREATE_PROCESS_UTILITY_VM` of the bridge. -/
def commonBufferOffset : Nat := 68

/-- The fields between the header and the buffer, each `short` followed by its padding. -/
def createNtProcessFields (port filenameOffset currentWorkingDirectoryOffset commandLineOffset
    commandLineCount environmentOffset environmentCount : Nat) : List (Nat × Nat) :=
  [(4, port), (4, filenameOffset), (4, currentWorkingDirectoryOffset), (4, commandLineOffset),
    (2, commandLineCount), (2, 0), (4, environmentOffset), (2, environmentCount), (2, 0),
    -- the NT environment and path, the shell options, the user name, the uid and the flags
    (4, 0), (2, 0), (2, 0), (4, 0), (4, 0), (4, 0), (4, 0), (4, 0)]

/-- `build_create_nt_process_message`; `argv` is the argument vector of `wsl-interop` from
`argv[0]` on. -/
def buildCreateNtProcessMessage (filename : CStr) (argv : List CStr) (port : UInt32) (calloc : Bool) :
    Option Bytes :=
  let args := argv.tail.map Subtype.val
  let filenameLen := filename.val.length + 1
  let cwdLen := 1
  let envLen := 1
  let total := commonBufferOffset + filenameLen + cwdLen + envLen + (args.map (·.length + 1)).sum
  if total > 65536 then none
  else if ¬ calloc then none
  else
    some (header LxInitMessageCreateProcessUtilityVm total 0 ++
      structBytes (createNtProcessFields port.toNat 0 filenameLen (filenameLen + cwdLen + envLen)
        -- `(unsigned short)(argc - 1)`
        ((argv.length + 65535) % 65536) (filenameLen + cwdLen) 0) ++
      terminated ([filename.val, [], []] ++ args))

/-! ## Parsing -/

structure CreateProcessInfo where
  filename : Option Bytes
  cwd : Option Bytes
  argv : Option (List Bytes)
  envp : Option (List Bytes)
  deriving DecidableEq, Repr

/-- At most `count` strings from the front of the rest of the buffer. -/
def packedStrings : Nat → Bytes → List Bytes
  | 0, _ => []
  | count + 1, rest =>
    if rest = [] then []
    else
      let s := rest.takeWhile (· ≠ 0)
      s :: if rest.length ≤ s.length then [] else packedStrings count (rest.drop (s.length + 1))

/-- `parse_create_process_info`. -/
def parseCreateProcessInfo : Option Bytes → Option CreateProcessInfo
  | none => none
  | some msg =>
    if msg.length < commonBufferOffset then none
    else if msg.length ≤ commonBufferOffset then none
    else
      let buffer := msg.drop commonBufferOffset
      let filenameOffset := leAt 16 4 msg
      let currentWorkingDirectoryOffset := leAt 20 4 msg
      let commandLineOffset := leAt 24 4 msg
      let commandLineCount := leAt 28 2 msg
      let environmentOffset := leAt 32 4 msg
      let environmentCount := leAt 36 2 msg
      some {
        filename := if filenameOffset < buffer.length then some (cString buffer filenameOffset) else none
        cwd :=
          if currentWorkingDirectoryOffset < buffer.length then
            some (cString buffer currentWorkingDirectoryOffset)
          else none
        argv :=
          if 0 < commandLineCount ∧ commandLineOffset < buffer.length then
            some (packedStrings commandLineCount (buffer.drop commandLineOffset))
          else none
        envp :=
          if 0 < environmentCount ∧ environmentOffset < buffer.length then
            some (packedStrings environmentCount (buffer.drop environmentOffset))
          else none }

/-! ## Packed strings -/

theorem takeWhile_terminated {s : Bytes} (hs : 0 ∉ s) (l : Bytes) :
    (s ++ 0 :: l).takeWhile (· ≠ 0) = s := by
  have hall : ∀ c ∈ s, decide (c ≠ 0) = true := by
    intro c hc
    exact decide_eq_true fun h0 => hs (h0 ▸ hc)
  rw [List.takeWhile_append_of_pos hall]
  simp

theorem packedStrings_terminated (args : List CStr) :
    packedStrings args.length (terminated (args.map Subtype.val)) = args.map Subtype.val := by
  induction args with
  | nil => rfl
  | cons a args ih =>
    have hne : a.val ++ 0 :: terminated (args.map Subtype.val) ≠ [] := by simp
    have hdrop : (a.val ++ 0 :: terminated (args.map Subtype.val)).drop (a.val.length + 1) =
        terminated (args.map Subtype.val) := by
      rw [List.drop_length_add_append]
      rfl
    rw [List.map_cons, terminated_cons, List.length_cons, packedStrings, if_neg hne,
      takeWhile_terminated a.2]
    dsimp only
    rw [if_neg (by simp), hdrop, ih]

/-! ## The relay -/

/-- The two `recv` calls of `wsl_interop_relay_message` return the bytes of `m`, the allocations
succeed, and so do the sends. -/
structure Carries (conn : LocalConn) (m : Bytes) : Prop where
  header : conn.header = some (m.take headerSize)
  body : conn.body = some (m.drop headerSize)
  mallocBody : conn.mallocBody = true
  mallocFull : conn.mallocFull = true
  sends : (relaySend conn.sends m).2 = true

/-- A `CreateProcessUtilityVm` message of at most 64 KiB is relayed byte by byte. -/
theorem relayMessage_verbatim {conn : LocalConn} {m : Bytes} (h : Carries conn m)
    (hwf : messageFormat.WellFormed m) (hsize : m.length ≤ 65536)
    (htype : messageType m = LxInitMessageCreateProcessUtilityVm) :
    wslInteropRelayMessage conn =
      [.controlWrite (.relayed m) m, .childReply (sequenceNumber m) 0] := by
  have hlen : headerSize ≤ m.length := hwf.1
  have hms : messageSize m = m.length := hwf.2
  have hhdr : (m.take headerSize).length = headerSize := by
    rw [List.length_take, Nat.min_eq_left hlen]
  have hsizeHdr : messageSize (m.take headerSize) = m.length := (leAt_take (by decide)).trans hms
  have htypeHdr : messageType (m.take headerSize) = LxInitMessageCreateProcessUtilityVm :=
    (leAt_take (by decide)).trans htype
  have hseqHdr : sequenceNumber (m.take headerSize) = sequenceNumber m := leAt_take (by decide)
  have htaken : (relaySend conn.sends m).1 = m := (writeLoop_snd_iff _ _).mp h.sends
  have hbody : (if m.length - headerSize = 0 then some []
      else if conn.mallocBody then
        (conn.body.map (·.take (m.length - headerSize))).filter fun b => b.length = m.length - headerSize
      else none) = some (m.drop headerSize) := by
    split
    · rename_i hzero
      rw [List.drop_eq_nil_of_le (by omega)]
    · have htake : (m.drop headerSize).take (m.length - headerSize) = m.drop headerSize :=
        List.take_of_length_le (by simp)
      rw [if_pos h.mallocBody, h.body, Option.map_some, htake]
      simp
  have hfirst : (m.take headerSize).take 12 = m.take headerSize := List.take_of_length_le hhdr.le
  unfold wslInteropRelayMessage
  simp only [h.header, hfirst, hhdr, hsizeHdr, hbody, htypeHdr, h.mallocFull, hseqHdr, if_true,
    List.take_append_drop, htaken, h.sends]
  rw [if_neg]
  simp only [headerSize] at hlen ⊢
  omega

/-! ## The round trip -/

theorem length_le_terminated (ss : List Bytes) : ss.length ≤ (terminated ss).length := by
  induction ss with
  | nil => exact Nat.zero_le _
  | cons s ss ih =>
    rw [terminated_cons, List.length_append, List.length_cons, List.length_cons]
    omega

/-- What a message that was built looks like. Only with an empty `argv` is the count of the
arguments not their number. -/
theorem build_eq_some {filename : CStr} {argv : List CStr} {port : UInt32} {calloc : Bool} {m : Bytes}
    (h : buildCreateNtProcessMessage filename argv port calloc = some m) :
    m.length ≤ 65536 ∧ ∃ count < 65536, (argv.tail ≠ [] → count = argv.tail.length) ∧
      m = header LxInitMessageCreateProcessUtilityVm m.length 0 ++
        structBytes (createNtProcessFields port.toNat 0 (filename.val.length + 1)
          (filename.val.length + 3) count (filename.val.length + 2) 0) ++
        terminated ([filename.val, [], []] ++ argv.tail.map Subtype.val) := by
  unfold buildCreateNtProcessMessage at h
  dsimp only at h
  rw [← length_terminated] at h
  split at h
  · cases h
  · rename_i htotal
    split at h
    · cases h
    · have hargs := length_le_terminated (argv.tail.map Subtype.val)
      rw [List.length_map] at hargs
      have hlen : m.length = commonBufferOffset + (filename.val.length + 1) + 1 + 1 +
          (terminated (argv.tail.map Subtype.val)).length := by
        cases h
        simp only [List.length_append, length_header, length_structBytes, terminated_append,
          length_terminated, createNtProcessFields, commonBufferOffset]
        simp
        omega
      refine ⟨by omega, (argv.length + 65535) % 65536, Nat.mod_lt _ (by decide), ?_, ?_⟩
      · intro hne
        cases argv with
        | nil => exact absurd rfl hne
        | cons a args =>
          simp only [List.tail_cons, List.length_cons, commonBufferOffset] at hargs htotal ⊢
          omega
      · rw [hlen]
        exact (Option.some.inj h).symm

/-- The bridge's layout reads the fields that `wsl-interop` wrote. -/
theorem parse_layout {h l : Bytes} (hh : h.length = headerSize) {port filenameOffset cwdOffset
    commandLineOffset commandLineCount environmentOffset environmentCount : Nat}
    (hf : filenameOffset < 2 ^ 32) (hc : cwdOffset < 2 ^ 32) (hl : commandLineOffset < 2 ^ 32)
    (hn : commandLineCount < 2 ^ 16) (he : environmentOffset < 2 ^ 32) (hm : environmentCount < 2 ^ 16)
    (hne : l ≠ []) :
    parseCreateProcessInfo (some (h ++ structBytes (createNtProcessFields port filenameOffset cwdOffset
        commandLineOffset commandLineCount environmentOffset environmentCount) ++ l)) =
      some {
        filename := if filenameOffset < l.length then some (cString l filenameOffset) else none
        cwd := if cwdOffset < l.length then some (cString l cwdOffset) else none
        argv :=
          if 0 < commandLineCount ∧ commandLineOffset < l.length then
            some (packedStrings commandLineCount (l.drop commandLineOffset))
          else none
        envp :=
          if 0 < environmentCount ∧ environmentOffset < l.length then
            some (packedStrings environmentCount (l.drop environmentOffset))
          else none } := by
  obtain ⟨fields, hfields⟩ : ∃ fields, fields = createNtProcessFields port filenameOffset cwdOffset
    commandLineOffset commandLineCount environmentOffset environmentCount := ⟨_, rfl⟩
  have hfixed : (h ++ structBytes fields).length = commonBufferOffset := by
    rw [List.length_append, hh, length_structBytes, hfields]
    rfl
  have hread : ∀ {k n v off : Nat}, fields[k]? = some (n, v) →
      headerSize + ((fields.take k).map Prod.fst).sum = off → v < 256 ^ n →
        leAt off n (h ++ structBytes fields ++ l) = v := fun hk hoff hv =>
    leAt_structBytes _ hk (by rw [hh, hoff]) hv l
  have hdrop : (h ++ structBytes fields ++ l).drop commonBufferOffset = l := by
    rw [← hfixed, List.drop_left]
  have hpos : 0 < l.length := List.length_pos_iff.mpr hne
  rw [← hfields]
  unfold parseCreateProcessInfo
  dsimp only
  rw [List.length_append, hfixed, if_neg (by omega), if_neg (by omega), hdrop,
    @hread 1 4 filenameOffset 16 (by rw [hfields]; rfl) (by rw [hfields]; rfl) hf,
    @hread 2 4 cwdOffset 20 (by rw [hfields]; rfl) (by rw [hfields]; rfl) hc,
    @hread 3 4 commandLineOffset 24 (by rw [hfields]; rfl) (by rw [hfields]; rfl) hl,
    @hread 4 2 commandLineCount 28 (by rw [hfields]; rfl) (by rw [hfields]; rfl) hn,
    @hread 6 4 environmentOffset 32 (by rw [hfields]; rfl) (by rw [hfields]; rfl) he,
    @hread 7 2 environmentCount 36 (by rw [hfields]; rfl) (by rw [hfields]; rfl) hm]

/-- A message that `wsl-interop` could build goes through the relay unchanged and is read as the
command it was built from: the file name, an empty working directory, the arguments after
`argv[0]` in order (`NULL` when there are none) and no environment. -/
theorem createProcess_arrives (filename : CStr) (argv : List CStr) (port : UInt32) (calloc : Bool)
    (m : Bytes) (hbuild : buildCreateNtProcessMessage filename argv port calloc = some m)
    (conn : LocalConn) (hconn : Carries conn m) :
    wslInteropRelayMessage conn = [.controlWrite (.relayed m) m, .childReply 0 0] ∧
      parseCreateProcessInfo (some m) = some {
        filename := some filename.val
        cwd := some []
        argv := if argv.tail = [] then none else some (argv.tail.map Subtype.val)
        envp := none } := by
  obtain ⟨hlen, count, hcount, hargs, hm⟩ := build_eq_some hbuild
  refine ⟨?_, ?_⟩
  · rw [List.append_assoc] at hm
    have hsum := congrArg List.length hm
    rw [List.length_append, length_header] at hsum
    have hwf : messageFormat.WellFormed m := by
      rw [hm]
      exact wellFormed_header_append (by omega) hsum.symm
    have htype : messageType m = LxInitMessageCreateProcessUtilityVm := by
      rw [hm]
      exact messageType_header_append (by decide) _ _ _
    have hseq : sequenceNumber m = 0 := by
      rw [hm]
      exact sequenceNumber_header_append (by decide) _ _ _
    rw [relayMessage_verbatim hconn hwf hlen htype, hseq]
  · have hbuf : terminated ([filename.val, [], []] ++ argv.tail.map Subtype.val) =
        filename.val ++ 0 :: 0 :: 0 :: terminated (argv.tail.map Subtype.val) := by
      rw [terminated_append, terminated_cons, terminated_cons, terminated_cons]
      simp [terminated]
    have hbound : filename.val.length + 3 ≤ 65536 := by
      have hsum := congrArg List.length hm
      rw [hbuf] at hsum
      simp only [List.length_append, List.length_cons] at hsum
      omega
    rw [hm, parse_layout (length_header _ _ _) (by omega) (by omega) (by omega) hcount (by omega)
      (by omega) (by rw [hbuf]; simp), hbuf]
    have hname : cString (filename.val ++ 0 :: 0 :: 0 :: terminated (argv.tail.map Subtype.val)) 0 =
        filename.val := takeWhile_terminated filename.2 _
    have hcwd : cString (filename.val ++ 0 :: 0 :: 0 :: terminated (argv.tail.map Subtype.val))
        (filename.val.length + 1) = [] := by
      rw [cString, List.drop_length_add_append]
      rfl
    have hdrop : (filename.val ++ 0 :: 0 :: 0 :: terminated (argv.tail.map Subtype.val)).drop
        (filename.val.length + 3) = terminated (argv.tail.map Subtype.val) := by
      rw [List.drop_length_add_append]
      rfl
    have hlength : (filename.val ++ 0 :: 0 :: 0 :: terminated (argv.tail.map Subtype.val)).length =
        filename.val.length + 3 + (terminated (argv.tail.map Subtype.val)).length := by
      simp only [List.length_append, List.length_cons]
      omega
    rw [hname, hcwd, hdrop, hlength, if_pos (by omega), if_pos (by omega),
      if_neg (c := 0 < 0 ∧ _) (by simp)]
    by_cases hnone : argv.tail = []
    · -- the command line starts at the end of the buffer
      rw [if_pos hnone, if_neg (by simp [hnone, terminated])]
    · have hnum : (argv.tail.map Subtype.val).length ≤ (terminated (argv.tail.map Subtype.val)).length :=
        length_le_terminated _
      have hpos : 0 < argv.tail.length := List.length_pos_iff.mpr hnone
      rw [List.length_map] at hnum
      rw [if_neg hnone, hargs hnone, if_pos (by omega), packedStrings_terminated]

/-- `wsl-interop cmd "" x` without an I/O relay. -/
def cmdArgv : List CStr :=
  [⟨[119], by decide⟩, ⟨[99, 109, 100], by decide⟩, ⟨[], by decide⟩, ⟨[120], by decide⟩]

def cmdMessage : Bytes :=
  (buildCreateNtProcessMessage ⟨[99, 109, 100], by decide⟩ cmdArgv 0 true).getD []

def cmdConn : LocalConn where
  header := some (cmdMessage.take headerSize)
  body := some (cmdMessage.drop headerSize)
  sends := [.took 65535]

theorem createProcess_arrives_cmd :
    wslInteropRelayMessage cmdConn = [.controlWrite (.relayed cmdMessage) cmdMessage, .childReply 0 0] ∧
      parseCreateProcessInfo (some cmdMessage) = some {
        filename := some [99, 109, 100]
        cwd := some []
        argv := some [[99, 109, 100], [], [120]]
        envp := none } :=
  createProcess_arrives ⟨[99, 109, 100], by decide⟩ cmdArgv 0 true cmdMessage (by decide) cmdConn
    ⟨rfl, rfl, rfl, rfl, by decide⟩

end WslFreeBSD.Interop
