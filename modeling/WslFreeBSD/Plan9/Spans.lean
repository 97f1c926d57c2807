import Mathlib.Data.List.TakeWhile
import WslFreeBSD.Plan9.Handler

/-!
# Readers and writers of messages

`SpanReader` and `SpanWriter` as the code has them, a buffer with an offset. A failed bounds check and
`FAIL_FAST` end the process: the result is `none`. The results of the `Try` methods are `some` where
`Success` is set.

A writer `Writes` bytes if it puts them behind what is written wherever there is room, and a reader
`Reads` a value from bytes if it returns it wherever they come next, and stands behind them.
Both are composed along the bytes, so that the two are inverse as soon as they are on the parts.
-/

namespace WslFreeBSD.Plan9.Spans

open Lib

/-- `DirectoryEntry`. -/
structure DirectoryEntry where
  qid : Qid
  offset : Nat
  type : Nat
  name : Bytes
  deriving DecidableEq

/-! ## `SpanReader` -/

structure SpanReader where
  message : Bytes
  offset : Nat
  within : offset ≤ message.length
  deriving DecidableEq

abbrev Read (α : Type) := StateT SpanReader Option α

namespace SpanReader

def rest (r : SpanReader) : Bytes := r.message.drop r.offset

/-- `Read`. -/
def read (count : Nat) : Read Bytes := fun r =>
  if h : r.message.length - r.offset < count then none
  else
    have hwithin := r.within
    some ((r.message.drop r.offset).take count, ⟨r.message, r.offset + count, by omega⟩)

/-- `TryRead`. -/
def tryRead (count : Nat) : Read (Option Bytes) := fun r =>
  if r.message.length - r.offset < count then some (none, r)
  else (read count r).map fun s => (some s.1, s.2)

/-- `ReadFixed`: `U8`, `U16`, `U32` and `U64`. -/
def uint (size : Nat) : Read Nat := do
  return leValue (← read size)

/-- `TryReadFixed`. -/
def tryUint (size : Nat) : Read (Option Nat) := do
  match ← tryRead size with
  | none => return none
  | some s => return some (leValue s)

def remaining : Read Nat := do
  let r ← get
  return r.message.length - r.offset

def qid : Read Qid := do
  let type ← uint 1
  let version ← uint 4
  let path ← uint 8
  return ⟨path, version, type⟩

def tryQid : Read (Option Qid) := do
  if (← remaining) < qidSize then return none
  else return some (← qid)

def string : Read Bytes := do
  let length ← uint 2
  let s ← read length
  return fixString s

def tryString : Read (Option Bytes) := do
  match ← tryUint 2 with
  | none => return none
  | some length =>
    match ← tryRead length with
    | none => return none
    | some s => return some (fixString s)

def tryDirectoryEntry : Read (Option DirectoryEntry) := do
  if (← remaining) < qidSize + 8 + 1 + 2 then return none
  else
    let qid ← qid
    let offset ← uint 8
    let type ← uint 1
    match ← tryString with
    | none => return none
    | some name => return some ⟨qid, offset, type, name⟩

def readStatResult : Read StatResult := do
  let mode ← uint 4
  let uid ← uint 4
  let gid ← uint 4
  let nlink ← uint 8
  let rdev ← uint 8
  let size ← uint 8
  let blockSize ← uint 8
  let blocks ← uint 8
  let atimeSec ← uint 8
  let atimeNsec ← uint 8
  let mtimeSec ← uint 8
  let mtimeNsec ← uint 8
  let ctimeSec ← uint 8
  let ctimeNsec ← uint 8
  return ⟨mode, uid, gid, nlink, rdev, size, blockSize, blocks, atimeSec, atimeNsec, mtimeSec, mtimeNsec,
    ctimeSec, ctimeNsec⟩

def tryStatResult : Read (Option StatResult) := do
  if (← remaining) < statResultSize then return none
  else return some (← readStatResult)

end SpanReader

/-! ## `SpanWriter` -/

structure SpanWriter where
  message : Bytes
  offset : Nat
  within : offset ≤ message.length
  deriving DecidableEq

abbrev Write (α : Type) := StateT SpanWriter Option α

namespace SpanWriter

/-- `Result`. -/
def result (w : SpanWriter) : Bytes := w.message.take w.offset

/-- The size of `Peek`. -/
def room (w : SpanWriter) : Nat := w.message.length - w.offset

theorem length_put {message data : Bytes} {offset : Nat} (h : offset + data.length ≤ message.length) :
    offset + data.length ≤
      (message.take offset ++ data ++ message.drop (offset + data.length)).length := by
  simp only [List.length_append, List.length_take]
  omega

/-- `Write`, the bytes that are copied to what `Next` returns. -/
def write (data : Bytes) : Write Unit := fun w =>
  if h : w.offset + data.length ≤ w.message.length then
    some ((), ⟨w.message.take w.offset ++ data ++ w.message.drop (w.offset + data.length),
      w.offset + data.length, length_put h⟩)
  else none

/-- `WriteFixed`: `U8`, `U16`, `U32` and `U64`. -/
def uint (size value : Nat) : Write Unit := write (leBytes size value)

def qid (value : Qid) : Write Unit := do
  uint 1 value.type
  uint 4 value.version
  uint 8 value.path

def string (value : Bytes) : Write Unit := do
  if value.length > 2 ^ 16 - 1 then Alternative.failure
  else
    uint 2 value.length
    write value

end SpanWriter

def spanWriteStatResult (stat : StatResult) : Write Unit := do
  SpanWriter.uint 4 stat.mode
  SpanWriter.uint 4 stat.uid
  SpanWriter.uint 4 stat.gid
  SpanWriter.uint 8 stat.nlink
  SpanWriter.uint 8 stat.rdev
  SpanWriter.uint 8 stat.size
  SpanWriter.uint 8 stat.blockSize
  SpanWriter.uint 8 stat.blocks
  SpanWriter.uint 8 stat.atimeSec
  SpanWriter.uint 8 stat.atimeNsec
  SpanWriter.uint 8 stat.mtimeSec
  SpanWriter.uint 8 stat.mtimeNsec
  SpanWriter.uint 8 stat.ctimeSec
  SpanWriter.uint 8 stat.ctimeNsec

/-- `SpanWriteDirectoryEntry`: whether the entry fits. -/
def spanWriteDirectoryEntry (entry : DirectoryEntry) (stat : Option StatResult) : Write Bool := do
  let dirEntrySize := qidSize + 8 + 1 + 2 + entry.name.length
  let dirEntrySize := if stat.isSome then dirEntrySize + statResultSize else dirEntrySize
  if (← get).room < dirEntrySize then return false
  else
    SpanWriter.qid entry.qid
    SpanWriter.uint 8 entry.offset
    SpanWriter.uint 1 entry.type
    SpanWriter.string entry.name
    match stat with
    | none => return true
    | some stat =>
      spanWriteStatResult stat
      return true

theorem bind_of_some {σ α β : Type} {m : StateT σ Option α} {f : α → StateT σ Option β} {s t : σ} {a : α}
    (hm : m s = some (a, t)) : (m >>= f) s = f a t := by
  change m s >>= (fun p => f p.1 p.2) = _
  rw [hm]
  rfl

/-! ## Bytes that are written -/

section Writes

variable {α β : Type} {m : Write α} {f : α → Write β} {s t : Bytes} {a : α} {b : β}

/-- Where there is room, the bytes are put behind what is written. -/
def Writes (m : Write α) (s : Bytes) (a : α) : Prop :=
  ∀ w, s.length ≤ w.room →
    ∃ w', m w = some (a, w') ∧ w'.result = w.result ++ s ∧ w'.message.length = w.message.length

theorem SpanWriter.length_result (w : SpanWriter) : w.result.length = w.offset := by
  have := w.within
  rw [SpanWriter.result, List.length_take]
  omega

theorem SpanWriter.offset_of_result {w w' : SpanWriter} (h : w'.result = w.result ++ s) :
    w'.offset = w.offset + s.length := by
  rw [← w'.length_result, h, List.length_append, w.length_result]

theorem writes_pure (a : α) : Writes (pure a) [] a := fun w _ => ⟨w, rfl, (List.append_nil _).symm, rfl⟩

theorem Writes.bind (hm : Writes m s a) (hf : Writes (f a) t b) : Writes (m >>= f) (s ++ t) b := by
  intro w hroom
  rw [List.length_append] at hroom
  obtain ⟨w', hw', hresult, hlength⟩ := hm w (by omega)
  have hoffset := SpanWriter.offset_of_result hresult
  have hrest : t.length ≤ w'.room := by
    rw [SpanWriter.room] at hroom ⊢
    omega
  obtain ⟨w'', hw'', hresult', hlength'⟩ := hf w' hrest
  refine ⟨w'', (bind_of_some hw').trans hw'', ?_, hlength'.trans hlength⟩
  rw [hresult', hresult, List.append_assoc]

theorem writes_write (data : Bytes) : Writes (SpanWriter.write data) data () := by
  intro w hroom
  have hwithin := w.within
  rw [SpanWriter.room] at hroom
  have hfits : w.offset + data.length ≤ w.message.length := by omega
  have htake : (w.message.take w.offset).length = w.offset := w.length_result
  refine ⟨_, dif_pos hfits, ?_, ?_⟩
  · rw [SpanWriter.result, List.take_left' (by rw [List.length_append, htake])]
    rfl
  · simp only [List.length_append, htake, List.length_drop]
    omega

theorem writes_uint (size value : Nat) : Writes (SpanWriter.uint size value) (leBytes size value) () :=
  writes_write _

theorem writes_qid (q : Qid) : Writes (SpanWriter.qid q) (qidBytes q) () := by
  rw [qidBytes, List.append_assoc]
  exact (writes_uint 1 q.type).bind ((writes_uint 4 q.version).bind (writes_uint 8 q.path))

/-- `String`, as it stands in a message. -/
def stringBytes (s : Bytes) : Bytes := leBytes 2 s.length ++ s

theorem writes_string (hs : s.length ≤ 2 ^ 16 - 1) : Writes (SpanWriter.string s) (stringBytes s) () := by
  rw [SpanWriter.string, if_neg (Nat.not_lt.mpr hs)]
  exact (writes_uint 2 s.length).bind (writes_write s)

theorem writes_statResult (stat : StatResult) : Writes (spanWriteStatResult stat) (statResultBytes stat) () := by
  simp only [statResultBytes, List.append_assoc]
  refine (writes_uint 4 _).bind <| (writes_uint 4 _).bind <| (writes_uint 4 _).bind <|
    (writes_uint 8 _).bind <| (writes_uint 8 _).bind <| (writes_uint 8 _).bind <|
    (writes_uint 8 _).bind <| (writes_uint 8 _).bind <| (writes_uint 8 _).bind <|
    (writes_uint 8 _).bind <| (writes_uint 8 _).bind <| (writes_uint 8 _).bind <|
    (writes_uint 8 _).bind <| writes_uint 8 _

/-- A directory entry, as it stands in a message. -/
def entryBytes (entry : DirectoryEntry) (stat : Option StatResult) : Bytes :=
  qidBytes entry.qid ++ leBytes 8 entry.offset ++ leBytes 1 entry.type ++ stringBytes entry.name ++
    (stat.map statResultBytes).getD []

theorem length_entryBytes (entry : DirectoryEntry) (stat : Option StatResult) :
    (entryBytes entry stat).length =
      if stat.isSome then qidSize + 8 + 1 + 2 + entry.name.length + statResultSize
      else qidSize + 8 + 1 + 2 + entry.name.length := by
  cases stat <;> simp [entryBytes, stringBytes] <;> omega

theorem spanWriteDirectoryEntry_of_room_lt {entry : DirectoryEntry} {stat : Option StatResult}
    {w : SpanWriter} (h : w.room < (entryBytes entry stat).length) :
    spanWriteDirectoryEntry entry stat w = some (false, w) := by
  rw [length_entryBytes] at h
  simp only [spanWriteDirectoryEntry]
  rw [bind_of_some (t := w) rfl, if_pos h]
  rfl

theorem writes_directoryEntry {entry : DirectoryEntry} {stat : Option StatResult}
    (hname : entry.name.length ≤ 2 ^ 16 - 1) :
    Writes (spanWriteDirectoryEntry entry stat) (entryBytes entry stat) true := by
  intro w hroom
  have hfits := Nat.not_lt.mpr hroom
  rw [length_entryBytes] at hfits
  simp only [spanWriteDirectoryEntry]
  rw [bind_of_some (t := w) rfl, if_neg hfits]
  simp only [entryBytes, List.append_assoc] at hroom ⊢
  refine (Writes.bind (writes_qid _) <| (writes_uint 8 _).bind <| (writes_uint 1 _).bind <|
    (writes_string hname).bind ?_) w hroom
  cases stat with
  | none => exact writes_pure true
  | some stat =>
    rw [← List.append_nil ((Option.map statResultBytes (some stat)).getD [])]
    exact (writes_statResult stat).bind (writes_pure true)

end Writes

/-! ## Values that are read -/

/-- The members of a `Qid` are in the range of their types. -/
def InRange (q : Qid) : Prop := q.type < 2 ^ 8 ∧ q.version < 2 ^ 32 ∧ q.path < 2 ^ 64

/-- The members of a `StatResult` are in the range of their types. -/
structure StatInRange (s : StatResult) : Prop where
  mode : s.mode < 2 ^ 32
  uid : s.uid < 2 ^ 32
  gid : s.gid < 2 ^ 32
  nlink : s.nlink < 2 ^ 64
  rdev : s.rdev < 2 ^ 64
  size : s.size < 2 ^ 64
  blockSize : s.blockSize < 2 ^ 64
  blocks : s.blocks < 2 ^ 64
  atimeSec : s.atimeSec < 2 ^ 64
  atimeNsec : s.atimeNsec < 2 ^ 64
  mtimeSec : s.mtimeSec < 2 ^ 64
  mtimeNsec : s.mtimeNsec < 2 ^ 64
  ctimeSec : s.ctimeSec < 2 ^ 64
  ctimeNsec : s.ctimeNsec < 2 ^ 64

/-- A string without NUL, of at most 65535 bytes. -/
def IsString (s : Bytes) : Prop := 0 ∉ s ∧ s.length ≤ 2 ^ 16 - 1

structure EntryInRange (e : DirectoryEntry) : Prop where
  qid : InRange e.qid
  offset : e.offset < 2 ^ 64
  type : e.type < 2 ^ 8
  name : IsString e.name

theorem fixString_of_isString {s : Bytes} (h : IsString s) : fixString s = s := by
  refine List.takeWhile_eq_self_iff.mpr fun c hc => ?_
  exact decide_eq_true fun hzero => h.1 (hzero ▸ hc)

section Reads

variable {α β : Type} {m : Read α} {f : α → Read β} {s t : Bytes} {a : α} {b : β}

/-- Where the bytes come next, the value is returned and they are behind the offset. -/
def Reads (m : Read α) (s : Bytes) (a : α) : Prop :=
  ∀ r t, r.rest = s ++ t →
    ∃ r', m r = some (a, r') ∧ r'.message = r.message ∧ r'.offset = r.offset + s.length

theorem SpanReader.length_rest (r : SpanReader) : r.rest.length = r.message.length - r.offset :=
  List.length_drop

theorem SpanReader.rest_of_offset {r r' : SpanReader} (h : r.rest = s ++ t)
    (hmessage : r'.message = r.message) (hoffset : r'.offset = r.offset + s.length) : r'.rest = t := by
  rw [SpanReader.rest, hmessage, hoffset, ← List.drop_drop]
  change r.rest.drop s.length = t
  rw [h, List.drop_left]

theorem reads_pure (a : α) : Reads (pure a) [] a := fun r _ _ => ⟨r, rfl, rfl, rfl⟩

theorem Reads.bind (hm : Reads m s a) (hf : Reads (f a) t b) : Reads (m >>= f) (s ++ t) b := by
  intro r u hrest
  rw [List.append_assoc] at hrest
  obtain ⟨r', hr', hmessage, hoffset⟩ := hm r (t ++ u) hrest
  obtain ⟨r'', hr'', hmessage', hoffset'⟩ := hf r' u (SpanReader.rest_of_offset hrest hmessage hoffset)
  refine ⟨r'', (bind_of_some hr').trans hr'', hmessage'.trans hmessage, ?_⟩
  rw [hoffset', hoffset, List.length_append, Nat.add_assoc]

theorem Reads.last (hm : Reads m s a) (hf : Reads (f a) [] b) : Reads (m >>= f) s b := by
  rw [← List.append_nil s]
  exact hm.bind hf

theorem Reads.return (hm : Reads m s a) {g : α → β} : Reads (do return g (← m)) s (g a) :=
  hm.last (reads_pure (g a))

theorem reads_checked {n : Nat} {m : Read (Option α)} {a : Option α} (hn : n ≤ s.length)
    (hm : Reads m s a) :
    Reads (do if (← SpanReader.remaining) < n then return none else m) s a := by
  intro r t hrest
  have hlength := r.length_rest
  rw [hrest, List.length_append] at hlength
  obtain ⟨r', hr', hafter⟩ := hm r t hrest
  refine ⟨r', ?_, hafter⟩
  rw [bind_of_some (a := r.message.length - r.offset) (t := r) rfl, if_neg (by omega)]
  exact hr'

theorem reads_read (s : Bytes) : Reads (SpanReader.read s.length) s s := by
  intro r t hrest
  have hlength := r.length_rest
  rw [hrest, List.length_append] at hlength
  have hleft : ¬ r.message.length - r.offset < s.length := by omega
  refine ⟨⟨r.message, r.offset + s.length, ?_⟩, ?_, rfl, rfl⟩
  · have := r.within
    omega
  · rw [SpanReader.read, dif_neg hleft]
    change some ((r.rest.take s.length), _) = _
    rw [hrest, List.take_left]

theorem reads_tryRead (s : Bytes) : Reads (SpanReader.tryRead s.length) s (some s) := by
  intro r t hrest
  have hlength := r.length_rest
  rw [hrest, List.length_append] at hlength
  obtain ⟨r', hr', hafter⟩ := reads_read s r t hrest
  refine ⟨r', ?_, hafter⟩
  rw [SpanReader.tryRead, if_neg (by omega), hr']
  rfl

theorem reads_uint {size value : Nat} (h : value < 256 ^ size) :
    Reads (SpanReader.uint size) (leBytes size value) value := by
  have hread := reads_read (leBytes size value)
  rw [length_leBytes] at hread
  refine hread.last ?_
  rw [leValue_leBytes h]
  exact reads_pure value

theorem reads_tryUint {size value : Nat} (h : value < 256 ^ size) :
    Reads (SpanReader.tryUint size) (leBytes size value) (some value) := by
  have hread := reads_tryRead (leBytes size value)
  rw [length_leBytes] at hread
  refine hread.last ?_
  change Reads (pure (some (leValue (leBytes size value)))) [] (some value)
  rw [leValue_leBytes h]
  exact reads_pure _

theorem reads_qid {q : Qid} (h : InRange q) : Reads SpanReader.qid (qidBytes q) q := by
  obtain ⟨htype, hversion, hpath⟩ := h
  rw [qidBytes, List.append_assoc]
  exact (reads_uint htype).bind <| (reads_uint hversion).bind <| (reads_uint hpath).last (reads_pure _)

theorem reads_tryQid {q : Qid} (h : InRange q) : Reads SpanReader.tryQid (qidBytes q) (some q) :=
  reads_checked (by rw [length_qidBytes]) (reads_qid h).return

theorem reads_string (h : IsString s) : Reads SpanReader.string (stringBytes s) s := by
  refine (reads_uint (Nat.lt_of_le_of_lt h.2 (by decide))).bind ((reads_read s).last ?_)
  rw [fixString_of_isString h]
  exact reads_pure s

theorem reads_tryString (h : IsString s) : Reads SpanReader.tryString (stringBytes s) (some s) := by
  refine (reads_tryUint (Nat.lt_of_le_of_lt h.2 (by decide))).bind ((reads_tryRead s).last ?_)
  change Reads (pure (some (fixString s))) [] (some s)
  rw [fixString_of_isString h]
  exact reads_pure _

theorem reads_statResult {stat : StatResult} (h : StatInRange stat) :
    Reads SpanReader.readStatResult (statResultBytes stat) stat := by
  simp only [statResultBytes, List.append_assoc]
  exact (reads_uint h.mode).bind <| (reads_uint h.uid).bind <| (reads_uint h.gid).bind <|
    (reads_uint h.nlink).bind <| (reads_uint h.rdev).bind <| (reads_uint h.size).bind <|
    (reads_uint h.blockSize).bind <| (reads_uint h.blocks).bind <| (reads_uint h.atimeSec).bind <|
    (reads_uint h.atimeNsec).bind <| (reads_uint h.mtimeSec).bind <| (reads_uint h.mtimeNsec).bind <|
    (reads_uint h.ctimeSec).bind <| (reads_uint h.ctimeNsec).last (reads_pure _)

theorem reads_tryStatResult {stat : StatResult} (h : StatInRange stat) :
    Reads SpanReader.tryStatResult (statResultBytes stat) (some stat) :=
  reads_checked (by rw [length_statResultBytes]) (reads_statResult h).return

theorem reads_directoryEntry {entry : DirectoryEntry} (h : EntryInRange entry) :
    Reads SpanReader.tryDirectoryEntry (entryBytes entry none) (some entry) := by
  refine reads_checked ?_ ?_
  · rw [length_entryBytes]
    exact Nat.le_add_right _ _
  · simp only [entryBytes, List.append_assoc]
    refine (reads_qid h.qid).bind <| (reads_uint h.offset).bind <| (reads_uint h.type).bind <|
      (reads_tryString h.name).bind ?_
    exact reads_pure _

end Reads

/-! ## Sequences -/

inductive Width where
  | u8
  | u16
  | u32
  | u64
  deriving DecidableEq

def Width.size : Width → Nat
  | .u8 => 1
  | .u16 => 2
  | .u32 => 4
  | .u64 => 8

/-- A value of a message. -/
inductive Item where
  | int (width : Width) (value : Nat)
  | qid (q : Qid)
  | stat (s : StatResult)
  | string (s : Bytes)
  | entry (e : DirectoryEntry) (attributes : Option StatResult)
  deriving DecidableEq

namespace Item

/-- The value is one of its type, and its strings are strings of the protocol. -/
def InRange : Item → Prop
  | .int width value => value < 256 ^ width.size
  | .qid q => Spans.InRange q
  | .stat s => StatInRange s
  | .string s => IsString s
  | .entry e attributes => EntryInRange e ∧ ∀ s ∈ attributes, StatInRange s

def bytes : Item → Bytes
  | .int width value => leBytes width.size value
  | .qid q => qidBytes q
  | .stat s => statResultBytes s
  | .string s => stringBytes s
  | .entry e attributes => entryBytes e attributes

/-- How a value is written, with whether it fits. -/
def write : Item → Write Bool
  | .int width value => do
    SpanWriter.uint width.size value
    return true
  | .qid q => do
    SpanWriter.qid q
    return true
  | .stat s => do
    spanWriteStatResult s
    return true
  | .string s => do
    SpanWriter.string s
    return true
  | .entry e attributes => spanWriteDirectoryEntry e attributes

end Item

/-- What a reader has to know of a value. -/
inductive Kind where
  | int (width : Width)
  | qid
  | stat
  | string
  | entry (attributes : Bool)

namespace Kind

/-- The methods that fail fast; entries of directories are read by `TryDirectoryEntry` alone. -/
def read : Kind → Read (Option Item)
  | .int width => do return some (.int width (← SpanReader.uint width.size))
  | .qid => do return some (.qid (← SpanReader.qid))
  | .stat => do return some (.stat (← SpanReader.readStatResult))
  | .string => do return some (.string (← SpanReader.string))
  | .entry attributes => do
    match ← SpanReader.tryDirectoryEntry with
    | none => return none
    | some e =>
      if attributes then return some (.entry e (some (← SpanReader.readStatResult)))
      else return some (.entry e none)

/-- The `Try` methods. -/
def tryRead : Kind → Read (Option Item)
  | .int width => do return (← SpanReader.tryUint width.size).map (.int width)
  | .qid => do return (← SpanReader.tryQid).map .qid
  | .stat => do return (← SpanReader.tryStatResult).map .stat
  | .string => do return (← SpanReader.tryString).map .string
  | .entry attributes => do
    match ← SpanReader.tryDirectoryEntry with
    | none => return none
    | some e =>
      if attributes then return (← SpanReader.tryStatResult).map fun s => .entry e (some s)
      else return some (.entry e none)

end Kind

def Item.kind : Item → Kind
  | .int width _ => .int width
  | .qid _ => .qid
  | .stat _ => .stat
  | .string _ => .string
  | .entry _ attributes => .entry attributes.isSome

abbrev WireItem := {i : Item // i.InRange}

/-- The bytes of some values, one after the other. -/
def wireBytes (items : List WireItem) : Bytes := items.flatMap fun i => i.val.bytes

def writeItems (items : List WireItem) : Write (List Bool) := items.mapM fun i => i.val.write

def readItems (read : Kind → Read (Option Item)) (kinds : List Kind) : Read (List (Option Item)) :=
  kinds.mapM read

theorem writes_item {i : Item} (h : i.InRange) : Writes i.write i.bytes true := by
  have hreturn {m : Write Unit} {s : Bytes} (hm : Writes m s ()) :
      Writes (do m; return true) s true := by
    rw [← List.append_nil s]
    exact hm.bind (writes_pure true)
  cases i with
  | int width value => exact hreturn (writes_uint _ _)
  | qid q => exact hreturn (writes_qid q)
  | stat s => exact hreturn (writes_statResult s)
  | string s => exact hreturn (writes_string h.2)
  | entry e stat => exact writes_directoryEntry h.1.name.2

theorem entryBytes_some (e : DirectoryEntry) (s : StatResult) :
    entryBytes e (some s) = entryBytes e none ++ statResultBytes s := by
  rw [entryBytes, entryBytes, Option.map_none, Option.getD_none, List.append_nil]
  rfl

theorem reads_item {i : Item} (h : i.InRange) : Reads i.kind.read i.bytes (some i) := by
  cases i with
  | int width value => exact (reads_uint h).return
  | qid q => exact (reads_qid h).return
  | stat s => exact (reads_statResult h).return
  | string s => exact (reads_string h).return
  | entry e stat =>
    cases stat with
    | none => exact (reads_directoryEntry h.1).last (reads_pure _)
    | some s =>
      change Reads _ (entryBytes e (some s)) _
      rw [entryBytes_some]
      exact (reads_directoryEntry h.1).bind (reads_statResult (h.2 s rfl)).return

theorem reads_tryItem {i : Item} (h : i.InRange) : Reads i.kind.tryRead i.bytes (some i) := by
  cases i with
  | int width value => exact (reads_tryUint h).return
  | qid q => exact (reads_tryQid h).return
  | stat s => exact (reads_tryStatResult h).return
  | string s => exact (reads_tryString h).return
  | entry e stat =>
    cases stat with
    | none => exact (reads_directoryEntry h.1).last (reads_pure _)
    | some s =>
      change Reads _ (entryBytes e (some s)) _
      rw [entryBytes_some]
      exact (reads_directoryEntry h.1).bind (reads_tryStatResult (h.2 s rfl)).return

theorem writes_items (items : List WireItem) :
    Writes (writeItems items) (wireBytes items) (items.map fun _ => true) := by
  induction items with
  | nil => exact writes_pure []
  | cons i items ih =>
    rw [writeItems, List.mapM_cons, wireBytes, List.flatMap_cons, List.map_cons]
    refine (writes_item i.property).bind ?_
    rw [← List.append_nil (items.flatMap _)]
    exact ih.bind (writes_pure _)

theorem reads_items {read : Kind → Read (Option Item)}
    (hread : ∀ i : WireItem, Reads (read i.val.kind) i.val.bytes (some i.val)) (items : List WireItem) :
    Reads (readItems read (items.map fun i => i.val.kind)) (wireBytes items)
      (items.map fun i => some i.val) := by
  induction items with
  | nil => exact reads_pure []
  | cons i items ih =>
    rw [readItems, List.map_cons, List.mapM_cons, wireBytes, List.flatMap_cons, List.map_cons]
    exact (hread i).bind (ih.last (reads_pure _))

theorem reads_of_mem {read : Kind → Read (Option Item)} (hread : read ∈ [Kind.read, Kind.tryRead])
    (i : WireItem) : Reads (read i.val.kind) i.val.bytes (some i.val) := by
  rcases List.mem_cons.mp hread with rfl | hread
  · exact reads_item i.property
  · obtain rfl := List.mem_singleton.mp hread
    exact reads_tryItem i.property

/-- What is written is read back, with either kind of methods, and an entry is left out exactly if there
is no room for it. -/
theorem span_round_trip :
    (∀ (items : List WireItem) (w : SpanWriter), (wireBytes items).length ≤ w.room →
      ∃ w' : SpanWriter, writeItems items w = some (items.map fun _ => true, w') ∧
        w'.result = w.result ++ wireBytes items ∧
        ∀ read ∈ [Kind.read, Kind.tryRead], ∀ r : SpanReader, r.message = w'.result → r.offset = w.offset →
          ∃ r', readItems read (items.map fun i => i.val.kind) r =
              some (items.map fun i => some i.val, r') ∧
            r'.message = w'.result ∧ r'.offset = w'.offset) ∧
    ∀ (e : DirectoryEntry) (attributes : Option StatResult) (w : SpanWriter),
      (Item.entry e attributes).InRange →
        ∃ fits w', spanWriteDirectoryEntry e attributes w = some (fits, w') ∧
          (fits = false ↔ w.room < (entryBytes e attributes).length) ∧ (fits = false → w' = w) := by
  constructor
  · intro items w hroom
    obtain ⟨w', hw', hresult, -⟩ := writes_items items w hroom
    refine ⟨w', hw', hresult, fun read hread r hmessage hoffset => ?_⟩
    have hrest : r.rest = wireBytes items ++ [] := by
      rw [SpanReader.rest, hmessage, hoffset, hresult, ← w.length_result, List.drop_left, List.append_nil]
    obtain ⟨r', hr', hafter, hend⟩ := reads_items (reads_of_mem hread) items r [] hrest
    refine ⟨r', hr', hafter.trans hmessage, ?_⟩
    rw [hend, hoffset, SpanWriter.offset_of_result hresult]
  · intro e attributes w hrange
    by_cases hroom : w.room < (entryBytes e attributes).length
    · exact ⟨false, w, spanWriteDirectoryEntry_of_room_lt hroom, iff_of_true rfl hroom, fun _ => rfl⟩
    · obtain ⟨w', hw', -⟩ :=
        writes_directoryEntry hrange.1.name.2 w (Nat.not_lt.mp hroom)
      exact ⟨true, w', hw', iff_of_false (by decide) hroom, fun h => absurd h (by decide)⟩

theorem inRange_seven : (Item.int .u8 7).InRange := by
  change 7 < 256 ^ 1
  decide

theorem inRange_ab : (Item.string [97, 98]).InRange := by
  change _ ∧ _
  decide

theorem span_round_trip_pair :
    ∃ w' : SpanWriter,
      writeItems [⟨_, inRange_seven⟩, ⟨_, inRange_ab⟩] ⟨List.replicate 5 0, 0, Nat.zero_le _⟩ =
          some ([true, true], w') ∧
        w'.result = [] ++ [7, 2, 0, 97, 98] ∧
        ∀ read ∈ [Kind.read, Kind.tryRead], ∀ r : SpanReader, r.message = w'.result → r.offset = 0 →
          ∃ r', readItems read [.int .u8, .string] r =
              some ([some (.int .u8 7), some (.string [97, 98])], r') ∧
            r'.message = w'.result ∧ r'.offset = w'.offset :=
  span_round_trip.1 [⟨_, inRange_seven⟩, ⟨_, inRange_ab⟩] ⟨List.replicate 5 0, 0, Nat.zero_le _⟩ (by decide)

/-! ## Actions of the handler -/

theorem handler_read {count : Nat} {r r' : SpanReader} {s : Bytes} {c : Context} (hc : c.message = r.rest)
    (h : SpanReader.read count r = some (s, r')) :
    Plan9.SpanReader.read count c = pure (.value s, { c with message := r'.rest }) := by
  rw [SpanReader.read] at h
  split at h
  · cases h
  · next hcount =>
    cases h
    have hleft : ¬ c.message.length < count := by rwa [hc, r.length_rest]
    have hstep : Plan9.SpanReader.read count c =
        pure (.value (c.message.take count), { c with message := c.message.drop count }) := by
      rw [Plan9.SpanReader.read, Action.bind_of_value rfl, if_neg hleft]
      rfl
    rw [hstep, hc, SpanReader.rest, SpanReader.rest, List.drop_drop]

theorem handler_read_none {count : Nat} {r : SpanReader} {c : Context} (hc : c.message = r.rest)
    (h : SpanReader.read count r = none) :
    Plan9.SpanReader.read count c = pure (.halted .readPast, c) := by
  rw [SpanReader.read] at h
  split at h
  · next hcount =>
    have hleft : c.message.length < count := by rwa [hc, r.length_rest]
    rw [Plan9.SpanReader.read, Action.bind_of_value rfl, if_pos hleft]
    rfl
  · cases h

/-- The buffer of a response, behind the place of its header. -/
structure IsBuffer (response : MessageResponse) (w : SpanWriter) : Prop where
  size : w.message.length = response.size
  offset : w.offset = headerSize + response.written.length
  written : w.result.drop headerSize = response.written

theorem next_of_write {response : MessageResponse} {w w' : SpanWriter} {data : Bytes}
    (hbuffer : IsBuffer response w) (h : SpanWriter.write data w = some ((), w')) :
    ∃ response', response.next data = some response' ∧ IsBuffer response' w' := by
  have hwritten := writes_write data w
  rw [SpanWriter.write] at h
  split at h
  · next hfits =>
    have hroom : data.length ≤ w.room := by
      rw [SpanWriter.room]
      omega
    obtain ⟨w'', hw'', hresult, hlength⟩ := hwritten hroom
    rw [SpanWriter.write, dif_pos hfits, h] at hw''
    cases hw''
    have hsize : headerSize + (response.written ++ data).length ≤ response.size := by
      rw [List.length_append, ← hbuffer.size, ← Nat.add_assoc, ← hbuffer.offset]
      exact hfits
    refine ⟨_, dif_pos hsize, hlength.trans hbuffer.size, ?_, ?_⟩
    · rw [SpanWriter.offset_of_result hresult, hbuffer.offset, List.length_append, Nat.add_assoc]
    · have hheader : headerSize ≤ w.result.length := by
        rw [w.length_result, hbuffer.offset]
        exact Nat.le_add_right _ _
      rw [hresult, List.drop_append_of_le_length hheader, hbuffer.written]
  · cases h

/-- The entry of a directory is the one that `SpanWriteDirectoryEntry` writes. -/
theorem directoryEntryBytes_eq (entry : Dirent) (attributes : Option StatResult) :
    File.directoryEntryBytes entry attributes =
      entryBytes ⟨⟨entry.ino, 0, File.dirEntryTypeToQidType entry.type⟩, entry.off, entry.type,
        entry.name.val⟩ attributes := by
  simp only [File.directoryEntryBytes, entryBytes, stringBytes, List.append_assoc]

end WslFreeBSD.Plan9.Spans
