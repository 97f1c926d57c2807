import Mathlib.Data.List.TakeWhile
import WslFreeBSD.Stub.World

/-!
# The requests of the stub file server

`p9_handle_request` of the test build of `plan9_server.h`: one request is read from the connection and
answered from the fid table. Every access to the request and to the arrays on the stack is checked, so
that a handler ends with a fault where the code leaves them.
-/

namespace WslFreeBSD.Stub

open Lib Config
open Lib.Faulting (lift)

def P9_TVERSION : Nat := 100
def P9_RVERSION : Nat := 101
def P9_TATTACH : Nat := 104
def P9_RATTACH : Nat := 105
def P9_TFLUSH : Nat := 108
def P9_RFLUSH : Nat := 109
def P9_TWALK : Nat := 110
def P9_RWALK : Nat := 111
def P9_TLOPEN : Nat := 112
def P9_RLOPEN : Nat := 113
def P9_TLCREATE : Nat := 114
def P9_RLCREATE : Nat := 115
def P9_TREAD : Nat := 116
def P9_RREAD : Nat := 117
def P9_TWRITE : Nat := 118
def P9_RWRITE : Nat := 119
def P9_TCLUNK : Nat := 120
def P9_RCLUNK : Nat := 121
def P9_TREMOVE : Nat := 122
def P9_RREMOVE : Nat := 123
def P9_TSTAT : Nat := 124
def P9_RSTAT : Nat := 125

def P9_MAXMSIZE : Nat := 65536

/-! ## Fields -/

/-- A field of the body, which is 0 if the body is shorter than `least`. -/
def field (body : Bytes) (least off n : Nat) : Except MemFault Nat :=
  if least ≤ body.length then readLE body off n else .ok 0

/-- `P9_PACK_QID`. -/
def packQid (qtype qversion qpath : Nat) : Bytes := leBytes 1 qtype ++ leBytes 4 qversion ++ leBytes 8 qpath

theorem nul_not_mem_cString (mem : Bytes) (off : Nat) : 0 ∉ cString mem off :=
  fun h => by simpa using List.mem_takeWhile_imp h

/-- A string of the body, copied into a `char name[256]`. -/
def copyName (body : Bytes) (pos nameLen : Nat) : Except MemFault CStr := do
  let data ← readBytes body pos nameLen
  let name ← writeBytes (List.replicate 256 0) 0 data
  let name ← writeBytes name nameLen [0]
  pure ⟨cString name 0, nul_not_mem_cString name 0⟩

variable {σ : Type} (K : Kernel σ) (conn tag : Nat) (body : Bytes)

/-! ## The handlers -/

/-- `P9_TVERSION`. -/
def tversion : Serving σ Unit :=
  if body.length < 6 then p9SendError K conn tag "bad Tversion"
  else do
    let clientMsize ← lift (readLE body 0 4)
    let msize := if clientMsize < P9_MAXMSIZE then clientMsize else P9_MAXMSIZE
    p9SendResponse K conn P9_RVERSION tag (leBytes 4 msize ++ putString (ascii "9P2000.L"))

/-- `P9_TATTACH`. -/
def tattach : Serving σ Unit := do
  let fid ← lift (field body 4 0 4)
  let w ← Faulting.get
  match ← acquire K (.dup w.globals.rootFd) with
  | none => p9SendError K conn tag "dup root failed"
  | some rootDup =>
    if ← fidAdd ⟨fid, rootDup, 1, P9_QID_DIR, .root⟩ then
      p9SendResponse K conn P9_RATTACH tag (packQid P9_QID_DIR 0 1)
    else
      close K rootDup
      p9SendError K conn tag "fid table full"

def FidEntry.statName (e : FidEntry) : Bytes := if e.path.1 = [] then ascii "/" else e.path.1

/-- What `P9_BUILD_STAT` writes behind the size. -/
def statFields (e : FidEntry) (st : Stat) : List Bytes :=
  [leBytes 2 (if st.isDirectory then 1 else 0), leBytes 4 st.dev, packQid e.qtype 0 e.qpath,
    leBytes 4 st.mode, leBytes 4 st.atime, leBytes 4 st.mtime, leBytes 8 st.size, putString e.statName,
    putString (ascii "root"), putString (ascii "wheel"), putString (ascii "root")]

/-- `P9_BUILD_STAT` into an array of 512 bytes; the size is filled in last. -/
def buildStat (e : FidEntry) (st : Stat) : Except MemFault Bytes :=
  ((statFields e st).foldlM (push 512) [0, 0]).map fun stat => leBytes 2 (stat.length - 2) ++ stat.drop 2

/-- `P9_TSTAT`. -/
def tstat : Serving σ Unit := do
  let fid ← lift (field body 4 0 4)
  match ← fidFind fid with
  | none => p9SendError K conn tag "unknown fid"
  | some e =>
    match ← fstat K e.fd with
    | none => p9SendError K conn tag "fstat failed"
    | some st => do
      let stat ← lift (buildStat e st)
      let reply ← lift (readBytes stat 0 (leAt 0 2 stat + 2))
      p9SendResponse K conn P9_RSTAT tag reply

/-- What `P9_TWALK` keeps between two names. -/
structure Walk where
  pos : Nat := 10
  curFd : Nat
  curPath : FidPath
  qids : Bytes := List.replicate (13 * 16) 0
  nwqid : Nat := 0

/-- A name is opened as a directory, or else as a file. -/
def openComponent (dir : Nat) (name : CStr) : Serving σ (Option (Nat × Nat)) := do
  match ← acquire K (.openat dir name.1 (O_DIRECTORY ||| O_NOFOLLOW ||| O_CLOEXEC) 0) with
  | some fd => pure (some (fd, P9_QID_DIR))
  | none =>
    match ← acquire K (.openat dir name.1 (O_RDONLY ||| O_NOFOLLOW ||| O_CLOEXEC) 0) with
    | some fd => pure (some (fd, 0))
    | none => pure none

/-- One name of the loop, with the rest of the loop. -/
def walkName (parent : FidEntry) (newfid left : Nat) (walk : Walk) (nameLen : Nat) (name : CStr)
    (rest : Walk → Serving σ Walk) : Serving σ Walk := do
  match ← openComponent K walk.curFd name with
  | none => pure { walk with nwqid := 0 }
  | some (nextFd, nextQtype) => do
    let newPath := childPath walk.curPath name
    let nextQpath ← fidNextQpath
    let qids ← lift (writeBytes walk.qids (walk.nwqid * 13) (packQid nextQtype 0 nextQpath))
    if left = 0 then
      if ← fidAdd ⟨newfid, nextFd, nextQpath, nextQtype, newPath⟩ then
        pure { walk with qids, nwqid := walk.nwqid + 1 }
      else do
        close K nextFd
        pure { walk with nwqid := 0 }
    else do
      if walk.curFd ≠ parent.fd then close K walk.curFd else pure ()
      rest ⟨walk.pos + 2 + nameLen, nextFd, newPath, qids, walk.nwqid + 1⟩

def walkComponents (parent : FidEntry) (newfid : Nat) : Nat → Walk → Serving σ Walk
  | 0, walk => pure walk
  | left + 1, walk =>
    if body.length < walk.pos + 2 then pure walk
    else do
      let nameLen ← lift (readLE body walk.pos 2)
      if body.length < walk.pos + 2 + nameLen then pure walk
      else do
        let name ← lift (copyName body (walk.pos + 2) nameLen)
        walkName K parent newfid left walk nameLen name (walkComponents parent newfid left)

def walkReply (walk : Walk) : Serving σ Unit :=
  if walk.nwqid = 0 then p9SendResponse K conn P9_RWALK tag (leBytes 2 0)
  else do
    let qids ← lift (readBytes walk.qids 0 (walk.nwqid * 13))
    let resp ← lift (push (2 + 13 * 16) (leBytes 2 walk.nwqid) qids)
    p9SendResponse K conn P9_RWALK tag resp

/-- The names of a `P9_TWALK`, with the descriptor of its fid duplicated if there are none. -/
def walkFrom (parent : FidEntry) (newfid nwname : Nat) : Serving σ Unit :=
  if nwname = 0 then do
    match ← acquire K (.dup parent.fd) with
    | none => p9SendError K conn tag "dup failed"
    | some newfd =>
      if ← fidAdd { parent with fid := newfid, fd := newfd } then
        p9SendResponse K conn P9_RWALK tag (leBytes 2 0)
      else do
        close K newfd
        p9SendError K conn tag "fid table full"
  else do
    let walk ← walkComponents K body parent newfid nwname { curFd := parent.fd, curPath := parent.path }
    walkReply K conn tag walk

/-- `P9_TWALK`. -/
def twalk : Serving σ Unit := do
  let fid ← lift (field body 10 0 4)
  let newfid ← lift (field body 10 4 4)
  let nwname ← lift (field body 10 8 2)
  match ← fidFind fid with
  | none => p9SendError K conn tag "unknown fid"
  | some parent => walkFrom K conn tag body parent newfid nwname

/-- `P9_TCLUNK`. -/
def tclunk : Serving σ Unit := do
  let fid ← lift (field body 4 0 4)
  fidRemove K fid
  p9SendResponse K conn P9_RCLUNK tag []

/-- A qid and the `iounit`. -/
def openedBody (qtype qpath : Nat) : Bytes := packQid qtype 0 qpath ++ leBytes 4 8192

/-- `P9_TLOPEN`. -/
def tlopen : Serving σ Unit := do
  let fid ← lift (field body 8 0 4)
  let flags ← lift (field body 8 4 4)
  let w ← Faulting.get
  match w.globals.fidMap.locate fid with
  | none => p9SendError K conn tag "unknown fid"
  | some (i, e) =>
    if e.isDirectory then p9SendResponse K conn P9_RLOPEN tag (openedBody e.qtype e.qpath)
    else do
      match ← acquire K (.open (fullPath w.globals.rootPath e.path).1 (flags ||| O_CLOEXEC)) with
      | none => p9SendError K conn tag "open failed"
      | some newfd => do
        close K e.fd
        Faulting.modify fun w => { w with globals :=
          { w.globals with fidMap := w.globals.fidMap.set i (some { e with fd := newfd }) } }
        p9SendResponse K conn P9_RLOPEN tag (openedBody 0 e.qpath)

/-- The name in a `P9_TLCREATE`, which is only copied if it fits the body. -/
def lcreateName (nameLen : Nat) : Except MemFault (Option CStr) :=
  if 10 ≤ body.length ∧ 0 < nameLen ∧ 6 + nameLen ≤ body.length then (copyName body 6 nameLen).map some
  else .ok none

/-- A file is created below the directory of a fid, which then stands for the file. -/
def createFile (parent : FidEntry) (fid flags mode : Nat) (name : CStr) : Serving σ Unit := do
  match ← acquire K (.openat parent.fd name.1 (flags ||| O_CREAT ||| O_CLOEXEC) (mode &&& 0o777)) with
  | none => p9SendError K conn tag "create failed"
  | some newfd => do
    let qpath ← fidNextQpath
    let new : FidEntry := ⟨fid, newfd, qpath, 0, childPath parent.path name⟩
    if ← fidReplace K new then p9SendResponse K conn P9_RLCREATE tag (openedBody 0 qpath)
    else if ← fidAdd new then p9SendResponse K conn P9_RLCREATE tag (openedBody 0 qpath)
    else do
      close K newfd
      p9SendError K conn tag "fid table full"

/-- The fields behind the name, and the use of the name. -/
def createNamed (fid nameLen : Nat) (name : Option CStr) : Serving σ Unit := do
  let flags ← lift (field body (6 + nameLen + 12) (6 + nameLen) 4)
  let mode ← lift (field body (6 + nameLen + 12) (6 + nameLen + 4) 4)
  match ← fidFind fid with
  | none => p9SendError K conn tag "unknown fid"
  | some parent => do
    let name ← lift (initialised name)
    createFile K conn tag parent fid flags mode name

/-- `P9_TLCREATE`. -/
def tlcreate : Serving σ Unit := do
  let fid ← lift (field body 10 0 4)
  let nameLen ← lift (field body 10 4 2)
  let name ← lift (lcreateName body nameLen)
  createNamed K conn tag body fid nameLen name

/-- The entry is `.` or `..`. -/
def Dirent.isDot (de : Dirent) : Bool := de.name.1 = [46] || de.name.1 = [46, 46]

/-- The loop that skips entries up to the offset. -/
def skipEntries (offset : Nat) : Nat → List Dirent → Nat × List Dirent
  | entryIdx, [] => (entryIdx, [])
  | entryIdx, de :: des =>
    if entryIdx < offset then skipEntries offset (entryIdx + 1) des else (entryIdx, de :: des)

/-- The loop that packs entries into an array of `count` bytes. -/
def packEntries (count : Nat) : Nat → Bytes → List Dirent → Serving σ Bytes
  | _, data, [] => pure data
  | entryIdx, data, de :: des =>
    if data.length < count then
      if de.isDot then packEntries count entryIdx data des
      else do
        let qpath ← fidNextQpath
        if count < data.length + (13 + 8 + 1 + 2 + de.name.1.length) then pure data
        else do
          let data ← lift (push count data (packQid (if de.type = DT_DIR then P9_QID_DIR else 0) 0 qpath))
          let data ← lift (push count data (leBytes 8 (entryIdx + 1)))
          let data ← lift (push count data [if de.type = DT_DIR then 1 else 0])
          let data ← lift (push count data (putString de.name.1))
          packEntries count ((entryIdx + 1) % 2 ^ 64) data des
    else pure data

/-- A directory is read from a stream on a duplicate of its descriptor. -/
def readDirectory (e : FidEntry) (offset count : Nat) : Serving σ Unit := do
  match ← acquire K (.dup e.fd) with
  | none => p9SendError K conn tag "opendir failed"
  | some dirFd =>
    match ← opendir K dirFd with
    | none => p9SendError K conn tag "opendir failed"
    | some entries => do
      let (entryIdx, rest) := skipEntries offset 0 entries
      if ← malloc K count then
        let data ← packEntries count entryIdx [] rest
        closedir K dirFd
        if ← malloc K (4 + data.length) then
          p9SendResponse K conn P9_RREAD tag (leBytes 4 data.length ++ data)
        else p9SendError K conn tag "oom"
      else do
        closedir K dirFd
        p9SendError K conn tag "oom"

/-- A file is read with `pread`. -/
def readFile (e : FidEntry) (offset count : Nat) : Serving σ Unit := do
  if ← malloc K count then
    match ← pread K e.fd count offset with
    | none => p9SendError K conn tag "read failed"
    | some data =>
      if ← malloc K (4 + data.1.length) then
        p9SendResponse K conn P9_RREAD tag (leBytes 4 data.1.length ++ data.1)
      else p9SendError K conn tag "oom"
  else p9SendError K conn tag "oom"

/-- `P9_TREAD`. -/
def tread : Serving σ Unit := do
  let fid ← lift (field body 16 0 4)
  let offset ← lift (field body 16 4 8)
  let count ← lift (field body 16 12 4)
  match ← fidFind fid with
  | none => p9SendError K conn tag "unknown fid"
  | some e =>
    if e.isDirectory then readDirectory K conn tag e offset count
    else readFile K conn tag e offset count

/-- The call of `pwrite`, if the body holds the data. The sum is one of `uint32_t`. -/
def writeData (e : FidEntry) (offset count : Nat) : Serving σ (Option Nat) :=
  if 0 < count ∧ (16 + count) % 2 ^ 32 ≤ body.length then do
    let data ← lift (readBytes body 16 count)
    pwrite K e.fd data offset
  else pure (some 0)

/-- `P9_TWRITE`. -/
def twrite : Serving σ Unit := do
  let fid ← lift (field body 16 0 4)
  let offset ← lift (field body 16 4 8)
  let count ← lift (field body 16 12 4)
  match ← fidFind fid with
  | none => p9SendError K conn tag "unknown fid"
  | some e => do
    let n ← writeData K body e offset count
    p9SendResponse K conn P9_RWRITE tag (leBytes 4 (n.getD 0))

/-- `P9_TREMOVE`. -/
def tremove : Serving σ Unit := do
  let fid ← lift (field body 4 0 4)
  let w ← Faulting.get
  match w.globals.fidMap.find fid with
  | none => p9SendError K conn tag "unknown fid"
  | some e => do
    let _ ← remove K (fullPath w.globals.rootPath e.path).1 e.isDirectory
    fidRemove K fid
    p9SendResponse K conn P9_RREMOVE tag []

/-- `P9_TFLUSH`. -/
def tflush : Serving σ Unit := p9SendResponse K conn P9_RFLUSH tag []

/-- The `switch` of `p9_handle_request`. -/
def p9Dispatch (type : Nat) : Serving σ Unit :=
  if type = P9_TVERSION then tversion K conn tag body
  else if type = P9_TATTACH then tattach K conn tag body
  else if type = P9_TSTAT then tstat K conn tag body
  else if type = P9_TWALK then twalk K conn tag body
  else if type = P9_TCLUNK then tclunk K conn tag body
  else if type = P9_TLOPEN then tlopen K conn tag body
  else if type = P9_TLCREATE then tlcreate K conn tag body
  else if type = P9_TREAD then tread K conn tag body
  else if type = P9_TWRITE then twrite K conn tag body
  else if type = P9_TREMOVE then tremove K conn tag body
  else if type = P9_TFLUSH then tflush K conn tag
  else p9SendError K conn tag "not supported"

/-- `p9_readn` from what a client sends before it disconnects. -/
def p9Readn (input : Bytes) (n : Nat) : Option (Bytes × Bytes) :=
  if n ≤ input.length then some (input.take n, input.drop n) else none

/-- `p9_handle_request`: what is left of the input, or nothing if the connection is to be closed. -/
def p9HandleRequest (input : Bytes) : Serving σ (Option Bytes) :=
  match p9Readn input 4 with
  | none => pure none
  | some (sizeBuf, input) =>
    if leAt 0 4 sizeBuf < 7 ∨ P9_MAXMSIZE < leAt 0 4 sizeBuf then pure none
    else do
      if ← malloc K (leAt 0 4 sizeBuf - 4) then
        match p9Readn input (leAt 0 4 sizeBuf - 4) with
        | none => pure none
        | some (rest, input) => do
          let type ← lift (readLE rest 0 1)
          let tag ← lift (readLE rest 1 2)
          p9Dispatch K conn tag (rest.drop 3) type
          pure (some input)
      else pure none

end WslFreeBSD.Stub
