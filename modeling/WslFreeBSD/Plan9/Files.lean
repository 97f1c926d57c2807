import WslFreeBSD.Plan9.Messages
import WslFreeBSD.Plan9.System

/-!
# Files of the plan9 server

What a fid denotes, `File` and `XAttr`, with their methods. A method that changes its object is an
action on it; the others take it as an argument and leave every state alone. The error that a method
returns is thrown, unless a caller looks at it: `walk`, `create`, `mkDir` and `readLink` return it.

Descriptors are closed with the object that holds them, which is left out, as are the locks.
-/

namespace WslFreeBSD.Plan9

open Lib

/-! ## Flags -/

/-- `WI_AreAllFlagsSet`. -/
def allSet (flags f : Nat) : Bool := flags &&& f = f

/-- `WI_IsFlagSet` and `WI_IsAnyFlagSet`. -/
def anySet (flags f : Nat) : Bool := flags &&& f ≠ 0

/-- `WI_ClearFlag`, of 32 bits. -/
def clearFlags (flags f : Nat) : Nat := flags &&& ((2 ^ 32 - 1) ^^^ f)

namespace OpenFlags

def accessMask : Nat := 0o3
def noAccess : Nat := 0o3
def writeOnly : Nat := 0o1
def readWrite : Nat := 0o2
def create : Nat := 0o100
def exclusive : Nat := 0o200
def noCTTY : Nat := 0o400
def truncate : Nat := 0o1000
def append : Nat := 0o2000
def nonBlock : Nat := 0o4000
def dSync : Nat := 0o10000
def fAsync : Nat := 0o20000
def direct : Nat := 0o40000
def largeFile : Nat := 0o100000
def directory : Nat := 0o200000
def noFollow : Nat := 0o400000
def noAccessTime : Nat := 0o1000000
def closeOnExec : Nat := 0o2000000
def sync : Nat := 0o4000000

end OpenFlags

/-- The `O_` flags of the system. -/
def oWrOnly : Nat := 0o1
def oCreat : Nat := 0o100
def oNoFollow : Nat := 0o400000
def oCloExec : Nat := 0o2000000
def oPath : Nat := 0o10000000

/-- `c_openFlagsMapping`. -/
def openFlagsMapping : List (Nat × Nat) :=
  [(OpenFlags.writeOnly, 0o1), (OpenFlags.readWrite, 0o2), (OpenFlags.create, 0o100),
    (OpenFlags.exclusive, 0o200), (OpenFlags.noCTTY, 0o400), (OpenFlags.truncate, 0o1000),
    (OpenFlags.append, 0o2000), (OpenFlags.nonBlock, 0o4000), (OpenFlags.dSync, 0o10000),
    (OpenFlags.fAsync, 0o20000), (OpenFlags.direct, 0o40000), (OpenFlags.largeFile, 0o100000),
    (OpenFlags.directory, 0o200000), (OpenFlags.noFollow, 0o400000), (OpenFlags.noAccessTime, 0o1000000),
    (OpenFlags.closeOnExec, 0o2000000), (OpenFlags.sync, 0o4010000)]

def openFlagsToLinuxFlags (flags : Nat) : Nat :=
  openFlagsMapping.foldl (fun result m => if allSet flags m.1 then result ||| m.2 else result) 0

/-- `AccessFlags::Delete`. -/
def accessDelete : Nat := 8

/-- `W_OK`. -/
def wOk : Nat := 2

/-- `S_ISVTX`. -/
def sISVTX : Nat := 0o1000

/-! ## Helpers -/

/-- The value of an `Expected`; its error is thrown on. -/
def orFail {α : Type} : Except Int α → Calls α
  | .ok a => pure a
  | .error e => Action.throw e

/-- `QidType::Symlink` and `QidType::Directory`. -/
def qidSymlink : Nat := 2
def qidDirectory : Nat := 128

def modeToQidType (mode : Nat) : Nat :=
  if mode &&& 0o170000 = 0o120000 then qidSymlink
  else if mode &&& 0o170000 = 0o040000 then qidDirectory
  else 0

def statToQid (st : Stat) : Qid := ⟨st.ino, 0, modeToQidType st.mode⟩

/-- `GetFileQidByPath`. -/
def getFileQidByPath (fd : Nat) (path : Bytes) : Calls (Except Int Qid) := do
  return (expected (← Action.call (.fstatat fd path false))).map statToQid

/-- `AppendPath`. -/
def appendPath (base name : Bytes) : Bytes :=
  if base ≠ [] ∧ base.getLast? ≠ some 47 then base ++ 47 :: name else base ++ name

/-- The path up to its last `/`; without one it is empty. -/
def parentPath (path : Bytes) : Bytes := ((path.reverse.dropWhile (· ≠ 47)).drop 1).reverse

/-- `GetFdPath`. -/
def getFdPath (fd : Nat) : Calls Bytes := do
  orThrow (← Action.call (.fdPath fd))

/-- `Reopen`. -/
def reopen (fd openFlags : Nat) : Calls (Except Int Nat) := do
  let pathToOpen ←
    if anySet openFlags oNoFollow then getFdPath fd
    else pure (ascii "/proc/self/fd/" ++ ascii (toString fd))
  return expected (← Action.call (.openPath pathToOpen (openFlags ||| oCloExec)))

/-- `OpenAt`. -/
def openAt (dirfd : Nat) (name : Bytes) (openFlags mode : Nat) : Calls (Except Int Nat) := do
  if name = [] then reopen dirfd openFlags
  else return expected (← Action.call (.openat dirfd name (openFlags ||| oCloExec) mode))

/-- `AccessHelper`. -/
def accessHelper (fd : Nat) (path : Bytes) (mode : Nat) : Calls Unit := do
  let pathToCheck ← if path = [] then getFdPath fd else pure path
  orThrow (← Action.call (.faccessat fd pathToCheck mode))

/-! ## `File` -/

/-- `m_File` and `m_Enumerator`: not open, open, or read as a directory. -/
inductive OpenState where
  | closed
  | file (fd : Nat)
  | enumerator (fd lastOffset : Nat)
  deriving DecidableEq

structure File where
  fileName : Bytes
  root : Root
  qid : Qid
  device : Nat
  state : OpenState
  deriving DecidableEq

namespace File

variable {σ : Type}

def isOpen (f : File) : Bool := f.state ≠ .closed

/-- `IsOnRoot`: the same object, not an equal one. -/
def isOnRoot (f : File) (root : Root) : Bool := f.root.id = root.id

def clone (f : File) : File := { f with device := 0, state := .closed }

def stat (f : File) : Calls (Except Int Stat) := do
  return expected (← Action.call (.fstatat f.root.rootFd f.fileName false))

/-- `OpenFile`. -/
def openFile (f : File) (openFlags : Nat) : Calls Nat := do
  orFail (← openAt f.root.rootFd f.fileName (openFlags ||| oNoFollow) 0o600)

def childPath (f : File) (name : Bytes) : Bytes := appendPath f.fileName name

def validateExists : Op File (Except Int Unit) := do
  let f ← Action.get
  match ← f.stat.embed with
  | .error e => return .error e
  | .ok st =>
    Action.modify fun f => { f with qid := statToQid st, device := st.dev }
    return .ok ()

/-- `Initialize`. -/
def init : Op File Qid := do
  let f ← Action.get
  withUser f.root do
    let r ← validateExists
    (orFail r).embed
    return (← Action.get).qid

/-- The mounts that `Walk` does not enter. -/
def deniedMounts : List Bytes := [ascii "drvfs", ascii "9p", ascii "virtiofs"]

/-- The mount of a device may be entered; so may one that cannot be looked up. -/
def mountAllowed (device : Nat) : Calls Bool := do
  match expected (← Action.call (.findMount device)) with
  | .ok (some type) => return type ∉ deniedMounts
  | .ok none => return true
  | .error _ => return true

/-- What `Walk` does in the context of the user. -/
def findChild (parentDevice : Nat) : Op File (Except Int Qid) := do
  match ← validateExists with
  | .error e => return .error e
  | .ok () =>
    let f ← Action.get
    if parentDevice ≠ f.device then
      if ← (mountAllowed f.device).embed then return .ok f.qid else return .error eacces
    else return .ok f.qid

/-- `wil::scope_exit` that is released before a value is returned. -/
def scopeExit {α : Type} (undo : File → File) (m : Op File (Except Int α)) : Op File (Except Int α) :=
  fun f => m f >>= fun r =>
    match r.1 with
    | .value (.ok a) => pure (.value (.ok a), r.2)
    | .halted h => pure (.halted h, r.2)
    | o => pure (o, undo r.2)

def walk (name : Bytes) : Op File (Except Int Qid) := do
  let f ← Action.get
  if f.qid.isDirectory then
    Action.modify fun f => { f with fileName := appendPath f.fileName name }
    scopeExit (fun g => { g with qid := f.qid, device := f.device, fileName := parentPath g.fileName })
      (withUser f.root (findChild f.device))
  else return .error enotdir

namespace GetAttr

def mode : Nat := 0x1
def nlink : Nat := 0x2
def uid : Nat := 0x4
def gid : Nat := 0x8
def rdev : Nat := 0x10
def atime : Nat := 0x20
def mtime : Nat := 0x40
def ctime : Nat := 0x80
def ino : Nat := 0x100
def size : Nat := 0x200
def blocks : Nat := 0x400

end GetAttr

/-- The attributes that `GetAttr` returns if they are asked for. -/
def getAttrFlags : List Nat :=
  [GetAttr.mode, GetAttr.nlink, GetAttr.rdev, GetAttr.size, GetAttr.blocks, GetAttr.atime,
    GetAttr.mtime, GetAttr.ctime, GetAttr.uid, GetAttr.gid]

def attributes (mask : Nat) (st : Stat) : StatResult where
  mode := if anySet mask GetAttr.mode then st.mode else 0
  uid := if anySet mask GetAttr.uid then st.uid else 0
  gid := if anySet mask GetAttr.gid then st.gid else 0
  nlink := if anySet mask GetAttr.nlink then st.nlink else 0
  rdev := if anySet mask GetAttr.rdev then st.rdev else 0
  size := if anySet mask GetAttr.size then st.size else 0
  blockSize := if anySet mask GetAttr.blocks then st.blksize else 0
  blocks := if anySet mask GetAttr.blocks then st.blocks else 0
  atimeSec := if anySet mask GetAttr.atime then st.atim.1 else 0
  atimeNsec := if anySet mask GetAttr.atime then st.atim.2 else 0
  mtimeSec := if anySet mask GetAttr.mtime then st.mtim.1 else 0
  mtimeNsec := if anySet mask GetAttr.mtime then st.mtim.2 else 0
  ctimeSec := if anySet mask GetAttr.ctime then st.ctim.1 else 0
  ctimeNsec := if anySet mask GetAttr.ctime then st.ctim.2 else 0

def getAttr (f : File) (mask : Nat) : Op σ (Nat × Qid × StatResult) :=
  withUser f.root <| Action.embed do
    let st ← orThrow (← Action.call (.fstatat f.root.rootFd f.fileName false))
    let valid := getAttrFlags.foldl (fun v flag => if anySet mask flag then v ||| flag else v) GetAttr.ino
    return (valid, f.qid, attributes mask st)

namespace SetAttr

def mode : Nat := 0x1
def uid : Nat := 0x2
def gid : Nat := 0x4
def size : Nat := 0x8
def atime : Nat := 0x10
def mtime : Nat := 0x20
def ctime : Nat := 0x40
def atimeSet : Nat := 0x80
def mtimeSet : Nat := 0x100

end SetAttr

/-- A time of `SetAttr`: it is the current one unless its "set" flag is set. -/
def timeArgument (valid flag setFlag sec nsec : Nat) : TimeArgument :=
  if anySet valid flag then if anySet valid setFlag then .at sec nsec else .now else .omit

def setAttr (f : File) (valid : Nat) (stat : StatResult) : Op σ Unit :=
  if f.root.readOnly then Action.throw erofs
  else withUser f.root <| Action.embed do
    if anySet valid SetAttr.size then
      let fd ← f.openFile oWrOnly
      orThrow (← Action.call (.ftruncate fd stat.size))
    if anySet valid SetAttr.mode then
      orThrow (← Action.call (.fchmodat f.root.rootFd f.fileName stat.mode))
    if anySet valid (SetAttr.uid ||| SetAttr.gid) then
      let uid := if anySet valid SetAttr.uid then stat.uid else invalidId
      let gid := if anySet valid SetAttr.gid then stat.gid else invalidId
      orThrow (← Action.call (.fchownat f.root.rootFd f.fileName uid gid))
    if anySet valid (SetAttr.atime ||| SetAttr.mtime) then
      orThrow (← Action.call (.utimensat f.root.rootFd f.fileName
        (timeArgument valid SetAttr.atime SetAttr.atimeSet stat.atimeSec stat.atimeNsec)
        (timeArgument valid SetAttr.mtime SetAttr.mtimeSet stat.mtimeSec stat.mtimeNsec)))
    -- any of the operations above has updated the ctime
    if anySet valid SetAttr.ctime ∧ ¬ anySet valid (SetAttr.size ||| SetAttr.mode ||| SetAttr.uid |||
        SetAttr.gid ||| SetAttr.atime ||| SetAttr.mtime) then
      orThrow (← Action.call (.fchownat f.root.rootFd f.fileName invalidId invalidId))

/-- `Open`. -/
def open_ (flags : Nat) : Op File Qid := do
  let f ← Action.get
  if f.isOpen then Action.throw einval
  else withUser f.root do
    let linuxFlags := openFlagsToLinuxFlags (clearFlags flags OpenFlags.create) ||| oNoFollow
    let r ← (openAt f.root.rootFd f.fileName linuxFlags 0o600).embed
    let fd ← (orFail r).embed
    Action.modify fun f => { f with state := .file fd }
    return f.qid

/-- What `Create` does in the context of the user. -/
def createChild (f : File) (name : Bytes) (flags mode : Nat) : Calls (Except Int (Nat × Stat)) := do
  let linuxFlags := openFlagsToLinuxFlags flags ||| oCreat ||| oNoFollow
  match ← openAt f.root.rootFd (f.childPath name) linuxFlags mode with
  | .error e => return .error e
  | .ok fd => return (expected (← Action.call (.fstat fd))).map fun st => (fd, st)

def create (name : Bytes) (flags mode : Nat) : Op File (Except Int Qid) := do
  let f ← Action.get
  if f.isOpen then return .error einval
  else if f.root.readOnly then return .error erofs
  else withUser f.root do
    match ← (f.createChild name flags mode).embed with
    | .error e => return .error e
    | .ok (fd, st) =>
      Action.modify fun g =>
        { g with fileName := f.childPath name, state := .file fd, qid := statToQid st, device := st.dev }
      return .ok (statToQid st)

def mkDir (f : File) (name : Bytes) (mode : Nat) : Op σ (Except Int Qid) :=
  withUser f.root <| Action.embed do
    match expected (← Action.call (.mkdirat f.root.rootFd (f.childPath name) mode)) with
    | .error e => return .error e
    | .ok () => getFileQidByPath f.root.rootFd (f.childPath name)

/-! ### Directories -/

/-- `LX_DT_DIR` and `LX_DT_LNK`. -/
def dtDir : Nat := 4
def dtLnk : Nat := 10

def dirEntryTypeToQidType (type : Nat) : Nat :=
  if type = dtDir then qidDirectory else if type = dtLnk then qidSymlink else 0

def dirEntryTypeToMode (type : Nat) : Nat := type <<< 12

/-- `m_LastOffset`. -/
def lastOffset (f : File) : Nat :=
  match f.state with
  | .enumerator _ offset => offset
  | _ => 0

/-- `DirectoryEnumerator::Seek`: a directory that stands at the offset already is not moved. -/
def seek (fd offset : Nat) : Op File Unit := do
  if offset ≠ (← Action.get).lastOffset then
    if offset = 0 then Action.call (Syscall.rewinddir fd) else Action.call (Syscall.seekdir fd offset)
    Action.modify fun f => { f with state := .enumerator fd offset }

/-- `DirectoryEnumerator::Next`. -/
def next (fd : Nat) : Op File (Option Dirent) := do
  match ← Action.embed (do orThrow (← Action.call (.readdir fd))) with
  | none => return none
  | some entry =>
    Action.modify fun f => { f with state := .enumerator fd entry.off }
    return some entry

/-- The attributes of an entry; `.` and `..` have those of the directory. -/
def entryAttributes (fd : Nat) (entry : Dirent) : Calls StatResult := do
  let name := if entry.name.val = [46] ∨ entry.name.val = [46, 46] then [] else entry.name.val
  match expected (← Action.call (.fstatat fd name false)) with
  | .error _ => return { StatResult.zero with mode := dirEntryTypeToMode entry.type, nlink := 1 }
  | .ok st =>
    return ⟨st.mode, st.uid, st.gid, st.nlink, st.rdev, st.size, st.blksize, st.blocks, st.atim.1,
      st.atim.2, st.mtim.1, st.mtim.2, st.ctim.1, st.ctim.2⟩

/-- `SpanWriteDirectoryEntry`. -/
def directoryEntryBytes (entry : Dirent) (attributes : Option StatResult) : Bytes :=
  qidBytes ⟨entry.ino, 0, dirEntryTypeToQidType entry.type⟩ ++ leBytes 8 entry.off ++
    leBytes 1 entry.type ++ leBytes 2 entry.name.val.length ++ entry.name.val ++
      (attributes.map statResultBytes).getD []

theorem length_directoryEntryBytes_pos (entry : Dirent) (attributes : Option StatResult) :
    0 < (directoryEntryBytes entry attributes).length := by
  simp [directoryEntryBytes, qidSize]

/-- The loop of `ReadDir`: entries are written as long as they fit. -/
def readEntries (fd : Nat) (includeAttributes : Bool) (room : Nat) (dirEntriesWritten : Bool) :
    Op File Bytes := do
  match ← next fd with
  | none => return []
  | some entry =>
    let attributes ←
      if includeAttributes then Action.embed (some <$> entryAttributes fd entry) else pure none
    if (directoryEntryBytes entry attributes).length ≤ room then
      let written ← readEntries fd includeAttributes
        (room - (directoryEntryBytes entry attributes).length) true
      return directoryEntryBytes entry attributes ++ written
    else if dirEntriesWritten then return [] else Action.throw einval
termination_by room
decreasing_by
  have := length_directoryEntryBytes_pos entry attributes
  omega

/-- The directory of an open file, which becomes one that is read. -/
def enumerate : Op File Nat := do
  match (← Action.get).state with
  | .closed => Action.throw ebadf
  | .enumerator fd _ => return fd
  | .file fd =>
    Action.embed (do orThrow (← Action.call (.fdopendir fd)))
    Action.modify fun f => { f with state := .enumerator fd 0 }
    return fd

/-- `ReadDir`: the entries for a buffer of `count` bytes. -/
def readDir (offset count : Nat) (includeAttributes : Bool) : Op File Bytes := do
  let fd ← enumerate
  seek fd offset
  readEntries fd includeAttributes count false

/-! ### Data -/

/-- `Read`. The error of a read that is not started is `-errno`, that of one that fails `errno`. -/
def read (f : File) (offset size : Nat) : Calls Bytes := do
  match f.state with
  | .file fd =>
    let result : AioResult {s : Bytes // s.length ≤ size} ← Action.call (Syscall.aioRead fd offset size)
    match result with
    | .refused e => if e.code = eoverflow then return [] else Action.throw e.code
    | .failed e => Action.throw e.val
    | .done s => return s.val
  | _ => Action.throw ebadf

/-- `Write`. The error is `errno` in both cases. -/
def write (f : File) (offset : Nat) (data : Bytes) : Calls Nat := do
  match f.state with
  | .file fd =>
    let result : AioResult {n : Nat // n ≤ data.length} ← Action.call (Syscall.aioWrite fd offset data)
    match result with
    | .refused e => Action.throw e.val
    | .failed e => Action.throw e.val
    | .done n => return n.val
  | _ => Action.throw ebadf

def fsync (f : File) : Calls Unit := do
  match f.state with
  | .file fd => orThrow (← Action.call (.fsync fd))
  | _ => Action.throw einval

/-! ### Entries of directories -/

def unlinkAt (f : File) (name : Bytes) (flags : Nat) : Op σ Unit :=
  if f.root.readOnly then Action.throw erofs
  else withUser f.root <| Action.embed do
    orThrow (← Action.call (.unlinkat f.root.rootFd (f.childPath name) flags))

/-- `AT_REMOVEDIR`. -/
def atRemoveDir : Nat := 0x200

def remove (f : File) : Op σ Unit :=
  if f.root.readOnly then Action.throw erofs
  -- the root cannot be unlinked
  else if f.fileName = [] then Action.throw eperm
  else withUser f.root <| Action.embed do
    let flags := if f.qid.isDirectory then atRemoveDir else 0
    orThrow (← Action.call (.unlinkat f.root.rootFd f.fileName flags))

def renameAt (f : File) (oldName : Bytes) (newParent : File) (newName : Bytes) : Op σ Unit :=
  if ¬ newParent.isOnRoot f.root then Action.throw einval
  else if f.root.readOnly then Action.throw erofs
  else withUser f.root <| Action.embed do
    orThrow (← Action.call
      (.renameat f.root.rootFd (f.childPath oldName) (newParent.childPath newName)))

def rename (newParent : File) (newName : Bytes) : Op File Unit := do
  let f ← Action.get
  if ¬ newParent.isOnRoot f.root then Action.throw einval
  else if f.root.readOnly then Action.throw erofs
  -- the root cannot be renamed
  else if f.fileName = [] then Action.throw eperm
  else withUser f.root do
    Action.embed (do
      orThrow (← Action.call (.renameat f.root.rootFd f.fileName (newParent.childPath newName))))
    Action.modify fun f => { f with fileName := newParent.childPath newName }

def symLink (f : File) (name target : Bytes) : Op σ Qid :=
  if f.root.readOnly then Action.throw erofs
  else withUser f.root <| Action.embed do
    orThrow (← Action.call (.symlinkat target f.root.rootFd (f.childPath name)))
    orFail (← getFileQidByPath f.root.rootFd (f.childPath name))

def readLink (f : File) (size : Nat) :
    Op σ (Except Int {s : Bytes // s.length ≤ size ∧ s.length ≤ pathMax}) :=
  withUser f.root <| Action.embed do
    return expected (← Action.call (.readlinkat f.root.rootFd f.fileName size))

def link (f : File) (newName : Bytes) (target : File) : Op σ Unit :=
  if ¬ target.isOnRoot f.root then Action.throw einval
  else if f.root.readOnly then Action.throw erofs
  else withUser f.root <| Action.embed do
    orThrow (← Action.call (.linkat f.root.rootFd target.fileName (f.childPath newName)))

def mkNod (f : File) (name : Bytes) (mode major minor : Nat) : Op σ Qid :=
  if f.root.readOnly then Action.throw erofs
  else withUser f.root <| Action.embed do
    orThrow (← Action.call (.mknodat f.root.rootFd (f.childPath name) mode major minor))
    orFail (← getFileQidByPath f.root.rootFd (f.childPath name))

/-- `StatFs`: the file is opened before the user is entered. -/
def statFs (f : File) : Op σ StatFsResult := do
  let fd ← (f.openFile oPath).embed
  withUser f.root <| Action.embed do
    orThrow (← Action.call (.fstatfs fd))

/-! ### Locks -/

/-- `LockStatus::Success`. -/
def lockSuccess : Nat := 0

/-- `LockType::Unlock`. -/
def lockUnlock : Nat := 2

/-- `Lock`, which only asks for an open file. -/
def lock (f : File) : Calls Nat :=
  if f.isOpen then pure lockSuccess else Action.throw ebadf

/-- `GetLock`, which returns its arguments. -/
def getLock (f : File) (start length procId : Nat) (clientId : Bytes) :
    Calls (Nat × Nat × Nat × Nat × Bytes) :=
  if f.isOpen then pure (lockUnlock, start, length, procId, clientId) else Action.throw ebadf

/-! ### Access -/

/-- `CheckFOwnerCapability`: the capability is there, or it is not. -/
def checkFOwnerCapability : Calls Bool := do
  match expected (← Action.call .capget) with
  | .ok effective => return effective
  | .error e => if e = eperm then return false else Action.throw e

/-- The check of `Access` for `AccessFlags::Delete`. -/
def accessToDelete (f : File) : Calls Unit := do
  if f.fileName = [] then Action.throw eacces
  accessHelper f.root.rootFd (parentPath f.fileName) wOk
  let st ← orThrow (← Action.call (.fstatat f.root.rootFd (parentPath f.fileName) true))
  if anySet st.mode sISVTX then
    if ¬ (← checkFOwnerCapability) then
      let uid ← Action.call .geteuid
      if uid ≠ st.uid then
        let child ← orThrow (← Action.call (.fstatat f.root.rootFd f.fileName true))
        if uid ≠ child.uid then Action.throw eacces

def access (f : File) (flags : Nat) : Op σ Unit :=
  withUser f.root <| Action.embed do
    accessHelper f.root.rootFd f.fileName (clearFlags flags accessDelete)
    if anySet flags accessDelete then f.accessToDelete

end File

/-! ## `XAttr` -/

/-- `XAttr::Access`. -/
inductive XAttrAccess where
  | read
  | write
  deriving DecidableEq

structure XAttr where
  root : Root
  fileName : Bytes
  name : Bytes
  value : Bytes
  access : XAttrAccess
  flags : Nat
  deriving DecidableEq

namespace XAttr

variable {σ : Type}

/-- `GetValue`: without room, the value has the length only. -/
def getValue (x : XAttr) (size : Nat) : Op σ {s : Bytes // size = 0 ∨ s.length ≤ size} :=
  withUser x.root <| Action.embed do
    if x.name ≠ [] then orThrow (← Action.call (.lgetxattr x.fileName x.name size))
    else orThrow (← Action.call (.llistxattr x.fileName size))

def getSize (x : XAttr) : Op σ Nat := do
  return (← x.getValue 0).val.length

/-- `Read`: what the buffer holds at the length that is returned. Without room for the value that is
not the value. -/
def read (x : XAttr) (offset size : Nat) : Op σ Bytes := do
  if x.access ≠ .read ∨ offset ≠ 0 then Action.throw einval
  else
    let value ← x.getValue size
    if size = 0 then
      let rest : {s : Bytes // s.length = value.val.length} ← Action.call (Syscall.unwritten value.val.length)
      return rest.val
    else return value.val

/-- `Write` into the value, as far as it goes. -/
def write (offset : Nat) (data : Bytes) : Op XAttr Nat := do
  let x ← Action.get
  if x.access ≠ .write then Action.throw einval
  else if offset > x.value.length then return 0
  else
    let length := min data.length (x.value.length - offset)
    Action.modify fun x =>
      { x with value := x.value.take offset ++ data.take length ++ x.value.drop (offset + length) }
    return length

/-- `Clunk`. A value without bytes is removed. -/
def clunk (x : XAttr) : Calls Unit := do
  if x.access = .write then
    if x.value = [] then orThrow (← Action.call (.lremovexattr x.fileName x.name))
    else orThrow (← Action.call (.lsetxattr x.fileName x.name x.value x.flags))

end XAttr

namespace File

/-- `XattrWalk`. -/
def xattrWalk (f : File) (name : Bytes) : Calls XAttr := do
  let path ← getFdPath f.root.rootFd
  return ⟨f.root, appendPath path f.fileName, name, [], .read, 0⟩

/-- `XattrCreate`: there has to be room for the value, which is made of zeros. -/
def xattrCreate (f : File) (name : Bytes) (size flags : Nat) : Calls XAttr := do
  if f.root.readOnly then Action.throw erofs
  else if f.isOpen then Action.throw einval
  else
    let path ← getFdPath f.root.rootFd
    orThrow (← Action.call (.allocate size))
    return ⟨f.root, appendPath path f.fileName, name, List.replicate size 0, .write, flags⟩

end File

/-! ## `Fid` -/

/-- What a fid denotes. -/
inductive Fid where
  | file (f : File)
  | xattr (x : XAttr)
  deriving DecidableEq

namespace Fid

variable {σ : Type}

/-- A file; the methods that only files have fail with `error` for others. -/
def asFile (error : Int) : Fid → Calls File
  | .file f => pure f
  | .xattr _ => Action.throw error

def onFile {α : Type} (m : Op File α) : Op Fid α := do
  match ← Action.get with
  | .file f => m.zoom (fun _ => f) fun f _ => .file f
  | .xattr _ => Action.throw einval

def read (fid : Fid) (offset size : Nat) : Op σ Bytes :=
  match fid with
  | .file f => (f.read offset size).embed
  | .xattr x => x.read offset size

def write (offset : Nat) (data : Bytes) : Op Fid Nat := do
  match ← Action.get with
  | .file f => (f.write offset data).embed
  | .xattr x => (XAttr.write offset data).zoom (fun _ => x) fun x _ => .xattr x

def clunk : Fid → Calls Unit
  | .file _ => pure ()
  | .xattr x => x.clunk

end Fid

/-! ## Roots -/

/-- `c_NobodyGroupName`. -/
def nobodyGroupName : Bytes := ascii "nobody"

/-- The group for a user, or that of `nobody`. -/
def groupFor (uid : Nat) : Calls Nat := do
  let gid ← Action.call (.getUserGroupId uid)
  if gid ≠ invalidId then return gid
  else
    let nobody ← Action.call (.getGroupIdByName nobodyGroupName)
    if nobody ≠ invalidId then return nobody else Action.throw einval

/-- `MakeRoot`, with the constructor of `Root`. -/
def makeRoot (id : Nat) (aname : Bytes) (uid : Nat) : Calls Root := do
  let share ← Action.call (.share aname)
  match show Option Nat from share with
  | none => Action.throw enoent
  | some rootFd =>
    let currentUid ← Action.call .geteuid
    if uid = currentUid then return ⟨id, rootFd, invalidId, invalidId, []⟩
    else if currentUid = 0 then
      let gid ← groupFor uid
      if uid = invalidId then return ⟨id, rootFd, uid, gid, []⟩
      else
        let groups : Option (List Nat) ← Action.call (Syscall.getgrouplist uid gid)
        return ⟨id, rootFd, uid, gid, groups.getD []⟩
    else Action.throw eperm

end WslFreeBSD.Plan9
