import WslFreeBSD.Plan9.Files

/-!
# The handler of the plan9 server

A request is handled in a `Context`: the handler, what is left of the message, and the response. A read
behind the end of the message and a write behind the end of the response halt. What a handler returns as
an error it throws here, so that an error behind a change of the handler leaves the change there.

`processMessage` is one request from its header to the response. `processMessageAsync` answers into a
buffer of a given size, `processSocketMessage` into one that can grow. Requests are handled one after the
other: the list of requests holds the request itself and no other.
-/

namespace WslFreeBSD.Plan9

open Lib

def staticBufferSize : Nat := 256
def createRetryCount : Nat := 3
def minimumRequestBufferSize : Nat := 4096
def initialResponseBufferSize : Nat := 64

def protocolVersionL : Bytes := ascii "9P2000.L"
def protocolVersionW : Bytes := ascii "9P2000.W"

/-- The members of `Handler` that requests read and change. The negotiated size is between the one that
a handler starts with and the largest one that is accepted. -/
structure Handler where
  fids : Nat → Option Fid
  negotiatedSize : Nat
  negotiated : Bool
  allowRenegotiate : Bool
  use9P2000W : Bool
  /-- what the next root is known by -/
  nextRoot : Nat
  size_ge : initialResponseBufferSize ≤ negotiatedSize
  size_le : negotiatedSize ≤ maximumRequestBufferSize

def Handler.fresh (allowRenegotiate : Bool) : Handler where
  fids := fun _ => none
  negotiatedSize := initialResponseBufferSize
  negotiated := false
  allowRenegotiate := allowRenegotiate
  use9P2000W := false
  nextRoot := 0
  size_ge := le_rfl
  size_le := by decide

/-- `MessageResponse`: the buffer, and what was written behind the place of the header. -/
structure MessageResponse where
  size : Nat
  written : Bytes
  allowResize : Bool
  fits : headerSize + written.length ≤ size

namespace MessageResponse

/-- A buffer in which only the header is skipped. -/
def ofSize (size : Nat) (allowResize : Bool) (h : headerSize ≤ size) : MessageResponse where
  size := size
  written := []
  allowResize := allowResize
  fits := h

def remaining (r : MessageResponse) : Nat := r.size - (headerSize + r.written.length)

/-- `Next`, with what is written there. -/
def next (r : MessageResponse) (data : Bytes) : Option MessageResponse :=
  if h : headerSize + (r.written ++ data).length ≤ r.size then
    some { r with written := r.written ++ data, fits := h }
  else none

/-- `Header` and `Result`. -/
def result (r : MessageResponse) (code tag : Nat) : Bytes :=
  leBytes 4 (headerSize + r.written.length) ++ leBytes 1 code ++ leBytes 2 tag ++ r.written

end MessageResponse

/-- What a request is handled with. -/
structure Context where
  handler : Handler
  message : Bytes
  response : MessageResponse

/-! ## Reading -/

namespace SpanReader

def read (count : Nat) : Op Context Bytes := do
  let c ← Action.get
  if c.message.length < count then Action.halt .readPast
  else
    Action.modify fun c => { c with message := c.message.drop count }
    return c.message.take count

/-- `U8`, `U16`, `U32` and `U64`. -/
def uint (size : Nat) : Op Context Nat := do
  return leAt 0 size (← read size)

def string : Op Context Bytes := do
  let length ← uint 2
  return fixString (← read length)

def name : Op Context Bytes := do
  let s ← string
  if isName s then return s else Action.throw einval

def names : Nat → Op Context (List Bytes)
  | 0 => return []
  | n + 1 => do
    let s ← name
    return s :: (← names n)

end SpanReader

/-! ## Writing -/

namespace SpanWriter

def write (data : Bytes) : Op Context Unit := do
  let c ← Action.get
  match c.response.next data with
  | none => Action.halt .writePast
  | some response => Action.modify fun c => { c with response := response }

/-- `U8`, `U16`, `U32` and `U64`. -/
def uint (size value : Nat) : Op Context Unit := write (leBytes size value)

def string (s : Bytes) : Op Context Unit := do
  if s.length > 2 ^ 16 - 1 then Action.halt .writePast
  else
    uint 2 s.length
    write s

/-- `Peek` of a number of bytes. -/
def peek (count : Nat) : Op Context Unit := do
  let c ← Action.get
  if c.response.remaining < count then Action.halt .writePast

end SpanWriter

theorem headerSize_le (t : MessageType) (extra : Nat) : headerSize ≤ getMessageSize t + extra := by
  cases t <;> simp [getMessageSize] <;> omega

/-- `EnsureSize` for the reply to a request. -/
def ensureSize (t : MessageType) (extraSize : Nat) : Op Context Unit := do
  let c ← Action.get
  let size := getMessageSize t + extraSize
  if size > c.handler.negotiatedSize then Action.throw einval
  else if size > c.response.size then
    if ¬ c.response.allowResize then Action.throw einval
    else
      Action.modify fun c =>
        { c with response := .ofSize size c.response.allowResize (headerSize_le t extraSize) }

/-! ## Fids -/

def Handler.setFid (h : Handler) (fid : Nat) (item : Option Fid) : Handler :=
  { h with fids := Function.update h.fids fid item }

def setFid (fid : Nat) (item : Option Fid) : Op Context Unit :=
  Action.modify fun c => { c with handler := c.handler.setFid fid item }

def lookupFid (fid : Nat) : Op Context Fid := do
  match (← Action.get).handler.fids fid with
  | some item => return item
  | none => Action.throw einval

/-- `LookupFid`, of a fid whose methods fail with an error unless it is a file. -/
def lookupFile (fid : Nat) (error : Int) : Op Context File := do
  let item ← lookupFid fid
  (item.asFile error).embed

/-- `LookupFidPair`, of files. -/
def lookupFilePair (fid1 fid2 : Nat) : Op Context (File × File) := do
  let item1 ← lookupFid fid1
  let item2 ← lookupFid fid2
  return (← (item1.asFile einval).embed, ← (item2.asFile einval).embed)

def emplaceFid (fid : Nat) (item : Fid) : Op Context Unit := do
  match (← Action.get).handler.fids fid with
  | some _ => Action.throw einval
  | none => setFid fid (some item)

def onFid {α : Type} (fid : Nat) (item : Fid) (m : Op Fid α) : Op Context α :=
  m.zoom (fun _ => item) fun item c => { c with handler := c.handler.setFid fid (some item) }

/-- A method that changes a file which no fid denotes yet. -/
def onFile {α : Type} (file : File) (m : Op File α) : Op Context (α × File) := m.withState file

/-! ## Requests -/

def ioUnit : Nat := 0

/-- `HandleVersion`. -/
def handleVersion : Op Context Unit := do
  let h := (← Action.get).handler
  if h.negotiated ∧ ¬ h.allowRenegotiate then Action.throw enotsup
  else
    let size ← SpanReader.uint 4
    let version ← SpanReader.string
    if hsize : size < minimumRequestBufferSize then Action.throw enotsup
    else if version ≠ protocolVersionW ∧ version ≠ protocolVersionL then Action.throw enotsup
    else
      let use9P2000W := decide (version = protocolVersionW)
      let size' := min size maximumRequestBufferSize
      if h.negotiated ∧ (use9P2000W ≠ h.use9P2000W ∨ size' ≠ h.negotiatedSize) then
        Action.throw enotsup
      else
        Action.modify fun c => { c with handler := { c.handler with
          use9P2000W := use9P2000W, negotiatedSize := size', negotiated := true,
          size_ge := by
            simp only [size', initialResponseBufferSize, maximumRequestBufferSize,
              minimumRequestBufferSize] at hsize ⊢
            omega
          size_le := Nat.min_le_right _ _ } }
        ensureSize .version version.length
        SpanWriter.uint 4 size'
        SpanWriter.string version

/-- `CreateFile` for a root that was just made, and `Initialize`. -/
def createFile (root : Root) : Op Context (File × Qid) := do
  let (qid, file) ← onFile ⟨[], root, ⟨0, 0, 0⟩, 0, .closed⟩ File.init
  return (file, qid)

def handleAttach : Op Context Unit := do
  let fid ← SpanReader.uint 4
  let _ ← SpanReader.uint 4
  let _ ← SpanReader.string
  let aname ← SpanReader.string
  let uid ← SpanReader.uint 4
  let root ← (makeRoot (← Action.get).handler.nextRoot aname uid).embed
  Action.modify fun c => { c with handler := { c.handler with nextRoot := c.handler.nextRoot + 1 } }
  let (file, qid) ← createFile root
  emplaceFid fid (.file file)
  ensureSize .attach 0
  SpanWriter.write (qidBytes qid)

def handleStatFs : Op Context Unit := do
  let fid ← SpanReader.uint 4
  let file ← lookupFile fid einval
  let statfs ← file.statFs
  ensureSize .statfs 0
  SpanWriter.uint 4 statfs.type
  SpanWriter.uint 4 statfs.blockSize
  SpanWriter.uint 8 statfs.blocks
  SpanWriter.uint 8 statfs.blocksFree
  SpanWriter.uint 8 statfs.blocksAvailable
  SpanWriter.uint 8 statfs.files
  SpanWriter.uint 8 statfs.filesFree
  SpanWriter.uint 8 statfs.fsId
  SpanWriter.uint 4 statfs.nameLength

def handleGetAttr : Op Context Unit := do
  let fid ← SpanReader.uint 4
  let mask ← SpanReader.uint 8
  let file ← lookupFile fid einval
  let (valid, qid, stat) ← file.getAttr mask
  ensureSize .getattr 0
  SpanWriter.uint 8 valid
  SpanWriter.write (qidBytes qid)
  SpanWriter.write (statResultBytes stat)
  SpanWriter.uint 8 0
  SpanWriter.uint 8 0
  SpanWriter.uint 8 0
  SpanWriter.uint 8 0

/-- The loop of `HandleWalk`. -/
def walkNames (file : File) : List Bytes → Op Context File
  | [] => return file
  | name :: names => do
    let (r, file) ← onFile file (File.walk name)
    let qid ← (orFail r).embed
    SpanWriter.write (qidBytes qid)
    walkNames file names

def handleWalk : Op Context Unit := do
  let fid ← SpanReader.uint 4
  let newfid ← SpanReader.uint 4
  let nameCount ← SpanReader.uint 2
  let names ← SpanReader.names nameCount
  let entry ← lookupFile fid einval
  ensureSize .walk (nameCount * qidSize)
  SpanWriter.uint 2 nameCount
  let newFile ← walkNames entry.clone names
  emplaceFid newfid (.file newFile)

/-- `HandleClunk`: the fid is gone also if an error is returned. -/
def handleClunk : Op Context Unit := do
  let fid ← SpanReader.uint 4
  let item ← lookupFid fid
  setFid fid none
  item.clunk.embed

def handleLOpen : Op Context Unit := do
  let fid ← SpanReader.uint 4
  let flags ← SpanReader.uint 4
  let entry ← lookupFid fid
  let qid ← onFid fid entry (Fid.onFile (File.open_ flags))
  ensureSize .lopen 0
  SpanWriter.write (qidBytes qid)
  SpanWriter.uint 4 ioUnit

def handleLCreate : Op Context Unit := do
  let fid ← SpanReader.uint 4
  let name ← SpanReader.name
  let flags ← SpanReader.uint 4
  let mode ← SpanReader.uint 4
  let _ ← SpanReader.uint 4
  let entry ← lookupFid fid
  let r ← onFid fid entry (Fid.onFile (File.create name flags mode))
  let qid ← (orFail r).embed
  ensureSize .lcreate 0
  SpanWriter.write (qidBytes qid)
  SpanWriter.uint 4 ioUnit

def handleSymLink : Op Context Unit := do
  let fid ← SpanReader.uint 4
  let name ← SpanReader.name
  let target ← SpanReader.string
  let _ ← SpanReader.uint 4
  let file ← lookupFile fid einval
  let qid ← file.symLink name target
  ensureSize .symlink 0
  SpanWriter.write (qidBytes qid)

def handleMkNod : Op Context Unit := do
  let fid ← SpanReader.uint 4
  let name ← SpanReader.name
  let mode ← SpanReader.uint 4
  let major ← SpanReader.uint 4
  let minor ← SpanReader.uint 4
  let _ ← SpanReader.uint 4
  let file ← lookupFile fid einval
  let qid ← file.mkNod name mode major minor
  ensureSize .mknod 0
  SpanWriter.write (qidBytes qid)

/-- What is written of a link: its text, or its length alone if there is none. -/
def writeLink (file : File) (onError : Int → Op Context Unit) : Op Context Unit := do
  SpanWriter.peek 2
  let size := (← Action.get).response.remaining - 2
  match ← file.readLink size with
  | .ok target =>
    SpanWriter.uint 2 target.val.length
    SpanWriter.write target.val
  | .error e => onError e

def handleReadLink : Op Context Unit := do
  let fid ← SpanReader.uint 4
  let file ← lookupFile fid einval
  ensureSize .readlink pathMax
  writeLink file Action.throw

def handleReadDir (includeAttributes : Bool) : Op Context Unit := do
  if includeAttributes ∧ ¬ (← Action.get).handler.use9P2000W then Action.throw enotsup
  else
    let fid ← SpanReader.uint 4
    let offset ← SpanReader.uint 8
    let count ← SpanReader.uint 4
    let entry ← lookupFid fid
    ensureSize .readdir count
    SpanWriter.peek (4 + count)
    let written ← onFid fid entry (Fid.onFile (File.readDir offset count includeAttributes))
    SpanWriter.uint 4 written.length
    SpanWriter.write written

def handleFsync : Op Context Unit := do
  let fid ← SpanReader.uint 4
  let file ← lookupFile fid einval
  file.fsync.embed

def handleLink : Op Context Unit := do
  let dfid ← SpanReader.uint 4
  let fid ← SpanReader.uint 4
  let name ← SpanReader.name
  let (dir, file) ← lookupFilePair dfid fid
  dir.link name file

def handleRead : Op Context Unit := do
  let fid ← SpanReader.uint 4
  let offset ← SpanReader.uint 8
  let count ← SpanReader.uint 4
  let item ← lookupFid fid
  ensureSize .read count
  SpanWriter.peek (4 + count)
  let data ← item.read offset count
  SpanWriter.uint 4 data.length
  SpanWriter.write data

def handleWrite : Op Context Unit := do
  let fid ← SpanReader.uint 4
  let offset ← SpanReader.uint 8
  let count ← SpanReader.uint 4
  let data ← SpanReader.read count
  let item ← lookupFid fid
  let written ← onFid fid item (Fid.write offset data)
  ensureSize .write 0
  SpanWriter.uint 4 written

def handleUnlinkAt : Op Context Unit := do
  let fid ← SpanReader.uint 4
  let name ← SpanReader.name
  let flags ← SpanReader.uint 4
  let file ← lookupFile fid einval
  file.unlinkAt name flags

def handleRemove : Op Context Unit := do
  let fid ← SpanReader.uint 4
  let file ← lookupFile fid einval
  file.remove

def handleRenameAt : Op Context Unit := do
  let oldfid ← SpanReader.uint 4
  let oldname ← SpanReader.name
  let newfid ← SpanReader.uint 4
  let newname ← SpanReader.name
  let (olddir, newdir) ← lookupFilePair oldfid newfid
  olddir.renameAt oldname newdir newname

def handleRename : Op Context Unit := do
  let oldFid ← SpanReader.uint 4
  let newFid ← SpanReader.uint 4
  let newName ← SpanReader.name
  let (oldFile, newDir) ← lookupFilePair oldFid newFid
  onFid oldFid (.file oldFile) (Fid.onFile (File.rename newDir newName))

def handleMkDir : Op Context Unit := do
  let fid ← SpanReader.uint 4
  let name ← SpanReader.name
  let mode ← SpanReader.uint 4
  let _ ← SpanReader.uint 4
  let file ← lookupFile fid einval
  let r ← file.mkDir name mode
  let qid ← (orFail r).embed
  ensureSize .mkdir 0
  SpanWriter.write (qidBytes qid)

def handleSetAttr : Op Context Unit := do
  let fid ← SpanReader.uint 4
  let valid ← SpanReader.uint 4
  let mode ← SpanReader.uint 4
  let uid ← SpanReader.uint 4
  let gid ← SpanReader.uint 4
  let size ← SpanReader.uint 8
  let atimeSec ← SpanReader.uint 8
  let atimeNsec ← SpanReader.uint 8
  let mtimeSec ← SpanReader.uint 8
  let mtimeNsec ← SpanReader.uint 8
  let file ← lookupFile fid einval
  file.setAttr valid { StatResult.zero with
    mode := mode, uid := uid, gid := gid, size := size, atimeSec := atimeSec, atimeNsec := atimeNsec,
    mtimeSec := mtimeSec, mtimeNsec := mtimeNsec }

def handleLock : Op Context Unit := do
  let fid ← SpanReader.uint 4
  let _ ← SpanReader.uint 1
  let _ ← SpanReader.uint 4
  let _ ← SpanReader.uint 8
  let _ ← SpanReader.uint 8
  let _ ← SpanReader.uint 4
  let _ ← SpanReader.string
  let file ← lookupFile fid einval
  let status ← file.lock.embed
  ensureSize .lock 0
  SpanWriter.uint 1 status

def handleGetLock : Op Context Unit := do
  let fid ← SpanReader.uint 4
  let _ ← SpanReader.uint 1
  let start ← SpanReader.uint 8
  let length ← SpanReader.uint 8
  let procId ← SpanReader.uint 4
  let clientId ← SpanReader.string
  let file ← lookupFile fid einval
  let (type, start, length, procId, clientId) ← (file.getLock start length procId clientId).embed
  ensureSize .getlock 0
  SpanWriter.uint 1 type
  SpanWriter.uint 8 start
  SpanWriter.uint 8 length
  SpanWriter.uint 4 procId
  SpanWriter.string clientId

def handleXattrWalk : Op Context Unit := do
  let fid ← SpanReader.uint 4
  let newFid ← SpanReader.uint 4
  let name ← SpanReader.string
  let entry ← lookupFile fid einval
  let xattr ← (entry.xattrWalk name).embed
  let size ← xattr.getSize
  emplaceFid newFid (.xattr xattr)
  ensureSize .xattrwalk 0
  SpanWriter.uint 8 size

/-- `HandleXattrCreate`: the fid denotes the attribute from now on. -/
def handleXattrCreate : Op Context Unit := do
  let fid ← SpanReader.uint 4
  let name ← SpanReader.string
  let size ← SpanReader.uint 8
  let flags ← SpanReader.uint 4
  let entry ← lookupFile fid einval
  let xattr ← (entry.xattrCreate name size flags).embed
  setFid fid (some (.xattr xattr))

def handleAccess : Op Context Unit := do
  if ¬ (← Action.get).handler.use9P2000W then Action.throw enotsup
  else
    let fid ← SpanReader.uint 4
    let flags ← SpanReader.uint 4
    let file ← lookupFile fid enotsup
    file.access flags

/-! ### `Twopen` -/

namespace WOpenFlags

def deleteAccess : Nat := 0x1
def nonDirectoryFile : Nat := 0x2
def openSymlink : Nat := 0x4

end WOpenFlags

inductive WOpenStatus where
  | opened
  | created
  | parentNotFound
  | notFound
  | stopped
  deriving DecidableEq, Repr

def WOpenStatus.code : WOpenStatus → Nat
  | .opened => 0
  | .created => 1
  | .parentNotFound => 2
  | .notFound => 3
  | .stopped => 4

/-- `WriteWOpenReply`. -/
def writeWOpenReply (status : WOpenStatus) (walked : Nat) (file : File) (mask : Nat) :
    Op Context Unit := do
  let (_, qid, stat) ← file.getAttr mask
  ensureSize .wopen (if qid.isSymlink then pathMax else 0)
  SpanWriter.uint 1 status.code
  SpanWriter.uint 2 walked
  SpanWriter.write (qidBytes qid)
  if qid.isSymlink then writeLink file fun _ => SpanWriter.uint 2 0
  else SpanWriter.uint 2 0
  SpanWriter.uint 4 ioUnit
  SpanWriter.write (statResultBytes stat)
  SpanWriter.uint 8 0
  SpanWriter.uint 8 0
  SpanWriter.uint 8 0
  SpanWriter.uint 8 0

/-- The item of a `Twopen`: whether it was there, whether it still has to be opened, and its qid. -/
structure WOpenItem where
  existed : Bool
  needOpen : Bool
  qid : Qid

/-- What a part of `Twopen` comes to: a reply that ends the request, or a value to go on with. -/
abbrev WOpenResult (α : Type) := Except (WOpenStatus × Nat) α

def walkParents : (n walked : Nat) → File → Op Context (WOpenResult Unit × File)
  | 0, _, file => return (.ok (), file)
  | n + 1, walked, file => do
    let name ← SpanReader.name
    let (r, file) ← onFile file (File.walk name)
    match r with
    | .ok _ => walkParents n (walked + 1) file
    | .error e =>
      if e = enoent then return (.error (.parentNotFound, walked), file)
      else if e = enotdir then return (.error (.stopped, walked), file)
      else Action.throw e

/-- Step 3, with whether the item still has to be opened behind it. -/
def createItem (name : Bytes) (flags mode : Nat) (needOpen : Bool) (file : File) :
    Op Context (Except Int Qid × Bool × File) := do
  if anySet flags OpenFlags.directory then
    return (← file.mkDir name mode, needOpen, file)
  else
    let (r, file) ← onFile file (File.create name (flags ||| OpenFlags.exclusive) mode)
    return (r, false, file)

def walkItem (name : Bytes) (flags : Nat) (file : File) : Op Context (Option (Except Int Qid) × File) := do
  if allSet flags (OpenFlags.create ||| OpenFlags.exclusive) then return (none, file)
  else
    let (r, file) ← onFile file (File.walk name)
    return (some r, file)

/-- Steps 2 and 3, as often as an item that was not there is there when it is created. -/
def findItem (name : Bytes) (flags mode nameCount : Nat) :
    (retries : Nat) → (needOpen : Bool) → (entryQid : Qid) → File →
      Op Context (WOpenResult WOpenItem × File)
  | 0, _, _, _ => Action.throw eio
  | retries + 1, needOpen, entryQid, file => do
    let create (file : File) : Op Context (WOpenResult WOpenItem × File) := do
      if anySet flags OpenFlags.create then
        let (r, needOpen, file) ← createItem name flags mode needOpen file
        match r with
        | .ok qid => return (.ok ⟨false, needOpen, qid⟩, file)
        | .error e =>
          if e = eexist ∧ ¬ anySet flags OpenFlags.exclusive then
            findItem name flags mode nameCount retries true entryQid file
          else Action.throw e
      else return (.ok ⟨false, needOpen, entryQid⟩, file)
    let (r, file) ← walkItem name flags file
    match r with
    | none => create file
    | some (.ok qid) => return (.ok ⟨true, needOpen, qid⟩, file)
    | some (.error e) =>
      if e = enoent then
        if ¬ anySet flags OpenFlags.create then return (.error (.notFound, nameCount - 1), file)
        else create file
      else if e = enotdir then return (.error (.stopped, nameCount - 1), file)
      else Action.throw e

/-- Steps 1 to 3; without names, it is the file itself. -/
def locateItem (flags mode nameCount : Nat) (newFile : File) :
    Op Context (WOpenResult WOpenItem × File) := do
  if nameCount > 0 then
    let (r, file) ← walkParents (nameCount - 1) 0 newFile
    match r with
    | .error reply => return (.error reply, file)
    | .ok () =>
      let name ← SpanReader.name
      findItem name flags mode nameCount createRetryCount true newFile.qid file
  else return (.ok ⟨false, true, newFile.qid⟩, newFile)

def wopenFlags (flags : Nat) (isDirectory : Bool) : Nat :=
  let access := flags &&& OpenFlags.accessMask
  let flags :=
    if access = OpenFlags.noAccess ∨
        isDirectory ∧ (access = OpenFlags.writeOnly ∨ access = OpenFlags.readWrite) then
      clearFlags flags OpenFlags.accessMask
    else flags
  clearFlags flags (OpenFlags.create ||| OpenFlags.exclusive)

def openItem (flags : Nat) (item : WOpenItem) (file : File) : Op Context File := do
  let access := flags &&& OpenFlags.accessMask
  if item.needOpen ∧ ¬ item.qid.isSymlink ∧
      (access ≠ OpenFlags.noAccess ∨ anySet flags OpenFlags.truncate) then
    let (_, file) ← onFile file (File.open_ (wopenFlags flags item.qid.isDirectory))
    return file
  else return file

def finishItem (newFid flags wflags mask nameCount : Nat) (item : WOpenItem) (file : File) :
    Op Context Unit := do
  if anySet wflags WOpenFlags.nonDirectoryFile ∧ item.qid.isDirectory then Action.throw eisdir
  else if anySet flags OpenFlags.directory ∧ ¬ item.qid.isDirectory then Action.throw enotdir
  else
    if anySet wflags WOpenFlags.deleteAccess then file.access accessDelete
    if item.qid.isSymlink ∧ ¬ anySet wflags WOpenFlags.openSymlink then
      writeWOpenReply .stopped nameCount file mask
    else
      let file ← openItem flags item file
      writeWOpenReply (if item.existed then .opened else .created) nameCount file mask
      emplaceFid newFid (.file file)

/-- `HandleWOpen`: the new fid is there only if the item was opened or created. -/
def handleWOpen : Op Context Unit := do
  if ¬ (← Action.get).handler.use9P2000W then Action.throw enotsup
  else
    let fid ← SpanReader.uint 4
    let newFid ← SpanReader.uint 4
    let flags ← SpanReader.uint 4
    let wflags ← SpanReader.uint 4
    let mode ← SpanReader.uint 4
    let _ ← SpanReader.uint 4
    let mask ← SpanReader.uint 8
    let nameCount ← SpanReader.uint 2
    let entry ← lookupFile fid einval
    let (r, file) ← locateItem flags mode nameCount entry.clone
    match r with
    | .error (status, walked) => writeWOpenReply status walked file mask
    | .ok item => finishItem newFid flags wflags mask nameCount item file

/-! ## Messages -/

/-- `HandleFlush`: no other request is in the list, and this one waits for itself. -/
def handleFlush (tag : Nat) : Op Context Unit := do
  let oldTag ← SpanReader.uint 2
  if oldTag = tag then Action.halt .waiting

def handleNotSupported : Op Context Unit := Action.throw enotsup

def handleMessage (tag : Nat) : MessageType → Op Context Unit
  | .read => handleRead
  | .write => handleWrite
  | .flush => handleFlush tag
  | .statfs => handleStatFs
  | .lopen => handleLOpen
  | .lcreate => handleLCreate
  | .symlink => handleSymLink
  | .mknod => handleMkNod
  | .readlink => handleReadLink
  | .getattr => handleGetAttr
  | .setattr => handleSetAttr
  | .xattrwalk => handleXattrWalk
  | .xattrcreate => handleXattrCreate
  | .readdir => handleReadDir false
  | .wreaddir => handleReadDir true
  | .fsync => handleFsync
  | .lock => handleLock
  | .getlock => handleGetLock
  | .link => handleLink
  | .mkdir => handleMkDir
  | .renameat => handleRenameAt
  | .unlinkat => handleUnlinkAt
  | .version => handleVersion
  | .auth => handleNotSupported
  | .attach => handleAttach
  | .walk => handleWalk
  | .clunk => handleClunk
  | .remove => handleRemove
  | .rename => handleRename
  | .access => handleAccess
  | .wopen => handleWOpen

/-- What a request comes to. -/
inductive Reply where
  | answer (code tag : Nat) (body : MessageResponse)
  | rlerror (ecode tag : Nat) (body : MessageResponse)

def Reply.bytes : Reply → Bytes
  | .answer code tag body => body.result (code + 1) tag
  | .rlerror _ tag body => body.result (tlerror + 1) tag

/-- `ProcessMessage` of a reader and a response: behind an error, the response starts anew. -/
def processMessage : Op Context Reply := do
  let _ ← SpanReader.uint 4
  let code ← SpanReader.uint 1
  let tag ← SpanReader.uint 2
  let errorWriter := (← Action.get).response
  let handled := match messageType code with
    | some t => handleMessage tag t
    | none => handleNotSupported
  match ← handled.attempt with
  | .ok () => return .answer code tag (← Action.get).response
  | .error e =>
    Action.modify fun c => { c with response := errorWriter }
    let ecode := ((-e) % 2 ^ 32).toNat
    SpanWriter.uint 4 ecode
    return .rlerror ecode tag (← Action.get).response

def respond (message : Bytes) (response : MessageResponse) : Op Handler Reply :=
  processMessage.zoom (fun h => ⟨h, message, response⟩) fun c _ => c.handler

/-- `ProcessMessageAsync`: the response has the size that the caller gives it. -/
def processMessageAsync (message : Bytes) (responseSize : Nat) : Op Handler Reply :=
  if h : headerSize ≤ responseSize then respond message (.ofSize responseSize false h)
  else Action.halt .writePast

theorem headerSize_le_static : headerSize ≤ staticBufferSize := by decide

/-- `ProcessMessage` of a message that was received from a socket. -/
def processSocketMessage (message : Bytes) : Op Handler Reply :=
  respond message (.ofSize staticBufferSize true (by decide))

end WslFreeBSD.Plan9
