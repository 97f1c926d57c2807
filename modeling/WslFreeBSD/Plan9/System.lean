import WslFreeBSD.Lib.Action
import WslFreeBSD.Lib.Bytes

/-!
# The system under the plan9 server

The calls that the server makes, with their answers. Nothing is assumed of an answer beyond what its
type says: an error number is positive, and a call that fills a buffer does not fill more than that.

`Op σ` are actions with a state `σ`. A method that returns an error and one that throws it differ
only in what their caller does, so that a method of `Fid` returns `Except Int`, and the thrown error
number is the error of the action. `FAIL_FAST`, a failed bounds check of a span and an exception in a
destructor all end the process: the action halts.
-/

namespace WslFreeBSD.Plan9

open Lib

/-- The value of `errno` behind a call that failed. -/
abbrev Errno := {n : Nat // 0 < n ∧ n < 4096}

/-- `-errno`. -/
def Errno.code (e : Errno) : Int := -(e.val : Int)

theorem isErrno_five : 0 < 5 ∧ 5 < 4096 := by decide

theorem length_unwritten (size : Nat) : (List.replicate size (0 : UInt8)).length = size :=
  List.length_replicate

def enoent : Int := -2
def eio : Int := -5
def ebadf : Int := -9
def eacces : Int := -13
def eexist : Int := -17
def enotdir : Int := -20
def eisdir : Int := -21
def einval : Int := -22
def erofs : Int := -30
def eperm : Int := -1
def eoverflow : Int := -75
def enotsup : Int := -95

/-- `struct stat`; the times are seconds and nanoseconds. -/
structure Stat where
  dev : Nat
  ino : Nat
  mode : Nat
  nlink : Nat
  uid : Nat
  gid : Nat
  rdev : Nat
  size : Nat
  blksize : Nat
  blocks : Nat
  atim : Nat × Nat
  mtim : Nat × Nat
  ctim : Nat × Nat

/-- `struct dirent`. -/
structure Dirent where
  ino : Nat
  off : Nat
  type : Nat
  name : {s : Bytes // s.length ≤ 255}

/-- `StatFsResult`. -/
structure StatFsResult where
  type : Nat
  blockSize : Nat
  blocks : Nat
  blocksFree : Nat
  blocksAvailable : Nat
  files : Nat
  filesFree : Nat
  fsId : Nat
  nameLength : Nat

/-- The times of `utimensat`: left out, now, or a time. -/
inductive TimeArgument where
  | omit
  | now
  | at (sec nsec : Nat)

/-- How an asynchronous read or write ends: it is not started, it fails, or it transfers data. -/
inductive AioResult (α : Type) where
  | refused (e : Errno)
  | failed (e : Errno)
  | done (a : α)

/-- The calls of the server. -/
inductive Syscall where
  | setgroups (groups : List Nat)
  | setresgid (gid : Nat)
  | setresuid (uid : Nat)
  | geteuid
  | fstatat (dir : Nat) (path : Bytes) (follow : Bool)
  | fstat (fd : Nat)
  | openat (dir : Nat) (path : Bytes) (flags mode : Nat)
  | openPath (path : Bytes) (flags : Nat)
  /-- `readlink` of the entry of a descriptor in `/proc/self/fd` -/
  | fdPath (fd : Nat)
  | readlinkat (dir : Nat) (path : Bytes) (size : Nat)
  | mkdirat (dir : Nat) (path : Bytes) (mode : Nat)
  | unlinkat (dir : Nat) (path : Bytes) (flags : Nat)
  | renameat (dir : Nat) (old new : Bytes)
  | symlinkat (target : Bytes) (dir : Nat) (path : Bytes)
  | linkat (dir : Nat) (old new : Bytes)
  | mknodat (dir : Nat) (path : Bytes) (mode major minor : Nat)
  | ftruncate (fd size : Nat)
  | fchmodat (dir : Nat) (path : Bytes) (mode : Nat)
  | fchownat (dir : Nat) (path : Bytes) (uid gid : Nat)
  | utimensat (dir : Nat) (path : Bytes) (atime mtime : TimeArgument)
  | faccessat (dir : Nat) (path : Bytes) (mode : Nat)
  /-- `capget`: whether `CAP_FOWNER` is effective -/
  | capget
  | fsync (fd : Nat)
  | fstatfs (fd : Nat)
  | aioRead (fd offset size : Nat)
  | aioWrite (fd offset : Nat) (data : Bytes)
  | fdopendir (fd : Nat)
  | rewinddir (fd : Nat)
  | seekdir (fd offset : Nat)
  | readdir (fd : Nat)
  /-- the type of the file system that is mounted from a device -/
  | findMount (device : Nat)
  | lgetxattr (path name : Bytes) (size : Nat)
  | llistxattr (path : Bytes) (size : Nat)
  | lsetxattr (path name value : Bytes) (flags : Nat)
  | lremovexattr (path name : Bytes)
  /-- room for the value of an extended attribute -/
  | allocate (size : Nat)
  /-- what memory holds that was not written -/
  | unwritten (size : Nat)
  /-- the root directory of a share -/
  | share (name : Bytes)
  | getUserGroupId (uid : Nat)
  | getGroupIdByName (name : Bytes)
  /-- the groups of a user, if it is known -/
  | getgrouplist (uid gid : Nat)

abbrev Syscall.Answer : Syscall → Type
  | .setgroups _ | .setresgid _ | .setresuid _ => Except Errno Unit
  | .geteuid => Nat
  | .fstatat _ _ _ | .fstat _ => Except Errno Stat
  | .openat _ _ _ _ | .openPath _ _ => Except Errno Nat
  | .fdPath _ => Except Errno Bytes
  | .readlinkat _ _ size => Except Errno {s : Bytes // s.length ≤ size ∧ s.length ≤ 4096}
  | .mkdirat _ _ _ | .unlinkat _ _ _ | .renameat _ _ _ | .symlinkat _ _ _ | .linkat _ _ _
  | .mknodat _ _ _ _ _ | .ftruncate _ _ | .fchmodat _ _ _ | .fchownat _ _ _ _ | .utimensat _ _ _ _
  | .faccessat _ _ _ | .fsync _ => Except Errno Unit
  | .capget => Except Errno Bool
  | .fstatfs _ => Except Errno StatFsResult
  | .aioRead _ _ size => AioResult {s : Bytes // s.length ≤ size}
  | .aioWrite _ _ data => AioResult {n : Nat // n ≤ data.length}
  | .fdopendir _ => Except Errno Unit
  | .rewinddir _ | .seekdir _ _ => Unit
  | .readdir _ => Except Errno (Option Dirent)
  | .findMount _ => Except Errno (Option Bytes)
  | .lgetxattr _ _ size | .llistxattr _ size =>
    -- without room, only the length is returned
    Except Errno {s : Bytes // size = 0 ∨ s.length ≤ size}
  | .lsetxattr _ _ _ _ | .lremovexattr _ _ | .allocate _ => Except Errno Unit
  | .unwritten size => {s : Bytes // s.length = size}
  | .share _ => Option Nat
  | .getUserGroupId _ | .getGroupIdByName _ => Nat
  | .getgrouplist _ _ => Option (List Nat)

/-- Why nothing more is done for a request. -/
inductive Halt where
  /-- `FAIL_FAST` of a read behind the end of the message -/
  | readPast
  /-- a bounds check of the response, or `FAIL_FAST` of its writer -/
  | writePast
  /-- an exception in a destructor -/
  | terminate
  /-- the request waits for itself -/
  | waiting
  deriving DecidableEq, Repr

/-- An action of the server on a state; its errors are error numbers as the code has them. -/
abbrev Op (σ α : Type) := Action Syscall Syscall.Answer Int Halt σ α

/-- Calls of the system, one after the other. They can throw, but nothing ends the process. -/
abbrev Calls (α : Type) := Action Syscall Syscall.Answer Int Empty Unit α

/-- `THROW_LAST_ERROR_IF` of a call that failed. -/
def orThrow {α : Type} : Except Errno α → Calls α
  | .ok a => pure a
  | .error e => Action.throw e.code

/-- The result of a call, with `-errno` for an error. -/
def expected {α : Type} : Except Errno α → Except Int α
  | .ok a => .ok a
  | .error e => .error e.code

/-! ## Users -/

/-- The root that a client has attached to. `id` is what the address of the object is for: two
attaches have different roots. -/
structure Root where
  id : Nat
  rootFd : Nat
  uid : Nat
  gid : Nat
  groups : List Nat
  deriving DecidableEq

/-- `c_InvalidUid` and `c_InvalidGid`. -/
def invalidId : Nat := 2 ^ 32 - 1

/-- `Root::ReadOnly`. -/
def Root.readOnly (_ : Root) : Bool := false

section Users

variable {σ α : Type}

/-- The constructor of `FsUserContext`. -/
def enterUser (root : Root) : Calls Unit := do
  if root.groups ≠ [] then
    orThrow (← Action.call (.setgroups root.groups))
  if root.uid ≠ invalidId then
    orThrow (← Action.call (.setresgid root.gid))
    orThrow (← Action.call (.setresuid root.uid))

/-- A destructor: an exception in it ends the process. -/
def destructor (m : Calls Unit) : Op σ Unit := fun s =>
  m () >>= fun r =>
    match r.1 with
    | .value () => pure (.value (), s)
    | .error _ => pure (.halted .terminate, s)

/-- What the destructor of `FsUserContext` calls. -/
def restoreUser (root : Root) : Calls Unit := do
  if root.uid ≠ invalidId then
    orThrow (← Action.call (.setresuid 0))
    orThrow (← Action.call (.setresgid 0))
  if root.groups ≠ [] then
    orThrow (← Action.call (.setgroups []))

/-- The destructor of `FsUserContext`. -/
def leaveUser (root : Root) : Op σ Unit := destructor (restoreUser root)

/-- An action in the scope of a `FsUserContext`. It is left also with an exception, unless the
constructor has thrown it. -/
def withUser (root : Root) (m : Op σ α) : Op σ α := do
  (enterUser root).embed
  m.andFinally (leaveUser root)

end Users

end WslFreeBSD.Plan9
