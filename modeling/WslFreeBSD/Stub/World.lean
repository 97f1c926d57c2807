import WslFreeBSD.Lib.Descriptors
import WslFreeBSD.Lib.Faulting
import WslFreeBSD.Stub.FidMap

/-!
# The stub file server and its kernel

The server runs on a kernel that answers its calls as it likes, from a state of its own: files come
and go, and every call may fail. Two things are known of it. A new descriptor has a number that is
not in use, and nothing is opened under an empty name.

`World` is the state of both: the globals of the server, the descriptors that are open in the process,
the responses that it has sent, and the state of the kernel.
-/

namespace WslFreeBSD.Stub

open Lib Config

/-! ## The kernel -/

def O_RDONLY : Nat := 0
def O_CREAT : Nat := 0x40
def O_DIRECTORY : Nat := 0x10000
def O_NOFOLLOW : Nat := 0x20000
def O_CLOEXEC : Nat := 0x80000

/-- A call that returns a new descriptor. -/
inductive Opening where
  | accept
  | dup (fd : Nat)
  | openat (dir : Nat) (name : Bytes) (flags mode : Nat)
  | open (path : Bytes) (flags : Nat)
  deriving DecidableEq, Repr

/-- What is used of `struct stat`. -/
structure Stat where
  dev : Nat
  mode : Nat
  atime : Nat
  mtime : Nat
  size : Nat
  deriving DecidableEq, Repr

/-- `S_ISDIR`. -/
def Stat.isDirectory (st : Stat) : Bool := st.mode &&& 0xF000 = 0x4000

def DT_DIR : Nat := 4

/-- What is used of `struct dirent`; the name stands in an array of 256 characters. -/
structure Dirent where
  name : CStr
  type : Nat
  short : name.1.length < 256

/-- A 9P response, without its size. -/
structure Response where
  type : Nat
  tag : Nat
  body : Bytes
  deriving DecidableEq, Repr

inductive Call where
  | opens (what : Opening)
  | close (fd : Nat)
  | malloc (size : Nat)
  | fstat (fd : Nat)
  /-- `fdopendir`, with all that `readdir` returns from then on -/
  | opendir (fd : Nat)
  | closedir (fd : Nat)
  | pread (fd count offset : Nat)
  | pwrite (fd : Nat) (data : Bytes) (offset : Nat)
  /-- `rmdir` or `unlink` -/
  | remove (path : Bytes) (directory : Bool)
  | send (conn : Nat) (response : Response)

def Call.Answer : Call → Type
  | .opens _ | .malloc _ | .remove _ _ => Bool
  | .close _ | .closedir _ | .send _ _ => Unit
  | .fstat _ => Option Stat
  | .opendir _ => Option (List Dirent)
  | .pread _ count _ => Option { data : Bytes // data.length ≤ count }
  | .pwrite _ _ _ => Option Nat

/-- How the kernel answers, and how it numbers descriptors. -/
structure Kernel (σ : Type) where
  numbering : Numbering
  answer : (c : Call) → σ → c.Answer × σ
  empty_name : ∀ dir flags mode s, (answer (.opens (.openat dir [] flags mode)) s).1 = false

/-- Whether the call that opens a descriptor succeeds. -/
def Kernel.grants {σ : Type} (K : Kernel σ) (what : Opening) (s : σ) : Bool := (K.answer (.opens what) s).1

/-- What `fstat` returns. -/
def Kernel.stats {σ : Type} (K : Kernel σ) (fd : Nat) (s : σ) : Option Stat := (K.answer (.fstat fd) s).1

/-- The entries that a stream on the descriptor returns. -/
def Kernel.streams {σ : Type} (K : Kernel σ) (fd : Nat) (s : σ) : Option (List Dirent) :=
  (K.answer (.opendir fd) s).1

/-! ## The state -/

/-- The globals of the server. -/
structure Globals where
  rootPath : CStr
  rootFd : Nat
  fidMap : FidMap := .empty
  fidCount : Int := 0
  nextQpath : Nat := 2

structure World (σ : Type) where
  globals : Globals
  opened : Finset Nat
  sent : List Response := []
  env : σ

abbrev Serving (σ : Type) := Faulting MemFault (World σ)

variable {σ : Type} (K : Kernel σ)

/-- A call that neither opens nor closes a descriptor. -/
def ask (c : Call) : Serving σ c.Answer := fun w =>
  .ok ((K.answer c w.env).1, { w with env := (K.answer c w.env).2 })

def malloc (size : Nat) : Serving σ Bool := ask K (.malloc size)

def fstat (fd : Nat) : Serving σ (Option Stat) := ask K (.fstat fd)

def opendir (fd : Nat) : Serving σ (Option (List Dirent)) := ask K (.opendir fd)

def pread (fd count offset : Nat) : Serving σ (Option { data : Bytes // data.length ≤ count }) :=
  ask K (.pread fd count offset)

def pwrite (fd : Nat) (data : Bytes) (offset : Nat) : Serving σ (Option Nat) := ask K (.pwrite fd data offset)

def remove (path : Bytes) (directory : Bool) : Serving σ Bool := ask K (.remove path directory)

/-- A call that returns a new descriptor, or fails. -/
def acquire (what : Opening) : Serving σ (Option Nat) := fun w =>
  if K.grants what w.env then
    .ok (some (K.numbering.pick w.opened),
      { w with
        opened := insert (K.numbering.pick w.opened) w.opened
        env := (K.answer (.opens what) w.env).2 })
  else .ok (none, { w with env := (K.answer (.opens what) w.env).2 })

/-- `close`. -/
def close (fd : Nat) : Serving σ Unit := do
  let _ ← ask K (.close fd)
  Faulting.modify fun w => { w with opened := w.opened.erase fd }

/-- `closedir` of a stream on the descriptor. -/
def closedir (fd : Nat) : Serving σ Unit := do
  let _ ← ask K (.closedir fd)
  Faulting.modify fun w => { w with opened := w.opened.erase fd }

/-- `p9_send_response`. -/
def p9SendResponse (conn type tag : Nat) (body : Bytes) : Serving σ Unit := do
  let _ ← ask K (.send conn ⟨type, tag, body⟩)
  Faulting.modify fun w => { w with sent := w.sent ++ [⟨type, tag, body⟩] }

/-- `p9_put_string`. -/
def putString (s : Bytes) : Bytes := leBytes 2 s.length ++ s

def P9_RERROR : Nat := 7

/-- `p9_send_error`. -/
def p9SendError (conn tag : Nat) (msg : String) : Serving σ Unit :=
  p9SendResponse K conn P9_RERROR tag (putString (ascii msg))

/-- `fid_next_qpath`. -/
def fidNextQpath : Serving σ Nat := fun w =>
  .ok (w.globals.nextQpath,
    { w with globals := { w.globals with nextQpath := (w.globals.nextQpath + 1) % 2 ^ 64 } })

/-- `fid_find`. -/
def fidFind (fid : Nat) : Serving σ (Option FidEntry) := fun w => .ok (w.globals.fidMap.find fid, w)

/-- `fid_add`: whether there was a free slot. -/
def fidAdd (e : FidEntry) : Serving σ Bool := fun w =>
  match w.globals.fidMap.add e with
  | none => .ok (false, w)
  | some m => .ok (true,
    { w with globals := { w.globals with fidMap := m, fidCount := w.globals.fidCount + 1 } })

/-- `fid_remove`. -/
def fidRemove (fid : Nat) : Serving σ Unit := do
  let w ← Faulting.get
  match w.globals.fidMap.locate fid with
  | none => pure ()
  | some (i, e) => do
    close K e.fd
    Faulting.modify fun w => { w with globals :=
      { w.globals with fidMap := w.globals.fidMap.set i none, fidCount := w.globals.fidCount - 1 } }

/-- `fid_replace`, with the new contents of the slot: whether the fid was found. -/
def fidReplace (new : FidEntry) : Serving σ Bool := do
  let w ← Faulting.get
  match w.globals.fidMap.locate new.fid with
  | none => pure false
  | some (i, e) => do
    close K e.fd
    Faulting.modify fun w =>
      { w with globals := { w.globals with fidMap := w.globals.fidMap.set i (some new) } }
    pure true

/-! ## What the steps do -/

variable {K} {w : World σ}

theorem acquire_of_true {what : Opening} (h : K.grants what w.env = true) :
    acquire K what w = .ok (some (K.numbering.pick w.opened),
      { w with
        opened := insert (K.numbering.pick w.opened) w.opened
        env := (K.answer (.opens what) w.env).2 }) := if_pos h

theorem acquire_of_false {what : Opening} (h : K.grants what w.env = false) :
    acquire K what w = .ok (none, { w with env := (K.answer (.opens what) w.env).2 }) :=
  if_neg (Bool.eq_false_iff.mp h)

theorem close_apply (fd : Nat) : close K fd w =
    .ok ((), { w with opened := w.opened.erase fd, env := (K.answer (.close fd) w.env).2 }) := rfl

theorem closedir_apply (fd : Nat) : closedir K fd w =
    .ok ((), { w with opened := w.opened.erase fd, env := (K.answer (.closedir fd) w.env).2 }) := rfl

theorem p9SendResponse_apply (conn type tag : Nat) (body : Bytes) : p9SendResponse K conn type tag body w =
    .ok ((), { w with
      sent := w.sent ++ [⟨type, tag, body⟩]
      env := (K.answer (.send conn ⟨type, tag, body⟩) w.env).2 }) := rfl

theorem fstat_apply (fd : Nat) : fstat K fd w =
    .ok (K.stats fd w.env, { w with env := (K.answer (.fstat fd) w.env).2 }) := rfl

theorem opendir_apply (fd : Nat) : opendir K fd w =
    .ok (K.streams fd w.env, { w with env := (K.answer (.opendir fd) w.env).2 }) := rfl

theorem fidFind_apply (fid : Nat) : fidFind fid w = .ok (w.globals.fidMap.find fid, w) := rfl

theorem fidAdd_of_none {e : FidEntry} (h : w.globals.fidMap.add e = none) : fidAdd e w = .ok (false, w) := by
  rw [fidAdd, h]

theorem fidAdd_of_some {e : FidEntry} {m : FidMap} (h : w.globals.fidMap.add e = some m) :
    fidAdd e w = .ok (true,
      { w with globals := { w.globals with fidMap := m, fidCount := w.globals.fidCount + 1 } }) := by
  rw [fidAdd, h]

theorem fidRemove_of_none {fid : Nat} (h : w.globals.fidMap.locate fid = none) :
    fidRemove K fid w = .ok ((), w) := by
  rw [fidRemove, Faulting.bind_of_ok Faulting.get_apply, h]
  rfl

theorem fidRemove_of_some {fid : Nat} {i : Fin MAX_FID_MAP} {e : FidEntry}
    (h : w.globals.fidMap.locate fid = some (i, e)) : fidRemove K fid w =
      .ok ((), { w with
        globals := { w.globals with fidMap := w.globals.fidMap.set i none, fidCount := w.globals.fidCount - 1 }
        opened := w.opened.erase e.fd
        env := (K.answer (.close e.fd) w.env).2 }) := by
  rw [fidRemove, Faulting.bind_of_ok Faulting.get_apply, h]
  rfl

theorem fidReplace_of_none {new : FidEntry} (h : w.globals.fidMap.locate new.fid = none) :
    fidReplace K new w = .ok (false, w) := by
  rw [fidReplace, Faulting.bind_of_ok Faulting.get_apply, h]
  rfl

theorem fidReplace_of_some {new e : FidEntry} {i : Fin MAX_FID_MAP}
    (h : w.globals.fidMap.locate new.fid = some (i, e)) : fidReplace K new w =
      .ok (true, { w with
        globals := { w.globals with fidMap := w.globals.fidMap.set i (some new) }
        opened := w.opened.erase e.fd
        env := (K.answer (.close e.fd) w.env).2 }) := by
  rw [fidReplace, Faulting.bind_of_ok Faulting.get_apply, h]
  rfl

end WslFreeBSD.Stub
