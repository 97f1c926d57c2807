import WslFreeBSD.Plan9.System

/-!
# The identity of the thread

The thread of the server is root, and takes the identity of a client in the scope of a `FsUserContext`.
`Confined root t` says of the calls of a request that those with a path are made with the identity of
`root`, and that the thread has its own identity behind them.
-/

namespace WslFreeBSD.Plan9

open Lib

/-- The effective ids of a thread, and its groups. -/
structure Identity where
  uid : Nat
  gid : Nat
  groups : List Nat
  deriving DecidableEq

def Identity.server : Identity := ⟨0, 0, []⟩

/-- The identity behind a call; an id of `-1` is left as it is. -/
def Identity.after (i : Identity) : (Σ e : Syscall, e.Answer) → Identity
  | ⟨.setgroups groups, .ok _⟩ => { i with groups := groups }
  | ⟨.setresgid gid, .ok _⟩ => if gid = invalidId then i else { i with gid := gid }
  | ⟨.setresuid uid, .ok _⟩ => if uid = invalidId then i else { i with uid := uid }
  | _ => i

def Identity.behind (i : Identity) (t : Program.Trace Syscall Syscall.Answer) : Identity :=
  t.foldl Identity.after i

/-- What a call has to do with the identity of the thread, and how it ends. -/
inductive CallKind where
  /-- it changes the identity -/
  | identity
  /-- it has the path of a file -/
  | path
  /-- it is a read or a write that ends in a completion -/
  | aio
  | plain
  deriving DecidableEq

def Syscall.kind : Syscall → CallKind
  | .setgroups _ | .setresgid _ | .setresuid _ => .identity
  | .fstatat _ _ _ | .openat _ _ _ _ | .openPath _ _ | .fdPath _ | .readlinkat _ _ _
  | .mkdirat _ _ _ | .unlinkat _ _ _ | .renameat _ _ _ | .symlinkat _ _ _ | .linkat _ _ _
  | .mknodat _ _ _ _ _ | .fchmodat _ _ _ | .fchownat _ _ _ _ | .utimensat _ _ _ _
  | .faccessat _ _ _ | .lgetxattr _ _ _ | .llistxattr _ _ | .lsetxattr _ _ _ _
  | .lremovexattr _ _ => .path
  | .aioRead _ _ _ | .aioWrite _ _ _ => .aio
  | .geteuid | .fstat _ | .ftruncate _ _ | .capget | .fsync _ | .fstatfs _ | .fdopendir _
  | .rewinddir _ | .seekdir _ _ | .readdir _ | .findMount _ | .allocate _ | .unwritten _ | .share _
  | .getUserGroupId _ | .getGroupIdByName _ | .getgrouplist _ _ => .plain

/-- The calls with a path are made with one identity, from another one on. -/
def MadeAs (j : Identity) : Identity → Program.Trace Syscall Syscall.Answer → Prop
  | _, [] => True
  | i, c :: t => (c.1.kind = .path → i = j) ∧ MadeAs j (i.after c) t

/-- The identity that a root is for: its own, or that of the server. -/
def Root.identity (root : Root) : Identity :=
  if root.uid = invalidId ∧ root.gid = invalidId then .server else ⟨root.uid, root.gid, root.groups⟩

/-- The calls with a path are made with the identity of a root, and none is left behind. -/
def Confined (root : Root) (t : Program.Trace Syscall Syscall.Answer) : Prop :=
  MadeAs root.identity .server t ∧ Identity.server.behind t = .server

section Traces

variable {i j : Identity} {t u : Program.Trace Syscall Syscall.Answer} {root : Root}

theorem Identity.behind_append : i.behind (t ++ u) = (i.behind t).behind u := List.foldl_append

theorem madeAs_append : MadeAs j i (t ++ u) ↔ MadeAs j i t ∧ MadeAs j (i.behind t) u := by
  induction t generalizing i with
  | nil => simp [MadeAs, Identity.behind]
  | cons c t ih => exact (and_congr_right fun _ => ih).trans and_assoc.symm

theorem confined_nil : Confined root [] := ⟨trivial, rfl⟩

theorem Confined.append (ht : Confined root t) (hu : Confined root u) : Confined root (t ++ u) := by
  refine ⟨madeAs_append.mpr ⟨ht.1, ?_⟩, ?_⟩
  · rw [ht.2]
    exact hu.1
  · rw [Identity.behind_append, ht.2, hu.2]

theorem Identity.after_of_kind {c : Σ e : Syscall, e.Answer} (hc : c.1.kind ≠ .identity) :
    i.after c = i := by
  obtain ⟨e, r⟩ := c
  cases e <;> first | rfl | exact absurd rfl hc

theorem madeAs_unchanged (h : ∀ c ∈ t, c.1.kind ≠ .identity) : MadeAs i i t ∧ i.behind t = i := by
  induction t with
  | nil => exact ⟨trivial, rfl⟩
  | cons c t ih =>
    obtain ⟨hc, ht⟩ := List.forall_mem_cons.mp h
    obtain ⟨hmade, hbehind⟩ := ih ht
    refine ⟨⟨fun _ => rfl, ?_⟩, ?_⟩
    · rwa [Identity.after_of_kind hc]
    · rw [Identity.behind, List.foldl_cons, Identity.after_of_kind hc]
      exact hbehind

theorem madeAs_of_no_path (h : ∀ c ∈ t, c.1.kind ≠ .path) : MadeAs j i t := by
  induction t generalizing i with
  | nil => trivial
  | cons c t ih =>
    obtain ⟨hc, ht⟩ := List.forall_mem_cons.mp h
    exact ⟨fun hpath => absurd hpath hc, ih ht⟩

theorem confined_of_kind (h : ∀ c ∈ t, c.1.kind ≠ .path ∧ c.1.kind ≠ .identity) : Confined root t :=
  ⟨madeAs_of_no_path fun c hc => (h c hc).1, (madeAs_unchanged fun c hc => (h c hc).2).2⟩

end Traces

end WslFreeBSD.Plan9
