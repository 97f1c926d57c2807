import WslFreeBSD.Lib.Systems
import WslFreeBSD.Plan9.WorkingRuns

/-!
# Asking whether a file can be deleted

`File.access` with `AccessFlags::Delete` asks what the kernel would say to an `unlink`, by calls that follow
symbolic links. A `Site` is what the kernel knows of the entry of a file: the directory that it is in, the
entry itself, and where it leads to. `MayUnlink` is the rule of the kernel, and `Grants` the one that the
calls come to. They differ in whose owner a sticky directory asks for, in a link that leads nowhere, and in
the directories above the root.
-/

namespace WslFreeBSD.Plan9

open Lib

/-- `X_OK` -/
def xOk : Nat := 1

/-- A file: its attributes, and what the kernel says of an access of the user. -/
structure Inode where
  stat : Stat
  check : Nat → Except Errno Unit

namespace Inode

def Permits (i : Inode) (mode : Nat) : Prop := i.check mode = .ok ()

def Sticky (i : Inode) : Prop := anySet i.stat.mode sISVTX

/-- The end of `faccessat`: `F_OK` asks for the file only. -/
def faccess (i : Inode) (mode : Nat) : Except Errno Unit := if mode = 0 then .ok () else i.check mode

end Inode

/-- The entry of a name: a file that leads to itself, or a symbolic link. -/
structure Entry where
  own : Inode
  target : Except Errno Inode

/-- What the kernel knows of the entry of a file, and of the user that is attached. -/
structure Site where
  uid : Nat
  /-- `CAP_FOWNER` is effective -/
  fowner : Bool
  /-- the directory that the entry is in -/
  parent : Except Errno Inode
  entry : Except Errno Entry
  /-- the root is looked up by its path -/
  above : Except Errno Unit

namespace Site

def resolve (c : Site) : Except Errno Inode := do
  let parent ← c.parent
  parent.check xOk
  (← c.entry).target

/-- The answers of the kernel to a thread of the user. -/
structure Answers (c : Site) (f : File) (answer : (e : Syscall) → e.Answer) : Prop where
  setgroups : ∀ groups, answer (.setgroups groups) = .ok ()
  setresgid : ∀ gid, answer (.setresgid gid) = .ok ()
  setresuid : ∀ uid, answer (.setresuid uid) = .ok ()
  geteuid : answer .geteuid = c.uid
  capget : answer .capget = .ok c.fowner
  faccessat : ∀ mode, f.fileName ≠ [] →
    answer (.faccessat f.root.rootFd f.fileName mode) = c.resolve >>= fun file => file.faccess mode
  faccessat_parent : parentPath f.fileName ≠ [] →
    answer (.faccessat f.root.rootFd (parentPath f.fileName) wOk) =
      c.parent >>= fun parent => parent.faccess wOk
  /-- the root is not looked up by its descriptor -/
  faccessat_root : parentPath f.fileName = [] → ∃ path, answer (.fdPath f.root.rootFd) = .ok path ∧
    answer (.faccessat f.root.rootFd path wOk) =
      c.above >>= fun _ => c.parent >>= fun parent => parent.faccess wOk
  fstatat_parent : answer (.fstatat f.root.rootFd (parentPath f.fileName) true) = c.parent.map Inode.stat
  fstatat : f.fileName ≠ [] →
    answer (.fstatat f.root.rootFd f.fileName true) = c.resolve.map Inode.stat

/-- The accesses that are asked for are granted. -/
def Permits (entry : Entry) (mode : Nat) : Prop :=
  mode = 0 ∨ ∃ file, entry.target = .ok file ∧ file.Permits mode

/-- The kernel lets the user unlink the entry, and grants the other accesses. -/
def MayUnlink (c : Site) (name : Bytes) (mode : Nat) : Prop :=
  name ≠ [] ∧ ∃ parent entry, c.parent = .ok parent ∧ c.entry = .ok entry ∧ parent.Permits wOk ∧
    parent.Permits xOk ∧ Permits entry mode ∧
    (parent.Sticky → c.fowner ∨ c.uid = parent.stat.uid ∨ c.uid = entry.own.stat.uid)

/-- What the calls of `Access` come to. -/
def Grants (c : Site) (name : Bytes) (mode : Nat) : Prop :=
  name ≠ [] ∧ ∃ parent entry file, c.parent = .ok parent ∧ c.entry = .ok entry ∧ entry.target = .ok file ∧
    parent.Permits wOk ∧ parent.Permits xOk ∧ (mode = 0 ∨ file.Permits mode) ∧
    (parentPath name = [] → c.above = .ok ()) ∧
    (parent.Sticky → c.fowner ∨ c.uid = parent.stat.uid ∨ c.uid = file.stat.uid)

end Site

section Access

open Action Program

variable {c : Site} {f : File} {answer : (e : Syscall) → e.Answer} {σ α : Type}

theorem yields_orThrow {r : Except Errno α} {V : α → Unit → Unit → Prop} {s w : Unit} :
    Yields (steady answer) (orThrow r : Calls α) V s w ↔ ∃ a, r = .ok a ∧ V a s w := by
  cases r with
  | ok a =>
    constructor
    · exact fun h => ⟨a, rfl, h⟩
    · rintro ⟨_, ⟨⟩, h⟩
      exact h
  | error e =>
    constructor
    · exact fun h => h.elim
    · rintro ⟨_, ⟨⟩, _⟩

theorem faccess_eq_ok {i : Inode} {mode : Nat} : i.faccess mode = .ok () ↔ mode = 0 ∨ i.Permits mode := by
  rw [Inode.faccess]
  split
  · next h => exact iff_of_true rfl (Or.inl h)
  · next h => exact (or_iff_right h).symm

theorem bind_eq_ok {ε β : Type} {r : Except ε α} {g : α → Except ε β} {b : β} :
    (r >>= g) = .ok b ↔ ∃ a, r = .ok a ∧ g a = .ok b := by
  cases r with
  | ok a =>
    constructor
    · exact fun h => ⟨a, rfl, h⟩
    · rintro ⟨_, ⟨⟩, h⟩
      exact h
  | error e =>
    constructor
    · exact fun h => by cases h
    · rintro ⟨_, ⟨⟩, _⟩

theorem map_eq_ok {ε β : Type} {r : Except ε α} {g : α → β} {b : β} :
    r.map g = .ok b ↔ ∃ a, r = .ok a ∧ g a = b := by
  cases r with
  | ok a =>
    constructor
    · rintro ⟨⟩
      exact ⟨a, rfl, rfl⟩
    · rintro ⟨_, ⟨⟩, rfl⟩
      rfl
  | error e =>
    constructor
    · exact fun h => by cases h
    · rintro ⟨_, ⟨⟩, _⟩

theorem Site.resolve_eq_ok {file : Inode} : c.resolve = .ok file ↔ ∃ parent entry, c.parent = .ok parent ∧
    parent.Permits xOk ∧ c.entry = .ok entry ∧ entry.target = .ok file := by
  simp only [Site.resolve, bind_eq_ok, Inode.Permits]
  constructor
  · rintro ⟨parent, hparent, _, hcheck, entry, hentry, htarget⟩
    exact ⟨parent, entry, hparent, hcheck, hentry, htarget⟩
  · rintro ⟨parent, entry, hparent, hcheck, hentry, htarget⟩
    exact ⟨parent, hparent, (), hcheck, entry, hentry, htarget⟩

theorem yields_accessHelper (h : c.Answers f answer) (hname : f.fileName ≠ []) {mode : Nat}
    {V : Unit → Unit → Unit → Prop} {s w : Unit} :
    Yields (steady answer) (accessHelper f.root.rootFd f.fileName mode) V s w ↔
      (∃ file, c.resolve = .ok file ∧ (mode = 0 ∨ file.Permits mode)) ∧ V () s () := by
  rw [accessHelper, if_neg hname, yields_bind, yields_pure, yields_bind, yields_call, yields_orThrow]
  change (∃ a, answer _ = _ ∧ V a s ()) ↔ _
  rw [h.faccessat mode hname]
  constructor
  · rintro ⟨⟨⟩, hanswer, hV⟩
    obtain ⟨file, hfile, hcheck⟩ := bind_eq_ok.mp hanswer
    exact ⟨⟨file, hfile, faccess_eq_ok.mp hcheck⟩, hV⟩
  · rintro ⟨⟨file, hfile, hcheck⟩, hV⟩
    exact ⟨(), bind_eq_ok.mpr ⟨file, hfile, faccess_eq_ok.mpr hcheck⟩, hV⟩

theorem faccess_wOk {i : Inode} : i.faccess wOk = .ok () ↔ i.Permits wOk := by
  rw [faccess_eq_ok]
  exact or_iff_right (by decide)

theorem yields_accessHelper_parent (h : c.Answers f answer) {V : Unit → Unit → Unit → Prop} {s w : Unit} :
    Yields (steady answer) (accessHelper f.root.rootFd (parentPath f.fileName) wOk) V s w ↔
      ((parentPath f.fileName = [] → c.above = .ok ()) ∧
        ∃ parent, c.parent = .ok parent ∧ parent.Permits wOk) ∧ V () s () := by
  rw [accessHelper]
  by_cases hparent : parentPath f.fileName = []
  · obtain ⟨path, hpath, haccess⟩ := h.faccessat_root hparent
    rw [if_pos hparent, getFdPath, yields_bind, yields_bind, yields_call, yields_orThrow]
    simp only [yields_bind, yields_call, yields_orThrow]
    constructor
    · rintro ⟨path', hpath', ⟨⟩, hanswer, hV⟩
      obtain rfl : path = path' := Except.ok.inj (hpath.symm.trans hpath')
      obtain ⟨_, habove, hrest⟩ := bind_eq_ok.mp (haccess.symm.trans hanswer)
      obtain ⟨parent, hfound, hcheck⟩ := bind_eq_ok.mp hrest
      exact ⟨⟨fun _ => habove, parent, hfound, faccess_wOk.mp hcheck⟩, hV⟩
    · rintro ⟨⟨habove, parent, hfound, hcheck⟩, hV⟩
      refine ⟨path, hpath, (), haccess.trans ?_, hV⟩
      exact bind_eq_ok.mpr ⟨(), habove hparent, bind_eq_ok.mpr ⟨parent, hfound, faccess_wOk.mpr hcheck⟩⟩
  · rw [if_neg hparent, yields_bind, yields_pure, yields_bind, yields_call, yields_orThrow]
    change (∃ a, answer _ = _ ∧ V a s ()) ↔ _
    rw [h.faccessat_parent hparent]
    constructor
    · rintro ⟨⟨⟩, hanswer, hV⟩
      obtain ⟨parent, hfound, hcheck⟩ := bind_eq_ok.mp hanswer
      exact ⟨⟨fun hroot => absurd hroot hparent, parent, hfound, faccess_wOk.mp hcheck⟩, hV⟩
    · rintro ⟨⟨-, parent, hfound, hcheck⟩, hV⟩
      exact ⟨(), bind_eq_ok.mpr ⟨parent, hfound, faccess_wOk.mpr hcheck⟩, hV⟩

theorem yields_checkFOwnerCapability (h : c.Answers f answer) {V : Bool → Unit → Unit → Prop} {s w : Unit} :
    Yields (steady answer) File.checkFOwnerCapability V s w ↔ V c.fowner s () := by
  have hanswer : (steady answer .capget w).1 = answer .capget := rfl
  rw [File.checkFOwnerCapability, yields_bind, yields_call, hanswer, h.capget]
  exact yields_pure

/-- What is checked behind the attributes of the directory. -/
def File.checkSticky (f : File) (st : Stat) : Calls Unit := do
  if anySet st.mode sISVTX then
    if ¬ (← File.checkFOwnerCapability) then
      let uid ← Action.call .geteuid
      if uid ≠ st.uid then
        let child ← orThrow (← Action.call (.fstatat f.root.rootFd f.fileName true))
        if uid ≠ child.uid then Action.throw eacces

theorem yields_checkSticky (h : c.Answers f answer) (hname : f.fileName ≠ []) (st : Stat) {s w : Unit} :
    Yields (steady answer) (f.checkSticky st) (fun _ _ _ => True) s w ↔
      (anySet st.mode sISVTX → c.fowner ∨ c.uid = st.uid ∨ ∃ file, c.resolve = .ok file ∧
        c.uid = file.stat.uid) := by
  rw [File.checkSticky, yields_ite]
  refine (and_iff_left fun _ => trivial).trans (imp_congr_right fun _ => ?_)
  rw [yields_bind, yields_checkFOwnerCapability h, yields_ite]
  refine (and_iff_left fun _ => trivial).trans
    (Decidable.or_iff_not_imp_left.trans (imp_congr_right fun _ => ?_)).symm
  rw [yields_bind, yields_call]
  change _ ↔ Yields _ (if answer .geteuid ≠ st.uid then _ else _) _ _ _
  rw [h.geteuid, yields_ite]
  refine (Decidable.or_iff_not_imp_left.trans (imp_congr_right fun _ => ?_)).trans
    (and_iff_left fun _ => trivial).symm
  rw [yields_bind, yields_call, yields_bind, yields_orThrow]
  change _ ↔ ∃ child : Stat, answer _ = _ ∧ Yields _ (if answer .geteuid ≠ child.uid then _ else _) _ _ _
  rw [h.fstatat hname, h.geteuid]
  constructor
  · rintro ⟨file, hfile, howner⟩
    refine ⟨file.stat, map_eq_ok.mpr ⟨file, hfile, rfl⟩, ?_⟩
    rw [if_neg (not_not.mpr howner)]
    trivial
  · rintro ⟨_, hchild, howner⟩
    obtain ⟨file, hfile, rfl⟩ := map_eq_ok.mp hchild
    refine ⟨file, hfile, ?_⟩
    by_contra hother
    rw [if_pos hother] at howner
    exact howner

theorem yields_accessToDelete (h : c.Answers f answer) {s w : Unit} :
    Yields (steady answer) f.accessToDelete (fun _ _ _ => True) s w ↔
      f.fileName ≠ [] ∧ (parentPath f.fileName = [] → c.above = .ok ()) ∧
        ∃ parent, c.parent = .ok parent ∧ parent.Permits wOk ∧
          (parent.Sticky → c.fowner ∨ c.uid = parent.stat.uid ∨
            ∃ file, c.resolve = .ok file ∧ c.uid = file.stat.uid) := by
  rw [File.accessToDelete]
  by_cases hname : f.fileName = []
  · rw [if_pos hname]
    exact iff_of_false (fun h => h) fun h => h.1 hname
  rw [if_neg hname, yields_bind, yields_accessHelper_parent h, yields_bind, yields_call, yields_bind,
    yields_orThrow]
  change _ ∧ (∃ st, answer _ = _ ∧ Yields _ (f.checkSticky st) _ _ _) ↔ _
  rw [h.fstatat_parent]
  constructor
  · rintro ⟨⟨habove, parent, hparent, hwrite⟩, _, hst, hsticky⟩
    obtain ⟨parent', hparent', rfl⟩ := map_eq_ok.mp hst
    obtain rfl : parent = parent' := Except.ok.inj (hparent.symm.trans hparent')
    exact ⟨hname, habove, parent, hparent, hwrite, (yields_checkSticky h hname _).mp hsticky⟩
  · rintro ⟨-, habove, parent, hparent, hwrite, hsticky⟩
    exact ⟨⟨habove, parent, hparent, hwrite⟩, parent.stat, map_eq_ok.mpr ⟨parent, hparent, rfl⟩,
      (yields_checkSticky h hname _).mpr hsticky⟩

/-! ### The identity -/

theorem yields_successful {p : Calls (Except Errno Unit)} {g : Unit → Calls α} {V : α → Unit → Unit → Prop}
    {s w : Unit} (hp : ∀ V s w, Yields (steady answer) p V s w ↔ V (.ok ()) s ()) :
    Yields (steady answer) (p >>= fun r => orThrow r >>= g) V s w ↔ Yields (steady answer) (g ()) V s () := by
  rw [yields_bind, hp, yields_bind, yields_orThrow]
  constructor
  · rintro ⟨⟨⟩, -, hg⟩
    exact hg
  · exact fun hg => ⟨(), rfl, hg⟩

theorem yields_successful_last {p : Calls (Except Errno Unit)} {V : Unit → Unit → Unit → Prop} {s w : Unit}
    (hp : ∀ V s w, Yields (steady answer) p V s w ↔ V (.ok ()) s ()) :
    Yields (steady answer) (p >>= orThrow) V s w ↔ V () s () := by
  rw [yields_bind, hp, yields_orThrow]
  constructor
  · rintro ⟨⟨⟩, -, hV⟩
    exact hV
  · exact fun hV => ⟨(), rfl, hV⟩

theorem yields_setgroups (h : c.Answers f answer) (groups : List Nat)
    (V : Except Errno Unit → Unit → Unit → Prop) (s w : Unit) :
    Yields (steady answer) (Action.call (Syscall.setgroups groups) : Calls (Except Errno Unit)) V s w ↔
      V (.ok ()) s () := by
  rw [yields_call, ← h.setgroups groups]
  exact Iff.rfl

theorem yields_setresgid (h : c.Answers f answer) (gid : Nat)
    (V : Except Errno Unit → Unit → Unit → Prop) (s w : Unit) :
    Yields (steady answer) (Action.call (Syscall.setresgid gid) : Calls (Except Errno Unit)) V s w ↔
      V (.ok ()) s () := by
  rw [yields_call, ← h.setresgid gid]
  exact Iff.rfl

theorem yields_setresuid (h : c.Answers f answer) (uid : Nat)
    (V : Except Errno Unit → Unit → Unit → Prop) (s w : Unit) :
    Yields (steady answer) (Action.call (Syscall.setresuid uid) : Calls (Except Errno Unit)) V s w ↔
      V (.ok ()) s () := by
  rw [yields_call, ← h.setresuid uid]
  exact Iff.rfl

theorem yields_enterUser (h : c.Answers f answer) (root : Root) {V : Unit → Unit → Unit → Prop} {s w : Unit} :
    Yields (steady answer) (enterUser root) V s w ↔ V () s () := by
  rw [enterUser]
  by_cases hgroups : root.groups = [] <;> by_cases huid : root.uid = invalidId
  all_goals simp only [hgroups, huid, ne_eq, not_true_eq_false, not_false_eq_true, if_true, if_false]
  · exact yields_pure
  · rw [yields_successful (yields_setresgid h _)]
    exact yields_successful_last (yields_setresuid h _)
  · rw [yields_successful (yields_setgroups h _)]
    exact yields_pure
  · rw [yields_successful (yields_setgroups h _), yields_successful (yields_setresgid h _)]
    exact yields_successful_last (yields_setresuid h _)

theorem yields_restoreUser (h : c.Answers f answer) (root : Root) {V : Unit → Unit → Unit → Prop} {s w : Unit} :
    Yields (steady answer) (restoreUser root) V s w ↔ V () s () := by
  rw [restoreUser]
  by_cases hgroups : root.groups = [] <;> by_cases huid : root.uid = invalidId
  all_goals simp only [hgroups, huid, ne_eq, not_true_eq_false, not_false_eq_true, if_true, if_false]
  · exact yields_pure
  · rw [yields_successful (yields_setresuid h _), yields_successful (yields_setresgid h _)]
    exact yields_pure
  · exact yields_successful_last (yields_setgroups h _)
  · rw [yields_successful (yields_setresuid h _), yields_successful (yields_setresgid h _)]
    exact yields_successful_last (yields_setgroups h _)

theorem interpret_leaveUser (h : c.Answers f answer) (root : Root) (s : σ) (w : Unit) :
    (leaveUser root s).interpret (steady answer) w = ((.value (), s), w) := by
  have hvalue : Yields (steady answer) (restoreUser root) (fun _ _ _ => True) () w :=
    (yields_restoreUser h root).mpr trivial
  unfold Yields at hvalue
  rw [leaveUser, destructor, Program.interpret_bind]
  generalize (restoreUser root ()).interpret (steady answer) w = r at hvalue ⊢
  obtain ⟨⟨o, s'⟩, w'⟩ := r
  cases o with
  | value a => rfl
  | error e => exact hvalue.elim
  | halted x => exact x.elim

theorem yields_withUser (h : c.Answers f answer) {m : Calls α} {V : α → Prop} {s : σ} {w : Unit} :
    Yields (steady answer) (withUser f.root m.embed : Op σ α) (fun a _ _ => V a) s w ↔
      Yields (steady answer) m (fun a _ _ => V a) () () := by
  rw [withUser, yields_bind, yields_embed, yields_enterUser h, yields_andFinally (interpret_leaveUser h _),
    yields_embed]

/-- What `Access` with `AccessFlags::Delete` grants. -/
theorem yields_access (h : c.Answers f answer) {flags : Nat} (hdelete : anySet flags accessDelete) {s : σ}
    {w : Unit} : Yields (steady answer) (f.access flags : Op σ Unit) (fun _ _ _ => True) s w ↔
      c.Grants f.fileName (clearFlags flags accessDelete) := by
  rw [File.access, yields_withUser h (V := fun _ => True), yields_bind]
  by_cases hname : f.fileName = []
  · refine iff_of_false (fun hyields => ?_) fun hgrants => hgrants.1 hname
    obtain ⟨_, _, _, hrest⟩ := hyields.exists
    rw [if_pos hdelete, yields_accessToDelete h] at hrest
    exact hrest.1 hname
  · rw [yields_accessHelper h hname, if_pos hdelete, yields_accessToDelete h]
    constructor
    · rintro ⟨⟨file, hfile, hmode⟩, -, habove, parent, hparent, hwrite, hsticky⟩
      obtain ⟨parent', entry, hparent', hsearch, hentry, htarget⟩ := Site.resolve_eq_ok.mp hfile
      obtain rfl : parent = parent' := Except.ok.inj (hparent.symm.trans hparent')
      refine ⟨hname, parent, entry, file, hparent, hentry, htarget, hwrite, hsearch, hmode, habove, fun hs => ?_⟩
      refine (hsticky hs).imp_right (Or.imp_right ?_)
      rintro ⟨file', hfile', howner⟩
      rwa [Except.ok.inj (hfile.symm.trans hfile')]
    · rintro ⟨-, parent, entry, file, hparent, hentry, htarget, hwrite, hsearch, hmode, habove, hsticky⟩
      have hfile : c.resolve = .ok file :=
        Site.resolve_eq_ok.mpr ⟨parent, entry, hparent, hsearch, hentry, htarget⟩
      exact ⟨⟨file, hfile, hmode⟩, hname, habove, parent, hparent, hwrite, fun hs =>
        (hsticky hs).imp_right (Or.imp_right fun howner => ⟨file, hfile, howner⟩)⟩

end Access

/-! ## Agreement -/

namespace Site

variable {c : Site} {name : Bytes} {mode : Nat}

def Decisive (c : Site) (parent : Inode) : Prop :=
  parent.Sticky ∧ ¬ c.fowner ∧ c.uid ≠ parent.stat.uid

theorem sticky_iff {parent file : Inode} :
    (parent.Sticky → c.fowner ∨ c.uid = parent.stat.uid ∨ c.uid = file.stat.uid) ↔
      (c.Decisive parent → c.uid = file.stat.uid) := by
  constructor
  · rintro h ⟨hsticky, hfowner, hparent⟩
    exact ((h hsticky).resolve_left hfowner).resolve_left hparent
  · intro h hsticky
    by_cases hfowner : c.fowner
    · exact Or.inl hfowner
    · by_cases hparent : c.uid = parent.stat.uid
      · exact Or.inr (Or.inl hparent)
      · exact Or.inr (Or.inr (h ⟨hsticky, hfowner, hparent⟩))

/-- The entry can be looked at in a directory that can be changed, and the other accesses are granted. -/
structure Accessible (c : Site) (name : Bytes) (mode : Nat) (parent : Inode) (entry : Entry) : Prop where
  ne_nil : name ≠ []
  parent_eq : c.parent = .ok parent
  entry_eq : c.entry = .ok entry
  write : parent.Permits wOk
  search : parent.Permits xOk
  others : Permits entry mode

/-- The root is found by its path, if it is the directory of the entry. -/
def RootFound (c : Site) (name : Bytes) : Prop := parentPath name = [] → c.above = .ok ()

/-- Where the entry can be looked at: if the user may unlink it, its target is there and as much the
user's as it has to be, and if not, it is not the target that makes up for it. -/
def Agrees (c : Site) (name : Bytes) (mode : Nat) : Prop :=
  ∀ parent entry, c.Accessible name mode parent entry →
    ((c.Decisive parent → c.uid = entry.own.stat.uid) →
      c.RootFound name ∧ ∃ file, entry.target = .ok file ∧ (c.Decisive parent → c.uid = file.stat.uid)) ∧
    (c.Decisive parent → c.uid ≠ entry.own.stat.uid →
      ¬ c.RootFound name ∨ ∀ file, entry.target = .ok file → c.uid ≠ file.stat.uid)

theorem mayUnlink_iff : c.MayUnlink name mode ↔ ∃ parent entry, c.Accessible name mode parent entry ∧
    (c.Decisive parent → c.uid = entry.own.stat.uid) := by
  constructor
  · rintro ⟨hname, parent, entry, hparent, hentry, hwrite, hsearch, hmode, hsticky⟩
    exact ⟨parent, entry, ⟨hname, hparent, hentry, hwrite, hsearch, hmode⟩, sticky_iff.mp hsticky⟩
  · rintro ⟨parent, entry, ⟨hname, hparent, hentry, hwrite, hsearch, hmode⟩, hsticky⟩
    exact ⟨hname, parent, entry, hparent, hentry, hwrite, hsearch, hmode, sticky_iff.mpr hsticky⟩

theorem grants_iff : c.Grants name mode ↔ ∃ parent entry, c.Accessible name mode parent entry ∧
    c.RootFound name ∧ ∃ file, entry.target = .ok file ∧ (c.Decisive parent → c.uid = file.stat.uid) := by
  constructor
  · rintro ⟨hname, parent, entry, file, hparent, hentry, htarget, hwrite, hsearch, hmode, habove, hsticky⟩
    exact ⟨parent, entry, ⟨hname, hparent, hentry, hwrite, hsearch,
      hmode.imp_right fun hmode => ⟨file, htarget, hmode⟩⟩, habove, file, htarget, sticky_iff.mp hsticky⟩
  · rintro ⟨parent, entry, ⟨hname, hparent, hentry, hwrite, hsearch, hmode⟩, habove, file, htarget, hsticky⟩
    refine ⟨hname, parent, entry, file, hparent, hentry, htarget, hwrite, hsearch, ?_, habove,
      sticky_iff.mpr hsticky⟩
    refine hmode.imp_right ?_
    rintro ⟨file', htarget', hmode⟩
    rwa [Except.ok.inj (htarget.symm.trans htarget')]

theorem Accessible.unique {parent parent' : Inode} {entry entry' : Entry}
    (h : c.Accessible name mode parent entry) (h' : c.Accessible name mode parent' entry') :
    parent = parent' ∧ entry = entry' :=
  ⟨Except.ok.inj (h.parent_eq.symm.trans h'.parent_eq), Except.ok.inj (h.entry_eq.symm.trans h'.entry_eq)⟩

theorem grants_iff_mayUnlink : (c.Grants name mode ↔ c.MayUnlink name mode) ↔ c.Agrees name mode := by
  rw [grants_iff, mayUnlink_iff]
  constructor
  · intro h parent entry haccess
    constructor
    · intro howner
      obtain ⟨parent', entry', haccess', hrest⟩ := h.mpr ⟨parent, entry, haccess, howner⟩
      obtain ⟨rfl, rfl⟩ := haccess.unique haccess'
      exact hrest
    · intro hdecisive hother
      by_contra hboth
      rw [not_or, not_not] at hboth
      obtain ⟨hroot, htarget⟩ := hboth
      push Not at htarget
      obtain ⟨file, htarget, howner⟩ := htarget
      obtain ⟨parent', entry', haccess', hlink⟩ :=
        h.mp ⟨parent, entry, haccess, hroot, file, htarget, fun _ => howner⟩
      obtain ⟨rfl, rfl⟩ := haccess.unique haccess'
      exact hother (hlink hdecisive)
  · intro h
    constructor
    · rintro ⟨parent, entry, haccess, hroot, file, htarget, howner⟩
      refine ⟨parent, entry, haccess, fun hdecisive => ?_⟩
      by_contra hother
      rcases (h parent entry haccess).2 hdecisive hother with hroot' | htarget'
      · exact hroot' hroot
      · exact htarget' file htarget (howner hdecisive)
    · rintro ⟨parent, entry, haccess, howner⟩
      exact ⟨parent, entry, haccess, (h parent entry haccess).1 howner⟩

end Site

def Site.answer (c : Site) (name : Bytes) : (e : Syscall) → e.Answer
  | .faccessat _ path mode =>
    if path = name then c.resolve >>= fun file => file.faccess mode
    else if path = ascii "/share" then c.above >>= fun _ => c.parent >>= fun parent => parent.faccess mode
    else c.parent >>= fun parent => parent.faccess mode
  | .fstatat _ path _ => if path = name then c.resolve.map Inode.stat else c.parent.map Inode.stat
  | .geteuid => c.uid
  | .capget => .ok c.fowner
  | e => working e

def Inode.open (mode uid : Nat) : Inode := ⟨{ directoryStat with mode := mode, uid := uid }, fun _ => .ok ()⟩

/-- A link of the user 1000 to a file of another one, in a sticky directory. -/
def foreignTarget : Site where
  uid := 1000
  fowner := false
  parent := .ok (.open 0o041777 0)
  entry := .ok ⟨.open 0o120777 1000, .ok (.open 0o100666 0)⟩
  above := .ok ()

def linkFile : File := ⟨ascii "l", ⟨0, 3, 1000, 1000, []⟩, ⟨1, 0, 2⟩, 2, .closed⟩

theorem foreignTarget_answers : foreignTarget.Answers linkFile (foreignTarget.answer linkFile.fileName) where
  setgroups _ := rfl
  setresgid _ := rfl
  setresuid _ := rfl
  geteuid := rfl
  capget := rfl
  faccessat _ _ := rfl
  faccessat_parent h := absurd rfl h
  faccessat_root _ := ⟨ascii "/share", rfl, rfl⟩
  fstatat_parent := rfl
  fstatat _ := rfl

end WslFreeBSD.Plan9
