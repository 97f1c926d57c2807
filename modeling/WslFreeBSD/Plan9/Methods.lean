import WslFreeBSD.Plan9.Files
import WslFreeBSD.Plan9.Setting

/-!
# What the methods of files return

The errors of a method are those of its calls and the ones that the server has for itself. Most methods
are done in the scope of the user of their root; the ones that call with a path outside of it ask that
the server itself may do so.
-/

namespace WslFreeBSD.Plan9

open Lib

variable {σ α β : Type} {S : Setting} {k : Scope}

/-! ## Helpers -/

section Helpers

theorem throws_orFail {r : Except Int α} (h : Sound S r) : Throws S k (orFail r) fun _ => True := by
  cases r with
  | ok a => exact throws_pure trivial
  | error e => exact throws_throw (h e rfl)

theorem throws_getFileQidByPath (hk : S.opens k) (fd : Nat) (path : Bytes) :
    Throws S k (getFileQidByPath fd path) (Sound S) :=
  (throws_call (by exact hk)).bind fun _ hr => throws_pure ((sound_expected hr).map _)

theorem throws_getFdPath (hk : S.opens k) (fd : Nat) : Throws S k (getFdPath fd) fun _ => True :=
  throws_call_orThrow (by exact hk) fun _ => (by rfl)

theorem throws_reopen (hk : S.opens k) (fd openFlags : Nat) : Throws S k (reopen fd openFlags) (Sound S) := by
  have hopen (path : Bytes) : Throws S k
      (do return expected (← Action.call (.openPath path (openFlags ||| oCloExec)))) (Sound S) :=
    throws_call_expected hk fun _ => rfl
  refine .ite (fun _ => ?_) fun _ => ?_
  · exact (throws_getFdPath hk fd).bind fun path _ => hopen path
  · exact (throws_pure (A := fun _ => True) trivial).bind fun path _ => hopen path

theorem throws_openAt (hk : S.opens k) (dirfd : Nat) (name : Bytes) (openFlags mode : Nat) :
    Throws S k (openAt dirfd name openFlags mode) (Sound S) :=
  .ite (fun _ => throws_reopen hk dirfd openFlags) fun _ => throws_call_expected (by exact hk) fun _ => (by rfl)

theorem throws_accessHelper (hk : S.opens k) (fd : Nat) (path : Bytes) (mode : Nat) :
    Throws S k (accessHelper fd path mode) fun _ => True := by
  have hcheck (path : Bytes) : Throws S k
      (do orThrow (← Action.call (.faccessat fd path mode))) fun _ => True :=
    throws_call_orThrow hk fun _ => rfl
  refine .ite (fun _ => ?_) fun _ => ?_
  · exact (throws_getFdPath hk fd).bind fun path _ => hcheck path
  · exact (throws_pure (A := fun _ => True) trivial).bind fun path _ => hcheck path

theorem throws_checkFOwnerCapability : Throws S k File.checkFOwnerCapability fun _ => True := by
  refine (throws_call (by exact trivial)).bind fun r hr => ?_
  have hsound : Sound S (expected r) := sound_expected hr
  cases hexp : expected r with
  | ok effective => exact throws_pure trivial
  | error e => exact .ite (fun _ => throws_pure trivial) fun _ => throws_throw (hsound e hexp)

end Helpers

/-! ## Methods that leave their object alone -/

section Methods

theorem throws_stat (hk : S.opens k) (f : File) : Throws S k f.stat (Sound S) :=
  throws_call_expected hk fun _ => rfl

theorem throws_openFile (hk : S.opens k) (f : File) (openFlags : Nat) :
    Throws S k (f.openFile openFlags) fun _ => True :=
  (throws_openAt hk _ _ _ _).bind fun _ hr => throws_orFail hr

theorem throws_mountAllowed (device : Nat) :
    Throws S k (File.mountAllowed device) fun _ => True := by
  refine (throws_call (by exact trivial)).bind fun r hr => ?_
  cases expected r with
  | error e => exact throws_pure trivial
  | ok type => cases type <;> exact throws_pure trivial

theorem returns_getAttr {f : File} (hroot : S.Admits f.root) (mask : Nat) :
    Returns S .server (f.getAttr mask : Op σ _) fun r => r.2.1 = f.qid := by
  refine Throws.returns (Throws.bind (throws_call (by exact trivial)) fun r hr => ?_) |>.withUser hroot
  exact (throws_orThrow hr).bind fun st _ => throws_pure rfl

theorem throws_when {c : Prop} [Decidable c] {m : Calls α} {rest : Unit → Calls α} {A : α → Prop}
    (hrest : ∀ u, Throws S k (rest u) A) (hm : (∀ u, Throws S k (rest u) A) → Throws S k m A) :
    Throws S k (if c then m else rest ()) A :=
  .ite (fun _ => hm hrest) fun _ => hrest ()

theorem returns_mkDir {f : File} (hroot : S.Admits f.root) (name : Bytes) (mode : Nat) :
    Returns S .server (f.mkDir name mode : Op σ _) (Sound S) := by
  refine Throws.returns (Throws.bind (throws_call (by exact trivial)) fun r hr => ?_) |>.withUser hroot
  have hsound : Sound S (expected r) := sound_expected hr
  cases hexp : expected r with
  | error e => exact throws_pure (sound_error (hsound e hexp))
  | ok u =>
    cases u
    exact throws_getFileQidByPath Setting.opens_user _ _

theorem returns_readLink {f : File} (hroot : S.Admits f.root) (size : Nat) :
    Returns S .server (f.readLink size : Op σ _) (Sound S) :=
  (throws_call_expected (by exact trivial) fun _ => rfl).returns.withUser hroot

theorem returns_statFs {f : File} (hroot : S.Admits f.root) (hdirect : S.opens .server) :
    Returns S .server (f.statFs : Op σ _) fun _ => True :=
  (Throws.returns (throws_openFile hdirect f _)).bind fun _ _ =>
    (throws_call_orThrow (by exact trivial) fun _ => rfl).returns.withUser hroot

theorem returns_getValue {x : XAttr} (hroot : S.Admits x.root) (size : Nat) :
    Returns S .server (x.getValue size : Op σ _) fun _ => True := by
  refine Throws.returns (.ite (fun _ => ?_) fun _ => ?_) |>.withUser hroot
  · exact throws_call_orThrow (by exact trivial) fun _ => (by rfl)
  · exact throws_call_orThrow (by exact trivial) fun _ => (by rfl)

theorem returns_getSize {x : XAttr} (hroot : S.Admits x.root) :
    Returns S .server (x.getSize : Op σ Nat) fun _ => True :=
  (returns_getValue hroot 0).bind fun _ _ => returns_pure trivial

theorem throws_xattrClunk {x : XAttr} (hk : x.access = .write → S.opens k) :
    Throws S k x.clunk fun _ => True := by
  refine .ite (fun hwrite => .ite (fun _ => ?_) fun _ => ?_) fun _ => throws_pure trivial
  · exact throws_call_orThrow (hk hwrite) fun _ => rfl
  · exact throws_call_orThrow (hk hwrite) fun _ => rfl

theorem throws_clunk {item : Fid} (hk : ∀ x, item = .xattr x → x.access = .write → S.opens k) :
    Throws S k item.clunk fun _ => True := by
  cases item with
  | file f => exact throws_pure trivial
  | xattr x => exact throws_xattrClunk (hk x rfl)

theorem throws_xattrWalk (hk : S.opens k) (f : File) (name : Bytes) :
    Throws S k (f.xattrWalk name) fun x => x.root = f.root :=
  (throws_getFdPath hk _).bind fun _ _ => throws_pure rfl

theorem Returns.of_readOnly {f : File} {m : Op σ α} {A : α → Prop} (hm : Returns S .server m A) :
    Returns S .server (if f.root.readOnly then Action.throw erofs else m) A :=
  .ite (fun _ => returns_own (by decide)) fun _ => hm

theorem returns_setAttr {f : File} (hroot : S.Admits f.root) (valid : Nat) (stat : StatResult) :
    Returns S .server (f.setAttr valid stat : Op σ Unit) fun _ => True := by
  refine Returns.of_readOnly (Throws.returns ?_ |>.withUser hroot)
  refine throws_when (fun _ => ?_) fun hk => (throws_openFile Setting.opens_user f _).bind fun fd _ =>
    throws_call_bind (by exact trivial) (fun _ => by rfl) hk
  refine throws_when (fun _ => ?_) fun hk => throws_call_bind (by exact trivial) (fun _ => by rfl) hk
  refine throws_when (fun _ => ?_) fun hk => throws_call_bind (by exact trivial) (fun _ => by rfl) hk
  refine throws_when (fun _ => ?_) fun hk => throws_call_bind (by exact trivial) (fun _ => by rfl) hk
  exact .ite (fun _ => throws_call_orThrow (by exact trivial) fun _ => (by rfl)) fun _ => throws_pure trivial

theorem returns_unlinkAt {f : File} (hroot : S.Admits f.root) (name : Bytes) (flags : Nat) :
    Returns S .server (f.unlinkAt name flags : Op σ Unit) fun _ => True :=
  .of_readOnly <| (throws_call_orThrow (by exact trivial) fun _ => rfl).returns.withUser hroot

theorem returns_remove {f : File} (hroot : S.Admits f.root) :
    Returns S .server (f.remove : Op σ Unit) fun _ => True := by
  refine .of_readOnly (.ite (fun _ => returns_own (by decide)) fun _ => ?_)
  exact (throws_call_orThrow (by exact trivial) fun _ => rfl).returns.withUser hroot

theorem returns_renameAt {f : File} (hroot : S.Admits f.root) (oldName : Bytes) (newParent : File)
    (newName : Bytes) : Returns S .server (f.renameAt oldName newParent newName : Op σ Unit) fun _ => True := by
  refine .ite (fun _ => returns_own (by decide)) fun _ => .of_readOnly ?_
  exact (throws_call_orThrow (by exact trivial) fun _ => rfl).returns.withUser hroot

theorem returns_link {f : File} (hroot : S.Admits f.root) (newName : Bytes) (target : File) :
    Returns S .server (f.link newName target : Op σ Unit) fun _ => True := by
  refine .ite (fun _ => returns_own (by decide)) fun _ => .of_readOnly ?_
  exact (throws_call_orThrow (by exact trivial) fun _ => rfl).returns.withUser hroot

theorem returns_symLink {f : File} (hroot : S.Admits f.root) (name target : Bytes) :
    Returns S .server (f.symLink name target : Op σ Qid) fun _ => True := by
  refine .of_readOnly (Throws.returns ?_ |>.withUser hroot)
  refine throws_call_bind (by exact trivial) (fun _ => by rfl) fun _ => ?_
  exact (throws_getFileQidByPath Setting.opens_user _ _).bind fun _ hq => throws_orFail hq

theorem returns_mkNod {f : File} (hroot : S.Admits f.root) (name : Bytes) (mode major minor : Nat) :
    Returns S .server (f.mkNod name mode major minor : Op σ Qid) fun _ => True := by
  refine .of_readOnly (Throws.returns ?_ |>.withUser hroot)
  refine throws_call_bind (by exact trivial) (fun _ => by rfl) fun _ => ?_
  exact (throws_getFileQidByPath Setting.opens_user _ _).bind fun _ hq => throws_orFail hq

theorem throws_lock (f : File) : Throws S k f.lock fun _ => True :=
  .ite (fun _ => throws_pure trivial) fun _ => throws_own (by decide)

theorem throws_getLock (f : File) (start length procId : Nat) (clientId : Bytes) :
    Throws S k (f.getLock start length procId clientId)
      fun r => f.isOpen ∧ r = (File.lockUnlock, start, length, procId, clientId) :=
  .ite (fun h => throws_pure ⟨h, rfl⟩) fun _ => throws_own (by decide)

theorem throws_fsync (f : File) : Throws S k f.fsync fun _ => True := by
  unfold File.fsync
  cases f.state with
  | file fd => exact throws_call_orThrow (by exact trivial) fun _ => rfl
  | closed => exact throws_own (by decide)
  | enumerator fd offset => exact throws_own (by decide)

theorem throws_read {f : File} (hk : ∀ fd, f.state = .file fd → S.completes k) (offset size : Nat) :
    Throws S k (f.read offset size) fun data => data.length ≤ size := by
  unfold File.read
  cases hstate : f.state with
  | file fd =>
    refine (throws_call (by exact hk fd hstate)).bind fun r hr => ?_
    cases r with
    | refused e =>
      exact .ite (fun _ => throws_pure (Nat.zero_le size)) fun _ => throws_throw (hr _ rfl)
    | failed e => exact throws_throw (hr _ rfl)
    | done s => exact throws_pure s.property
  | closed => exact throws_own (by decide)
  | enumerator fd offset => exact throws_own (by decide)

theorem throws_write {f : File} (hk : ∀ fd, f.state = .file fd → S.completes k) (offset : Nat)
    (data : Bytes) :
    Throws S k (f.write offset data) fun _ => True := by
  unfold File.write
  cases hstate : f.state with
  | file fd =>
    refine (throws_call (by exact hk fd hstate)).bind fun r hr => ?_
    cases r with
    | refused e => exact throws_throw (hr _ rfl)
    | failed e => exact throws_throw (hr _ rfl)
    | done s => exact throws_pure trivial
  | closed => exact throws_own (by decide)
  | enumerator fd offset => exact throws_own (by decide)

theorem returns_xattrRead {x : XAttr} (hroot : S.Admits x.root) (offset size : Nat) :
    Returns S .server (x.read offset size : Op σ Bytes) fun data =>
      data.length ≤ size ∨ x.access = .read ∧ offset = 0 ∧ size = 0 := by
  refine .ite (fun _ => returns_own (by decide)) fun hread => ?_
  refine (returns_getValue hroot size).bind fun value _ => ?_
  refine .ite (fun hsize => ?_) fun hsize => returns_pure (.inl ?_)
  · rw [not_or, not_not, not_not] at hread
    exact Throws.returns ((throws_call (by exact trivial)).bind fun _ _ =>
      throws_pure (.inr ⟨hread.1, hread.2, hsize⟩))
  · exact value.property.resolve_left hsize

theorem throws_accessToDelete (hk : S.opens k) (f : File) :
    Throws S k f.accessToDelete fun _ => True := by
  have hdenied : Throws S k (Action.throw eacces : Calls Unit) fun _ => True :=
    throws_own (by decide)
  unfold File.accessToDelete
  refine throws_when (fun _ => ?_) fun hrest => hdenied.bind fun u _ => hrest u
  refine (throws_accessHelper hk _ _ _).bind fun _ _ => ?_
  refine throws_call_bind (by exact hk) (fun _ => by rfl) fun st => ?_
  refine .ite (fun _ => throws_checkFOwnerCapability.bind fun owner _ => ?_) fun _ => throws_pure trivial
  refine .ite (fun _ => (throws_call (by exact trivial)).bind fun uid _ => ?_) fun _ => throws_pure trivial
  refine .ite (fun _ => throws_call_bind (by exact hk) (fun _ => by rfl) fun child => ?_)
    fun _ => throws_pure trivial
  exact .ite (fun _ => hdenied) fun _ => throws_pure trivial

theorem returns_access {f : File} (hroot : S.Admits f.root) (flags : Nat) :
    Returns S .server (f.access flags : Op σ Unit) fun _ => True := by
  refine Throws.returns ((throws_accessHelper Setting.opens_user _ _ _).bind fun _ _ => ?_) |>.withUser hroot
  exact .ite (fun _ => throws_accessToDelete Setting.opens_user f) fun _ => throws_pure trivial

theorem throws_xattrCreate {f : File} (hk : f.isOpen = false → S.opens k) (name : Bytes)
    (size flags : Nat) : Throws S k (f.xattrCreate name size flags) fun x => x.root = f.root := by
  refine .ite (fun _ => throws_own (by decide)) fun _ => ?_
  refine .ite (fun _ => throws_own (by decide)) fun hclosed => ?_
  refine (throws_getFdPath (hk (Bool.eq_false_iff.mpr hclosed)) _).bind fun _ _ => ?_
  refine (throws_call (by exact trivial)).bind fun r hr => ?_
  exact (throws_orThrow hr).bind fun _ _ => throws_pure rfl

theorem throws_groupFor (uid : Nat) : Throws S k (groupFor uid) fun _ => True := by
  refine (throws_call (by exact trivial)).bind fun gid _ => .ite (fun _ => throws_pure trivial) fun _ => ?_
  refine (throws_call (by exact trivial)).bind fun nobody _ => .ite (fun _ => throws_pure trivial) fun _ => ?_
  exact throws_own (by decide)

theorem throws_makeRoot (id : Nat) (aname : Bytes) (uid : Nat) :
    Throws S k (makeRoot id aname uid) fun _ => True := by
  refine (throws_call (by exact trivial)).bind fun share _ => ?_
  cases share with
  | none => exact throws_own (by decide)
  | some rootFd =>
    refine (throws_call (by exact trivial)).bind fun currentUid _ => ?_
    refine .ite (fun _ => throws_pure trivial) fun _ => ?_
    refine .ite (fun _ => ?_) fun _ => throws_own (by decide)
    refine (throws_groupFor uid).bind fun gid _ => .ite (fun _ => throws_pure trivial) fun _ => ?_
    exact (throws_call (by exact trivial)).bind fun _ _ => throws_pure trivial

end Methods

/-! ## Methods that change their object -/

/-- A file is seen by its name, its qid and whether it is open, but not by the place in a directory. -/
def File.view (f : File) : File :=
  { f with state := match f.state with
    | .enumerator fd _ => .file fd
    | state => state }

def Fid.view : Fid → Fid
  | .file f => .file f.view
  | .xattr x => .xattr x

section State

variable {f : File}

theorem spec_validateExists : Action.Spec (S.interface .user) (fun g => g = f) File.validateExists
    (fun r g => Sound S r ∧ g.root = f.root) (fun e _ => S.errors e) (Terminates S .user) := by
  refine .get_then ((throws_stat Setting.opens_user f).returns.then (fun r hr => ?_) (fun _ he => he)
    fun _ hR => ⟨rfl, hR⟩)
  cases r with
  | error e => exact Action.spec_pure fun g hg => ⟨sound_error (hr e rfl), hg ▸ rfl⟩
  | ok st => exact .modify_then (Action.spec_pure fun g hg => ⟨sound_ok, hg ▸ rfl⟩)

theorem spec_init (hroot : S.Admits f.root) : Action.Spec (S.interface .server) (fun g => g = f) File.init
    (fun _ g => g.root = f.root) (fun e _ => S.errors e) (Terminates S .server) := by
  refine .get_then (spec_withUser hroot ?_ (fun _ _ _ he => he) fun _ hR => ⟨rfl, hR⟩)
  refine spec_validateExists.bind fun r => Action.spec_of_state ?_
  rintro g ⟨hr, hkept⟩
  refine (throws_orFail hr).returns.then (fun qid _ => .get_then ?_) (fun _ he => he) fun _ hR => ⟨rfl, hR⟩
  exact Action.spec_pure fun g' hg => hg ▸ hkept

theorem spec_scopeExit {undo : File → File} {m : Op File (Except Int α)} {P : File → Prop}
    {V : Except Int α → File → Prop} {E : Int → File → Prop} {H : Halt → File → Prop}
    (hm : Action.Spec (S.interface .server) P m (fun r g => V r (if r.isOk then g else undo g))
      (fun e g => E e (undo g)) H) : Action.Spec (S.interface .server) P (File.scopeExit undo m) V E H := by
  refine fun g hg => Action.Meets.bind (hm g hg) ?_
  rintro ⟨o, g'⟩ h
  rcases o with (_ | _) | _ | _ <;> exact Action.meets_pure h

theorem throws_createChild (hk : S.opens k) (f : File) (name : Bytes) (flags mode : Nat) :
    Throws S k (f.createChild name flags mode) (Sound S) := by
  refine (throws_openAt hk _ _ _ _).bind fun r hr => ?_
  cases r with
  | error e => exact throws_pure (sound_error (hr e rfl))
  | ok fd => exact (throws_call (by exact trivial)).bind fun r hr => throws_pure ((sound_expected hr).map _)


theorem spec_findChild (parentDevice : Nat) :
    Action.Spec (S.interface .user) (fun g => g = f) (File.findChild parentDevice)
      (fun r g => Sound S r ∧ g.root = f.root) (fun e _ => S.errors e) (Terminates S .user) := by
  refine spec_validateExists.bind fun r => Action.spec_of_state ?_
  rintro g ⟨hr, hroot⟩
  cases r with
  | error e => exact Action.spec_pure fun _ hg => ⟨sound_error (hr e rfl), hg ▸ hroot⟩
  | ok u =>
    cases u
    have hdone {r : Except Int Qid} (hr : Sound S r) : Action.Spec (S.interface .user) (fun g' => g' = g)
        (pure r) (fun r g' => Sound S r ∧ g'.root = f.root) (fun e _ => S.errors e) (Terminates S .user) :=
      Action.spec_pure fun _ hg => ⟨hr, hg ▸ hroot⟩
    refine .get_then (.ite (fun _ => ?_) fun _ => hdone sound_ok)
    refine (throws_mountAllowed _).returns.then (fun allowed _ => ?_) (fun _ he => he)
      fun _ hR => ⟨rfl, hR⟩
    exact .ite (fun _ => hdone sound_ok) fun _ => hdone (sound_error (S.own _ (by decide)))

theorem spec_walk (hroot : S.Admits f.root) (name : Bytes) :
    Action.Spec (S.interface .server) (fun g => g = f) (File.walk name)
    (fun r g => (Sound S r ∧ g.root = f.root) ∧ (r.isOk → f.qid.isDirectory))
    (fun e _ => S.errors e) (Terminates S .server) := by
  refine .get_then (.ite (fun hdir => ?_) fun _ => Action.spec_pure fun _ hg =>
    ⟨⟨sound_error (S.own _ (by decide)), hg ▸ rfl⟩, nofun⟩)
  refine .modify_then (spec_scopeExit ?_)
  refine spec_withUser hroot ?_ (fun _ _ _ he => he) fun _ hR => ⟨rfl, hR⟩
  refine (spec_findChild f.device).post fun r g hr => ⟨⟨hr.1, ?_⟩, fun _ => hdir⟩
  cases r <;> exact hr.2

theorem spec_open (hroot : S.Admits f.root) (flags : Nat) :
    Action.Spec (S.interface .server) (fun g => g = f) (File.open_ flags)
    (fun _ g => f.isOpen = false ∧ g.root = f.root) (fun e g => g = f ∧ S.errors e) (Terminates S .server) := by
  refine .get_then (.ite (fun _ => Action.spec_throw fun _ hg => ⟨hg, S.own _ (by decide)⟩) fun hopen => ?_)
  refine spec_withUser hroot ?_ (fun _ _ hg he => ⟨hg, he⟩) fun _ hR => ⟨rfl, hR⟩
  refine (throws_openAt Setting.opens_user _ _ _ _).returns.then (fun r hr => ?_) (fun _ he => ⟨rfl, he⟩)
    fun _ hR => ⟨rfl, hR⟩
  refine (throws_orFail hr).returns.then (fun fd _ => ?_) (fun _ he => ⟨rfl, he⟩) fun _ hR => ⟨rfl, hR⟩
  exact .modify_then (Action.spec_pure fun g hg => ⟨Bool.eq_false_iff.mpr hopen, hg ▸ rfl⟩)

theorem spec_create (hroot : S.Admits f.root) (name : Bytes) (flags mode : Nat) :
    Action.Spec (S.interface .server) (fun g => g = f) (File.create name flags mode)
      (fun r g => (Sound S r ∧ g.root = f.root) ∧ (r.isOk = false → g = f) ∧ (r.isOk → f.isOpen = false))
      (fun e g => g = f ∧ S.errors e) (Terminates S .server) := by
  have hfails {e : Int} (he : S.errors e) (g : File) (hg : g = f) :
      (Sound S (.error e : Except Int Qid) ∧ g.root = f.root) ∧
        ((.error e : Except Int Qid).isOk = false → g = f) ∧
        ((.error e : Except Int Qid).isOk → f.isOpen = false) :=
    ⟨⟨sound_error he, hg ▸ rfl⟩, fun _ => hg, nofun⟩
  refine .get_then (.ite (fun _ => Action.spec_pure (hfails (S.own _ (by decide)))) fun hopen => ?_)
  refine .ite (fun _ => Action.spec_pure (hfails (S.own _ (by decide)))) fun _ => ?_
  refine spec_withUser hroot ?_ (fun _ _ hg he => ⟨hg, he⟩) fun _ hR => ⟨rfl, hR⟩
  refine (throws_createChild Setting.opens_user f name flags mode).returns.then (fun r hr => ?_)
    (fun _ he => ⟨rfl, he⟩) fun _ hR => ⟨rfl, hR⟩
  cases r with
  | error e => exact Action.spec_pure (hfails (hr e rfl))
  | ok c =>
    exact .modify_then (Action.spec_pure fun g hg =>
      ⟨⟨sound_ok, hg ▸ rfl⟩, nofun, fun _ => Bool.eq_false_iff.mpr hopen⟩)

theorem spec_rename (hroot : S.Admits f.root) (newParent : File) (newName : Bytes) :
    Action.Spec (S.interface .server) (fun g => g = f) (File.rename newParent newName)
      (fun _ g => g.root = f.root) (fun e g => g = f ∧ S.errors e) (Terminates S .server) := by
  have hfails {e : Int} (he : e ∈ ownErrors) : ∀ g, g = f → g = f ∧ S.errors e := fun g hg => ⟨hg, S.own e he⟩
  refine .get_then (.ite (fun _ => Action.spec_throw (hfails (by decide))) fun _ => ?_)
  refine .ite (fun _ => Action.spec_throw (hfails (by decide))) fun _ => ?_
  refine .ite (fun _ => Action.spec_throw (hfails (by decide))) fun _ => ?_
  refine spec_withUser hroot ?_ (fun _ _ hg he => ⟨hg, he⟩) fun _ hR => ⟨rfl, hR⟩
  refine (throws_call_orThrow (by exact trivial) fun _ => (by rfl)).returns.then (fun _ _ => ?_)
    (fun _ he => ⟨rfl, he⟩) fun _ hR => ⟨rfl, hR⟩
  exact Action.spec_modify fun g hg => hg ▸ rfl

end State

/-! ### Directories -/

section Directories

variable {f : File}

theorem view_enumerator {g : File} {fd offset : Nat} (h : g.state = .enumerator fd offset)
    (offset' : Nat) : File.view { g with state := .enumerator fd offset' } = g.view := by
  simp [File.view, h]

/-- The file is read as a directory, at some place. -/
def Enumerates (f : File) (fd : Nat) (g : File) : Prop :=
  g.view = f.view ∧ ∃ offset, g.state = .enumerator fd offset

theorem Enumerates.moved {fd : Nat} {g : File} (h : Enumerates f fd g) (offset : Nat) :
    Enumerates f fd { g with state := .enumerator fd offset } := by
  obtain ⟨hview, old, hold⟩ := h
  exact ⟨(view_enumerator hold offset).trans hview, offset, rfl⟩

/-- The file is the one that was there, up to its place as a directory. -/
def Unmoved (S : Setting) (f : File) (e : Int) (g : File) : Prop := g.view = f.view ∧ S.errors e

theorem spec_seek (fd offset : Nat) : Action.Spec (S.interface .server) (Enumerates f fd)
    (File.seek fd offset) (fun _ => Enumerates f fd) (Unmoved S f) (Terminates S .server) := by
  refine Action.spec_get.bind fun g => .ite (fun _ => ?_) fun _ => Action.spec_pure fun _ hg => hg.1
  have hmove : Action.Spec (S.interface .server) (Enumerates f fd)
      (Action.modify fun g => { g with state := .enumerator fd offset }) (fun _ => Enumerates f fd)
      (Unmoved S f) (Terminates S .server) :=
    Action.spec_modify fun g hg => hg.moved offset
  refine .ite (fun _ => ?_) fun _ => ?_
  · exact (Action.spec_call (by exact trivial)).bind fun _ => hmove.pre fun _ h => h.1.1
  · exact (Action.spec_call (by exact trivial)).bind fun _ => hmove.pre fun _ h => h.1.1

theorem spec_next (fd : Nat) : Action.Spec (S.interface .server) (Enumerates f fd) (File.next fd)
    (fun _ => Enumerates f fd) (Unmoved S f) (Terminates S .server) := by
  refine Action.spec_of_state fun g hg => ?_
  refine (throws_call_orThrow (by exact trivial) fun _ => (by rfl)).returns.then (fun entry _ => ?_)
    (fun _ he => ⟨hg.1, he⟩) fun _ hR => ⟨rfl, hR⟩
  cases entry with
  | none => exact Action.spec_pure fun _ h => h ▸ hg
  | some entry => exact .modify_then (Action.spec_pure fun _ h => h ▸ hg.moved entry.off)

theorem throws_entryAttributes (hk : S.opens k) (fd : Nat) (entry : Dirent) :
    Throws S k (File.entryAttributes fd entry) fun _ => True := by
  refine (throws_call (by exact hk)).bind fun r hr => ?_
  cases expected r <;> exact throws_pure trivial

theorem spec_enumerate : Action.Spec (S.interface .server) (fun g => g = f) File.enumerate
    (fun fd g => f.isOpen ∧ Enumerates f fd g) (Unmoved S f) (Terminates S .server) := by
  have hopen (h : f.state ≠ .closed) : f.isOpen := decide_eq_true h
  refine .get_then ?_
  cases hstate : f.state with
  | closed => exact Action.spec_throw fun _ hg => ⟨hg ▸ rfl, S.own _ (by decide)⟩
  | enumerator fd offset =>
    refine Action.spec_pure ?_
    rintro _ rfl
    exact ⟨hopen (by rw [hstate]; nofun), rfl, offset, hstate⟩
  | file fd =>
    have hfile : f.isOpen := hopen (by rw [hstate]; nofun)
    refine (throws_call_orThrow (by exact trivial) fun _ => (by rfl)).returns.then (fun _ _ => ?_)
      (fun _ he => ⟨rfl, he⟩) fun _ hR => ⟨rfl, hR⟩
    refine .modify_then (Action.spec_pure fun _ hg => hg ▸ ⟨hfile, ?_, 0, rfl⟩)
    simp [File.view, hstate]

theorem spec_readEntries (fd : Nat) {includeAttributes : Bool}
    (hdirect : includeAttributes → S.opens .server) (room : Nat) (dirEntriesWritten : Bool) :
    Action.Spec (S.interface .server) (Enumerates f fd)
      (File.readEntries fd includeAttributes room dirEntriesWritten)
      (fun data g => data.length ≤ room ∧ Enumerates f fd g) (Unmoved S f) (Terminates S .server) := by
  induction room using Nat.strongRecOn generalizing dirEntriesWritten with
  | ind room ih =>
    rw [File.readEntries]
    refine (spec_next fd).bind fun entry => ?_
    cases entry with
    | none => exact Action.spec_pure fun _ hg => ⟨Nat.zero_le room, hg⟩
    | some entry =>
      have hrest (attributes : Option StatResult) : Action.Spec (S.interface .server) (Enumerates f fd)
          (if (File.directoryEntryBytes entry attributes).length ≤ room then do
            let written ← File.readEntries fd includeAttributes
              (room - (File.directoryEntryBytes entry attributes).length) true
            return File.directoryEntryBytes entry attributes ++ written
          else if dirEntriesWritten then return [] else Action.throw einval)
          (fun data g => data.length ≤ room ∧ Enumerates f fd g) (Unmoved S f)
          (Terminates S .server) := by
        refine .ite (fun hfits => ?_) fun _ => ?_
        · have hpos := File.length_directoryEntryBytes_pos entry attributes
          refine (ih _ (by omega) true).bind fun written => Action.spec_pure fun _ hwritten => ?_
          have hlength := hwritten.1
          rw [List.length_append]
          exact ⟨by omega, hwritten.2⟩
        · refine .ite (fun _ => Action.spec_pure fun _ hg => ⟨Nat.zero_le room, hg⟩) fun _ => ?_
          exact Action.spec_throw fun _ hg => ⟨hg.1, S.own _ (by decide)⟩
      refine .ite (fun hattr => Action.spec_of_state fun g hg => ?_) fun _ => ?_
      · have hattributes : Throws S .server (some <$> File.entryAttributes fd entry) fun _ => True :=
          (throws_entryAttributes (hdirect hattr) fd entry).bind fun a _ => throws_pure trivial
        refine hattributes.returns.then (fun a _ => ?_) (fun _ he => ⟨hg.1, he⟩) fun _ hR => ⟨rfl, hR⟩
        exact (hrest a).pre fun _ h => h ▸ hg
      · exact (Action.spec_pure (V := fun _ => Enumerates f fd) fun _ hg => hg).bind fun a => hrest a

theorem spec_readDir (offset count : Nat) {includeAttributes : Bool}
    (hdirect : f.isOpen → includeAttributes → S.opens .server) :
    Action.Spec (S.interface .server) (fun g => g = f) (File.readDir offset count includeAttributes)
      (fun data g => data.length ≤ count ∧ g.view = f.view) (Unmoved S f) (Terminates S .server) := by
  refine spec_enumerate.bind fun fd => Action.spec_of_state fun g hg => ?_
  refine ((spec_seek fd offset).pre fun _ h => h ▸ hg.2).bind fun _ => ?_
  exact (spec_readEntries fd (hdirect hg.1) count false).post fun _ _ h => ⟨h.1, h.2.1⟩

end Directories

end WslFreeBSD.Plan9
