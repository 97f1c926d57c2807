import WslFreeBSD.Plan9.Identity

/-!
# What is asked of the calls of a request

A `Setting` is what is known of the answers to the calls and asked of the calls themselves, for a
request. Its `errors` have the errors of the server and those that the answers lead to, so that a
statement for all settings says where an error comes from. An action halts only where a destructor
throws, and never if the identity of the server can be `restored`. If a root is `watched`, the calls of
the request are confined to it.

The calls are made in two scopes, as the server and as a user: `withUser` leads from the one to the other.
-/

namespace WslFreeBSD.Plan9

open Lib

/-! ## Errors and answers -/

def ownErrors : List Int :=
  [enoent, eio, ebadf, eacces, enotdir, eisdir, einval, erofs, eperm, enotsup]

def failure {α : Type} : Except Errno α → Option Int
  | .ok _ => none
  | .error e => some e.code

/-- The error that a call leads to with its answer. -/
def Syscall.thrown : (e : Syscall) → e.Answer → Option Int
  | .setgroups _, r | .setresgid _, r | .setresuid _, r => failure r
  | .fstatat _ _ _, r | .fstat _, r => failure r
  | .openat _ _ _ _, r | .openPath _ _, r => failure r
  | .fdPath _, r => failure r
  | .readlinkat _ _ _, r => failure r
  | .mkdirat _ _ _, r | .unlinkat _ _ _, r | .renameat _ _ _, r | .symlinkat _ _ _, r
  | .linkat _ _ _, r | .mknodat _ _ _ _ _, r | .ftruncate _ _, r | .fchmodat _ _ _, r
  | .fchownat _ _ _ _, r | .utimensat _ _ _ _, r | .faccessat _ _ _, r | .fsync _, r => failure r
  | .capget, r => failure r
  | .fstatfs _, r => failure r
  | .aioRead _ _ _, .refused e => some e.code
  -- the completion reports the error number as it is
  | .aioRead _ _ _, .failed e => some e.val
  | .aioWrite _ _ _, .refused e | .aioWrite _ _ _, .failed e => some e.val
  | .aioRead _ _ _, .done _ | .aioWrite _ _ _, .done _ => none
  | .fdopendir _, r => failure r
  | .readdir _, r => failure r
  | .findMount _, r => failure r
  | .lgetxattr _ _ _, r | .llistxattr _ _, r => failure r
  | .lsetxattr _ _ _ _, r | .lremovexattr _ _, r | .allocate _, r => failure r
  | .geteuid, _ | .rewinddir _, _ | .seekdir _ _, _ | .unwritten _, _ | .share _, _
  | .getUserGroupId _, _ | .getGroupIdByName _, _ | .getgrouplist _ _, _ => none

/-- The calls with which the server takes its own identity again are successful. -/
def Restored : (e : Syscall) → e.Answer → Prop
  | .setresuid 0, r | .setresgid 0, r | .setgroups [], r => r = .ok ()
  | _, _ => True

/-- Of the calls with which the identity of a root is taken, only the first one can fail. -/
def Entered (root : Root) : (e : Syscall) → e.Answer → Prop
  | .setresuid _, r => r = .ok ()
  | .setresgid _, r => r = .ok () ∨ root.groups = []
  | _, _ => True

/-- The root is for the server itself, or for a user and a group that are known. -/
def Root.Proper (root : Root) : Prop :=
  root.uid = invalidId ∧ root.gid = invalidId ∧ root.groups = [] ∨
    root.uid ≠ invalidId ∧ root.gid ≠ invalidId

/-! ## Settings -/

/-- Where calls are made: in the context of a user, or outside. -/
inductive Scope where
  | user
  | server

structure Setting where
  errors : Int → Prop
  own : ∀ e ∈ ownErrors, errors e
  restored : Prop
  /-- there may be calls that end in a completion -/
  async : Prop
  watched : Option Root

namespace Setting

variable (S : Setting)

def rely (e : Syscall) (r : e.Answer) : Prop :=
  (∀ c, e.thrown r = some c → S.errors c) ∧ (S.restored → Restored e r) ∧
    ∀ root ∈ S.watched, Restored e r ∧ Entered root e r

def Admits (root : Root) : Prop := ∀ r ∈ S.watched, root = r ∧ root.Proper

/-- Calls with a path may be made in a scope: outside of a user, if it is the server that is watched. -/
def opens : Scope → Prop
  | .user => True
  | .server => ∀ root ∈ S.watched, root.identity = .server

/-- Calls that end in a completion may be made in a scope. -/
def completes : Scope → Prop
  | .user => False
  | .server => S.async

def calls (k : Scope) : CallKind → Prop
  | .identity => False
  | .path => S.opens k
  | .aio => S.completes k
  | .plain => True

/-- What is asked of the calls that were made in a scope. -/
def guarantee : Scope → Program.Trace Syscall Syscall.Answer → Prop
  | .user, t => ∀ c ∈ t, c.1.kind ≠ .identity ∧ c.1.kind ≠ .aio
  | .server, t => (∀ c ∈ t, c.1.kind = .aio → S.async) ∧ ∀ root ∈ S.watched, Confined root t

variable {S}

theorem opens_user : S.opens .user := trivial

theorem guarantee_nil (k : Scope) : S.guarantee k [] := by
  cases k with
  | user => exact nofun
  | server => exact ⟨nofun, fun _ _ => confined_nil⟩

theorem guarantee_append {k : Scope} {t u : Program.Trace Syscall Syscall.Answer}
    (ht : S.guarantee k t) (hu : S.guarantee k u) : S.guarantee k (t ++ u) := by
  cases k with
  | user => exact List.forall_mem_append.mpr ⟨ht, hu⟩
  | server =>
    exact ⟨List.forall_mem_append.mpr ⟨ht.1, hu.1⟩, fun r hr => (ht.2 r hr).append (hu.2 r hr)⟩

theorem guarantee_single {k : Scope} {e : Syscall} {r : e.Answer} (he : S.calls k e.kind) :
    S.guarantee k [⟨e, r⟩] := by
  have hidentity : e.kind ≠ .identity := by
    intro heq
    rw [heq] at he
    exact he
  cases k with
  | user =>
    intro c hc
    obtain rfl := List.mem_singleton.mp hc
    refine ⟨hidentity, fun heq => ?_⟩
    rw [heq] at he
    exact he
  | server =>
    refine ⟨fun c hc heq => ?_, fun root hroot => ?_⟩
    · obtain rfl := List.mem_singleton.mp hc
      rw [heq] at he
      exact he
    · refine ⟨⟨fun hpath => ?_, trivial⟩, Identity.after_of_kind hidentity⟩
      rw [hpath] at he
      exact (he root hroot).symm

variable (S) in
def interface (k : Scope) : Action.Interface Syscall Syscall.Answer where
  rely := S.rely
  calls := fun e => S.calls k e.kind
  guarantee := S.guarantee k
  nil := guarantee_nil k
  append := guarantee_append
  single := fun he _ => guarantee_single he

/-- Nothing is known of the answers, and nothing asked of the calls. -/
def free : Setting where
  errors := fun _ => True
  own := fun _ _ => trivial
  restored := False
  async := True
  watched := none

theorem free_rely (e : Syscall) (r : e.Answer) : free.rely e r :=
  ⟨fun _ _ => trivial, False.elim, nofun⟩

end Setting

variable {σ α β : Type} {S : Setting} {k : Scope}

/-! ## Errors that are returned -/

/-- An error that is returned is one of the setting. -/
def Sound (S : Setting) (r : Except Int α) : Prop := ∀ e, r = .error e → S.errors e

theorem sound_ok {a : α} : Sound S (.ok a) := nofun

theorem sound_error {e : Int} (he : S.errors e) : Sound S (.error e : Except Int α) := by
  rintro _ ⟨⟩
  exact he

theorem Sound.map {r : Except Int α} (h : Sound S r) (f : α → β) : Sound S (r.map f) := by
  cases r with
  | ok a => exact sound_ok
  | error e => exact sound_error (h e rfl)

theorem sound_expected {r : Except Errno α} (h : ∀ c, failure r = some c → S.errors c) :
    Sound S (expected r) := by
  cases r with
  | ok a => exact sound_ok
  | error e => exact sound_error (h _ rfl)

/-! ## Calls that can throw -/

/-- The calls return a value in `A` or throw an error of the setting. -/
def Throws (S : Setting) (k : Scope) (m : Calls α) (A : α → Prop) : Prop :=
  Action.Spec (S.interface k) (fun _ => True) m (fun a _ => A a) (fun e _ => S.errors e)
    fun x _ => x.elim

section Throws

variable {m : Calls α} {f : α → Calls β} {A A' : α → Prop} {B : β → Prop}

theorem throws_pure {a : α} (h : A a) : Throws S k (pure a) A := Action.spec_pure fun _ _ => h

theorem throws_throw {e : Int} (h : S.errors e) : Throws S k (Action.throw e : Calls α) A :=
  Action.spec_throw fun _ _ => h

theorem throws_own {e : Int} (h : e ∈ ownErrors) : Throws S k (Action.throw e : Calls α) A :=
  throws_throw (S.own e h)

theorem throws_call {e : Syscall} (he : S.calls k e.kind) :
    Throws S k (Action.call e) fun r => ∀ c, e.thrown r = some c → S.errors c :=
  (Action.spec_call he).post fun _ _ hr => hr.2.1

theorem Throws.bind (hm : Throws S k m A) (hf : ∀ a, A a → Throws S k (f a) B) :
    Throws S k (m >>= f) B :=
  Action.Spec.bind hm fun a => Action.spec_of_state fun _ ha => (hf a ha).pre fun _ _ => trivial

theorem Throws.ite {c : Prop} [Decidable c] {n : Calls α} (hm : c → Throws S k m A)
    (hn : ¬ c → Throws S k n A) : Throws S k (if c then m else n) A := by
  split
  · next h => exact hm h
  · next h => exact hn h

theorem throws_orThrow {r : Except Errno α} (h : ∀ c, failure r = some c → S.errors c) :
    Throws S k (orThrow r) fun _ => True := by
  cases r with
  | ok a => exact throws_pure trivial
  | error e => exact throws_throw (h _ rfl)

theorem throws_call_orThrow {e : Syscall} {g : e.Answer → Except Errno α}
    (he : S.calls k e.kind) (hg : ∀ r, e.thrown r = failure (g r)) :
    Throws S k (do orThrow (g (← Action.call e))) fun _ => True :=
  (throws_call he).bind fun r hr => throws_orThrow (hg r ▸ hr)

theorem throws_call_expected {e : Syscall} {g : e.Answer → Except Errno α}
    (he : S.calls k e.kind) (hg : ∀ r, e.thrown r = failure (g r)) :
    Throws S k (do return expected (g (← Action.call e))) (Sound S) :=
  (throws_call he).bind fun r hr => throws_pure (sound_expected (hg r ▸ hr))

theorem throws_call_bind {e : Syscall} {g : e.Answer → Except Errno α} {f : α → Calls β}
    (he : S.calls k e.kind) (hg : ∀ r, e.thrown r = failure (g r))
    (hf : ∀ a, Throws S k (f a) B) : Throws S k (Action.call e >>= fun r => orThrow (g r) >>= f) B :=
  (throws_call he).bind fun r hr => (throws_orThrow (hg r ▸ hr)).bind fun a _ => hf a

end Throws

/-! ## Actions that leave their state alone -/

def Setting.terminates (S : Setting) : Scope → Prop
  | .user => False
  | .server => ¬ S.restored

def Terminates (S : Setting) (k : Scope) (x : Halt) (_ : σ) : Prop := x = .terminate ∧ S.terminates k

/-- The action leaves its state alone; it returns a value in `A` or throws an error of the setting. -/
def Returns (S : Setting) (k : Scope) (m : Op σ α) (A : α → Prop) : Prop :=
  ∀ s, Action.Spec (S.interface k) (fun s' => s' = s) m (fun a s' => s' = s ∧ A a)
    (fun e s' => s' = s ∧ S.errors e) (Terminates S k)

section Returns

variable {m : Op σ α} {f : α → Op σ β} {A A' : α → Prop} {B : β → Prop}

theorem Returns.then {s : σ} {V : β → σ → Prop} {E : Int → σ → Prop} {H : Halt → σ → Prop}
    (hm : Returns S k m A)
    (hf : ∀ a, A a → Action.Spec (S.interface k) (fun s' => s' = s) (f a) V E H)
    (hE : ∀ e, S.errors e → E e s) (hH : ∀ s', S.terminates k → H .terminate s') :
    Action.Spec (S.interface k) (fun s' => s' = s) (m >>= f) V E H := by
  refine ((hm s).mono (fun _ h => h) (fun _ _ h => h) ?_ ?_).bind fun a => Action.spec_of_state ?_
  · rintro e _ ⟨rfl, he⟩
    exact hE e he
  · rintro x s' ⟨rfl, hR⟩
    exact hH s' hR
  · rintro _ ⟨rfl, ha⟩
    exact hf a ha

theorem returns_pure {a : α} (h : A a) : Returns S k (pure a : Op σ α) A :=
  fun _ => Action.spec_pure fun _ hs => ⟨hs, h⟩

theorem returns_throw {e : Int} (h : S.errors e) : Returns S k (Action.throw e : Op σ α) A :=
  fun _ => Action.spec_throw fun _ hs => ⟨hs, h⟩

theorem returns_own {e : Int} (h : e ∈ ownErrors) : Returns S k (Action.throw e : Op σ α) A :=
  returns_throw (S.own e h)

theorem Returns.bind (hm : Returns S k m A) (hf : ∀ a, A a → Returns S k (f a) B) :
    Returns S k (m >>= f) B := by
  intro s
  refine (hm s).bind fun a => Action.spec_of_state ?_
  rintro s' ⟨rfl, ha⟩
  exact hf a ha s'

theorem Returns.mono (hm : Returns S k m A) (h : ∀ a, A a → A' a) : Returns S k m A' :=
  fun s => (hm s).post fun a _ ha => ⟨ha.1, h a ha.2⟩

theorem Returns.ite {c : Prop} [Decidable c] {n : Op σ α} (hm : c → Returns S k m A)
    (hn : ¬ c → Returns S k n A) : Returns S k (if c then m else n) A := by
  split
  · next h => exact hm h
  · next h => exact hn h

theorem Throws.returns {m : Calls α} (hm : Throws S k m A) : Returns S k (m.embed : Op σ α) A :=
  fun _ => Action.Spec.embed hm _ _

end Returns

/-! ## The scope of a user -/

section Users

variable {root : Root}

/-- The calls are those of a constructor or a destructor of a scope. -/
def Switches (t : Program.Trace Syscall Syscall.Answer) : Prop := ∀ c ∈ t, c.1.kind = .identity

theorem switches_cons {e : Syscall} {r : e.Answer} {t : Program.Trace Syscall Syscall.Answer}
    (he : e.kind = .identity) (ht : Switches t) : Switches (⟨e, r⟩ :: t) :=
  List.forall_mem_cons.mpr ⟨he, ht⟩

theorem switches_nil : Switches [] := nofun

theorem Root.Proper.identity_eq (hroot : root.Proper) (huid : root.uid ≠ invalidId) :
    root.gid ≠ invalidId ∧ root.identity = ⟨root.uid, root.gid, root.groups⟩ := by
  have hgid : root.gid ≠ invalidId := hroot.elim (fun h => absurd h.1 huid) fun h => h.2
  exact ⟨hgid, if_neg fun h => huid h.1⟩

theorem Root.Proper.own (hroot : root.Proper) (huid : root.uid = invalidId) :
    root.groups = [] ∧ root.identity = .server := by
  obtain ⟨-, hgid, hgroups⟩ := hroot.resolve_right fun h => h.1 huid
  exact ⟨hgroups, if_pos ⟨huid, hgid⟩⟩

/-- What a constructor of a scope comes to: it fails with the identity that was there, or it has taken
that of the root. -/
structure EntersTo (S : Setting) (root : Root) (o : Outcome Int Empty Unit)
    (t : Program.Trace Syscall Syscall.Answer) : Prop where
  switches : Switches t
  failed : ∀ e, o = .error e → S.errors e ∧ (S.watched.isSome → Identity.server.behind t = .server)
  entered : o = .value () → S.watched.isSome → Identity.server.behind t = root.identity

theorem EntersTo.fails {e : Errno} {t : Program.Trace Syscall Syscall.Answer} (ht : Switches t)
    (he : S.errors e.code) (hi : S.watched.isSome → Identity.server.behind t = .server) :
    EntersTo S root (.error e.code) t := by
  refine ⟨ht, ?_, nofun⟩
  rintro _ ⟨⟩
  exact ⟨he, hi⟩

theorem enterUser_ensures (hroot : S.Admits root) :
    (enterUser root ()).Ensures fun r t => Action.Given S.rely t → EntersTo S root r.1 t := by
  have hproper (h : S.watched.isSome) : root.Proper := (hroot _ (Option.get_mem h)).2
  have hentered {e : Syscall} {r : e.Answer} (h : S.watched.isSome) (hr : S.rely e r) :
      Entered root e r := by
    obtain ⟨hw, -⟩ := hroot _ (Option.get_mem h)
    exact (hr.2.2 root (hw ▸ Option.get_mem h)).2
  have hbehind (h : S.watched.isSome) (huid : root.uid ≠ invalidId) :
      Identity.after (Identity.after ⟨0, 0, root.groups⟩ ⟨.setresgid root.gid, .ok ()⟩)
        ⟨.setresuid root.uid, .ok ()⟩ = root.identity := by
    obtain ⟨hgid, hidentity⟩ := (hproper h).identity_eq huid
    simp [Identity.after, hgid, huid, hidentity]
  by_cases hgroups : root.groups = [] <;> by_cases huid : root.uid = invalidId
  · rw [enterUser, if_neg (not_not.mpr hgroups), if_neg (not_not.mpr huid)]
    exact fun _ => ⟨switches_nil, nofun, fun _ h => ((hproper h).own huid).2.symm⟩
  · rw [enterUser, if_neg (not_not.mpr hgroups), if_pos huid]
    rintro (e | _)
    · exact fun hg => .fails (switches_cons rfl switches_nil) ((hg _ (.head _)).1 _ rfl) fun _ => rfl
    · rintro (e | _)
      · refine fun hg => .fails (switches_cons rfl (switches_cons rfl switches_nil))
          ((hg _ (.tail _ (.head _))).1 _ rfl) fun h => ?_
        cases hentered h (hg _ (.tail _ (.head _)))
      · refine fun hg => ⟨switches_cons rfl (switches_cons rfl switches_nil), nofun, fun _ h => ?_⟩
        have := hbehind h huid
        rwa [hgroups] at this
  · rw [enterUser, if_pos hgroups, if_neg (not_not.mpr huid)]
    rintro (e | _)
    · exact fun hg => .fails (switches_cons rfl switches_nil) ((hg _ (.head _)).1 _ rfl) fun _ => rfl
    · exact fun hg => ⟨switches_cons rfl switches_nil, nofun,
        fun _ h => absurd ((hproper h).own huid).1 hgroups⟩
  · rw [enterUser, if_pos hgroups, if_pos huid]
    rintro (e | _)
    · exact fun hg => .fails (switches_cons rfl switches_nil) ((hg _ (.head _)).1 _ rfl) fun _ => rfl
    · rintro (e | _)
      · refine fun hg => .fails (switches_cons rfl (switches_cons rfl switches_nil))
          ((hg _ (.tail _ (.head _))).1 _ rfl) fun h => ?_
        rcases hentered h (hg _ (.tail _ (.head _))) with h | h
        · cases h
        · exact absurd h hgroups
      · rintro (e | _)
        · refine fun hg => .fails (switches_cons rfl (switches_cons rfl (switches_cons rfl switches_nil)))
            ((hg _ (.tail _ (.tail _ (.head _)))).1 _ rfl) fun h => ?_
          cases hentered h (hg _ (.tail _ (.tail _ (.head _))))
        · exact fun hg => ⟨switches_cons rfl (switches_cons rfl (switches_cons rfl switches_nil)), nofun,
            fun _ h => hbehind h huid⟩

/-- What a destructor of a scope comes to. -/
structure LeavesFrom (S : Setting) (root : Root) (o : Outcome Int Empty Unit)
    (t : Program.Trace Syscall Syscall.Answer) : Prop where
  switches : Switches t
  restored : S.restored → o = .value ()
  left : S.watched.isSome → root.identity.behind t = .server

theorem restoreUser_ensures (hroot : S.Admits root) :
    (restoreUser root ()).Ensures fun r t => Action.Given S.rely t → LeavesFrom S root r.1 t := by
  have hproper (h : S.watched.isSome) : root.Proper := (hroot _ (Option.get_mem h)).2
  -- a call that fails shows that nothing is known of it
  have hfails {e : Syscall} {r : e.Answer} {t : Program.Trace Syscall Syscall.Answer}
      {o : Outcome Int Empty Unit} (ht : Switches t) (hr : S.rely e r) (hno : ¬ Restored e r) :
      LeavesFrom S root o t :=
    ⟨ht, fun h => absurd (hr.2.1 h) hno, fun h => absurd (hr.2.2 _ (Option.get_mem h)).1 hno⟩
  have hleft (h : S.watched.isSome) (huid : root.uid ≠ invalidId) :
      Identity.after (Identity.after root.identity ⟨.setresuid 0, .ok ()⟩) ⟨.setresgid 0, .ok ()⟩ =
        ⟨0, 0, root.groups⟩ := by
    rw [((hproper h).identity_eq huid).2]
    rfl
  by_cases huid : root.uid = invalidId <;> by_cases hgroups : root.groups = []
  · rw [restoreUser, if_neg (not_not.mpr huid), if_neg (not_not.mpr hgroups)]
    exact fun _ => ⟨switches_nil, fun _ => rfl, fun h => ((hproper h).own huid).2⟩
  · rw [restoreUser, if_neg (not_not.mpr huid), if_pos hgroups]
    rintro (e | _)
    · exact fun hg => hfails (switches_cons rfl switches_nil) (hg _ (.head _)) nofun
    · exact fun hg => ⟨switches_cons rfl switches_nil, fun _ => rfl,
        fun h => absurd ((hproper h).own huid).1 hgroups⟩
  · rw [restoreUser, if_pos huid, if_neg (not_not.mpr hgroups)]
    rintro (e | _)
    · exact fun hg => hfails (switches_cons rfl switches_nil) (hg _ (.head _)) nofun
    · rintro (e | _)
      · exact fun hg => hfails (switches_cons rfl (switches_cons rfl switches_nil))
          (hg _ (.tail _ (.head _))) nofun
      · refine fun hg => ⟨switches_cons rfl (switches_cons rfl switches_nil), fun _ => rfl, fun h => ?_⟩
        have := hleft h huid
        rwa [hgroups] at this
  · rw [restoreUser, if_pos huid, if_pos hgroups]
    rintro (e | _)
    · exact fun hg => hfails (switches_cons rfl switches_nil) (hg _ (.head _)) nofun
    · rintro (e | _)
      · exact fun hg => hfails (switches_cons rfl (switches_cons rfl switches_nil))
          (hg _ (.tail _ (.head _))) nofun
      · rintro (e | _)
        · exact fun hg => hfails (switches_cons rfl (switches_cons rfl (switches_cons rfl switches_nil)))
            (hg _ (.tail _ (.tail _ (.head _)))) nofun
        · refine fun hg => ⟨switches_cons rfl (switches_cons rfl (switches_cons rfl switches_nil)),
            fun _ => rfl, fun h => ?_⟩
          have := hleft h huid
          rw [Identity.behind, List.foldl_cons, List.foldl_cons, this]
          rfl

theorem guarantee_scope {t u v : Program.Trace Syscall Syscall.Answer} (hroot : S.Admits root)
    (ht : Switches t) (hentered : S.watched.isSome → Identity.server.behind t = root.identity)
    (hu : S.guarantee .user u) (hv : Switches v)
    (hleft : S.watched.isSome → root.identity.behind v = .server) : S.guarantee .server (t ++ (u ++ v)) := by
  have hplain {t : Program.Trace Syscall Syscall.Answer} (ht : Switches t) (c) (hc : c ∈ t) :
      c.1.kind ≠ .path ∧ c.1.kind ≠ .aio := by
    rw [ht c hc]
    exact ⟨nofun, nofun⟩
  refine ⟨?_, fun r hr => ?_⟩
  · simp only [List.forall_mem_append]
    exact ⟨fun c hc h => absurd h (hplain ht c hc).2, fun c hc h => absurd h (hu c hc).2,
      fun c hc h => absurd h (hplain hv c hc).2⟩
  · have hwatched : S.watched.isSome := Option.isSome_of_mem hr
    obtain ⟨rfl, -⟩ := hroot r hr
    obtain ⟨hmade, hbehind⟩ := madeAs_unchanged (i := root.identity) fun c hc => (hu c hc).1
    constructor
    · refine madeAs_append.mpr ⟨madeAs_of_no_path fun c hc => (hplain ht c hc).1, ?_⟩
      rw [hentered hwatched]
      exact madeAs_append.mpr ⟨hmade, madeAs_of_no_path fun c hc => (hplain hv c hc).1⟩
    · rw [Identity.behind_append, hentered hwatched, Identity.behind_append, hbehind, hleft hwatched]

theorem enterUser_embed_ensures (hroot : S.Admits root) (s : σ) :
    ((enterUser root).embed (η := Halt) s).Ensures fun r t => Action.Given S.rely t →
      r.2 = s ∧ ((∃ e, r.1 = .error e ∧ S.errors e ∧ S.guarantee .server t) ∨
        r.1 = .value () ∧ Switches t ∧
          (S.watched.isSome → Identity.server.behind t = root.identity)) := by
  refine Action.ensures_bind_given (enterUser_ensures hroot) ?_
  rintro ⟨o, _⟩ t ⟨hswitches, hfailed, hentered⟩
  cases o with
  | halted x => exact x.elim
  | value u =>
    refine fun _ => ⟨rfl, .inr ⟨rfl, ?_⟩⟩
    rw [List.append_nil]
    exact ⟨hswitches, hentered rfl⟩
  | error e =>
    refine fun _ => ⟨rfl, .inl ⟨e, rfl, (hfailed e rfl).1, ?_⟩⟩
    rw [List.append_nil]
    refine ⟨fun c hc h => absurd (h.symm.trans (hswitches c hc)) nofun, fun r hr => ⟨?_, ?_⟩⟩
    · exact madeAs_of_no_path fun c hc h => absurd (h.symm.trans (hswitches c hc)) nofun
    · exact (hfailed e rfl).2 (Option.isSome_of_mem hr)

theorem leaveUser_ensures (hroot : S.Admits root) (s : σ) :
    (leaveUser root s).Ensures fun r t => Action.Given S.rely t → r.2 = s ∧
      (r.1 = .value () ∨ r.1 = .halted .terminate ∧ ¬ S.restored) ∧ Switches t ∧
        (S.watched.isSome → root.identity.behind t = .server) := by
  refine Action.ensures_bind_given (restoreUser_ensures hroot) ?_
  rintro ⟨o, _⟩ t ⟨hswitches, hrestored, hleft⟩
  cases o with
  | halted x => exact x.elim
  | value u =>
    refine fun _ => ⟨rfl, .inl rfl, ?_⟩
    rw [List.append_nil]
    exact ⟨hswitches, hleft⟩
  | error e =>
    refine fun _ => ⟨rfl, .inr ⟨rfl, fun h => nomatch hrestored h⟩, ?_⟩
    rw [List.append_nil]
    exact ⟨hswitches, hleft⟩

theorem spec_withUser {m : Op σ α} {P : σ → Prop} {V : α → σ → Prop} {E : Int → σ → Prop}
    {H : Halt → σ → Prop} (hroot : S.Admits root)
    (hm : Action.Spec (S.interface .user) P m V E (Terminates S .user))
    (hE : ∀ e s, P s → S.errors e → E e s) (hH : ∀ s, ¬ S.restored → H .terminate s) :
    Action.Spec (S.interface .server) P (withUser root m) V E H := by
  refine fun s hs => Action.ensures_bind_given (enterUser_embed_ensures hroot s) ?_
  rintro ⟨o, s'⟩ t ⟨rfl, ⟨e, rfl, he, ht⟩ | ⟨rfl, hswitches, hentered⟩⟩
  · intro _
    rw [List.append_nil]
    exact ⟨ht, hE e s' hs he⟩
  refine Action.ensures_bind_given (hm s' hs) ?_
  rintro ⟨o, s''⟩ u ⟨hu, hends⟩
  have hscope {v : Program.Trace Syscall Syscall.Answer} (hv : Switches v)
      (hleft : S.watched.isSome → root.identity.behind v = .server) :
      S.guarantee .server (t ++ (u ++ (v ++ []))) := by
    rw [List.append_nil]
    exact guarantee_scope hroot hswitches hentered hu hv hleft
  -- the destructor is called behind a value and behind an error
  cases o with
  | halted x => exact hends.2.elim
  | value a =>
    refine Action.ensures_bind_given (leaveUser_ensures hroot s'') ?_
    rintro ⟨o, _⟩ v ⟨rfl, rfl | ⟨rfl, hR⟩, hv, hleft⟩
    · exact fun _ => ⟨hscope hv hleft, hends⟩
    · exact fun _ => ⟨hscope hv hleft, hH _ hR⟩
  | error e =>
    refine Action.ensures_bind_given (leaveUser_ensures hroot s'') ?_
    rintro ⟨o, _⟩ v ⟨rfl, rfl | ⟨rfl, hR⟩, hv, hleft⟩
    · exact fun _ => ⟨hscope hv hleft, hends⟩
    · exact fun _ => ⟨hscope hv hleft, hH _ hR⟩

theorem Returns.withUser {m : Op σ α} {A : α → Prop} (hm : Returns S .user m A)
    (hroot : S.Admits root) : Returns S .server (withUser root m) A :=
  fun s => spec_withUser hroot (hm s) (fun _ _ hs he => ⟨hs, he⟩) fun _ hR => ⟨rfl, hR⟩

end Users

end WslFreeBSD.Plan9
