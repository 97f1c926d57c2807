import Mathlib.Algebra.Order.BigOperators.Group.List
import WslFreeBSD.Hvinit.Main
import WslFreeBSD.Lib.Runs

/-!
# Killed children

The pids of the GNS engine and of the file server are globals, and `reap_children` collects any
child without a look at them. `kills_children` says that every pid that is killed is that of a
child that has not been collected, in every run in which `reap_children` does not find a recorded
child.
-/

namespace WslFreeBSD.Hvinit

open Lib Protocol Config

/-! ## Children -/

inductive ChildEvent where
  | forked (pid : Nat)
  | killed (pid : Nat)
  | collected (pids : List Nat)
  deriving DecidableEq, Repr

def childEvent : (Σ e, Op.Answer e) → Option ChildEvent
  | ⟨.fork, some pid⟩ => some (.forked pid)
  | ⟨.kill pid _, _⟩ => some (.killed pid)
  | ⟨.waitpid pid _, .collected⟩ => some (.collected [pid])
  | ⟨.waitAny, pids⟩ => some (.collected pids)
  | _ => none

def childEvents (t : InitTrace) : List ChildEvent := t.filterMap childEvent

/-- The children that have not been collected, after an event. -/
def ChildEvent.after (cs : List Nat) : ChildEvent → List Nat
  | .forked pid => pid :: cs
  | .killed _ => cs
  | .collected pids => cs.filter (· ∉ pids)

def children (past : List ChildEvent) : List Nat := past.foldl ChildEvent.after []

@[simp] theorem children_concat (past : List ChildEvent) (d : ChildEvent) :
    children (past ++ [d]) = ChildEvent.after (children past) d :=
  List.foldl_concat ..

/-- Only children that have not been collected are killed. -/
def KillsChildren : List ChildEvent → Prop :=
  Preceded fun past d => ∀ pid, d = .killed pid → pid ∈ children past

/-- The pids of new children are not those of children. -/
def NewPids : List ChildEvent → Prop :=
  Preceded fun past d => ∀ pid, d = .forked pid → pid ∉ children past

/-- The operating system does not give a child the pid of another one that has not been
collected. -/
def FreshForks (env : InitEnvironment) : Prop :=
  ∀ t pid, env t .fork = some pid → pid ∉ children (childEvents t)

theorem childEvents_append (t u : InitTrace) :
    childEvents (t ++ u) = childEvents t ++ childEvents u := List.filterMap_append

theorem childEvent_forked {c : Σ e, Op.Answer e} {pid : Nat} (h : childEvent c = some (.forked pid)) :
    c = ⟨.fork, some pid⟩ := by
  unfold childEvent at h
  split at h
  · cases h
    rfl
  all_goals cases h

theorem FreshForks.newPids {env : InitEnvironment} (henv : FreshForks env) {t u : InitTrace}
    (h : Program.AnsweredBy env t u) (ht : NewPids (childEvents t)) :
    NewPids (childEvents (t ++ u)) := by
  induction u generalizing t with
  | nil => rwa [List.append_nil]
  | cons c u ih =>
    rw [List.append_cons]
    refine ih h.2 ?_
    rw [childEvents_append]
    cases hc : childEvent c with
    | none =>
      rw [childEvents, childEvents, List.filterMap_cons_none hc, List.filterMap_nil, List.append_nil]
      exact ht
    | some d =>
      rw [childEvents, childEvents, List.filterMap_cons_some hc, List.filterMap_nil]
      refine Preceded.concat ht fun pid hd => ?_
      obtain rfl := childEvent_forked (hd ▸ hc)
      exact henv t pid h.1.symm

/-! ## Recorded children -/

/-- The recorded pids are those of two children. -/
structure Recorded (cs : List Nat) (gns plan9 : Option Nat) : Prop where
  gnsPid : ∀ pid ∈ gns, pid ∈ cs
  childPid : ∀ pid ∈ plan9, pid ∈ cs
  ne : ∀ pid ∈ gns, pid ∉ plan9

namespace Recorded

variable {cs cs' : List Nat} {gns plan9 : Option Nat} {pid : Nat}

theorem mono (h : Recorded cs gns plan9) (hcs : ∀ q ∈ cs, q ∈ gns ∨ q ∈ plan9 → q ∈ cs') :
    Recorded cs' gns plan9 where
  gnsPid q hq := hcs q (h.gnsPid q hq) (.inl hq)
  childPid q hq := hcs q (h.childPid q hq) (.inr hq)
  ne := h.ne

theorem swap (h : Recorded cs gns plan9) : Recorded cs plan9 gns where
  gnsPid := h.childPid
  childPid := h.gnsPid
  ne q hq hq' := h.ne q hq' hq

theorem forget (h : Recorded cs gns plan9) : Recorded cs none plan9 where
  gnsPid q hq := by cases hq
  childPid := h.childPid
  ne q hq := by cases hq

theorem fork (h : Recorded cs gns plan9) (hpid : pid ∉ cs) : Recorded (pid :: cs) (some pid) plan9 where
  gnsPid q hq := by
    obtain rfl : pid = q := Option.some.inj hq
    exact List.mem_cons_self
  childPid q hq := List.mem_cons_of_mem pid (h.childPid q hq)
  ne q hq hq' := by
    obtain rfl : pid = q := Option.some.inj hq
    exact hpid (h.childPid pid hq')

end Recorded

/-! ## Programs -/

/-- After `past`, a program that starts with recorded children `r` ends with those of `out`, and it
kills only children. -/
def Keeps {α : Type} (r : Option Nat × Option Nat) (out : α → Option Nat × Option Nat)
    (p : InitProgram α) : Prop :=
  p.Shows childEvent fun a o => ∀ past, NewPids (past ++ o) → KillsChildren past →
    Recorded (children past) r.1 r.2 →
    KillsChildren (past ++ o) ∧ Recorded (children (past ++ o)) (out a).1 (out a).2

section Keeps

variable {α β : Type} {r : Option Nat × Option Nat} {out : α → Option Nat × Option Nat}
  {out' : β → Option Nat × Option Nat}

theorem Keeps.bind {p : InitProgram α} {f : α → InitProgram β} (hp : Keeps r out p)
    (hf : ∀ a, Keeps (out a) out' (f a)) : Keeps r out' (p >>= f) := by
  refine Program.Shows.bind hp fun a o ho => Program.Shows.mono (hf a) fun b o' ho' => ?_
  intro past hnew hkills hr
  rw [← List.append_assoc] at hnew ⊢
  obtain ⟨hkills', hr'⟩ := ho past (Preceded.of_append hnew) hkills hr
  exact ho' (past ++ o) hnew hkills' hr'

theorem keeps_of_nil {p : InitProgram α}
    (h : p.Shows childEvent fun a o => o = [] ∧ out a = r) : Keeps r out p := by
  refine Program.Shows.mono h ?_
  rintro a o ⟨rfl, ha⟩ past _ hkills hr
  rw [List.append_nil, ha]
  exact ⟨hkills, hr⟩

theorem keeps_pure {a : α} (h : out a = r) : Keeps r out (pure a : InitProgram α) :=
  keeps_of_nil (Program.shows_pure ⟨rfl, h⟩)

theorem Keeps.ite {c : Prop} [Decidable c] {p q : InitProgram α} (hp : Keeps r out p)
    (hq : Keeps r out q) : Keeps r out (if c then p else q) := by
  split
  · exact hp
  · exact hq

theorem Uses.childless {ss : List Subsystem} {p : InitProgram α} (hp : Uses ss p)
    (hss : Subsystem.processes ∉ ss) : p.Shows childEvent fun _ o => o = [] := by
  refine Uses.hidden hp (fun e r (he : e.subsystem ≠ .processes) => ?_) hss
  cases e with
  | fork => exact absurd rfl he
  | kill pid signal => exact absurd rfl he
  | waitpid pid nohang => exact absurd rfl he
  | waitAny => exact absurd rfl he
  | _ => rfl

theorem Uses.keeps {ss : List Subsystem} {p : InitProgram α} (hp : Uses ss p)
    (hss : Subsystem.processes ∉ ss) : Keeps r (fun _ => r) p :=
  keeps_of_nil (Program.Shows.mono (hp.childless hss) fun _ _ ho => ⟨ho, rfl⟩)

theorem Keeps.after {ss : List Subsystem} {p : InitProgram α} {f : α → InitProgram β}
    (hp : Uses ss p) (hss : Subsystem.processes ∉ ss) (hf : ∀ a, Keeps r out' (f a)) :
    Keeps r out' (p >>= f) := (hp.keeps hss).bind hf

end Keeps

/-! ## The calls -/

theorem NewPids.forked {past : List ChildEvent} {pid : Nat} (h : NewPids (past ++ [.forked pid])) :
    pid ∉ children past := h past (.forked pid) [] rfl pid rfl

theorem shows_fork : (Program.perform Op.fork : InitProgram (Option Nat)).Shows childEvent
    fun out o => ∀ past, NewPids (past ++ o) → KillsChildren past → KillsChildren (past ++ o) ∧
      children (past ++ o) = out.toList ++ children past ∧ ∀ pid ∈ out, pid ∉ children past := by
  refine Program.shows_perform fun out past hnew hkills => ?_
  cases out with
  | none =>
    rw [show (childEvent ⟨.fork, none⟩).toList = [] from rfl, List.append_nil]
    exact ⟨hkills, rfl, fun pid hpid => by cases hpid⟩
  | some pid =>
    refine ⟨hkills.concat (fun _ h => by cases h), children_concat past _, fun q hq => ?_⟩
    obtain rfl : pid = q := Option.some.inj hq
    exact hnew.forked

/-- The child of a `fork` may be recorded as the GNS engine, -/
theorem keeps_fork_gns (gns plan9 : Option Nat) : Keeps (gns, plan9)
    (fun out => (out.or gns, plan9)) (Program.perform Op.fork : InitProgram (Option Nat)) := by
  refine Program.Shows.mono shows_fork fun out o ho past hnew hkills hr => ?_
  obtain ⟨hkills', hcs, hout⟩ := ho past hnew hkills
  refine ⟨hkills', ?_⟩
  rw [hcs]
  cases out with
  | none => exact hr
  | some pid => exact hr.fork (hout pid rfl)

theorem keeps_fork_plan9 (gns plan9 : Option Nat) : Keeps (gns, plan9)
    (fun out => (gns, out.or plan9)) (Program.perform Op.fork : InitProgram (Option Nat)) :=
  Program.Shows.mono (keeps_fork_gns plan9 gns) fun _ _ ho past hnew hkills hr =>
    (ho past hnew hkills hr.swap).imp_right Recorded.swap

theorem keeps_fork (r : Option Nat × Option Nat) :
    Keeps r (fun _ => r) (Program.perform Op.fork : InitProgram (Option Nat)) := by
  refine Program.Shows.mono shows_fork fun out o ho past hnew hkills hr => ?_
  obtain ⟨hkills', hcs, -⟩ := ho past hnew hkills
  refine ⟨hkills', hr.mono fun q hq _ => ?_⟩
  rw [hcs]
  exact List.mem_append_right out.toList hq

/-- The end of a child: it is killed, maybe more than once, and then collected, maybe. -/
def Ends (pid : Nat) (o : List ChildEvent) : Prop :=
  ∃ n m, o = List.replicate n (.killed pid) ++ List.replicate m (.collected [pid])

theorem kills_replicate {past : List ChildEvent} {pid : Nat} (h : KillsChildren past)
    (hpid : pid ∈ children past) (n : Nat) :
    KillsChildren (past ++ List.replicate n (.killed pid)) ∧
      children (past ++ List.replicate n (.killed pid)) = children past := by
  induction n with
  | zero =>
    rw [List.replicate_zero, List.append_nil]
    exact ⟨h, rfl⟩
  | succ n ih =>
    obtain ⟨hkills, hcs⟩ := ih
    rw [List.replicate_succ', ← List.append_assoc, children_concat, hcs]
    refine ⟨hkills.concat fun q hq => ?_, rfl⟩
    obtain rfl := ChildEvent.killed.inj hq
    rw [hcs]
    exact hpid

theorem collects_replicate {past : List ChildEvent} (h : KillsChildren past) (pid m : Nat) :
    KillsChildren (past ++ List.replicate m (.collected [pid])) ∧
      ∀ q ∈ children past, q ≠ pid →
        q ∈ children (past ++ List.replicate m (.collected [pid])) := by
  induction m with
  | zero =>
    rw [List.replicate_zero, List.append_nil]
    exact ⟨h, fun q hq _ => hq⟩
  | succ m ih =>
    obtain ⟨hkills, hcs⟩ := ih
    rw [List.replicate_succ', ← List.append_assoc, children_concat]
    refine ⟨hkills.concat (fun q hq => by cases hq), fun q hq hne => ?_⟩
    exact List.mem_filter.mpr ⟨hcs q hq hne, by simpa using hne⟩

theorem Recorded.ends {past o : List ChildEvent} {plan9 : Option Nat} {pid : Nat}
    (h : Recorded (children past) (some pid) plan9) (ho : Ends pid o) (hkills : KillsChildren past) :
    KillsChildren (past ++ o) ∧ Recorded (children (past ++ o)) none plan9 := by
  obtain ⟨n, m, rfl⟩ := ho
  obtain ⟨hkilled, hcs⟩ := kills_replicate hkills (h.gnsPid pid rfl) n
  obtain ⟨hcollected, hothers⟩ := collects_replicate hkilled pid m
  rw [← List.append_assoc]
  refine ⟨hcollected, h.forget.mono fun q hq hor => hothers q (hcs.symm ▸ hq) ?_⟩
  rintro rfl
  rcases hor with hor | hor
  · cases hor
  · exact h.ne q rfl hor

theorem shows_waitpid (pid : Nat) (nohang : Bool) :
    (Program.perform (Op.waitpid pid nohang) : InitProgram Waited).Shows childEvent fun waited o =>
      (waited = .running → o = []) ∧ ∃ m, o = List.replicate m (.collected [pid]) := by
  refine Program.shows_perform fun waited => ?_
  cases waited with
  | collected => exact ⟨(fun h => by cases h), 1, rfl⟩
  | running => exact ⟨fun _ => rfl, 0, rfl⟩
  | failed => exact ⟨fun _ => rfl, 0, rfl⟩

theorem shows_kill (pid : Nat) (signal : Signal) :
    (Program.perform (Op.kill pid signal) : InitProgram Unit).Shows childEvent fun _ o =>
      o = [.killed pid] := Program.shows_perform fun _ => rfl

/-! ## The servers -/

theorem keeps_gnsStopEngine (gns plan9 : Option Nat) :
    Keeps (gns, plan9) (fun gns' => (gns', plan9)) (gnsStopEngine gns) := by
  cases gns with
  | none => exact keeps_pure rfl
  | some pid =>
    refine Program.Shows.bind (shows_kill pid .term) ?_
    rintro _ _ rfl
    refine Program.Shows.bind (shows_waitpid pid false) ?_
    rintro _ _ ⟨-, m, rfl⟩
    refine Program.shows_pure fun past _ hkills hr => hr.ends ⟨1, m, ?_⟩ hkills
    rw [List.append_nil]
    rfl

theorem keeps_gnsStartEngine (featureFlags : UInt32) (gns plan9 : Option Nat) :
    Keeps (gns, plan9) (fun gns' => (gns', plan9)) (gnsStartEngine featureFlags gns) := by
  have hfork : ∀ k : Option Nat → InitProgram (Option Nat), (∀ out, k out = pure (out.or gns)) →
      Keeps (gns, plan9) (fun gns' => (gns', plan9)) (Program.perform Op.fork >>= k) :=
    fun k hk => (keeps_fork_gns gns plan9).bind fun out => by
      rw [hk]
      exact keeps_pure rfl
  refine Keeps.after (uses_self _) (by simp [Op.subsystem]) fun connected => ?_
  refine Keeps.ite (Keeps.ite ?_ (hfork _ fun out => by cases out <;> rfl)) (keeps_pure rfl)
  exact Keeps.after (uses_self _) (by simp [Op.subsystem]) fun _ =>
    hfork _ fun out => by cases out <;> rfl

theorem keeps_plan9StartServer (gns : Option Nat) (p : Plan9) :
    Keeps (gns, p.childPid) (fun out => (gns, out.1.childPid)) (plan9StartServer p) := by
  refine Keeps.ite (keeps_pure rfl) ?_
  refine Keeps.after (uses_acquireAll _) (by simp) fun got => Keeps.ite ?_ (keeps_pure rfl)
  refine (keeps_fork_plan9 gns p.childPid).bind fun out => ?_
  cases out <;> exact keeps_pure rfl

theorem shows_plan9AwaitExit (pid n : Nat) :
    (plan9AwaitExit pid n).Shows childEvent fun running o =>
      (running = true → o = []) ∧ ∃ m, o = List.replicate m (.collected [pid]) := by
  induction n with
  | zero => exact Program.shows_pure ⟨fun _ => rfl, 0, rfl⟩
  | succ n ih =>
    refine Program.Shows.bind (shows_waitpid pid true) ?_
    rintro waited o ⟨hrunning, m, hm⟩
    cases waited with
    | running =>
      rw [hrunning rfl]
      exact ih
    | collected => exact Program.shows_pure ⟨(fun h => by cases h), m, by rw [List.append_nil, hm]⟩
    | failed => exact Program.shows_pure ⟨(fun h => by cases h), m, by rw [List.append_nil, hm]⟩

theorem shows_plan9Terminate (pid : Nat) (force : Bool) :
    (plan9Terminate pid force).Shows childEvent fun _ o => Ends pid o := by
  refine Program.Shows.ite (fun _ => ?_) fun _ => ?_
  · exact Program.Shows.mono (shows_kill pid .kill) fun _ o ho => ⟨1, 0, ho⟩
  · refine Program.Shows.bind (shows_kill pid .term) ?_
    rintro _ _ rfl
    refine Program.Shows.bind (shows_plan9AwaitExit pid 50) ?_
    rintro running o ⟨hrunning, m, hm⟩
    refine Program.Shows.ite (fun h => ?_) fun _ => ?_
    · -- the second signal comes only while nothing has been collected
      rw [hrunning h]
      refine Program.Shows.bind (shows_kill pid .kill) ?_
      rintro _ _ rfl
      refine Program.Shows.bind (shows_waitpid pid false) ?_
      rintro _ _ ⟨-, m, rfl⟩
      exact Program.shows_pure ⟨2, m, by rw [List.append_nil]; rfl⟩
    · exact Program.shows_pure ⟨1, m, by rw [hm, List.append_nil]; rfl⟩

theorem Ends.collect {pid : Nat} {o : List ChildEvent} (h : Ends pid o) (m : Nat) :
    Ends pid (o ++ List.replicate m (.collected [pid])) := by
  obtain ⟨n, k, rfl⟩ := h
  exact ⟨n, k + m, by rw [List.append_assoc, List.replicate_append_replicate]⟩

theorem keeps_plan9StopServer (gns : Option Nat) (p : Plan9) (force : Bool) :
    Keeps (gns, p.childPid) (fun out => (gns, out.1.childPid)) (plan9StopServer p force) := by
  unfold plan9StopServer
  cases hpid : p.childPid with
  | none => exact keeps_pure (by rw [hpid])
  | some pid =>
    refine Keeps.ite ?_ (keeps_pure (by rw [hpid]))
    refine Program.Shows.bind (shows_plan9Terminate pid force) fun _ o ho => ?_
    refine Program.Shows.bind (shows_waitpid pid false) ?_
    rintro _ _ ⟨-, m, rfl⟩
    refine Program.shows_pure fun past _ hkills hr => ?_
    rw [List.append_nil]
    exact (hr.swap.ends (ho.collect m) hkills).imp_right Recorded.swap

theorem keeps_plan9Shutdown (gns : Option Nat) (p : Plan9) :
    Keeps (gns, p.childPid) (fun p' => (gns, p'.childPid)) (plan9Shutdown p) := by
  refine Keeps.ite ?_ (keeps_pure rfl)
  exact (keeps_plan9StopServer gns p true).bind fun _ => keeps_pure rfl

/-! ## Programs on the globals -/

/-- A program of the process that kills only children and records only children. -/
abbrev KeepsPids (g : Globals) (p : InitProgram Globals) : Prop :=
  Keeps (g.gnsPid, g.plan9.childPid) (fun g' => (g'.gnsPid, g'.plan9.childPid)) p

theorem keepsPids_of_uses {g : Globals} {ss : List Subsystem} {h : InitProgram Unit} (hh : Uses ss h)
    (hss : Subsystem.processes ∉ ss) : KeepsPids g (keep g h) :=
  Keeps.after hh hss fun _ => keeps_pure rfl

theorem keepsPids_handleRemountDrvfs (g : Globals) (m : Bytes) :
    KeepsPids g (handleRemountDrvfs g m) := by
  refine Keeps.ite ?_ ?_
  · exact Keeps.after (uses_send _ _) (by simp) fun _ => keeps_pure rfl
  · refine Keeps.after (uses_drvfsMountVolumes _ _ _ _ _ _ _) (by simp) fun out => ?_
    exact Keeps.after (uses_send _ _) (by simp) fun _ => keeps_pure rfl

theorem keepsPids_handleStopPlan9Server (g : Globals) (m : Bytes) :
    KeepsPids g (handleStopPlan9Server g m) := by
  refine Keeps.ite ?_ ?_
  · exact Keeps.after (uses_send _ _) (by simp) fun _ => keeps_pure rfl
  · refine (keeps_plan9StopServer g.gnsPid g.plan9 _).bind fun out => ?_
    exact Keeps.after (uses_send _ _) (by simp) fun _ => keeps_pure rfl

theorem keepsPids_gnsHandleStartSocketRelay (g : Globals) (m : Bytes) :
    KeepsPids g (keep g (gnsHandleStartSocketRelay m)) := by
  have hrelay : Keeps (g.gnsPid, g.plan9.childPid) (fun _ => (g.gnsPid, g.plan9.childPid))
      (gnsHandleStartSocketRelay m) := by
    refine Keeps.ite (keeps_pure rfl) ?_
    refine Keeps.after (uses_acquireAll _) (by simp) fun got => Keeps.ite ?_ (keeps_pure rfl)
    exact (keeps_fork _).bind fun _ => keeps_pure rfl
  exact hrelay.bind fun _ => keeps_pure rfl

theorem keepsPids_handleTerminateInstance (g : Globals) (m : Bytes) :
    KeepsPids g (handleTerminateInstance g m) := by
  refine Keeps.after (uses_send _ _) (by simp) fun _ => ?_
  refine (keeps_gnsStopEngine g.gnsPid g.plan9.childPid).bind fun gns => ?_
  refine (keeps_plan9Shutdown gns g.plan9).bind fun plan9 => ?_
  refine Keeps.after (uses_unmountEach _) (by simp) fun _ => ?_
  exact Keeps.after (uses_self _) (by simp [Op.subsystem]) fun _ => keeps_pure rfl

theorem keepsPids_dispatch (notifyOpen : Bool) (g : Globals) (m : Bytes) :
    KeepsPids g (dispatch notifyOpen g m) :=
  dispatch_cases notifyOpen g m (fun _ => keepsPids_handleTerminateInstance g m)
    (keepsPids_handleRemountDrvfs g m) (keepsPids_handleStopPlan9Server g m)
    (keepsPids_gnsHandleStartSocketRelay g m) (fun _ hh => keepsPids_of_uses hh (by simp))
    (keeps_pure rfl)

theorem keepsPids_loadSettings (g : Globals) (msg : Bytes) : KeepsPids g (loadSettings g msg) := by
  refine keeps_of_nil (Program.Ensures.mono
    (((uses_loadSettings g msg).childless (by simp)).and (loadSettings_eq g msg)) ?_)
  rintro _ t ⟨ht, config, wslConf, rfl⟩
  exact ⟨ht, rfl⟩

theorem keepsPids_applySettings (g : Globals) (seq : Nat) : KeepsPids g (applySettings g seq) := by
  refine Keeps.after (uses_timezoneApply _ _) (by simp) fun _ => ?_
  refine Keeps.after (uses_applyNetwork g) (by simp) fun _ => ?_
  refine Keeps.after (uses_mountInitial g) (by simp) fun mounted => ?_
  refine Keeps.after (uses_bootCommand g) (by simp) fun _ => ?_
  refine Keeps.after (uses_self _) (by simp [Op.subsystem]) fun _ => ?_
  refine (keeps_plan9StartServer g.gnsPid g.plan9).bind fun server => ?_
  exact Keeps.after (uses_send _ _) (by simp) fun _ => keeps_pure rfl

theorem keepsPids_handleInitialize (g : Globals) (msg : Bytes) :
    KeepsPids g (handleInitialize g msg) :=
  (keepsPids_loadSettings g msg).bind fun g => keepsPids_applySettings g _

theorem keepsPids_enterLoop (g : Globals) : KeepsPids g (Init.enterLoop g) := by
  refine Keeps.after (uses_send _ _) (by simp) fun _ => ?_
  exact (keeps_gnsStartEngine g.featureFlags g.gnsPid g.plan9.childPid).bind fun _ => keeps_pure rfl

theorem keepsPids_leaveLoop (g : Globals) : KeepsPids g (Init.leaveLoop g) :=
  (keeps_gnsStopEngine g.gnsPid g.plan9.childPid).bind fun _ => keeps_pure rfl

def startPlan9 (g : Globals) : InitProgram Globals := do
  let server ← plan9StartServer g.plan9
  pure { g with plan9 := server.1 }

theorem keepsPids_startPlan9 (g : Globals) : KeepsPids g (startPlan9 g) :=
  (keeps_plan9StartServer g.gnsPid g.plan9).bind fun _ => keeps_pure rfl

/-! ## Runs -/

/-- Only children have been killed, and the recorded pids are those of children. -/
structure Watching (s : Init) : Prop where
  newPids : NewPids (childEvents s.trace)
  kills : KillsChildren (childEvents s.trace)
  recorded : Recorded (children (childEvents s.trace)) s.globals.gnsPid s.globals.plan9.childPid

theorem Watching.incoming {s : Init} (hs : Watching s) (rest : Bytes) :
    Watching { s with incoming := rest } where
  newPids := hs.newPids
  kills := hs.kills
  recorded := hs.recorded

/-- What happens to the process. The three steps before the event loop may be taken at any time and
again, as may the start of the file server. -/
inductive Request where
  | receiveInitialize (cuts : Cuts)
  | receiveCreateSession (memory : Memory) (cuts : Cuts)
  | enterLoop
  | pass (w : Wakeup)
  | startPlan9

namespace Init

variable (env : InitEnvironment)

/-- The way out of the event loop is that of `main`. -/
def serve (s : Init) : Request → Init ⊕ Ended
  | .receiveInitialize cuts => .inl (s.receiveInitialize env cuts)
  | .receiveCreateSession memory cuts => .inl (s.receiveCreateSession env memory cuts)
  | .enterLoop => .inl (s.exec env enterLoop)
  | .pass w => finish env (s.pass env w)
  | .startPlan9 => .inl (s.exec env Hvinit.startPlan9)

/-- The children that `reap_children` collects, if it is called, are not recorded ones. -/
def SparesRecorded (s : Init) : Request → Prop
  | .pass (.ready true _ _) => ∀ pid ∈ env s.trace .waitAny,
      s.globals.gnsPid ≠ some pid ∧ s.globals.plan9.childPid ≠ some pid
  | _ => True

/-- What the process has done to its children, and what it knows about the file server. -/
structure OnlyChildren (s : Init) : Prop where
  kills : KillsChildren (childEvents s.trace)
  running : plan9IsRunning s.globals.plan9 = true →
    ∃ pid ∈ children (childEvents s.trace), s.globals.plan9.childPid = some pid

variable {env} {s : Init}

theorem watching_exec (henv : FreshForks env) {p : Globals → InitProgram Globals} (hs : Watching s)
    (hp : KeepsPids s.globals (p s.globals)) : Watching (s.exec env p) := by
  obtain ⟨u, hu, hans, hkeeps⟩ := Program.Ensures.run_answered hp env s.trace
  have htrace : (s.exec env p).trace = s.trace ++ u := hu
  have hnew := henv.newPids hans hs.newPids
  have hafter := hkeeps (childEvents s.trace) (childEvents_append s.trace u ▸ hnew) hs.kills hs.recorded
  refine ⟨htrace ▸ hnew, ?_, ?_⟩
  · rw [htrace, childEvents_append]
    exact hafter.1
  · rw [htrace, childEvents_append]
    exact hafter.2

theorem watching_reap (hs : Watching s) (hspares : ∀ pid ∈ env s.trace .waitAny,
    s.globals.gnsPid ≠ some pid ∧ s.globals.plan9.childPid ≠ some pid) :
    Watching (s.reap env) := by
  have hevents : childEvents (s.reap env).trace =
      childEvents s.trace ++ [.collected (env s.trace .waitAny)] := childEvents_append s.trace _
  constructor
  · rw [hevents]
    exact hs.newPids.concat fun pid h => by cases h
  · rw [hevents]
    exact hs.kills.concat fun pid h => by cases h
  · rw [hevents, children_concat]
    refine hs.recorded.mono fun pid hpid hrec => List.mem_filter.mpr ⟨hpid, ?_⟩
    refine decide_eq_true fun hmem => ?_
    rcases hrec with hrec | hrec
    · exact (hspares pid hmem).1 hrec
    · exact (hspares pid hmem).2 hrec

theorem watching_receive (henv : FreshForks env) (hs : Watching s) (arrives : Bool) :
    After Watching (fun out => Watching out.state) (s.receive env arrives) := by
  have hdispatch : ∀ rest m,
      Watching ({ s with incoming := rest }.exec env (dispatch s.notifyOpen · m)) := fun rest m =>
    watching_exec henv (hs.incoming rest) (keepsPids_dispatch s.notifyOpen s.globals m)
  obtain ⟨rest, hr⟩ | ⟨rest, hr⟩ | ⟨rest, m, ⟨-, hr⟩ | ⟨-, hr⟩⟩ := receive_cases env s arrives
  · rw [hr]
    exact hs.incoming rest
  · rw [hr]
    exact hs.incoming rest
  · rw [hr]
    exact hdispatch rest m
  · rw [hr]
    exact hdispatch rest m

theorem watching_pass (henv : FreshForks env) (hs : Watching s) {w : Wakeup}
    (hspares : SparesRecorded env s (.pass w)) :
    After Watching (fun out => Watching out.state) (s.pass env w) := by
  cases w with
  | interrupted => exact hs
  | failed => exact hs
  | ready sigchld readable arrives =>
    have hreaped : Watching (if sigchld then s.reap env else s) := by
      cases sigchld with
      | true => exact watching_reap hs hspares
      | false => exact hs
    unfold pass
    dsimp only
    split
    · exact watching_receive henv hreaped arrives
    · exact hreaped

theorem watching_finish (henv : FreshForks env) {out : Init ⊕ Ended}
    (h : After Watching (fun out => Watching out.state) out) :
    After Watching (fun out => Watching out.state) (finish env out) := by
  match out with
  | .inl s => exact h
  | .inr (.left s) => exact watching_exec henv h (keepsPids_leaveLoop _)
  | .inr (.exited s) => exact h

theorem watching_serve (henv : FreshForks env) (s : Init) (r : Request) (hs : Watching s)
    (hspares : SparesRecorded env s r) :
    After Watching (fun out => Watching out.state) (s.serve env r) := by
  cases r with
  | receiveInitialize cuts =>
    obtain ⟨rest, h⟩ | ⟨rest, msg, h⟩ := receiveInitialize_cases env cuts s
    · rw [serve, h]
      exact hs.incoming rest
    · rw [serve, h]
      exact watching_exec henv (hs.incoming rest) (keepsPids_handleInitialize _ msg)
  | receiveCreateSession memory cuts =>
    obtain ⟨rest, h⟩ | ⟨rest, seq, h⟩ := receiveCreateSession_cases env memory cuts s
    · rw [serve, h]
      exact hs.incoming rest
    · rw [serve, h]
      exact watching_exec henv (hs.incoming rest) (keepsPids_of_uses (uses_send _ _) (by simp))
  | enterLoop => exact watching_exec henv hs (keepsPids_enterLoop _)
  | pass w => exact watching_finish henv (watching_pass henv hs hspares)
  | startPlan9 => exact watching_exec henv hs (keepsPids_startPlan9 _)

end Init

theorem Watching.onlyChildren {s : Init} (hs : Watching s) : s.OnlyChildren where
  kills := hs.kills
  running h := by
    obtain ⟨pid, hpid⟩ := Option.isSome_iff_exists.mp (Bool.and_eq_true_iff.mp h).2
    exact ⟨pid, hs.recorded.childPid pid hpid, hpid⟩

/-- Before the first child. -/
structure NoChildren (s : Init) : Prop where
  childEvents : childEvents s.trace = []
  gnsPid : s.globals.gnsPid = none
  childPid : s.globals.plan9.childPid = none

theorem NoChildren.watching {s : Init} (h : NoChildren s) : Watching s := by
  obtain ⟨hevents, hgns, hchild⟩ := h
  constructor
  · rw [hevents]
    exact Preceded.nil
  · rw [hevents]
    exact Preceded.nil
  · rw [hgns, hchild]
    exact ⟨(fun _ h => by cases h), (fun _ h => by cases h), (fun _ h => by cases h)⟩

theorem Init.watching_run {env : InitEnvironment} (henv : FreshForks env) {s : Init}
    (hs : NoChildren s) {rs : List Request}
    (hspares : Meets (Init.serve env) (Init.SparesRecorded env) s rs) :
    Watching (Init.stateOf (runLoop (Init.serve env) s rs)) := by
  have hrun := runLoop_inv_of_meets (Init.watching_serve henv) hs.watching hspares
  generalize runLoop (Init.serve env) s rs = out at hrun ⊢
  cases out with
  | inl s' => exact hrun
  | inr ended => exact hrun

/-! ## The process -/

theorem finish_eventLoop (env : InitEnvironment) (s : Init) (ws : List Wakeup) :
    Init.finish env (s.eventLoop env ws) = runLoop (Init.serve env) s (ws.map .pass) := by
  induction ws generalizing s with
  | nil => rfl
  | cons w ws ih =>
    rw [List.map_cons, runLoop, Init.eventLoop, runLoop, Init.serve]
    cases s.pass env w with
    | inl s' => exact ih s'
    | inr ended => cases ended <;> rfl

theorem noChildren_boot (env : InitEnvironment) (memory : Memory) (notifyOpen : Bool)
    (incoming : Bytes) : NoChildren
      { globals := ((boot memory).run env []).1.1, notifyOpen, incoming,
        trace := ((boot memory).run env []).2 } := by
  have hpaths : (gnsConfigureTestPaths {}).Shows childEvent fun g o =>
      o = [] ∧ g.gnsPid = none ∧ g.plan9.childPid = none := by
    refine Program.Ensures.mono (Program.Ensures.and
      ((uses_gnsConfigureTestPaths _).childless (by simp)) (gnsConfigureTestPaths_eq _)) ?_
    rintro _ t ⟨ht, path, rfl⟩
    exact ⟨ht, rfl, rfl⟩
  have hboot : (boot memory).Shows childEvent fun booted o =>
      o = [] ∧ booted.1.gnsPid = none ∧ booted.1.plan9.childPid = none := by
    refine Program.Shows.bind hpaths ?_
    rintro g _ ⟨rfl, hgns, hchild⟩
    refine Program.Shows.after_hidden
      ((uses_initializeFilesystems _).childless (by simp)) fun mountedFs => ?_
    exact Program.Shows.after_hidden ((uses_connectChannels memory).childless (by simp)) fun _ =>
      Program.shows_pure ⟨rfl, hgns, hchild⟩
  obtain ⟨u, hu, hevents, hgns, hchild⟩ := Program.Shows.run hboot env []
  refine ⟨?_, hgns, hchild⟩
  change childEvents ((boot memory).run env []).2 = []
  rw [hu]
  exact hevents

theorem onlyChildren_main {env : InitEnvironment} (henv : FreshForks env) (memory : Memory)
    (cuts : Cuts) (incoming : Bytes) (ws : List Wakeup) {out : Init ⊕ Ended}
    (hspares : ∀ notifyOpen, Meets (Init.serve env) (Init.SparesRecorded env)
      { globals := ((boot memory).run env []).1.1, notifyOpen, incoming,
        trace := ((boot memory).run env []).2 }
      ([.receiveInitialize cuts, .receiveCreateSession memory cuts, .enterLoop] ++ ws.map .pass))
    (hout : main env memory cuts incoming ws = some out) : (Init.stateOf out).OnlyChildren := by
  unfold main at hout
  obtain ⟨notifyOpen, -, rfl⟩ := Option.map_eq_some_iff.mp hout
  have hwatching := Init.watching_run henv (noChildren_boot env memory notifyOpen incoming)
    (hspares notifyOpen)
  dsimp only
  rw [finish_eventLoop]
  exact hwatching.onlyChildren

/-! ## Two runs -/

/-- An environment in which children exit only when they are told to, or at once. -/
def childEnvironment (exits : Bool) : InitEnvironment := fun t e =>
  match e with
  | .fork => some (100 + (children (childEvents t)).sum)
  | .waitpid pid _ => if pid ∈ children (childEvents t) then Waited.collected else Waited.failed
  | .waitAny => if exits then children (childEvents t) else []
  | e => plainEnvironment t e

theorem freshForks_childEnvironment (exits : Bool) : FreshForks (childEnvironment exits) := by
  intro t pid hpid hmem
  have hsum : 100 + (children (childEvents t)).sum = pid := Option.some.inj hpid
  have hle : pid ≤ (children (childEvents t)).sum := List.le_sum_of_mem hmem
  omega

/-- `StopPlan9Server`, without force. -/
def stopPlan9Message : Bytes := header LxInitMessageStopPlan9Server 16 7 ++ leBytes 4 0

/-! ## The result -/

/-- In every state of every run in which `reap_children` does not find a recorded child, only
children have been killed, and the file server is running only as long as its child has not been
collected. -/
theorem kills_children {env : InitEnvironment} (henv : FreshForks env) {s : Init} (hs : NoChildren s)
    {rs : List Request} (hspares : Meets (Init.serve env) (Init.SparesRecorded env) s rs) :
    (Init.stateOf (runLoop (Init.serve env) s rs)).OnlyChildren :=
  (Init.watching_run henv hs hspares).onlyChildren

/-- A server is stopped and started again, and `TerminateInstance` stops everything. -/
theorem kills_children_restart :
    (Init.stateOf (runLoop (Init.serve (childEnvironment false))
      { incoming := stopPlan9Message ++ terminateMessage }
      [.startPlan9, .enterLoop, .pass (.ready true true true), .startPlan9,
        .pass (.ready true true true)])).OnlyChildren := by
  refine kills_children (freshForks_childEnvironment false) ⟨rfl, rfl, rfl⟩
    (meets_of_forall (fun s r => ?_) _ _)
  unfold Init.SparesRecorded
  split
  · intro pid hpid
    cases hpid
  · exact True.intro

/-- The child of the file server exits and is collected. `StopPlan9Server` kills its pid. -/
theorem collected_child_killed : FreshForks (childEnvironment true) ∧ ∃ out,
    main (childEnvironment true) zeroMemory ⟨12, 41, 24⟩
      (initializeWith 0 ++ createSessionMessage ++ stopPlan9Message)
      [.ready true false true, .ready false true true] = some out ∧
    childEvents (Init.stateOf out).trace =
      [.forked 100, .forked 200, .collected [200, 100], .killed 100] ∧
    ¬ (Init.stateOf out).OnlyChildren := by
  refine ⟨freshForks_childEnvironment true, ?_⟩
  obtain ⟨out, hout⟩ : ∃ out, main (childEnvironment true) zeroMemory ⟨12, 41, 24⟩
      (initializeWith 0 ++ createSessionMessage ++ stopPlan9Message)
      [.ready true false true, .ready false true true] = some out :=
    Option.isSome_iff_exists.mp (by decide)
  have hevents : ∀ out, main (childEnvironment true) zeroMemory ⟨12, 41, 24⟩
      (initializeWith 0 ++ createSessionMessage ++ stopPlan9Message)
      [.ready true false true, .ready false true true] = some out →
      childEvents (Init.stateOf out).trace =
        [.forked 100, .forked 200, .collected [200, 100], .killed 100] := by decide
  refine ⟨out, hout, hevents out hout, fun h => ?_⟩
  have hkills := h.kills
  rw [hevents out hout] at hkills
  have hmem := hkills [.forked 100, .forked 200, .collected [200, 100]] (.killed 100) [] rfl 100 rfl
  revert hmem
  decide

end WslFreeBSD.Hvinit
