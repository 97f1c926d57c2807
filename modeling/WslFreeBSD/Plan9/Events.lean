import Mathlib.Data.List.TakeWhile
import Mathlib.Data.Nat.Bitwise
import WslFreeBSD.Lib.Systems
import WslFreeBSD.Plan9.HandlerRuns

/-!
# What calls find, make and open

What the calls of a request have found, made and opened is read off their trace (`events`), and each part of
a handler adds to these events what it has to do with files: `File.walk` one look at the path below,
`File.create` a new file. `Does` is the triple for the states and the calls so far.

The path of a file is the one that its names lead to. A walk that fails takes the path back to the parent, so
that a path must not end with a `/`.
-/

namespace WslFreeBSD.Plan9

open Lib

/-! ## Events -/

inductive Event where
  /-- the attributes of what a path leads to, or of a link itself -/
  | seen (dir : Nat) (path : Bytes) (st : Stat)
  | described (fd : Nat) (st : Stat)
  /-- a file or a directory that was not there before -/
  | made (dir : Nat) (path : Bytes)
  | opened (dir : Nat) (path : Bytes) (fd : Nat)

/-- `O_EXCL` -/
def oExcl : Nat := 0o200

def eventsOf : (Σ e : Syscall, e.Answer) → List Event
  | ⟨.fstatat dir path false, .ok st⟩ => [.seen dir path st]
  | ⟨.fstat fd, .ok st⟩ => [.described fd st]
  | ⟨.mkdirat dir path _, .ok _⟩ => [.made dir path]
  | ⟨.openat dir path flags _, .ok fd⟩ =>
    if allSet flags (oCreat ||| oExcl) then [.made dir path, .opened dir path fd] else [.opened dir path fd]
  | _ => []

def events (t : Program.Trace Syscall Syscall.Answer) : List Event := t.flatMap eventsOf

theorem events_concat (t : Program.Trace Syscall Syscall.Answer) (e : Syscall) (r : e.Answer) :
    events (t ++ [⟨e, r⟩]) = events t ++ eventsOf ⟨e, r⟩ := by
  rw [events, events, List.flatMap_append, List.flatMap_singleton]

/-- The attributes of a file are not refused because it is there. -/
def Lawful : (e : Syscall) → e.Answer → Prop
  | .fstatat _ _ _, .error e => e.code ≠ eexist
  | .fstat _, .error e => e.code ≠ eexist
  | _, _ => True

abbrev Surroundings := Program.Environment Syscall Syscall.Answer

abbrev Calls.Trace := Program.Trace Syscall Syscall.Answer

/-- A triple over the states of an action and the calls so far. -/
abbrev Does {κ η σ α : Type} (env : Surroundings) (P : σ → Calls.Trace → Prop)
    (m : Action Syscall Syscall.Answer κ η σ α) (V : α → σ → Calls.Trace → Prop)
    (E : κ → σ → Calls.Trace → Prop) : Prop :=
  Action.On (Program.recording env) P m V E fun _ _ _ => True

/-- The state of an action, and the events so far. -/
abbrev From {σ : Type} (s : σ) (H : List Event) : σ → Calls.Trace → Prop := fun s' t => s' = s ∧ events t = H

section Rules

variable {env : Surroundings} {κ η σ τ α : Type} {P : σ → Calls.Trace → Prop} {V : α → σ → Calls.Trace → Prop}
  {E : κ → σ → Calls.Trace → Prop} {H : List Event}

theorem does_call (henv : ∀ t e, Lawful e (env t e)) {e : Syscall} {V : e.Answer → σ → Calls.Trace → Prop}
    (h : ∀ r s t, Lawful e r → P s t → V r s (t ++ [⟨e, r⟩])) :
    Does env P (Action.call e : Action Syscall Syscall.Answer κ η σ e.Answer) V E :=
  Action.on_call fun s t hs => h _ s t (henv t e) hs

theorem does_orThrow {r : Except Errno α} {P : Unit → Calls.Trace → Prop} {V : α → Unit → Calls.Trace → Prop}
    {E : Int → Unit → Calls.Trace → Prop} (hV : ∀ a, r = .ok a → ∀ s t, P s t → V a s t)
    (hE : ∀ e, r = .error e → ∀ s t, P s t → E e.code s t) : Does env P (orThrow r : Calls α) V E := by
  cases r with
  | ok a => exact Action.on_pure (hV a rfl)
  | error e => exact Action.on_throw (hE e rfl)

theorem does_orFail {r : Except Int α} {P : Unit → Calls.Trace → Prop} {V : α → Unit → Calls.Trace → Prop}
    {E : Int → Unit → Calls.Trace → Prop} (hV : ∀ a, r = .ok a → ∀ s t, P s t → V a s t)
    (hE : ∀ e, r = .error e → ∀ s t, P s t → E e s t) : Does env P (orFail r : Calls α) V E := by
  cases r with
  | ok a => exact Action.on_pure (hV a rfl)
  | error e => exact Action.on_throw (hE e rfl)

theorem does_embed {m : Action Syscall Syscall.Answer κ Empty Unit α}
    (h : ∀ s t, P s t → Does env (fun _ u => events u = events t) m (fun a _ => V a s) fun e _ => E e s) :
    Does env P (m.embed : Action Syscall Syscall.Answer κ η σ α) V E :=
  Action.On.embed fun s t hs => (h s t hs).mono (fun _ _ ht => congrArg events ht) (fun _ _ _ h => h)
    (fun _ _ _ h => h) fun x _ _ _ => x.elim

end Rules

/-! ### The identity -/

abbrev Idle {κ α : Type} (env : Surroundings) (m : Action Syscall Syscall.Answer κ Empty Unit α) : Prop :=
  ∀ H, Does env (fun _ t => events t = H) m (fun _ _ t => events t = H) fun _ _ t => events t = H

section Identity

variable {env : Surroundings} {σ α β : Type}

theorem Idle.bind {κ : Type} {m : Action Syscall Syscall.Answer κ Empty Unit α}
    {f : α → Action Syscall Syscall.Answer κ Empty Unit β} (hm : Idle env m) (hf : ∀ a, Idle env (f a)) :
    Idle env (m >>= f) := fun H => (hm H).bind fun a => hf a H

theorem idle_pure (a : α) : Idle env (pure a : Calls α) := fun _ => Action.on_pure fun _ _ h => h

theorem idle_orThrow (r : Except Errno α) : Idle env (orThrow r : Calls α) :=
  fun _ => does_orThrow (fun _ _ _ _ h => h) fun _ _ _ _ h => h

theorem idle_throw (e : Int) : Idle env (Action.throw e : Calls α) :=
  fun _ => Action.on_throw fun _ _ h => h

theorem idle_guard {c : Prop} [Decidable c] {e : Int} {k : Unit → Calls α} (hk : Idle env (k ())) :
    Idle env (if c then Action.throw e >>= k else k ()) := by
  split
  · exact fun _ => Action.on_throw fun _ _ h => h
  · exact hk

theorem Idle.ite {c : Prop} [Decidable c] {m n : Calls α} (hm : c → Idle env m) (hn : ¬ c → Idle env n) :
    Idle env (if c then m else n) :=
  fun H => .ite (fun h => hm h H) fun h => hn h H

variable (henv : ∀ t e, Lawful e (env t e))

include henv

theorem idle_call {e : Syscall} (hquiet : ∀ r, eventsOf ⟨e, r⟩ = []) :
    Idle env (Action.call e : Calls e.Answer) := by
  refine fun H => does_call henv fun r _ t _ ht => ?_
  rw [events_concat, hquiet, List.append_nil, ht]

theorem idle_enterUser (root : Root) : Idle env (enterUser root) := by
  rw [enterUser]
  have hids : Idle env (do
      orThrow (← Action.call (.setresgid root.gid))
      orThrow (← Action.call (.setresuid root.uid)) : Calls Unit) :=
    (idle_call henv fun _ => rfl).bind fun r => (idle_orThrow r).bind fun _ =>
      (idle_call henv fun _ => rfl).bind fun r => idle_orThrow r
  refine .ite (fun _ => ?_) fun _ => .ite (fun _ => hids) fun _ => idle_pure ()
  refine (idle_call henv fun _ => rfl).bind fun r => (idle_orThrow r).bind fun _ => ?_
  exact .ite (fun _ => hids) fun _ => idle_pure ()

theorem idle_restoreUser (root : Root) : Idle env (restoreUser root) := by
  rw [restoreUser]
  have hgroups : Idle env (do
      if root.groups ≠ [] then orThrow (← Action.call (.setgroups [])) : Calls Unit) :=
    .ite (fun _ => (idle_call henv fun _ => rfl).bind fun r => idle_orThrow r) fun _ => idle_pure ()
  refine .ite (fun _ => ?_) fun _ => hgroups
  exact (idle_call henv fun _ => rfl).bind fun r => (idle_orThrow r).bind fun _ =>
    (idle_call henv fun _ => rfl).bind fun r => (idle_orThrow r).bind fun _ => hgroups

theorem does_leaveUser (root : Root) {Q : σ → List Event → Prop} :
    Does env (fun s t => Q s (events t)) (leaveUser root) (fun _ s t => Q s (events t))
      fun _ s t => Q s (events t) := by
  intro s t hs
  have hend := idle_restoreUser henv root (events t) () t rfl
  rw [leaveUser, destructor, Program.interpret_bind]
  generalize (restoreUser root ()).interpret (Program.recording env) t = r at hend ⊢
  obtain ⟨⟨o, u⟩, t'⟩ := r
  cases o with
  | value a =>
    change Q s (events t')
    rwa [show events t' = events t from hend]
  | error e => trivial
  | halted x => exact x.elim

theorem does_withUser {root : Root} {m : Op σ α} {x : σ} {H : List Event} {V : α → σ → List Event → Prop}
    {E : Int → σ → List Event → Prop}
    (hm : Does env (From x H) m (fun a s t => V a s (events t)) fun e s t => E e s (events t))
    (hE : ∀ e, E e x H) :
    Does env (From x H) (withUser root m) (fun a s t => V a s (events t)) fun e s t => E e s (events t) := by
  have henter : Does env (From x H) ((enterUser root).embed : Op σ Unit) (fun _ => From x H)
      fun e s t => E e s (events t) := by
    refine does_embed fun s t hs => (idle_enterUser henv root H).mono ?_ ?_ ?_ fun _ _ _ h => h
    · exact fun _ u hu => hu.trans hs.2
    · exact fun _ _ u hu => ⟨hs.1, hu⟩
    · rintro e _ u hu
      rw [hs.1, hu]
      exact hE e
  exact henter.bind fun _ => hm.andFinally (fun a => does_leaveUser henv root)
    (fun e => does_leaveUser henv root) fun _ _ _ h => h

end Identity

/-! ## Paths -/

/-- No `/` at the end. -/
def IsPath (path : Bytes) : Prop := path.getLast? ≠ some 47

theorem IsPath.appendPath_eq {path : Bytes} (h : IsPath path) (name : Bytes) :
    appendPath path name = if path = [] then name else path ++ 47 :: name := by
  by_cases hpath : path = []
  · rw [if_pos hpath, appendPath, if_neg fun hc => hc.1 hpath, hpath, List.nil_append]
  · rw [if_neg hpath, appendPath, if_pos ⟨hpath, h⟩]

theorem isName_iff {name : Bytes} :
    isName name ↔ name ≠ [] ∧ name ≠ [46] ∧ name ≠ [46, 46] ∧ 47 ∉ name := by
  simp [isName, and_assoc]

theorem isPath_appendPath (path : Bytes) {name : Bytes} (hname : isName name) :
    IsPath (appendPath path name) := by
  obtain ⟨hne, -, -, hslash⟩ := isName_iff.mp hname
  have hlast : (appendPath path name).getLast? = name.getLast? := by
    rw [appendPath]
    split
    · rw [List.getLast?_append_of_ne_nil _ (List.cons_ne_nil _ _), List.getLast?_cons_of_ne_nil hne]
    · rw [List.getLast?_append_of_ne_nil _ hne]
  rw [IsPath, hlast]
  exact fun h => hslash (List.mem_of_getLast? h)

theorem parentPath_appendPath {path name : Bytes} (hpath : IsPath path) (hname : isName name) :
    parentPath (appendPath path name) = path := by
  have hslash : ∀ b ∈ name.reverse, decide (b ≠ 47) = true := by
    intro b hb
    refine decide_eq_true ?_
    rintro rfl
    exact (isName_iff.mp hname).2.2.2 (List.mem_reverse.mp hb)
  rw [hpath.appendPath_eq]
  split
  · next h =>
    have hnone : name.reverse.dropWhile (fun b => decide (b ≠ 47)) = [] := List.dropWhile_eq_nil_iff.mpr hslash
    rw [parentPath, hnone, h]
    rfl
  · rw [parentPath, List.reverse_append, List.reverse_cons, List.append_assoc,
      List.dropWhile_append_of_pos hslash, List.singleton_append, List.dropWhile_cons_of_neg (by decide),
      List.drop_one, List.tail_cons, List.reverse_reverse]

theorem length_appendPath_lt (path : Bytes) {name : Bytes} (hname : isName name) :
    path.length < (appendPath path name).length := by
  have hpos := List.length_pos_of_ne_nil (isName_iff.mp hname).1
  rw [appendPath]
  split
  · rw [List.length_append, List.length_cons]
    omega
  · rw [List.length_append]
    omega

theorem appendPath_ne_nil (path : Bytes) {name : Bytes} (hname : isName name) : appendPath path name ≠ [] :=
  List.ne_nil_of_length_pos (Nat.lt_of_le_of_lt (Nat.zero_le _) (length_appendPath_lt path hname))

/-! ## Flags of an open -/

theorem testBit_foldl_flags (flags : Nat) (l : List (Nat × Nat)) (result i : Nat) :
    (l.foldl (fun result m => if allSet flags m.1 then result ||| m.2 else result) result).testBit i =
      (result.testBit i || l.any fun m => allSet flags m.1 && m.2.testBit i) := by
  induction l generalizing result with
  | nil => simp
  | cons m l ih =>
    rw [List.foldl_cons, ih, List.any_cons]
    cases allSet flags m.1 with
    | true => simp [Nat.testBit_or, Bool.or_assoc]
    | false => simp

theorem testBit_openFlagsToLinuxFlags (flags i : Nat) : (openFlagsToLinuxFlags flags).testBit i =
    openFlagsMapping.any fun m => allSet flags m.1 && m.2.testBit i := by
  rw [openFlagsToLinuxFlags, testBit_foldl_flags, Nat.zero_testBit, Bool.false_or]

/-- `O_CREAT` and `O_EXCL` come from the flags of the same meaning alone. -/
theorem testBit_create (flags : Nat) :
    (openFlagsToLinuxFlags flags).testBit 6 = allSet flags OpenFlags.create := by
  rw [testBit_openFlagsToLinuxFlags]
  simp [openFlagsMapping, Nat.testBit]

theorem testBit_exclusive (flags : Nat) :
    (openFlagsToLinuxFlags flags).testBit 7 = allSet flags OpenFlags.exclusive := by
  rw [testBit_openFlagsToLinuxFlags]
  simp [openFlagsMapping, Nat.testBit]

theorem allSet_creation_iff {flags : Nat} :
    allSet flags (oCreat ||| oExcl) ↔ flags.testBit 6 ∧ flags.testBit 7 := by
  rw [allSet, decide_eq_true_eq]
  constructor
  · intro h
    have hbit (i : Nat) (hi : (oCreat ||| oExcl).testBit i) : flags.testBit i := by
      rw [← h, Nat.testBit_and, Bool.and_eq_true] at hi
      exact hi.1
    exact ⟨hbit 6 (by decide), hbit 7 (by decide)⟩
  · rintro ⟨h6, h7⟩
    have hbits (i : Nat) : (oCreat ||| oExcl).testBit i = (decide (6 = i) || decide (7 = i)) := by
      rw [show oCreat = 2 ^ 6 from rfl, show oExcl = 2 ^ 7 from rfl, Nat.testBit_or, Nat.testBit_two_pow,
        Nat.testBit_two_pow]
    refine Nat.eq_of_testBit_eq fun i => ?_
    rw [Nat.testBit_and, hbits]
    by_cases hi : 6 = i ∨ 7 = i
    · rcases hi with rfl | rfl
      · rw [h6, Bool.true_and]
      · rw [h7, Bool.true_and]
    · rw [not_or] at hi
      rw [decide_eq_false hi.1, decide_eq_false hi.2, Bool.or_self, Bool.and_false]

theorem anySet_two_pow {flags i : Nat} : anySet flags (2 ^ i) ↔ flags.testBit i := by
  rw [anySet, decide_eq_true_eq, Nat.and_two_pow]
  cases flags.testBit i <;> simp

theorem allSet_create_exclusive_iff {flags : Nat} : allSet flags (OpenFlags.create ||| OpenFlags.exclusive) ↔
    anySet flags OpenFlags.create ∧ anySet flags OpenFlags.exclusive := by
  rw [show OpenFlags.create = 2 ^ 6 from rfl, show OpenFlags.exclusive = 2 ^ 7 from rfl, anySet_two_pow,
    anySet_two_pow]
  exact allSet_creation_iff

/-- A file is only made with the flags of `File.create`. -/
theorem allSet_create (flags : Nat) : allSet (openFlagsToLinuxFlags (flags ||| OpenFlags.exclusive) |||
    oCreat ||| oNoFollow ||| oCloExec) (oCreat ||| oExcl) := by
  rw [allSet_creation_iff]
  have hexclusive : allSet (flags ||| OpenFlags.exclusive) OpenFlags.exclusive := by
    refine decide_eq_true (Nat.eq_of_testBit_eq fun i => ?_)
    rw [Nat.testBit_and, Nat.testBit_or]
    cases OpenFlags.exclusive.testBit i <;> simp
  simp only [Nat.testBit_or, testBit_exclusive, hexclusive, Bool.true_or, Bool.or_eq_true, and_true]
  exact Or.inl (Or.inl (Or.inr (by decide)))

theorem allSet_open (flags : Nat) : allSet (openFlagsToLinuxFlags (clearFlags flags OpenFlags.create) |||
    oNoFollow ||| oCloExec) (oCreat ||| oExcl) = false := by
  rw [← Bool.not_eq_true, allSet_creation_iff]
  rintro ⟨h6, -⟩
  have hcreate : allSet (clearFlags flags OpenFlags.create) OpenFlags.create = false := by
    refine decide_eq_false fun h => ?_
    have hbit := congrArg (Nat.testBit · 6) h
    have hmask : (2 ^ 32 - 1 ^^^ OpenFlags.create).testBit 6 = false := by decide
    simp only [clearFlags, Nat.testBit_and, hmask, Bool.and_false, Bool.false_and] at hbit
    exact absurd hbit (by decide)
  rw [Nat.testBit_or, Nat.testBit_or, testBit_create, hcreate] at h6
  exact absurd h6 (by decide)

/-! ## Files -/

section Files

variable {env : Surroundings} (henv : ∀ t e, Lawful e (env t e)) {f : File} {H : List Event} {name : Bytes}

/-- The file, with the attributes that have been found. -/
def File.found (f : File) (st : Stat) : File := { f with qid := statToQid st, device := st.dev }

def Looked (dir : Nat) (path : Bytes) (H : List Event) : Except Int Stat → List Event → Prop
  | .ok st, H' => H' = H ++ [.seen dir path st]
  | .error e, H' => H' = H ∧ e ≠ eexist

/-- What `File.validateExists` has found. -/
def Validated (f : File) (H : List Event) : Except Int Unit → File → List Event → Prop
  | .ok _, g, H' => ∃ st, g = f.found st ∧ H' = H ++ [.seen f.root.rootFd f.fileName st]
  | .error e, g, H' => g = f ∧ H' = H ∧ e ≠ eexist

/-- What `File.findChild` has found; a mount that is not entered has been seen. -/
def Child (f : File) (H : List Event) : Except Int Qid → File → List Event → Prop
  | .ok qid, g, H' => ∃ st, qid = statToQid st ∧ g = f.found st ∧
      H' = H ++ [.seen f.root.rootFd f.fileName st]
  | .error e, g, H' => { g with qid := f.qid, device := f.device } = f ∧ e ≠ eexist ∧ (e ≠ eacces → H' = H)

/-- What a walk from a file has found: the path below, or nothing to go on with. -/
def Walked (f : File) (name : Bytes) (H : List Event) : Except Int Qid → File → List Event → Prop
  | .ok qid, g, H' => ∃ st, qid = statToQid st ∧ f.qid.isDirectory ∧
      g = { f with fileName := appendPath f.fileName name }.found st ∧
      H' = H ++ [.seen f.root.rootFd (appendPath f.fileName name) st]
  | .error e, g, H' => g = f ∧ e ≠ eexist ∧ (e ≠ eacces → H' = H) ∧ (f.qid.isDirectory ∨ e = enotdir)

theorem does_scopeExit {α : Type} {undo : File → File} {m : Op File (Except Int α)}
    {P : File → Calls.Trace → Prop} {V V' : Except Int α → File → Calls.Trace → Prop}
    (hm : Does env P m V fun _ _ _ => True) (hok : ∀ a g t, V (.ok a) g t → V' (.ok a) g t)
    (herror : ∀ e g t, V (.error e) g t → V' (.error e) (undo g) t) :
    Does env P (File.scopeExit undo m) V' fun _ _ _ => True := by
  intro s t hs
  have hend := hm s t hs
  rw [File.scopeExit, Program.interpret_bind]
  generalize (m s).interpret (Program.recording env) t = r at hend ⊢
  obtain ⟨⟨o, s'⟩, t'⟩ := r
  cases o with
  | value r =>
    cases r with
    | ok a => exact hok a _ _ hend
    | error e => exact herror e _ _ hend
  | error e => trivial
  | halted x => trivial

include henv

theorem does_lookup (dir : Nat) (path : Bytes) : Does env (fun (_ : Unit) t => events t = H)
    (do return expected (← Action.call (.fstatat dir path false)) : Calls (Except Int Stat))
    (fun r _ t => Looked dir path H r (events t)) fun _ _ _ => True := by
  refine Action.On.bind (does_call henv (V := fun (r : Except Errno Stat) _ t =>
    Looked dir path H (expected r) (events t)) ?_) fun r => Action.on_pure fun _ _ h => h
  rintro r _ t hplain rfl
  change Except Errno Stat at r
  cases r with
  | error e => exact ⟨(events_concat ..).trans (List.append_nil _), hplain⟩
  | ok st => exact events_concat ..

theorem does_validateExists : Does env (From f H) File.validateExists
    (fun r g t => Validated f H r g (events t)) fun _ _ _ => True := by
  refine .get_then fun g => ?_
  refine Action.On.bind (V := fun r g' t => (g = f ∧ g' = f) ∧
    Looked f.root.rootFd f.fileName H r (events t)) (does_embed ?_) fun r => ?_
  · rintro g' t ⟨rfl, rfl, ht⟩
    rw [ht]
    exact (does_lookup henv _ _).post fun _ _ _ h => ⟨⟨rfl, rfl⟩, h⟩
  · cases r with
    | error e =>
      refine Action.on_pure ?_
      rintro _ t ⟨⟨rfl, rfl⟩, he⟩
      exact ⟨rfl, he⟩
    | ok st =>
      refine .modify_then (Q := fun g' t => g' = f.found st ∧
        events t = H ++ [.seen f.root.rootFd f.fileName st]) ?_ (Action.on_pure ?_)
      · rintro _ t ⟨⟨rfl, rfl⟩, hst⟩
        exact ⟨rfl, hst⟩
      · rintro _ t ⟨rfl, ht⟩
        exact ⟨st, rfl, ht⟩

theorem idle_mountAllowed (device : Nat) : Idle env (File.mountAllowed device) := by
  refine (idle_call henv fun _ => rfl).bind fun r => ?_
  change Except Errno (Option Bytes) at r
  rcases r with e | (_ | type)
  · exact idle_pure _
  · exact idle_pure _
  · exact idle_pure _

theorem does_findChild (parentDevice : Nat) : Does env (From f H) (File.findChild parentDevice)
    (fun r g t => Child f H r g (events t)) fun _ _ _ => True := by
  refine (does_validateExists henv).bind fun r => ?_
  cases r with
  | error e =>
    refine Action.on_pure ?_
    rintro g t ⟨rfl, ht, hne⟩
    exact ⟨rfl, hne, fun _ => ht⟩
  | ok u =>
    have hok : ∀ g t, (∃ st, g = f.found st ∧ events t = H ++ [.seen f.root.rootFd f.fileName st]) →
        Child f H (.ok g.qid) g (events t) := by
      rintro _ t ⟨st, rfl, ht⟩
      exact ⟨st, rfl, rfl, ht⟩
    refine .get_then fun g => .ite (fun _ => ?_) fun _ => Action.on_pure ?_
    · refine Action.On.bind (V := fun _ g' t => g' = g ∧
        ∃ st, g = f.found st ∧ events t = H ++ [.seen f.root.rootFd f.fileName st]) (does_embed ?_)
          fun allowed => .ite (fun _ => Action.on_pure ?_) fun _ => Action.on_pure ?_
      · rintro _ t ⟨rfl, st, hg, ht⟩
        refine (idle_mountAllowed henv _ _).mono (fun _ _ h => h) ?_ (fun _ _ _ _ => trivial) fun _ _ _ h => h
        exact fun _ _ u hu => ⟨rfl, st, hg, hu.trans ht⟩
      · rintro _ t ⟨rfl, h⟩
        exact hok _ t h
      · rintro _ t ⟨rfl, st, rfl, ht⟩
        exact ⟨rfl, by decide, fun h => absurd rfl h⟩
    · rintro _ t ⟨rfl, h⟩
      exact hok _ t h

theorem does_walk (hpath : IsPath f.fileName) (hname : isName name) : Does env (From f H) (File.walk name)
    (fun r g t => Walked f name H r g (events t)) fun _ _ _ => True := by
  refine .get_then fun g => Action.on_of_states fun g' t hg => ?_
  obtain ⟨rfl, rfl, rfl⟩ := hg
  refine .ite (fun hdirectory => ?_) fun _ => Action.on_pure ?_
  · refine .modify_then (Q := From { g' with fileName := appendPath g'.fileName name } (events t)) ?_ ?_
    · rintro _ _ ⟨rfl, rfl⟩
      exact ⟨rfl, rfl⟩
    refine does_scopeExit (does_withUser henv (V := Child _ _) (E := fun _ _ _ => True)
      (does_findChild henv _) fun _ => trivial) ?_ ?_
    · rintro qid _ u ⟨st, rfl, rfl, hu⟩
      exact ⟨st, rfl, hdirectory, rfl, hu⟩
    · rintro e g u ⟨hg, hne, hu⟩
      refine ⟨?_, hne, hu, Or.inl hdirectory⟩
      simp only [File.mk.injEq] at hg
      obtain ⟨hname', hroot, -, -, hstate⟩ := hg
      rw [hname', parentPath_appendPath hpath hname, hroot, hstate]
  · rintro _ _ ⟨rfl, rfl⟩
    exact ⟨rfl, by decide, fun _ => rfl, Or.inr rfl⟩

/-- A file that was made: it is open, and its attributes are those of the descriptor. -/
def Created (f : File) (name : Bytes) (H : List Event) : Except Int Qid → File → List Event → Prop
  | .ok qid, g, H' => ∃ fd st, qid = statToQid st ∧
      g = { f with fileName := appendPath f.fileName name, state := .file fd }.found st ∧
      H' = H ++ [.made f.root.rootFd (appendPath f.fileName name),
        .opened f.root.rootFd (appendPath f.fileName name) fd, .described fd st]
  | .error e, g, H' => g = f ∧ (e = eexist → H' = H)

/-- What `File.createChild` has made. -/
def Made (dir : Nat) (path : Bytes) (H : List Event) : Except Int (Nat × Stat) → List Event → Prop
  | .ok (fd, st), H' => H' = H ++ [.made dir path, .opened dir path fd, .described fd st]
  | .error e, H' => e = eexist → H' = H

/-- What an exclusive `openat` has made. -/
def Opened (dir : Nat) (path : Bytes) (H : List Event) : Except Int Nat → List Event → Prop
  | .ok fd, H' => H' = H ++ [.made dir path, .opened dir path fd]
  | .error _, H' => H' = H

theorem does_createChild (hname : isName name) (flags mode : Nat) :
    Does env (fun (_ : Unit) t => events t = H) (f.createChild name (flags ||| OpenFlags.exclusive) mode)
      (fun r _ t => Made f.root.rootFd (appendPath f.fileName name) H r (events t)) fun _ _ _ => True := by
  have hopen : Does env (fun (_ : Unit) t => events t = H) (openAt f.root.rootFd (f.childPath name)
      (openFlagsToLinuxFlags (flags ||| OpenFlags.exclusive) ||| oCreat ||| oNoFollow) mode)
      (fun r _ t => Opened f.root.rootFd (appendPath f.fileName name) H r (events t)) fun _ _ _ => True := by
    rw [openAt, File.childPath, if_neg (appendPath_ne_nil _ hname)]
    refine Action.On.bind (V := fun (r : Except Errno Nat) _ t =>
      Opened f.root.rootFd (appendPath f.fileName name) H (expected r) (events t)) (does_call henv ?_)
      fun r => Action.on_pure fun _ _ h => h
    rintro r _ t - rfl
    change Except Errno Nat at r
    rw [events_concat]
    cases r with
    | error e => exact List.append_nil _
    | ok fd =>
      rw [eventsOf, if_pos (allSet_create flags)]
      exact rfl
  refine hopen.bind fun r => ?_
  cases r with
  | error e => exact Action.on_pure fun _ _ ht _ => ht
  | ok fd =>
    refine Action.On.bind (V := fun (r : Except Errno Stat) _ t =>
      Made f.root.rootFd (appendPath f.fileName name) H ((expected r).map fun st => (fd, st)) (events t))
      (does_call henv ?_) fun r => Action.on_pure fun _ _ h => h
    intro r _ t hplain ht
    change Except Errno Stat at r
    cases r with
    | error e => exact fun h => absurd h hplain
    | ok st =>
      change events (t ++ _) = _
      rw [events_concat, show events t = _ from ht, List.append_assoc]
      rfl

theorem does_create (hname : isName name) (flags mode : Nat) :
    Does env (From f H) (File.create name (flags ||| OpenFlags.exclusive) mode)
      (fun r g t => Created f name H r g (events t)) fun _ _ _ => True := by
  refine .get_then fun g => Action.on_of_states fun g' t hg => ?_
  obtain ⟨rfl, rfl, rfl⟩ := hg
  refine .ite (fun _ => Action.on_pure ?_) fun _ => .ite (fun h => absurd h Bool.false_ne_true) fun _ => ?_
  · rintro _ _ ⟨rfl, rfl⟩
    exact ⟨rfl, fun h => absurd h (by decide)⟩
  refine (does_withUser henv (x := g') (H := events t) (V := fun r g H' => Created g' name (events t) r g H')
    (E := fun _ _ _ => True) ?_ fun _ => trivial).pre ?_
  · refine Action.On.bind (V := fun r g u => g = g' ∧ Made g'.root.rootFd (appendPath g'.fileName name)
      (events t) r (events u)) (does_embed ?_) fun r => ?_
    · rintro g u ⟨rfl, hu⟩
      rw [hu]
      exact (does_createChild henv hname flags mode).post fun _ _ _ h => ⟨rfl, h⟩
    cases r with
    | error e => exact Action.on_pure fun _ _ h => h
    | ok r =>
      obtain ⟨fd, st⟩ := r
      refine .modify_then (Q := fun g u => Created g' name (events t) (.ok (statToQid st)) g (events u)) ?_
        (Action.on_pure fun _ _ h => h)
      rintro _ u ⟨rfl, hu⟩
      exact ⟨fd, st, rfl, rfl, hu⟩
  · rintro _ _ ⟨rfl, rfl⟩
    exact ⟨rfl, rfl⟩

theorem does_calls {σ α : Type} {root : Root} {m : Calls α} {s : σ} {V : α → List Event → Prop}
    (hm : Does env (fun _ t => events t = H) m (fun a _ t => V a (events t)) fun _ _ _ => True) :
    Does env (From s H) (withUser root m.embed : Op σ α) (fun a s' t => s' = s ∧ V a (events t))
      fun _ s' _ => s' = s := by
  refine does_withUser henv (V := fun a s' H' => s' = s ∧ V a H') (E := fun _ s' _ => s' = s)
    (does_embed ?_) fun _ => rfl
  rintro s' t ⟨rfl, ht⟩
  rw [ht]
  exact hm.mono (fun _ _ h => h) (fun _ _ _ h => ⟨rfl, h⟩) (fun _ _ _ _ => rfl) fun _ _ _ h => h

/-- A directory that was made; the file stays where it is. -/
def MadeDirectory (f : File) (name : Bytes) (H : List Event) : Except Int Qid → List Event → Prop
  | .ok qid, H' => ∃ st, qid = statToQid st ∧ H' = H ++ [.made f.root.rootFd (appendPath f.fileName name),
      .seen f.root.rootFd (appendPath f.fileName name) st]
  | .error e, H' => e = eexist → H' = H

theorem does_mkDir {σ : Type} (name : Bytes) (mode : Nat) (s : σ) :
    Does env (From s H) (f.mkDir name mode) (fun r s' t => s' = s ∧ MadeDirectory f name H r (events t))
      fun _ s' _ => s' = s := by
  refine does_calls henv (V := MadeDirectory f name H) ?_
  refine Action.On.bind (V := fun (r : Except Errno Unit) _ t => events t = H ++ eventsOf
    ⟨.mkdirat f.root.rootFd (f.childPath name) mode, r⟩) (does_call henv ?_) fun r => ?_
  · rintro r _ t - rfl
    exact events_concat ..
  cases r with
  | error e => exact Action.on_pure fun _ _ ht _ => ht.trans (List.append_nil _)
  | ok u =>
    refine Action.On.bind (V := fun (r : Except Errno Stat) _ t =>
      MadeDirectory f name H ((expected r).map statToQid) (events t)) (does_call henv ?_)
      fun r => Action.on_pure fun _ _ h => h
    intro r _ t hplain ht
    change Except Errno Stat at r
    cases r with
    | error e => exact fun h => absurd h hplain
    | ok st =>
      refine ⟨st, rfl, ?_⟩
      rw [events_concat, ht, List.append_assoc]
      rfl

/-- A file that was opened; the root is not opened by its path. -/
def OpenedBy (f : File) (H : List Event) (g : File) (H' : List Event) : Prop :=
  ∃ fd, g = { f with state := .file fd } ∧
    (H' = H ++ [.opened f.root.rootFd f.fileName fd] ∨ f.fileName = [] ∧ H' = H)

theorem idle_getFdPath (fd : Nat) : Idle env (getFdPath fd) :=
  (idle_call henv fun _ => rfl).bind fun r => idle_orThrow r

theorem idle_reopen (fd flags : Nat) : Idle env (reopen fd flags) := by
  have hopen (path : Bytes) : Idle env (do
      return expected (← Action.call (.openPath path (flags ||| oCloExec))) : Calls (Except Int Nat)) :=
    (idle_call henv fun _ => rfl).bind fun r => idle_pure _
  exact .ite (fun _ => (idle_getFdPath henv fd).bind hopen) fun _ => (idle_pure _).bind hopen

/-- What an open of a path that is there has found. -/
def Found (dir : Nat) (path : Bytes) (H : List Event) : Except Int Nat → List Event → Prop
  | .ok fd, H' => H' = H ++ [.opened dir path fd] ∨ path = [] ∧ H' = H
  | .error _, _ => True

theorem does_openAt (dir : Nat) (path : Bytes) (flags : Nat) : Does env (fun (_ : Unit) t => events t = H)
    (openAt dir path (openFlagsToLinuxFlags (clearFlags flags OpenFlags.create) ||| oNoFollow) 0o600)
    (fun r _ t => Found dir path H r (events t)) fun _ _ _ => True := by
  rw [openAt]
  refine .ite (fun hpath => ?_) fun _ => ?_
  · refine (idle_reopen henv _ _ H).mono (fun _ _ h => h) ?_ (fun _ _ _ _ => trivial) fun _ _ _ h => h
    intro r _ t ht
    cases r with
    | ok fd => exact Or.inr ⟨hpath, ht⟩
    | error e => trivial
  · refine Action.On.bind (V := fun (r : Except Errno Nat) _ t => Found dir path H (expected r) (events t))
      (does_call henv ?_) fun r => Action.on_pure fun _ _ h => h
    rintro r _ t - rfl
    change Except Errno Nat at r
    cases r with
    | error e => trivial
    | ok fd =>
      refine Or.inl ?_
      rw [events_concat, eventsOf, if_neg (Bool.not_eq_true _ ▸ allSet_open flags)]

theorem does_open (flags : Nat) : Does env (From f H) (File.open_ flags)
    (fun _ g t => OpenedBy f H g (events t)) fun _ _ _ => True := by
  refine .get_then fun g => Action.on_of_states fun g' t hg => ?_
  obtain ⟨rfl, rfl, rfl⟩ := hg
  refine .ite (fun _ => Action.on_throw fun _ _ _ => trivial) fun _ => ?_
  refine (does_withUser henv (x := g') (H := events t) (V := fun _ g H' => OpenedBy g' (events t) g H')
    (E := fun _ _ _ => True) ?_ fun _ => trivial).pre ?_
  · refine Action.On.bind (V := fun r g u => g = g' ∧ Found g'.root.rootFd g'.fileName (events t) r (events u))
      (does_embed ?_) fun r => ?_
    · rintro g u ⟨rfl, hu⟩
      rw [hu]
      exact (does_openAt henv g.root.rootFd g.fileName flags).post fun _ _ _ h => ⟨rfl, h⟩
    refine Action.On.bind (V := fun fd g u => g = g' ∧ Found g'.root.rootFd g'.fileName (events t) (.ok fd)
      (events u)) (does_embed ?_) fun fd => .modify_then (Q := fun g u => OpenedBy g' (events t) g (events u))
        ?_ (Action.on_pure fun _ _ h => h)
    · rintro g u ⟨rfl, hu⟩
      refine does_orFail ?_ fun _ _ _ _ _ => trivial
      rintro fd rfl _ v hv
      exact ⟨rfl, hv.symm ▸ hu⟩
    · rintro _ u ⟨rfl, hu⟩
      exact ⟨fd, rfl, hu⟩
  · rintro _ _ ⟨rfl, rfl⟩
    exact ⟨rfl, rfl⟩

theorem does_getAttr {σ : Type} (mask : Nat) (s : σ) : Does env (From s H) (f.getAttr mask)
    (fun (r : Nat × Qid × StatResult) s' t => s' = s ∧ r.2.1 = f.qid ∧ ∃ st, r.2.2 = File.attributes mask st ∧
      events t = H ++ [.seen f.root.rootFd f.fileName st]) fun _ s' _ => s' = s := by
  refine does_calls henv (V := fun (r : Nat × Qid × StatResult) H' => r.2.1 = f.qid ∧ ∃ st, r.2.2 = File.attributes mask st ∧
    H' = H ++ [.seen f.root.rootFd f.fileName st]) ?_
  refine Action.On.bind (V := fun (r : Except Errno Stat) _ t => events t = H ++ eventsOf
    ⟨.fstatat f.root.rootFd f.fileName false, r⟩) (does_call henv ?_) fun r => ?_
  · rintro r _ t - rfl
    exact events_concat ..
  refine Action.On.bind (V := fun st _ t => events t = H ++ [.seen f.root.rootFd f.fileName st])
    (does_orThrow ?_ fun _ _ _ _ _ => trivial) fun st => Action.on_pure fun _ t ht => ⟨rfl, st, rfl, ht⟩
  rintro st rfl _ t ht
  exact ht

theorem idle_accessHelper (fd : Nat) (path : Bytes) (mode : Nat) : Idle env (accessHelper fd path mode) := by
  have haccess (path : Bytes) : Idle env (do
      orThrow (← Action.call (.faccessat fd path mode)) : Calls Unit) :=
    (idle_call henv fun _ => rfl).bind fun r => idle_orThrow r
  exact .ite (fun _ => (idle_getFdPath henv fd).bind haccess) fun _ => (idle_pure _).bind haccess

theorem idle_checkFOwnerCapability : Idle env File.checkFOwnerCapability := by
  refine (idle_call henv fun _ => rfl).bind fun r => ?_
  change Except Errno Bool at r
  cases r with
  | ok effective => exact idle_pure _
  | error e => exact .ite (fun _ => idle_pure _) fun _ => idle_throw _

theorem idle_accessToDelete (f : File) : Idle env f.accessToDelete := by
  rw [File.accessToDelete]
  refine idle_guard ?_
  refine (idle_accessHelper henv _ _ _).bind fun _ => ?_
  refine (idle_call henv fun _ => rfl).bind fun r => (idle_orThrow r).bind fun st => ?_
  refine .ite (fun _ => ?_) fun _ => idle_pure ()
  refine (idle_checkFOwnerCapability henv).bind fun _ => .ite (fun _ => ?_) fun _ => idle_pure ()
  refine (idle_call henv fun _ => rfl).bind fun uid => .ite (fun _ => ?_) fun _ => idle_pure ()
  refine (idle_call henv fun _ => rfl).bind fun r => (idle_orThrow r).bind fun child => ?_
  exact .ite (fun _ => idle_throw _) fun _ => idle_pure ()

theorem does_access_delete {σ : Type} (s : σ) : Does env (From s H) (f.access accessDelete)
    (fun _ s' t => s' = s ∧ f.fileName ≠ [] ∧ events t = H) fun _ s' _ => s' = s := by
  refine does_calls henv (V := fun _ H' => f.fileName ≠ [] ∧ H' = H) ?_
  refine (idle_accessHelper henv _ _ _ H).mono (fun _ _ h => h) (fun _ _ _ h => h) (fun _ _ _ _ => trivial)
    (fun _ _ _ h => h) |>.bind fun _ => .ite (fun _ => ?_) fun h => absurd (by decide) h
  by_cases hname : f.fileName = []
  · rw [File.accessToDelete, if_pos hname]
    exact Action.On.bind (V := fun _ _ _ => False) (Action.on_throw fun _ _ _ => trivial)
      fun _ _ _ h => h.elim
  · exact (idle_accessToDelete henv f H).mono (fun _ _ h => h) (fun _ _ _ h => ⟨hname, h⟩)
      (fun _ _ _ _ => trivial) fun _ _ _ h => h

theorem does_readLink {σ : Type} (size : Nat) (s : σ) : Does env (From s H) (f.readLink size)
    (fun _ => From s H) fun _ s' _ => s' = s := by
  refine does_calls henv (V := fun _ H' => H' = H) ?_
  exact ((idle_call henv fun _ => rfl).bind fun r => idle_pure _) H |>.mono (fun _ _ h => h) (fun _ _ _ h => h)
    (fun _ _ _ _ => trivial) fun _ _ _ h => h

end Files

/-! ## Parts of the handler -/

section Handler

variable {env : Surroundings} {h : Handler} {b : Bytes} {w : MessageResponse} {H : List Event} {α : Type}
  {W : α → Context → Calls.Trace → Prop} {E : Int → Context → Calls.Trace → Prop}

theorem does_uint_then {n : Nat} {f : Nat → Op Context α}
    (hf : n ≤ b.length → Does env (From ⟨h, b.drop n, w⟩ H) (f (leAt 0 n b)) W E) :
    Does env (From ⟨h, b, w⟩ H) (SpanReader.uint n >>= f) W E := by
  rintro _ t ⟨rfl, ht⟩
  by_cases hn : n ≤ b.length
  · rw [Action.bind_of_value (uint_run hn)]
    exact hf hn _ t ⟨rfl, ht⟩
  · rw [Action.bind_of_halted (uint_short (Nat.lt_of_not_le hn))]
    trivial

theorem does_name_then {f : Bytes → Op Context α}
    (hf : holdsString b → isName (stringAt b) → Does env (From ⟨h, b.drop (2 + stringLength b), w⟩ H) (f (stringAt b)) W
      fun _ c _ => c.handler = h) :
    Does env (From ⟨h, b, w⟩ H) (SpanReader.name >>= f) W fun _ c _ => c.handler = h := by
  rintro _ t ⟨rfl, ht⟩
  by_cases hb : holdsString b
  · by_cases hname : isName (stringAt b)
    · rw [Action.bind_of_value (name_run hb hname)]
      exact hf hb hname _ t ⟨rfl, ht⟩
    · have hthrow : SpanReader.name ⟨h, b, w⟩ =
          pure (.error einval, ⟨h, b.drop (2 + stringLength b), w⟩) := by
        rw [SpanReader.name, Action.bind_of_value (string_run hb), if_neg hname]
        rfl
      rw [Action.bind_of_error hthrow]
      exact rfl
  · obtain ⟨c, hc⟩ := name_short (h := h) (w := w) hb
    rw [Action.bind_of_halted hc]
    trivial

theorem does_lookupFile_then {fid : Nat} {error : Int} {f : File → Op Context α}
    (hf : ∀ file, h.fids fid = some (.file file) → Does env (From ⟨h, b, w⟩ H) (f file) W
      fun _ c _ => c.handler = h) :
    Does env (From ⟨h, b, w⟩ H) (lookupFile fid error >>= f) W fun _ c _ => c.handler = h := by
  rintro _ t ⟨rfl, ht⟩
  cases hfid : h.fids fid with
  | none =>
    have hthrow : lookupFile fid error ⟨h, b, w⟩ = pure (.error einval, ⟨h, b, w⟩) := by
      refine Action.bind_of_error ?_
      rw [lookupFid, Action.bind_of_value rfl, hfid]
      rfl
    rw [Action.bind_of_error hthrow]
    exact rfl
  | some item =>
    cases item with
    | file file =>
      rw [Action.bind_of_value (lookupFile_run hfid)]
      exact hf file hfid _ t ⟨rfl, ht⟩
    | xattr x =>
      have hthrow : lookupFile fid error ⟨h, b, w⟩ = pure (.error error, ⟨h, b, w⟩) := by
        rw [lookupFile, Action.bind_of_value (lookupFid_run hfid)]
        rfl
      rw [Action.bind_of_error hthrow]
      exact rfl

theorem emplaceFid_run {c : Context} {fid : Nat} {i : Fid} (hfree : c.handler.fids fid = none) :
    emplaceFid fid i c = pure (.value (), { c with handler := c.handler.setFid fid (some i) }) := by
  rw [emplaceFid, Action.bind_of_value rfl, hfree]
  rfl

theorem emplaceFid_taken {c : Context} {fid : Nat} {item old : Fid} (htaken : c.handler.fids fid = some old) :
    emplaceFid fid item c = pure (.error einval, c) := by
  rw [emplaceFid, Action.bind_of_value rfl, htaken]
  rfl

theorem does_onFile {f : File} {m : Op File α} {c : Context} {V : α → File → List Event → Prop}
    (hm : Does env (From f H) m (fun a g t => V a g (events t)) fun _ _ _ => True) :
    Does env (From c H) (onFile f m) (fun r c' t => c' = c ∧ V r.1 r.2 (events t))
      fun _ c' _ => c'.handler = c.handler := by
  refine .withState ?_
  rintro _ t ⟨rfl, ht⟩
  refine hm.mono ?_ (fun _ _ _ hV => ⟨rfl, hV⟩) (fun _ _ _ _ => rfl) fun _ _ _ h => h
  rintro _ _ ⟨rfl, rfl⟩
  exact ⟨rfl, ht⟩

/-! ### The reply -/

abbrev Writing (h : Handler) (s : Bytes) (H : List Event) : Context → Calls.Trace → Prop :=
  fun c t => c.handler = h ∧ c.response.written = s ∧ events t = H

theorem does_write {s data : Bytes} :
    Does env (Writing h s H) (SpanWriter.write data) (fun _ => Writing h (s ++ data) H) E := by
  rintro ⟨h', b', w'⟩ t ⟨rfl, rfl, ht⟩
  by_cases hfits : headerSize + (w'.written ++ data).length ≤ w'.size
  · rw [write_run hfits]
    exact ⟨rfl, rfl, ht⟩
  · rw [write_past hfits]
    trivial

theorem does_write_then {s data : Bytes} {f : Unit → Op Context α}
    (hf : Does env (Writing h (s ++ data) H) (f ()) W E) :
    Does env (Writing h s H) (SpanWriter.write data >>= f) W E := does_write.bind fun _ => hf

def HasRoom (h : Handler) (w : MessageResponse) (t : MessageType) (extra : Nat) : Prop :=
  getMessageSize t + extra ≤ h.negotiatedSize ∧ (getMessageSize t + extra ≤ w.size ∨ w.allowResize)

theorem HasRoom.mono {h : Handler} {w : MessageResponse} {t : MessageType} {extra extra' : Nat}
    (hroom : HasRoom h w t extra) (hle : extra' ≤ extra) : HasRoom h w t extra' :=
  ⟨(Nat.add_le_add_left hle _).trans hroom.1, hroom.2.imp_left (Nat.add_le_add_left hle _).trans⟩

theorem does_ensureSize {t : MessageType} {extra : Nat} (hw : w.written = []) :
    Does env (fun c u => (c.handler = h ∧ c.response = w) ∧ events u = H) (ensureSize t extra)
      (fun _ c u => Writing h [] H c u ∧ HasRoom h w t extra) fun _ c _ => c.handler = h := by
  refine .get_then fun c => Action.on_of_states fun c' u hc => ?_
  obtain ⟨rfl, ⟨rfl, rfl⟩, rfl⟩ := hc
  refine .ite (fun _ => Action.on_throw ?_) fun hsize => ?_
  · rintro _ _ ⟨rfl, rfl⟩
    exact rfl
  refine .ite (fun _ => .ite (fun _ => Action.on_throw ?_) fun hresize => Action.on_modify ?_) fun hroom =>
    Action.on_pure ?_
  · rintro _ _ ⟨rfl, rfl⟩
    exact rfl
  · rintro _ _ ⟨rfl, rfl⟩
    exact ⟨⟨rfl, rfl, rfl⟩, Nat.not_lt.mp hsize, Or.inr (not_not.mp hresize)⟩
  · rintro _ _ ⟨rfl, rfl⟩
    exact ⟨⟨rfl, hw, rfl⟩, Nat.not_lt.mp hsize, Or.inl (Nat.not_lt.mp hroom)⟩

theorem does_writeLink (henv : ∀ t e, Lawful e (env t e)) {file : File} {s : Bytes} :
    Does env (Writing h s H) (writeLink file fun _ => SpanWriter.uint 2 0)
      (fun _ c t => ∃ link, Writing h (s ++ link) H c t) fun _ c _ => c.handler = h := by
  refine Action.on_of_states fun c t hc => ?_
  refine Action.On.bind (V := fun _ => From c H) ?_ fun _ => .get_then fun c' => ?_
  · refine .get_then fun c' => .ite (fun _ => Action.on_halt fun _ _ _ => trivial) fun _ => Action.on_pure ?_
    rintro _ _ ⟨rfl, rfl, rfl⟩
    exact ⟨rfl, hc.2.2⟩
  refine Action.On.bind (V := fun _ => From c H) ?_ fun r => ?_
  · refine (does_readLink henv _ c).mono ?_ (fun _ _ _ h => h) ?_ fun _ _ _ h => h
    · rintro _ u ⟨rfl, h⟩
      exact h
    · rintro _ _ _ rfl
      exact hc.1
  have hwriting : ∀ c' u, From c H c' u → Writing h s H c' u := by
    rintro _ u ⟨rfl, hu⟩
    exact ⟨hc.1, hc.2.1, hu⟩
  cases r with
  | ok target =>
    refine (does_write_then (does_write.post fun _ _ _ hc =>
      ⟨leBytes 2 target.val.length ++ target.val, ?_⟩)).pre hwriting
    rwa [List.append_assoc] at hc
  | error e => exact (does_write.post fun _ _ _ hc => ⟨_, hc⟩).pre hwriting

/-- The body of an `Rwopen`. -/
def wopenReply (status : WOpenStatus) (walked : Nat) (qid : Qid) (link : Bytes) (stat : StatResult) : Bytes :=
  leBytes 1 status.code ++ leBytes 2 walked ++ qidBytes qid ++ link ++ leBytes 4 ioUnit ++
    statResultBytes stat ++ leBytes 8 0 ++ leBytes 8 0 ++ leBytes 8 0 ++ leBytes 8 0

/-- The room for an `Rwopen` with a qid. -/
def wopenExtra (qid : Qid) : Nat := if qid.isSymlink then pathMax else 0

theorem does_writeAttributes {stat : StatResult} {s : Bytes} :
    Does env (Writing h s H) (do
        SpanWriter.uint 4 ioUnit
        SpanWriter.write (statResultBytes stat)
        SpanWriter.uint 8 0
        SpanWriter.uint 8 0
        SpanWriter.uint 8 0
        SpanWriter.uint 8 0)
      (fun _ => Writing h (s ++ leBytes 4 ioUnit ++ statResultBytes stat ++ leBytes 8 0 ++ leBytes 8 0 ++
        leBytes 8 0 ++ leBytes 8 0) H) E :=
  does_write_then <| does_write_then <| does_write_then <| does_write_then <| does_write_then does_write

/-- What is replied of a file: its qid, and attributes that are looked up. -/
def RepliedFor (h : Handler) (w : MessageResponse) (status : WOpenStatus) (walked : Nat) (file : File) (mask : Nat)
    (H : List Event) (c : Context) (H' : List Event) : Prop :=
  c.handler = h ∧ HasRoom h w .wopen (wopenExtra file.qid) ∧ ∃ st link,
    c.response.written = wopenReply status walked file.qid link (File.attributes mask st) ∧
    H' = H ++ [.seen file.root.rootFd file.fileName st]

theorem does_writeWOpenReply (henv : ∀ t e, Lawful e (env t e)) (hw : w.written = []) (status : WOpenStatus)
    (walked : Nat) (file : File) (mask : Nat) :
    Does env (fun c t => (c.handler = h ∧ c.response = w) ∧ events t = H)
      (writeWOpenReply status walked file mask)
      (fun _ c t => RepliedFor h w status walked file mask H c (events t)) fun _ c _ => c.handler = h := by
  refine Action.On.bind (V := fun (r : Nat × Qid × StatResult) c t => (c.handler = h ∧ c.response = w) ∧
    r.2.1 = file.qid ∧ ∃ st, r.2.2 = File.attributes mask st ∧
      events t = H ++ [.seen file.root.rootFd file.fileName st]) ?_ fun r => ?_
  · rintro c t ⟨hc, ht⟩
    refine ((does_getAttr henv mask c).mono (fun _ _ h => h) ?_ ?_ fun _ _ _ h => h) c t ⟨rfl, ht⟩
    · rintro r _ u ⟨rfl, hr⟩
      exact ⟨hc, hr⟩
    · rintro _ _ _ rfl
      exact hc.1
  obtain ⟨valid, qid, stat⟩ := r
  refine Action.on_of_states fun c t hc => ?_
  obtain ⟨hc, rfl, st, rfl, ht⟩ := hc
  refine Action.On.bind (V := fun _ c u => Writing h [] (events t) c u ∧ HasRoom h w .wopen (wopenExtra file.qid))
    ((does_ensureSize hw).pre ?_) fun _ => Action.on_of_states fun c' u hc' => ?_
  · rintro _ _ ⟨rfl, rfl⟩
    exact ⟨hc, rfl⟩
  obtain ⟨hwriting, hfits⟩ := hc'
  refine Action.On.pre (P := Writing h [] (events t)) ?_ ?_
  · have hrest (link : Bytes) : Does env (Writing h (leBytes 1 status.code ++ leBytes 2 walked ++
        qidBytes file.qid ++ link) (events t)) _ (fun _ c u => RepliedFor h w status walked file mask H c (events u))
        fun _ c _ => c.handler = h := does_writeAttributes.post fun _ c u hc =>
      ⟨hc.1, hfits, st, link, hc.2.1, hc.2.2.trans ht⟩
    refine does_write_then <| does_write_then <| does_write_then <| .ite (fun _ => ?_) fun _ => ?_
    · refine (does_writeLink henv).bind fun _ => ?_
      rintro c u ⟨link, hc⟩
      exact hrest link c u hc
    · exact does_write_then (hrest (leBytes 2 0))
  · rintro _ _ ⟨rfl, rfl⟩
    exact hwriting

end Handler

end WslFreeBSD.Plan9
