import WslFreeBSD.Lib.Transitions
import WslFreeBSD.Stub.Bounds
import WslFreeBSD.Stub.Fids

/-!
# The connections of the stub file server

`plan9_child_run` of the test build accepts one connection after the other and handles its requests
until the client disconnects. `Server.Tidy` is what should hold in every state: the fid table and the
descriptors fit together, and a new connection starts with an empty table.

A run has it in every state if each of its requests is tidy and each connection finds the table empty
(`server_tidy`); the server itself sees to neither.
-/

namespace WslFreeBSD.Stub

open Lib Config
open Lib.Faulting

/-- Where the child is in its loops. -/
inductive Phase where
  | accepting
  /-- with what the client has yet to send, and whether it has sent nothing so far -/
  | serving (conn : Nat) (input : Bytes) (fresh : Bool)
  | exited
  /-- behind a fault -/
  | undefined

structure Server (σ : Type) where
  world : World σ
  phase : Phase

/-- What happens next: `accept` returns, or a request is handled. -/
inductive Event where
  | connected (input : Bytes)
  | interrupted
  | acceptFailed
  | request

/-- With what the child is started: the descriptors of its parent, its listener and its end of the
pipe. -/
structure ChildStart where
  rootPath : CStr
  inherited : Finset Nat
  listenFd : Nat
  controlFd : Nat
  listen_new : listenFd ∉ inherited
  control_new : controlFd ∉ insert listenFd inherited

variable {σ : Type} (K : Kernel σ)

/-- One request of a connection, which is closed if there is none. -/
def serve (conn : Nat) (input : Bytes) : Serving σ (Option Bytes) := do
  match ← p9HandleRequest K conn input with
  | some rest => pure (some rest)
  | none => do
    close K conn
    pure none

/-- The child opens its root and closes its end of the pipe. -/
def openRoot (c : ChildStart) : Serving σ Bool := do
  match ← acquire K (.open c.rootPath.1 (O_DIRECTORY ||| O_CLOEXEC)) with
  | none => pure false
  | some rootFd => do
    Faulting.modify fun w => { w with globals := { w.globals with rootFd } }
    close K c.controlFd
    pure true

def ChildStart.world (c : ChildStart) (env : σ) : World σ where
  globals := { rootPath := c.rootPath, rootFd := 0 }
  opened := insert c.controlFd (insert c.listenFd c.inherited)
  env := env

/-- The start of `plan9_child_run`, up to its loop. -/
def plan9ChildRun (c : ChildStart) (env : σ) : Server σ :=
  match openRoot K c (c.world env) with
  | .ok (true, w) => ⟨w, .accepting⟩
  | .ok (false, w) => ⟨w, .exited⟩
  | .error _ => ⟨c.world env, .undefined⟩

/-- The loops of `plan9_child_run`. -/
def serverStep (s : Server σ) : Event → Option (Server σ)
  | .connected input =>
    match s.phase with
    | .accepting => some
        { world := { s.world with opened := insert (K.numbering.pick s.world.opened) s.world.opened }
          phase := .serving (K.numbering.pick s.world.opened) input true }
    | _ => none
  | .interrupted =>
    match s.phase with
    | .accepting => some s
    | _ => none
  | .acceptFailed =>
    match s.phase with
    | .accepting => some { s with phase := .exited }
    | _ => none
  | .request =>
    match s.phase with
    | .serving conn input _ =>
      match serve K conn input s.world with
      | .ok (some rest, w) => some ⟨w, .serving conn rest false⟩
      | .ok (none, w) => some ⟨w, .accepting⟩
      | .error _ => some { s with phase := .undefined }
    | _ => none

/-- The descriptors of the server itself, with the root as it was opened at the start. -/
def ChildStart.base (c : ChildStart) (env : σ) : Finset Nat :=
  insert (plan9ChildRun K c env).world.globals.rootFd (insert c.listenFd c.inherited)

/-- The table and the descriptors fit together, and a new connection has an empty table. -/
def Server.Tidy (base : Finset Nat) (s : Server σ) : Prop :=
  match s.phase with
  | .accepting => s.world.Tidy base
  | .serving conn _ fresh => conn ∉ base ∧ s.world.Tidy (insert conn base) ∧
      (fresh = true → ∀ i, s.world.globals.fidMap i = none)
  | .exited => True
  | .undefined => False

/-! ## Requests of a connection -/

/-- The request at the front of the input, if it is there as a whole. -/
def nextRequest (input : Bytes) : Option (Bytes × Bytes) :=
  if 7 ≤ leAt 0 4 input ∧ leAt 0 4 input ≤ P9_MAXMSIZE ∧ leAt 0 4 input ≤ input.length then
    some (input.take (leAt 0 4 input), input.drop (leAt 0 4 input))
  else none

variable {K} {conn : Nat} {input : Bytes} {w : World σ} {base : Finset Nat}

theorem nextRequest_spec {m rest : Bytes} (h : nextRequest input = some (m, rest)) :
    input = m ++ rest ∧ leAt 0 4 m = m.length ∧ 7 ≤ m.length ∧ m.length ≤ P9_MAXMSIZE := by
  unfold nextRequest at h
  split at h
  · rename_i hsize
    obtain ⟨hmin, hmax, hlen⟩ := hsize
    cases h
    have hm : (input.take (leAt 0 4 input)).length = leAt 0 4 input := by
      rw [List.length_take, Nat.min_eq_left hlen]
    refine ⟨(List.take_append_drop _ _).symm, ?_, ?_, ?_⟩
    · rw [hm, leAt_take (by omega)]
    · rwa [hm]
    · rwa [hm]
  · cases h

theorem yields_of_no_request (h : w.Tidy base) (hnone : nextRequest input = none) :
    Yields (p9HandleRequest K conn input) w fun rest w' => rest = none ∧ w'.Tidy base := by
  rw [p9HandleRequest]
  by_cases hfour : 4 ≤ input.length
  · have hsize : leAt 0 4 (input.take 4) = leAt 0 4 input := leAt_take (by omega)
    rw [p9Readn, if_pos hfour]
    dsimp only
    rw [hsize]
    split
    · exact yields_pure ⟨rfl, h⟩
    · rename_i hbounds
      rw [not_or, Nat.not_lt, Nat.not_lt] at hbounds
      refine ((keeps_malloc _).yields (total_malloc _ w) h).bind fun got w' h' => ?_
      cases got with
      | false => exact yields_pure ⟨rfl, h'⟩
      | true =>
        have hshort : input.length < leAt 0 4 input := by
          by_contra hlong
          rw [nextRequest, if_pos ⟨hbounds.1, hbounds.2, Nat.le_of_not_lt hlong⟩] at hnone
          cases hnone
        rw [if_pos rfl, p9Readn, if_neg (by rw [List.length_drop]; omega)]
        exact yields_pure ⟨rfl, h'⟩
  · rw [p9Readn, if_neg hfour]
    exact yields_pure ⟨rfl, h⟩

def ConnectionTidy (K : Kernel σ) (w : World σ) (input : Bytes) : Prop :=
  ∀ m rest w', nextRequest input = some (m, rest) → malloc K (m.length - 4) w = .ok (true, w') →
    RequestTidy K w' (leAt 4 1 m) (m.drop 7)

theorem yields_p9HandleRequest (h : w.Tidy base) (hrequest : ConnectionTidy K w input) :
    Yields (p9HandleRequest K conn input) w fun _ w' => w'.Tidy base := by
  cases hnext : nextRequest input with
  | none => exact (yields_of_no_request h hnext).mono fun _ _ hdone => hdone.2
  | some next =>
    obtain ⟨m, rest⟩ := next
    obtain ⟨rfl, hsize, hmin, hmax⟩ := nextRequest_spec hnext
    have hbody : (m.drop 7).length < 2 ^ 32 - 16 := by
      rw [List.length_drop]
      have : P9_MAXMSIZE = 65536 := rfl
      omega
    have hhandled : Yields (malloc K (m.length - 4) >>= fun got =>
        if got = true then p9Dispatch K conn (leAt 5 2 m) (m.drop 7) (leAt 4 1 m) >>= fun _ => pure (some rest)
        else pure none) w fun _ w' => w'.Tidy base := by
      obtain ⟨⟨got, w'⟩, hgot⟩ := total_malloc (K := K) (m.length - 4) w
      have htidy : w'.Tidy base := keeps_malloc _ _ _ _ h hgot
      refine yields_bind_of_ok hgot ?_
      cases got with
      | true =>
        exact (yields_p9Dispatch htidy hbody (hrequest m rest w' hnext hgot)).bind fun _ _ h' => yields_pure h'
      | false => exact yields_pure htidy
    obtain ⟨a, w', hrun, htidy⟩ := hhandled
    exact ⟨a, w', (p9HandleRequest_append hsize hmin hmax).trans hrun, htidy⟩

/-! ## Runs -/

/-- The condition on a step: a request is tidy, and a connection finds the table empty. -/
def Meets (K : Kernel σ) (s : Server σ) : Event → Prop
  | .connected _ => ∀ i, s.world.globals.fidMap i = none
  | .request => ∀ conn input fresh, s.phase = .serving conn input fresh → ConnectionTidy K s.world input
  | .interrupted => True
  | .acceptFailed => True

theorem tidy_empty (opened : Finset Nat) : Tidy opened .empty 0 opened := by
  have hused : FidMap.empty.used = ∅ := Finset.filter_eq_empty_iff.mpr fun _ _ h => Bool.false_ne_true h
  refine ⟨?_, by rw [hused]; rfl, ?_⟩
  · rintro i j e e' ⟨⟩
  · rw [hused]
    exact Owns.start (FidMap.empty.fds opened)

theorem tidy_plan9ChildRun (c : ChildStart) (env : σ) : (plan9ChildRun K c env).Tidy (c.base K env) := by
  have hstart : (c.world env).Tidy (c.world env).opened := tidy_empty _
  unfold ChildStart.base plan9ChildRun
  cases hgrants : K.grants (.open c.rootPath.1 (O_DIRECTORY ||| O_CLOEXEC)) (c.world env).env with
  | false =>
    have hopen : openRoot K c (c.world env) = .ok (false, _) :=
      (bind_of_ok (acquire_of_false hgrants)).trans rfl
    rw [hopen]
    trivial
  | true =>
    have hnew := K.numbering.fresh (c.world env).opened
    have hopen : openRoot K c (c.world env) = .ok (true, _) :=
      (bind_of_ok (acquire_of_true hgrants)).trans rfl
    rw [hopen]
    have hroot : K.numbering.pick (c.world env).opened ≠ c.controlFd := by
      intro heq
      exact hnew (heq ▸ Finset.mem_insert_self _ _)
    have hcontrol : c.controlFd ∉
        insert (K.numbering.pick (c.world env).opened) (insert c.listenFd c.inherited) := by
      rw [Finset.mem_insert, not_or]
      exact ⟨hroot.symm, c.control_new⟩
    have hopened : Tidy (insert c.controlFd (insert (K.numbering.pick (c.world env).opened)
        (insert c.listenFd c.inherited))) .empty 0
          (insert (K.numbering.pick (c.world env).opened) (c.world env).opened) := by
      rw [Finset.insert_comm]
      exact Tidy.opens hstart hnew
    exact hopened.closes hcontrol

theorem tidy_serverStep {s s' : Server σ} {a : Event} (h : s.Tidy base) (hmeets : Meets K s a)
    (hs : serverStep K s a = some s') : s'.Tidy base := by
  obtain ⟨w, phase⟩ := s
  cases phase with
  | accepting =>
    cases a with
    | connected input =>
      cases hs
      have hnew := K.numbering.fresh w.opened
      exact ⟨fun hbase => hnew (Tidy.base_subset h hbase), Tidy.opens h hnew, fun _ => hmeets⟩
    | interrupted =>
      cases hs
      exact h
    | acceptFailed =>
      cases hs
      exact trivial
    | request => cases hs
  | serving conn input fresh =>
    obtain ⟨hconn, htidy, -⟩ := h
    cases a with
    | request =>
      have hserve : Yields (serve K conn input) w fun rest w' =>
          (rest = none → w'.Tidy base) ∧ (rest ≠ none → w'.Tidy (insert conn base)) := by
        refine (yields_p9HandleRequest htidy (hmeets conn input fresh rfl)).bind fun rest w' h' => ?_
        cases rest with
        | none =>
          refine (yields_close h' hconn).bind fun _ _ h'' => yields_pure ⟨fun _ => h'', ?_⟩
          exact fun h => absurd rfl h
        | some rest => exact yields_pure ⟨by rintro ⟨⟩, fun _ => h'⟩
      obtain ⟨rest, w', hrun, hnone, hsome⟩ := hserve
      unfold serverStep at hs
      dsimp only at hs
      rw [hrun] at hs
      cases rest with
      | none =>
        cases hs
        exact hnone rfl
      | some rest =>
        cases hs
        exact ⟨hconn, hsome (Option.some_ne_none rest), by rintro ⟨⟩⟩
    | connected input => cases hs
    | interrupted => cases hs
    | acceptFailed => cases hs
  | exited => cases a <;> cases hs
  | undefined => exact absurd h id

/-- In a run whose steps meet the condition, every state is tidy. -/
theorem server_tidy {c : ChildStart} {env : σ} {s : Server σ}
    (h : Reaches (serverStep K) (Meets K) (plan9ChildRun K c env) s) : s.Tidy (c.base K env) :=
  h.invariant (tidy_plan9ChildRun c env) fun _ _ _ hs hmeets hstep => tidy_serverStep hs hmeets hstep

/-! ## A client that attaches twice -/

/-- A child on a kernel that does all it is asked for. -/
def willingStart : ChildStart where
  rootPath := Globals.initial.rootPath
  inherited := {0, 1, 2}
  listenFd := 3
  controlFd := 4
  listen_new := by decide
  control_new := by decide

/-- `Tattach` for the fid 0. -/
def attachZero : Bytes := [11, 0, 0, 0, 104, 1, 0, 0, 0, 0, 0]

/-- A client that attaches. -/
theorem server_tidy_attach : ∃ s, Reaches (serverStep Kernel.willing) (Meets Kernel.willing)
    (plan9ChildRun Kernel.willing willingStart ()) s ∧ s.Tidy (willingStart.base Kernel.willing ()) := by
  have hconnected := @Reaches.step _ _ (serverStep Kernel.willing) (Meets Kernel.willing)
    (plan9ChildRun Kernel.willing willingStart ()) _ _ (.connected attachZero) .start (fun _ => rfl) rfl
  have hattached := hconnected.step (a := .request) ?_ rfl
  · exact ⟨_, hattached, server_tidy hattached⟩
  · rintro conn input fresh ⟨⟩ m rest w' ⟨⟩ ⟨⟩
    exact RequestTidy.attach rfl fun _ => Or.inl rfl

/-- A client that attaches the fid 0 twice: it stands in two slots. -/
theorem server_not_tidy : ¬ ∀ (σ : Type) (K : Kernel σ) (c : ChildStart) (env : σ) (s : Server σ),
    Reaches (serverStep K) (fun _ _ => True) (plan9ChildRun K c env) s → s.Tidy (c.base K env) := by
  intro h
  have hconnected := @Reaches.step _ _ (serverStep Kernel.willing) (fun _ _ => True)
    (plan9ChildRun Kernel.willing willingStart ()) _ _ (.connected (attachZero ++ attachZero)) .start
    trivial rfl
  have hfirst := hconnected.step (a := .request) trivial rfl
  have hsecond := hfirst.step (a := .request) trivial rfl
  obtain ⟨-, htidy, -⟩ : _ ∧ _ ∧ _ := h _ _ _ _ _ hsecond
  have hslots := htidy.distinct ⟨0, by decide⟩ ⟨1, by decide⟩ ⟨0, 7, 1, P9_QID_DIR, .root⟩
    ⟨0, 8, 1, P9_QID_DIR, .root⟩ rfl rfl rfl
  exact absurd (congrArg Fin.val hslots) Nat.zero_ne_one

end WslFreeBSD.Stub
