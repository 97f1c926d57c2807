import WslFreeBSD.Bridge.Session

/-!
# What the branches of a pass add to the trace

`Adds P s s'` says that the trace grew by actions with the property `P`. Every branch of the
loop adds only actions of `Act.inPass`, which leave the resources of the session alone and tell
the host nothing about the size of the terminal; the size check is the exception and is left to
the modules that are about it.
-/

namespace WslFreeBSD.Bridge

open Lib Protocol

/-- From `s` to `s'` the trace grew by actions with the property `P`. -/
def Adds (P : Act → Prop) (s s' : Session) : Prop :=
  ∃ acts, s'.trace = s.trace ++ acts ∧ ∀ a ∈ acts, P a

namespace Adds

variable {P Q : Act → Prop} {s s' s'' : Session}

theorem refl (s : Session) : Adds P s s := ⟨[], (List.append_nil _).symm, by simp⟩

theorem trans (h : Adds P s s') (h' : Adds P s' s'') : Adds P s s'' := by
  obtain ⟨acts, ht, hacts⟩ := h
  obtain ⟨acts', ht', hacts'⟩ := h'
  refine ⟨acts ++ acts', by rw [ht', ht, List.append_assoc], fun a ha => ?_⟩
  rcases List.mem_append.mp ha with ha | ha
  · exact hacts a ha
  · exact hacts' a ha

theorem mono (h : Adds P s s') (hPQ : ∀ a, P a → Q a) : Adds Q s s' := by
  obtain ⟨acts, ht, hacts⟩ := h
  exact ⟨acts, ht, fun a ha => hPQ a (hacts a ha)⟩

theorem forall_mem (h : Adds P s s') (hs : ∀ a ∈ s.trace, P a) : ∀ a ∈ s'.trace, P a := by
  obtain ⟨acts, ht, hacts⟩ := h
  rw [ht]
  exact List.forall_mem_append.mpr ⟨hs, hacts⟩

end Adds

/-- The actions of the branches other than the size check. -/
def Act.inPass : Act → Bool
  | .opened _ | .closed _ | .sigchldHandler _ | .socketFile _ | .loopLeft => false
  | .controlWrite (.windowSizeChanged _ _) _ => false
  | _ => true

abbrev InPass : Session → Session → Prop := Adds fun a => a.inPass = true

section Branches

variable (s : Session) (cfg : Setup) (rev : Revents) (i : Pass)

theorem inPass_deliver : InPass s (s.deliver cfg i) := ⟨_, rfl, by simp [Act.inPass]⟩

theorem inPass_now (t : Int) : InPass s { s with trace := s.trace ++ [.now t] } :=
  ⟨_, rfl, by simp [Act.inPass]⟩

theorem inPass_escalate : InPass s (s.escalate i) := by
  obtain ⟨acts, ht, hacts⟩ := trace_escalate s i
  refine ⟨acts, ht, fun a ha => ?_⟩
  rcases hacts a ha with rfl | ⟨status, rfl⟩ <;> rfl

theorem inPass_childExited (status : WaitStatus) : InPass s (s.childExited i status) := by
  refine ⟨[.collected status] ++ Session.drainActs (!s.hostDisconnected) i.drain ++
    s.exitActs i status, by simp [Session.childExited], fun a ha => ?_⟩
  rcases List.mem_append.mp ha with ha | ha
  · rcases List.mem_append.mp ha with ha | ha
    · rw [List.mem_singleton.mp ha]
      rfl
    · obtain ⟨r, rfl⟩ | ⟨buf, taken, rfl⟩ := mem_drainActs ha <;> rfl
  · rw [mem_exitActs ha]
    rfl

theorem inPass_disconnect (time : Int) : InPass s (s.disconnect time) := by
  obtain ⟨acts, ht, hacts⟩ := trace_disconnect s time
  refine ⟨acts, ht, fun a ha => ?_⟩
  rcases hacts a ha with rfl | rfl <;> rfl

theorem inPass_controlHandled : InPass s (s.controlHandled i) := by
  refine ⟨_, rfl, fun a ha => ?_⟩
  rcases List.mem_cons.mp ha with rfl | ha
  · rfl
  · obtain ⟨c, rfl⟩ | rfl | ⟨target, rfl⟩ | ⟨seq, taken, rfl⟩ := mem_controlDispatch ha <;> rfl

theorem inPass_controlBranch : InPass s (s.controlBranch rev i) := by
  have hrecv : ∀ out : TryRead controlBufSize, InPass s (s.controlReceived out) := by
    intro out
    refine ⟨_, rfl, fun a ha => ?_⟩
    obtain ⟨x, rfl⟩ := mem_recvActs ha
    rfl
  unfold Session.controlBranch
  split
  · exact .refl s
  · dsimp only
    split
    · exact (hrecv _).trans (inPass_disconnect _ _)
    · exact hrecv _
    · split
      · exact (hrecv _).trans ((inPass_controlHandled _ i).trans (inPass_disconnect _ _))
      · exact (hrecv _).trans (inPass_controlHandled _ i)

theorem inPass_stdinBranch : InPass s (s.stdinBranch rev i) := by
  refine ⟨_, rfl, fun a ha => ?_⟩
  obtain ⟨r, rfl⟩ | ⟨buf, taken, rfl⟩ := mem_stdinActs ha <;> rfl

theorem inPass_ptyBranch : InPass s (s.ptyBranch rev i) := by
  refine ⟨_, rfl, fun a ha => ?_⟩
  obtain ⟨r, rfl⟩ | ⟨buf, taken, rfl⟩ := mem_ptyActs ha <;> rfl

theorem inPass_channelBranch : InPass s (s.channelBranch cfg rev i) := by
  refine ⟨_, rfl, fun a ha => ?_⟩
  obtain ⟨r, rfl⟩ | ⟨buf, taken, rfl⟩ := mem_channelActs ha <;> rfl

theorem inPass_interopBranch : InPass s (s.interopBranch cfg rev i) := by
  have hrecv : ∀ out : TryRead interopBufSize, InPass s (s.interopReceived out) := by
    intro out
    refine ⟨_, rfl, fun a ha => ?_⟩
    obtain ⟨x, rfl⟩ := mem_recvActs ha
    rfl
  have hhandled : ∀ s : Session, InPass s s.interopHandled := fun s =>
    ⟨[.interopMessage s.ir.message], rfl, by simp [Act.inPass]⟩
  unfold Session.interopBranch
  split
  · dsimp only
    split
    · exact (hrecv _).trans (hhandled _)
    · exact hrecv _
  · exact .refl s

theorem inPass_localBranch : InPass s (s.localBranch cfg rev i) := by
  refine ⟨_, rfl, fun a ha => ?_⟩
  obtain ⟨seq, result, rfl⟩ | ⟨m, taken, rfl⟩ := mem_localActs ha <;> rfl

theorem inPass_channels : InPass s (s.channels cfg rev i) :=
  (inPass_controlBranch s rev i).trans <| (inPass_stdinBranch _ rev i).trans <|
    (inPass_ptyBranch _ rev i).trans <| (inPass_channelBranch _ cfg rev i).trans <|
    (inPass_interopBranch _ cfg rev i).trans (inPass_localBranch _ cfg rev i)

theorem inPass_killAndWait (status : WaitStatus) : InPass s (s.killAndWait status) := by
  refine ⟨[.kill .kill] ++ if s.childGone then [] else [.collected status], ?_, ?_⟩
  · simp [Session.killAndWait]
  · cases s.childGone <;> simp [Act.inPass]

end Branches

end WslFreeBSD.Bridge
