import WslFreeBSD.Bridge.Resize
import WslFreeBSD.Bridge.Resources

/-!
# Descriptors that have ended

The loop of `run_session` reads three descriptors besides the control channel and the PTY: the
terminal input, the echo channel and the interop channel. `ReportsEnd` says that the branch of
one of them runs in a pass and finds its end, and `Retires` that from then on the session neither
polls nor reads it.

The terminal input is retired by its variable (`stdin_fd = -1`). The echo branch ignores the end
of its channel, and the interop branch sets an entry of the poll set, which the next pass builds
anew. So a session retires what has ended exactly if neither of these two channels ends before
the last pass (`retires_iff`).
-/

namespace WslFreeBSD.Bridge

open Lib Protocol

/-- The end of the stream, or an error that stays. -/
def RecvResult.isEnd : RecvResult → Bool
  | .got bytes => bytes = []
  | .failed => true
  | _ => false

/-- The descriptor is in the poll set, or it is read. -/
def Act.uses (fd : Fd) : Act → Bool
  | .poll fds => fd ∈ fds
  | .recv fd' _ => fd' = fd
  | _ => false

namespace Session

variable (s : Session) (cfg : Setup) (rev : Revents) (i : Pass)

/-- The state in which the terminal input branch of a pass runs. -/
def atStdin : Session := ((s.deliver cfg i).timers i).controlBranch rev i

/-- The state in which the echo branch of a pass runs. -/
def atChannel : Session := ((s.atStdin cfg rev i).stdinBranch rev i).ptyBranch rev i

/-- The state in which the interop branch of a pass runs. -/
def atInterop : Session := (s.atChannel cfg rev i).channelBranch cfg rev i

/-- The pass reads the descriptor and finds its end: `recv` reports it, or `interop_try_read`
returns -1. -/
inductive ReportsEnd : Fd → Prop
  | stdin {rev : Revents} (hpoll : i.poll = .ready rev)
      (hready : (s.atStdin cfg rev i).stdinReady rev = true)
      (hend : (i.stdinRecv.limit 4096).isEnd = true) : ReportsEnd .stdin
  | channel {rev : Revents} (hpoll : i.poll = .ready rev)
      (hready : (!(s.atChannel cfg rev i).hostDisconnected && cfg.channel && rev.channel) = true)
      (hend : (i.channelRecv.limit 4096).isEnd = true) : ReportsEnd .channel
  | interop {rev : Revents} (hpoll : i.poll = .ready rev)
      (hready : (!(s.atInterop cfg rev i).hostDisconnected && cfg.interop && rev.interop) = true)
      (hend : (interopTryRead (s.atInterop cfg rev i).ir (s.atInterop cfg rev i).interopIn
        i.interopRecv).code = .error) : ReportsEnd .interop

end Session

/-- The passes `before` lead to a pass `i` from `s` that goes back to `poll` in `s'`. -/
structure GoesOn (cfg : Setup) (before : List Pass) (s : Session) (i : Pass) (s' : Session) : Prop where
  forked : cfg.forkpty = true
  alive : cfg.early = none
  reaches : runLoop (Session.iterate cfg) (Session.init cfg) before = .inl s
  passes : Session.iterate cfg s i = .inl s'

/-- What has ended is neither polled nor read in the rest of the session. -/
def Retires (cfg : Setup) (passes : List Pass) (final : WaitStatus) : Prop :=
  ∀ before i after s s' fd, passes = before ++ i :: after → GoesOn cfg before s i s' →
    s.ReportsEnd cfg i fd → ∀ acts, (runSession cfg passes final).trace = s'.trace ++ acts →
      ∀ a ∈ acts, a.uses fd = false

/-! ## The terminal input -/

/-- From `s` to `s'` the terminal input stays retired and is left alone. -/
structure Leaves (s s' : Session) : Prop where
  retired : s.stdinOpen = false → s'.stdinOpen = false
  adds : s.stdinOpen = false → Adds (fun a => a.uses .stdin = false) s s'

namespace Leaves

variable {s s' s'' : Session}

theorem refl (s : Session) : Leaves s s := ⟨id, fun _ => Adds.refl s⟩

theorem trans (h : Leaves s s') (h' : Leaves s' s'') : Leaves s s'' :=
  ⟨fun hs => h'.retired (h.retired hs), fun hs => (h.adds hs).trans (h'.adds (h.retired hs))⟩

theorem of_acts (acts : List Act) (ht : s'.trace = s.trace ++ acts) (ho : s'.stdinOpen = s.stdinOpen)
    (hacts : ∀ a ∈ acts, a.uses .stdin = false) : Leaves s s' :=
  ⟨fun hs => ho.trans hs, fun _ => ⟨acts, ht, hacts⟩⟩

end Leaves

section Branches

variable (s : Session) (cfg : Setup) (rev : Revents) (i : Pass)

theorem leaves_deliver : Leaves s (s.deliver cfg i) := by
  refine ⟨id, fun hs => ⟨_, rfl, fun a ha => ?_⟩⟩
  rw [List.mem_singleton.mp ha]
  simp [Act.uses, Session.pollSet, hs]

theorem leaves_killAndWait (status : WaitStatus) : Leaves s (s.killAndWait status) := by
  refine .of_acts ([.kill .kill] ++ if s.childGone then [] else [.collected status])
    (by simp [Session.killAndWait]) rfl ?_
  cases s.childGone <;> simp [Act.uses]

theorem leaves_escalate : Leaves s (s.escalate i) := by
  obtain ⟨acts, ht, hacts⟩ := trace_escalate s i
  refine .of_acts acts ht ?_ fun a ha => ?_
  · unfold Session.escalate
    split
    · split <;> rfl
    · rfl
  · rcases hacts a ha with rfl | ⟨status, rfl⟩ <;> rfl

theorem leaves_timers : Leaves s (s.timers i) := by
  have hnow : Leaves s { s with trace := s.trace ++ [.now i.now] } :=
    .of_acts _ rfl rfl (by simp [Act.uses])
  have hsize : ∀ s : Session, Leaves s (s.sizeCheck i) := by
    intro s
    refine .of_acts (s.sizeCheckActs i) rfl rfl fun a ha => ?_
    obtain ⟨rows, cols, rfl⟩ := mem_sizeCheckActs ha
    rfl
  exact (hnow.trans (leaves_escalate _ i)).trans (hsize _)

theorem leaves_childExited (status : WaitStatus) : Leaves s (s.childExited i status) := by
  refine .of_acts ([.collected status] ++ Session.drainActs (!s.hostDisconnected) i.drain ++
    s.exitActs i status) (by simp [Session.childExited]) rfl fun a ha => ?_
  rcases List.mem_append.mp ha with ha | ha
  · rcases List.mem_append.mp ha with ha | ha
    · rw [List.mem_singleton.mp ha]
      rfl
    · obtain ⟨r, rfl⟩ | ⟨buf, taken, rfl⟩ := mem_drainActs ha <;> rfl
  · rw [mem_exitActs ha]
    rfl

theorem leaves_disconnect (time : Int) : Leaves s (s.disconnect time) := by
  obtain ⟨acts, ht, hacts⟩ := trace_disconnect s time
  refine .of_acts acts ht rfl fun a ha => ?_
  rcases hacts a ha with rfl | rfl <;> rfl

theorem leaves_controlBranch : Leaves s (s.controlBranch rev i) := by
  have hrecv : ∀ out : TryRead controlBufSize, Leaves s (s.controlReceived out) := by
    intro out
    refine .of_acts _ rfl rfl fun a ha => ?_
    obtain ⟨x, rfl⟩ := mem_recvActs ha
    rfl
  have hhandled : ∀ s : Session, Leaves s (s.controlHandled i) := by
    intro s
    refine .of_acts _ rfl rfl fun a ha => ?_
    rcases List.mem_cons.mp ha with rfl | ha
    · rfl
    · obtain ⟨c, rfl⟩ | rfl | ⟨target, rfl⟩ | ⟨seq, taken, rfl⟩ := mem_controlDispatch ha <;> rfl
  unfold Session.controlBranch
  split
  · exact .refl s
  · dsimp only
    split
    · exact (hrecv _).trans (leaves_disconnect _ _)
    · exact hrecv _
    · split
      · exact (hrecv _).trans ((hhandled _).trans (leaves_disconnect _ _))
      · exact (hrecv _).trans (hhandled _)

theorem leaves_stdinBranch : Leaves s (s.stdinBranch rev i) := by
  have hidle : s.stdinOpen = false → s.stdinActs rev i = [] := by
    intro hs
    simp [Session.stdinActs, Session.stdinReady, hs]
  refine ⟨fun hs => ?_, fun hs => ⟨_, rfl, ?_⟩⟩
  · simp [Session.stdinBranch, hs]
  · rw [hidle hs]
    simp

theorem leaves_ptyBranch : Leaves s (s.ptyBranch rev i) := by
  refine .of_acts _ rfl rfl fun a ha => ?_
  obtain ⟨r, rfl⟩ | ⟨buf, taken, rfl⟩ := mem_ptyActs ha <;> rfl

theorem leaves_channelBranch : Leaves s (s.channelBranch cfg rev i) := by
  refine .of_acts _ rfl rfl fun a ha => ?_
  obtain ⟨r, rfl⟩ | ⟨buf, taken, rfl⟩ := mem_channelActs ha <;> rfl

theorem leaves_interopBranch : Leaves s (s.interopBranch cfg rev i) := by
  have hrecv : ∀ out : TryRead interopBufSize, Leaves s (s.interopReceived out) := by
    intro out
    refine .of_acts _ rfl rfl fun a ha => ?_
    obtain ⟨x, rfl⟩ := mem_recvActs ha
    rfl
  have hhandled : ∀ s : Session, Leaves s s.interopHandled := fun s =>
    .of_acts ([.interopMessage s.ir.message]) rfl rfl (by simp [Act.uses])
  unfold Session.interopBranch
  split
  · dsimp only
    split
    · exact (hrecv _).trans (hhandled _)
    · exact hrecv _
  · exact .refl s

theorem leaves_localBranch : Leaves s (s.localBranch cfg rev i) := by
  refine .of_acts _ rfl rfl fun a ha => ?_
  obtain ⟨seq, result, rfl⟩ | ⟨m, taken, rfl⟩ := mem_localActs ha <;> rfl

theorem leaves_channels : Leaves s (s.channels cfg rev i) :=
  (leaves_controlBranch s rev i).trans <| (leaves_stdinBranch _ rev i).trans <|
    (leaves_ptyBranch _ rev i).trans <| (leaves_channelBranch _ cfg rev i).trans <|
    (leaves_interopBranch _ cfg rev i).trans (leaves_localBranch _ cfg rev i)

theorem leaves_iterate : After (Leaves s) (Leaves s) (Session.iterate cfg s i) := by
  have hdeliver := leaves_deliver s cfg i
  unfold Session.iterate
  dsimp only
  split
  · split <;> exact hdeliver
  · have hfailed : Leaves (s.deliver cfg i)
        { s.deliver cfg i with trace := (s.deliver cfg i).trace ++ [.pollFailed] } :=
      .of_acts _ rfl rfl (by simp [Act.uses])
    split
    · exact hdeliver.trans hfailed
    · exact hdeliver.trans (hfailed.trans (leaves_killAndWait _ _))
  · split
    · exact hdeliver
    · have htimers := hdeliver.trans (leaves_timers (s.deliver cfg i) i)
      split
      · exact htimers.trans (leaves_childExited _ i _)
      · split <;> exact htimers.trans (leaves_channels _ cfg _ i)

theorem leaves_cleanup (final : WaitStatus) : Leaves s (s.cleanup cfg final) := by
  have hleft : Leaves s { s with trace := s.trace ++ [.loopLeft] } :=
    .of_acts _ rfl rfl (by simp [Act.uses])
  have hclose : ∀ t : Session, Leaves t { t with
      trace := t.trace ++ [.closed .pty] ++
        (if cfg.server = .listening then [.closed .interopListen] else []) ++
        (if cfg.server = .noDirectory then [] else [.socketFile false]) ++
        Session.closeSigchld cfg } := by
    intro t
    refine .of_acts ([.closed .pty] ++
        (if cfg.server = .listening then [.closed .interopListen] else []) ++
        (if cfg.server = .noDirectory then [] else [.socketFile false]) ++
        Session.closeSigchld cfg) (by simp only [List.append_assoc]) rfl ?_
    cases cfg.server <;> cases hp : cfg.pipe <;> simp [Session.closeSigchld, hp, Act.uses]
  unfold Session.cleanup
  dsimp only
  split
  · exact hleft.trans (hclose _)
  · exact (hleft.trans (leaves_killAndWait _ final)).trans (hclose _)

end Branches

/-! ## What follows a pass -/

theorem trace_goesOn {cfg : Setup} {before : List Pass} {i : Pass} {s s' : Session}
    (h : GoesOn cfg before s i s') (after : List Pass) (final : WaitStatus) :
    (∃ t, runLoop (Session.iterate cfg) s' after = .inl t ∧
      (runSession cfg (before ++ i :: after) final).trace = t.trace) ∨
    ∃ t, runLoop (Session.iterate cfg) s' after = .inr t ∧
      (runSession cfg (before ++ i :: after) final).trace = (t.cleanup cfg final).trace := by
  have hrun : runLoop (Session.iterate cfg) (Session.init cfg) (before ++ i :: after) =
      runLoop (Session.iterate cfg) s' after := by
    rw [runLoop_append _ h.reaches, runLoop, h.passes]
  unfold runSession
  rw [if_neg (not_not.mpr h.forked), h.alive]
  dsimp only
  rw [hrun]
  cases runLoop (Session.iterate cfg) s' after with
  | inl t => exact .inl ⟨t, rfl, rfl⟩
  | inr t => exact .inr ⟨t, rfl, rfl⟩

theorem leaves_run {cfg : Setup} {before : List Pass} {i : Pass} {s s' : Session}
    (h : GoesOn cfg before s i s') (after : List Pass) (final : WaitStatus) :
    ∃ t, Leaves s' t ∧ (runSession cfg (before ++ i :: after) final).trace = t.trace := by
  have hrun : After (Leaves s') (Leaves s') (runLoop (Session.iterate cfg) s' after) := by
    refine runLoop_inv (fun t j ht => ?_) (.refl s')
    have hstep := leaves_iterate t cfg j
    cases hr : Session.iterate cfg t j with
    | inl t' =>
      rw [hr] at hstep
      exact ht.trans hstep
    | inr t' =>
      rw [hr] at hstep
      exact ht.trans hstep
  obtain ⟨t, ht, htrace⟩ | ⟨t, ht, htrace⟩ := trace_goesOn h after final
  · rw [ht] at hrun
    exact ⟨t, hrun, htrace⟩
  · rw [ht] at hrun
    exact ⟨t.cleanup cfg final, Leaves.trans hrun (leaves_cleanup t cfg final), htrace⟩

/-- The trace only grows in a pass, and it starts with the call of `poll`. -/
theorem polled_iterate (cfg : Setup) (s : Session) (i : Pass) :
    After (fun s' => (s.deliver cfg i).trace <+: s'.trace)
      (fun s' => (s.deliver cfg i).trace <+: s'.trace) (Session.iterate cfg s i) := by
  have hpre : ∀ {s s' : Session}, InLoop s s' → s.trace <+: s'.trace := by
    rintro s s' ⟨acts, ht, -⟩
    exact ⟨acts, ht.symm⟩
  unfold Session.iterate
  dsimp only
  split
  · split <;> exact List.prefix_rfl
  · have hfailed : InLoop (s.deliver cfg i)
        { s.deliver cfg i with trace := (s.deliver cfg i).trace ++ [.pollFailed] } :=
      ⟨_, rfl, by simp [Act.resource?]⟩
    split
    · exact hpre hfailed
    · exact hpre (hfailed.trans (inLoop_of_inPass (inPass_killAndWait _ _)))
  · split
    · exact List.prefix_rfl
    · have htimers := inLoop_timers (s.deliver cfg i) i
      split
      · exact hpre (htimers.trans (inLoop_of_inPass (inPass_childExited _ i _)))
      · split <;> exact hpre (htimers.trans (inLoop_of_inPass (inPass_channels _ cfg _ i)))

theorem trace_cleanup (s : Session) (cfg : Setup) (final : WaitStatus) :
    s.trace <+: (s.cleanup cfg final).trace := by
  have hkill : ∀ t : Session, t.trace <+: (t.killAndWait final).trace := by
    intro t
    unfold Session.killAndWait
    rw [List.append_assoc]
    exact List.prefix_append _ _
  have hleft : s.trace <+: s.trace ++ [.loopLeft] := List.prefix_append _ _
  unfold Session.cleanup
  dsimp only
  simp only [List.append_assoc]
  refine List.IsPrefix.trans ?_ (List.prefix_append _ _)
  split
  · exact hleft
  · exact hleft.trans (hkill { s with trace := s.trace ++ [.loopLeft] })

/-- After a pass that is not the last one comes a call of `poll`. -/
theorem polls_next {cfg : Setup} {before after : List Pass} {i j : Pass} {s s' : Session}
    (h : GoesOn cfg before s i s') (final : WaitStatus) : ∃ acts,
    (runSession cfg (before ++ i :: j :: after) final).trace =
      s'.trace ++ .poll (s'.pollSet cfg) :: acts := by
  have hfirst := polled_iterate cfg s' j
  have hrun : After (fun t => (s'.deliver cfg j).trace <+: t.trace)
      (fun t => (s'.deliver cfg j).trace <+: t.trace)
      (runLoop (Session.iterate cfg) s' (j :: after)) := by
    rw [runLoop]
    cases hr : Session.iterate cfg s' j with
    | inr t =>
      rw [hr] at hfirst
      exact hfirst
    | inl t =>
      rw [hr] at hfirst
      refine runLoop_inv (fun u k hu => ?_) hfirst
      have hstep := polled_iterate cfg u k
      have hdeliver : u.trace <+: (u.deliver cfg k).trace := List.prefix_append _ _
      cases hs : Session.iterate cfg u k with
      | inl v =>
        rw [hs] at hstep
        exact hu.trans (hdeliver.trans hstep)
      | inr v =>
        rw [hs] at hstep
        exact hu.trans (hdeliver.trans hstep)
  have hgrow : (s'.deliver cfg j).trace <+: (runSession cfg (before ++ i :: j :: after) final).trace := by
    obtain ⟨t, ht, htrace⟩ | ⟨t, ht, htrace⟩ := trace_goesOn h (j :: after) final
    · rw [ht] at hrun
      rw [htrace]
      exact hrun
    · rw [ht] at hrun
      rw [htrace]
      exact List.IsPrefix.trans hrun (trace_cleanup t cfg final)
  obtain ⟨acts, hacts⟩ := hgrow
  refine ⟨acts, ?_⟩
  rw [← hacts]
  simp [Session.deliver]

/-! ## The end of a descriptor -/

section Pass

variable {cfg : Setup} {s s' : Session} {i : Pass} {rev : Revents}

/-- A pass that goes on after `poll` has reported events has run the branches. -/
theorem channels_of_iterate (hpoll : i.poll = .ready rev) (h : Session.iterate cfg s i = .inl s') :
    s' = ((s.deliver cfg i).timers i).channels cfg rev i := by
  unfold Session.iterate at h
  simp only [hpoll] at h
  split at h
  · cases h
  · split at h
    · cases h
    · split at h <;> cases h
      rfl

theorem hostDisconnected_interopBranch (s : Session) :
    (s.interopBranch cfg rev i).hostDisconnected = s.hostDisconnected := by
  unfold Session.interopBranch
  split
  · dsimp only
    split <;> rfl
  · rfl

theorem hostDisconnected_channels (s : Session) :
    (s.channels cfg rev i).hostDisconnected = (s.controlBranch rev i).hostDisconnected :=
  hostDisconnected_interopBranch _

theorem stdin_retired (h : s.ReportsEnd cfg i .stdin) (hpass : Session.iterate cfg s i = .inl s') :
    s'.stdinOpen = false := by
  cases h with
  | stdin hpoll hready hend =>
    rename_i rev
    rw [channels_of_iterate hpoll hpass]
    have hbranch : ((s.atStdin cfg rev i).stdinBranch rev i).stdinOpen = false := by
      have hr : i.stdinRecv.limit 4096 = .got [] ∨ i.stdinRecv.limit 4096 = .failed := by
        cases hl : i.stdinRecv.limit 4096 with
        | got bytes =>
          rw [hl] at hend
          exact .inl (congrArg _ (of_decide_eq_true hend))
        | failed => exact .inr rfl
        | wouldBlock => rw [hl] at hend; cases hend
        | interrupted => rw [hl] at hend; cases hend
      rcases hr with hr | hr <;> simp [Session.stdinBranch, hready, hr]
    exact ((leaves_ptyBranch _ rev i).trans <| (leaves_channelBranch _ cfg rev i).trans <|
      (leaves_interopBranch _ cfg rev i).trans (leaves_localBranch _ cfg rev i)).retired hbranch

theorem channel_polled (h : s.ReportsEnd cfg i .channel) (hpass : Session.iterate cfg s i = .inl s') :
    .channel ∈ s'.pollSet cfg := by
  cases h with
  | channel hpoll hready hend =>
    rename_i rev
    simp only [Bool.and_eq_true, Bool.not_eq_true'] at hready
    have hconn : s'.hostDisconnected = false := by
      rw [channels_of_iterate hpoll hpass, hostDisconnected_channels]
      exact hready.1.1
    simp [Session.pollSet, hconn, hready.1.2]

theorem interop_polled (h : s.ReportsEnd cfg i .interop) (hpass : Session.iterate cfg s i = .inl s') :
    .interop ∈ s'.pollSet cfg := by
  cases h with
  | interop hpoll hready hend =>
    rename_i rev
    simp only [Bool.and_eq_true, Bool.not_eq_true'] at hready
    have hconn : s'.hostDisconnected = false := by
      rw [channels_of_iterate hpoll hpass, hostDisconnected_channels]
      exact hready.1.1
    simp [Session.pollSet, hconn, hready.1.2]

end Pass

/-! ## Sessions -/

/-- Neither the echo channel nor the interop channel ends in a pass that another one follows. -/
def EndsLast (cfg : Setup) (passes : List Pass) : Prop :=
  ∀ before i j after s s', passes = before ++ i :: j :: after → GoesOn cfg before s i s' →
    ¬ s.ReportsEnd cfg i .channel ∧ ¬ s.ReportsEnd cfg i .interop

theorem endsLast_of_retires {cfg : Setup} {passes : List Pass} {final : WaitStatus}
    (h : Retires cfg passes final) : EndsLast cfg passes := by
  rintro before i j after s s' rfl hgo
  obtain ⟨acts, hacts⟩ := polls_next hgo final
  refine ⟨fun hend => ?_, fun hend => ?_⟩
  · have huse := h before i (j :: after) s s' .channel rfl hgo hend _ hacts _ List.mem_cons_self
    simp [Act.uses, channel_polled hend hgo.passes] at huse
  · have huse := h before i (j :: after) s s' .interop rfl hgo hend _ hacts _ List.mem_cons_self
    simp [Act.uses, interop_polled hend hgo.passes] at huse

theorem retires_of_endsLast {cfg : Setup} {passes : List Pass} (h : EndsLast cfg passes)
    (final : WaitStatus) : Retires cfg passes final := by
  rintro before i after s s' fd rfl hgo hend acts hacts
  cases after with
  | nil =>
    -- the session is still in its loop, in the state after this pass
    obtain ⟨t, ht, htrace⟩ | ⟨t, ht, -⟩ := trace_goesOn hgo [] final
    · cases ht
      rw [htrace] at hacts
      rw [List.self_eq_append_right.mp hacts]
      simp
    · cases ht
  | cons j after =>
    obtain ⟨hchannel, hinterop⟩ := h before i j after s s' rfl hgo
    cases hfd : fd with
    | channel => exact absurd (hfd ▸ hend) hchannel
    | interop => exact absurd (hfd ▸ hend) hinterop
    | stdin =>
      subst hfd
      obtain ⟨t, ht, htrace⟩ := leaves_run hgo (j :: after) final
      obtain ⟨acts', hacts', hnone⟩ := ht.adds (stdin_retired hend hgo.passes)
      rw [htrace, hacts'] at hacts
      rwa [← List.append_cancel_left hacts]
    | _ =>
      subst hfd
      cases hend

/-- A session retires the descriptors that have ended exactly if only the terminal input ends
before the last pass. -/
theorem retires_iff (cfg : Setup) (passes : List Pass) (final : WaitStatus) :
    Retires cfg passes final ↔ EndsLast cfg passes :=
  ⟨endsLast_of_retires, fun h => retires_of_endsLast h final⟩

def channelClosed : Pass where
  poll := .ready { channel := true }
  channelRecv := .got []

theorem closed_channel_polled_again : ¬ ∀ cfg passes final, Retires cfg passes final := by
  intro h
  obtain ⟨s', hgo⟩ : ∃ s', GoesOn {} [] (Session.init {}) channelClosed s' := ⟨_, rfl, rfl, rfl, rfl⟩
  have hend : (Session.init {}).ReportsEnd {} channelClosed .channel := .channel rfl rfl rfl
  exact (endsLast_of_retires (h {} [channelClosed, {}] (.exited 0)) [] channelClosed {} [] _ s' rfl
    hgo).1 hend

end WslFreeBSD.Bridge
