import WslFreeBSD.Bridge.Session

/-!
# The child of a session

Whatever the environment does, a session collects its child exactly once, signals it only
before that, and reports its exit status at most once and as the last thing it writes to the
control channel.

`Allowed p a` says after which history `p` an action `a` may be taken; it is the specification
of the shutdown protocol, in terms of the actions alone. `Inv` ties it to the flags of the
loop: the child is collected inside the loop only on the escalation path, which needs a
disconnect, so the branch that reports the exit status is never reached with the child
collected or the host gone. Most branches only take actions that the protocol does not
restrict (`Act.quiet`), and `Inv.quiet` covers them.
-/

namespace WslFreeBSD.Bridge

open Lib Protocol

namespace Act

def isKill : Act → Bool
  | .kill _ => true
  | _ => false

def isSighup : Act → Bool
  | .kill .hup => true
  | _ => false

def isCollected : Act → Bool
  | .collected _ => true
  | _ => false

def isDisconnect : Act → Bool
  | .disconnect _ => true
  | _ => false

def isControlWrite : Act → Bool
  | .controlWrite _ _ => true
  | _ => false

def isExitStatus : Act → Bool
  | .controlWrite (.exitStatus _) _ => true
  | _ => false

/-- Actions the shutdown protocol does not restrict, except that nothing is written to the
control channel after an exit status. -/
def quiet (a : Act) : Bool := !(a.isKill || a.isCollected || a.isDisconnect || a.isExitStatus)

end Act

/-- When `SIGKILL` may be sent: right after a failed `poll`, after the loop, or when the clock
was just read at or after the deadline of a disconnect. -/
def SigkillAllowed (p : List Act) : Prop :=
  p.getLast? = some .pollFailed ∨ .loopLeft ∈ p ∨
    ∃ deadline now, .disconnect deadline ∈ p ∧ p.getLast? = some (.now now) ∧ deadline ≤ now

/-- The shutdown protocol: which action may follow which history. -/
def Allowed (p : List Act) : Act → Prop
  | .kill .hup => (∀ a ∈ p, a.isCollected = false) ∧ ∀ a ∈ p, a.isSighup = false
  | .kill .kill => (∀ a ∈ p, a.isCollected = false) ∧ SigkillAllowed p
  | .collected _ => ∀ a ∈ p, a.isCollected = false
  | .controlWrite (.exitStatus code) _ =>
    (∃ status, .collected status ∈ p ∧ code = status.exitCode) ∧
      (∀ a ∈ p, a.isDisconnect = false) ∧ ∀ a ∈ p, a.isExitStatus = false
  | .controlWrite _ _ => ∀ a ∈ p, a.isExitStatus = false
  | _ => True

theorem allowed_of_quiet {p : List Act} {a : Act} (ha : a.quiet = true)
    (hp : ∀ b ∈ p, b.isExitStatus = false) : Allowed p a := by
  cases a with
  | controlWrite m taken =>
    cases m with
    | exitStatus code => cases ha
    | windowSizeChanged rows cols => exact hp
    | nack seq => exact hp
    | relayed m => exact hp
  | kill sig => cases ha
  | collected status => cases ha
  | _ => trivial

theorem quiet_not_exitStatus {a : Act} (ha : a.quiet = true) : a.isExitStatus = false := by
  cases h : a.isExitStatus with
  | false => rfl
  | true => simp [Act.quiet, h] at ha

theorem preceded_append_quiet {t acts : List Act} (h : Preceded Allowed t)
    (ht : ∀ a ∈ t, a.isExitStatus = false) (hq : ∀ a ∈ acts, a.quiet = true) :
    Preceded Allowed (t ++ acts) := by
  refine h.append fun p a q hacts => ?_
  subst hacts
  refine allowed_of_quiet (hq a (by simp)) fun b hb => ?_
  rcases List.mem_append.mp hb with hb | hb
  · exact ht b hb
  · exact quiet_not_exitStatus (hq b (by simp [hb]))

theorem absent_append {A : Act → Bool} {t acts : List Act} (ht : ∀ a ∈ t, A a = false)
    (hacts : ∀ a ∈ acts, A a = false) : ∀ a ∈ t ++ acts, A a = false := by
  intro a ha
  rcases List.mem_append.mp ha with ha | ha
  · exact ht a ha
  · exact hacts a ha

/-! ## The invariant -/

/-- The part of the state the shutdown protocol looks at. -/
def Session.flags (s : Session) : Bool × Bool × Bool × Bool × Bool × Int :=
  (s.childReaped, s.childGone, s.sessionDone, s.sighupSent, s.hostDisconnected, s.shutdownDeadline)

/-- The flags describe the history. -/
structure Inv (s : Session) : Prop where
  orderly : Preceded Allowed s.trace
  gone : s.childGone = s.childReaped
  done : s.sessionDone = s.childReaped
  collected : s.trace.countP Act.isCollected = if s.childReaped then 1 else 0
  noExit : ∀ a ∈ s.trace, a.isExitStatus = false
  sighup : s.sighupSent = false → ∀ a ∈ s.trace, a.isSighup = false
  connected : s.hostDisconnected = false → ∀ a ∈ s.trace, a.isDisconnect = false
  deadline : s.hostDisconnected = true → .disconnect s.shutdownDeadline ∈ s.trace
  reaped : s.childReaped = true → s.hostDisconnected = true

theorem Inv.noCollected {s : Session} (h : Inv s) (hr : s.childReaped = false) :
    ∀ a ∈ s.trace, a.isCollected = false := by
  have hc := h.collected
  rw [hr, if_neg (by simp), List.countP_eq_zero] at hc
  intro a ha
  simpa using hc a ha

theorem Inv.quiet {s s' : Session} (h : Inv s) (acts : List Act)
    (ht : s'.trace = s.trace ++ acts) (hq : ∀ a ∈ acts, a.quiet = true)
    (hf : s'.flags = s.flags) : Inv s' := by
  simp only [Session.flags, Prod.mk.injEq] at hf
  obtain ⟨hr, hg, hd, hs, hh, hdl⟩ := hf
  have hnone : ∀ {A : Act → Bool}, (∀ a, a.quiet = true → A a = false) →
      (∀ a ∈ s.trace, A a = false) → ∀ a ∈ s'.trace, A a = false := by
    intro A hA hold
    rw [ht]
    exact absent_append hold fun a ha => hA a (hq a ha)
  have hcount : acts.countP Act.isCollected = 0 := by
    rw [List.countP_eq_zero]
    intro a ha hc
    have hquiet := hq a ha
    simp [Act.quiet, hc] at hquiet
  refine ⟨ht ▸ preceded_append_quiet h.orderly h.noExit hq, ?_, ?_, ?_, ?_, ?_, ?_, ?_, ?_⟩
  · rw [hg, hr, h.gone]
  · rw [hd, hr, h.done]
  · rw [ht, List.countP_append, hcount, hr, h.collected, Nat.add_zero]
  · exact hnone (fun a => quiet_not_exitStatus) h.noExit
  · intro hno
    refine hnone (fun a ha => ?_) (h.sighup (hs ▸ hno))
    cases a with
    | kill sig => cases ha
    | _ => rfl
  · intro hno
    refine hnone (fun a ha => ?_) (h.connected (hh ▸ hno))
    cases a with
    | disconnect d => cases ha
    | _ => rfl
  · intro hyes
    rw [ht, hdl]
    exact List.mem_append_left _ (h.deadline (hh ▸ hyes))
  · intro hyes
    rw [hh]
    exact h.reaped (hr ▸ hyes)

/-! ## Every branch keeps the invariant -/

theorem Inv.emit {s : Session} (h : Inv s) {acts : List Act} (hq : ∀ a ∈ acts, a.quiet = true) :
    Inv { s with trace := s.trace ++ acts } := h.quiet _ rfl hq rfl

theorem recvActs_quiet (fd : Fd) (r : Option RecvResult) :
    ∀ a ∈ Session.recvActs fd r, a.quiet = true := by
  intro a ha
  obtain ⟨x, rfl⟩ := mem_recvActs ha
  rfl

theorem Inv.deliver {s : Session} (h : Inv s) (cfg : Setup) (i : Pass) : Inv (s.deliver cfg i) := by
  refine h.quiet [.poll (s.pollSet cfg)] rfl ?_ rfl
  intro a ha
  rw [List.mem_singleton.mp ha]
  rfl

theorem Inv.sizeCheck {s : Session} (h : Inv s) (i : Pass) : Inv (s.sizeCheck i) := by
  refine h.quiet _ rfl (fun a ha => ?_) rfl
  obtain ⟨rows, cols, rfl⟩ := mem_sizeCheckActs ha
  rfl

theorem Inv.stdinBranch {s : Session} (h : Inv s) (rev : Revents) (i : Pass) :
    Inv (s.stdinBranch rev i) := by
  refine h.quiet _ rfl (fun a ha => ?_) rfl
  obtain ⟨r, rfl⟩ | ⟨buf, taken, rfl⟩ := mem_stdinActs ha <;> rfl

theorem Inv.ptyBranch {s : Session} (h : Inv s) (rev : Revents) (i : Pass) :
    Inv (s.ptyBranch rev i) := by
  refine h.quiet _ rfl (fun a ha => ?_) rfl
  obtain ⟨r, rfl⟩ | ⟨buf, taken, rfl⟩ := mem_ptyActs ha <;> rfl

theorem Inv.channelBranch {s : Session} (h : Inv s) (cfg : Setup) (rev : Revents) (i : Pass) :
    Inv (s.channelBranch cfg rev i) := by
  refine h.quiet _ rfl (fun a ha => ?_) rfl
  obtain ⟨r, rfl⟩ | ⟨buf, taken, rfl⟩ := mem_channelActs ha <;> rfl

theorem Inv.interopBranch {s : Session} (h : Inv s) (cfg : Setup) (rev : Revents) (i : Pass) :
    Inv (s.interopBranch cfg rev i) := by
  unfold Session.interopBranch
  split
  · have hrecv : Inv (s.interopReceived (interopTryRead s.ir s.interopIn i.interopRecv)) :=
      h.quiet _ rfl (recvActs_quiet _ _) rfl
    dsimp only
    split
    · refine hrecv.quiet _ rfl ?_ rfl
      intro a ha
      rw [List.mem_singleton.mp ha]
      rfl
    · exact hrecv
  · exact h

theorem Inv.localBranch {s : Session} (h : Inv s) (cfg : Setup) (rev : Revents) (i : Pass) :
    Inv (s.localBranch cfg rev i) := by
  refine h.quiet _ rfl (fun a ha => ?_) rfl
  obtain ⟨seq, result, rfl⟩ | ⟨m, taken, rfl⟩ := mem_localActs ha <;> rfl

/-- The shutdown starts while the child is there: `SIGHUP` goes to a child that has not been
collected and has not had one. -/
theorem Inv.disconnect {s : Session} (h : Inv s) (hh : s.hostDisconnected = false) (time : Int) :
    Inv (s.disconnect time) := by
  have hr : s.childReaped = false := by
    cases hr : s.childReaped with
    | false => rfl
    | true => rw [h.reaped hr] at hh; cases hh
  have hnone := h.noCollected hr
  have hdisc : Preceded Allowed (s.trace ++ [.disconnect (time + 5)]) := h.orderly.concat trivial
  have hcoll := h.collected
  cases hs : s.sighupSent with
  | true =>
    have heq : s.disconnect time = { s with
        hostDisconnected := true
        sighupSent := true
        shutdownDeadline := time + 5
        trace := s.trace ++ [.disconnect (time + 5)] } := by
      simp [Session.disconnect, hs]
    rw [heq]
    exact ⟨hdisc, h.gone, h.done, by rw [List.countP_append, hcoll]; rfl,
      absent_append h.noExit (by simp [Act.isExitStatus]), by simp, by simp, by simp, fun _ => rfl⟩
  | false =>
    have heq : s.disconnect time = { s with
        hostDisconnected := true
        sighupSent := true
        shutdownDeadline := time + 5
        trace := s.trace ++ [.disconnect (time + 5), .kill .hup] } := by
      simp [Session.disconnect, hs]
    rw [heq]
    refine ⟨?_, h.gone, h.done, by rw [List.countP_append, hcoll]; rfl,
      absent_append h.noExit (by simp [Act.isExitStatus]), by simp, by simp, by simp, fun _ => rfl⟩
    have := hdisc.concat (a := .kill .hup)
      ⟨absent_append hnone (by simp [Act.isCollected]), absent_append (h.sighup hs) (by simp [Act.isSighup])⟩
    rwa [List.append_assoc] at this

theorem Inv.controlHandled {s : Session} (h : Inv s) (i : Pass) : Inv (s.controlHandled i) := by
  refine h.quiet _ rfl ?_ rfl
  intro a ha
  rcases List.mem_cons.mp ha with rfl | ha
  · rfl
  · obtain ⟨c, rfl⟩ | rfl | ⟨target, rfl⟩ | ⟨seq, taken, rfl⟩ := mem_controlDispatch ha <;> rfl

theorem Inv.controlBranch {s : Session} (h : Inv s) (rev : Revents) (i : Pass) :
    Inv (s.controlBranch rev i) := by
  unfold Session.controlBranch
  split
  · exact h
  · rename_i hcond
    have hh : s.hostDisconnected = false := by
      cases hd : s.hostDisconnected with
      | false => rfl
      | true => simp [hd] at hcond
    have hrecv : Inv (s.controlReceived (controlTryRead s.cr s.controlIn i.controlRecv)) :=
      h.quiet _ rfl (recvActs_quiet _ _) rfl
    dsimp only
    split
    · exact hrecv.disconnect hh _
    · exact hrecv
    · -- the message is handled first; `TerminateInstance` then disconnects
      have hhandled := hrecv.controlHandled i
      split
      · exact hhandled.disconnect hh _
      · exact hhandled

theorem Inv.channels {s : Session} (h : Inv s) (cfg : Setup) (rev : Revents) (i : Pass) :
    Inv (s.channels cfg rev i) :=
  ((((((h.controlBranch rev i).stdinBranch rev i).ptyBranch rev i).channelBranch cfg rev
    i).interopBranch cfg rev i).localBranch cfg rev i)

/-- The escalation kills a child that has not been collected, right after the clock was read
at or after the deadline. -/
theorem Inv.escalate {s : Session} (h : Inv s) (i : Pass) (hnow : s.trace.getLast? = some (.now i.now)) :
    Inv (s.escalate i) := by
  unfold Session.escalate
  split
  · rename_i hcond
    obtain ⟨hh, hr, -, hdl⟩ := hcond
    have hr' : s.childReaped = false := by simpa using hr
    have hnone := h.noCollected hr'
    have hkill : Preceded Allowed (s.trace ++ [.kill .kill]) :=
      h.orderly.concat ⟨hnone, .inr (.inr ⟨_, _, h.deadline hh, hnow, hdl⟩)⟩
    have hcoll := h.collected
    split
    · rename_i status hw
      refine ⟨?_, rfl, rfl, ?_, absent_append h.noExit (by simp [Act.isExitStatus]),
        fun hs => absent_append (h.sighup hs) (by simp [Act.isSighup]),
        fun hd => absent_append (h.connected hd) (by simp [Act.isDisconnect]),
        fun hd => List.mem_append_left _ (h.deadline hd), fun _ => hh⟩
      · have := hkill.concat (a := .collected status) (absent_append hnone (by simp [Act.isCollected]))
        rwa [List.append_assoc] at this
      · change (s.trace ++ [Act.kill .kill, Act.collected status]).countP Act.isCollected = 1
        rw [List.countP_append, hcoll, hr']
        rfl
    · refine ⟨hkill, h.gone, h.done, ?_, absent_append h.noExit (by simp [Act.isExitStatus]),
        fun hs => absent_append (h.sighup hs) (by simp [Act.isSighup]),
        fun hd => absent_append (h.connected hd) (by simp [Act.isDisconnect]),
        fun hd => List.mem_append_left _ (h.deadline hd), h.reaped⟩
      change (s.trace ++ [Act.kill .kill]).countP Act.isCollected = _
      rw [List.countP_append, hcoll]
      rfl
  · exact h

theorem Inv.timers {s : Session} (h : Inv s) (i : Pass) : Inv (s.timers i) := by
  refine Inv.sizeCheck (Inv.escalate (h.emit ?_) i ?_) i
  · intro a ha
    rw [List.mem_singleton.mp ha]
    rfl
  · exact List.getLast?_concat

/-! ## Leaving the loop -/

/-- What is known when the loop is left. -/
structure Left (s : Session) : Prop where
  orderly : Preceded Allowed s.trace
  gone : s.childGone = s.childReaped
  collected : s.trace.countP Act.isCollected = if s.childReaped then 1 else 0

theorem Inv.left {s : Session} (h : Inv s) : Left s := ⟨h.orderly, h.gone, h.collected⟩

theorem Left.noCollected {s : Session} (h : Left s) (hr : s.childReaped = false) :
    ∀ a ∈ s.trace, a.isCollected = false := by
  have hc := h.collected
  rw [hr, if_neg (by simp), List.countP_eq_zero] at hc
  intro a ha
  simpa using hc a ha

/-- `kill` and a blocking `waitpid`, for a child that has not been collected. -/
theorem Left.killAndWait {s : Session} (h : Left s) (hr : s.childReaped = false)
    (hk : SigkillAllowed s.trace) (status : WaitStatus) : Left (s.killAndWait status) := by
  have hnone := h.noCollected hr
  have hg : s.childGone = false := h.gone.trans hr
  have heq : s.killAndWait status = { s with
      childReaped := true
      childGone := true
      trace := s.trace ++ [.kill .kill] ++ [.collected status] } := by
    simp [Session.killAndWait, hg]
  rw [heq]
  have hkill : Preceded Allowed (s.trace ++ [.kill .kill]) := h.orderly.concat ⟨hnone, hk⟩
  refine ⟨hkill.concat (absent_append hnone (by simp [Act.isCollected])), rfl, ?_⟩
  · have hcoll := h.collected
    change (s.trace ++ [Act.kill .kill] ++ [Act.collected status]).countP Act.isCollected = 1
    rw [List.countP_append, List.countP_append, hcoll, hr]
    rfl

theorem drainActs_quiet (connected : Bool) (reads : List (Bytes × List WriteResult)) :
    ∀ a ∈ Session.drainActs connected reads, a.quiet = true ∧ a.isDisconnect = false := by
  intro a ha
  obtain ⟨r, rfl⟩ | ⟨buf, taken, rfl⟩ := mem_drainActs ha <;> exact ⟨rfl, rfl⟩

theorem Inv.childExited {s : Session} (h : Inv s) (hr : s.childReaped = false) (i : Pass)
    (status : WaitStatus) : Left (s.childExited i status) := by
  have hnone := h.noCollected hr
  have hcoll := h.collected
  have hdrain := drainActs_quiet (!s.hostDisconnected) i.drain
  have h1 : Preceded Allowed (s.trace ++ [.collected status]) := h.orderly.concat hnone
  have hno1 : ∀ a ∈ s.trace ++ [.collected status], a.isExitStatus = false := by
    intro a ha
    rcases List.mem_append.mp ha with ha | ha
    · exact h.noExit a ha
    · rw [List.mem_singleton.mp ha]
      rfl
  have h2 : Preceded Allowed (s.trace ++ [.collected status] ++
      Session.drainActs (!s.hostDisconnected) i.drain) :=
    preceded_append_quiet h1 hno1 fun a ha => (hdrain a ha).1
  have hcount : (Session.drainActs (!s.hostDisconnected) i.drain).countP Act.isCollected = 0 := by
    rw [List.countP_eq_zero]
    intro a ha hc
    have hquiet := (hdrain a ha).1
    simp [Act.quiet, hc] at hquiet
  cases hh : s.hostDisconnected with
  | true =>
    have heq : (s.childExited i status).trace = s.trace ++ [.collected status] ++
        Session.drainActs (!s.hostDisconnected) i.drain := by
      simp [Session.childExited, Session.exitActs, hh]
    refine ⟨heq ▸ h2, rfl, ?_⟩
    rw [heq, List.countP_append, List.countP_append, hcount, hcoll, hr]
    rfl
  | false =>
    have heq : (s.childExited i status).trace = s.trace ++ [.collected status] ++
        Session.drainActs (!s.hostDisconnected) i.drain ++
        [.controlWrite (.exitStatus status.exitCode)
          (sendAll i.exitSend (ControlMessage.exitStatus status.exitCode).bytes).1] := by
      simp [Session.childExited, Session.exitActs, hh]
    refine ⟨heq ▸ h2.concat ⟨⟨status, by simp, rfl⟩, ?_, ?_⟩, rfl, ?_⟩
    · intro a ha
      rcases List.mem_append.mp ha with ha | ha
      · rcases List.mem_append.mp ha with ha | ha
        · exact h.connected hh a ha
        · rw [List.mem_singleton.mp ha]
          rfl
      · exact (hdrain a ha).2
    · intro a ha
      rcases List.mem_append.mp ha with ha | ha
      · exact hno1 a ha
      · exact quiet_not_exitStatus (hdrain a ha).1
    · rw [heq, List.countP_append, List.countP_append, List.countP_append, hcount, hcoll, hr]
      rfl

/-! ## Whole runs -/

/-- At the top of the loop the child has not been collected. -/
def AtPoll (s : Session) : Prop := Inv s ∧ s.childReaped = false

theorem Session.waitpidNohang_some {s : Session} {dead : Option WaitStatus} {status : WaitStatus}
    (h : s.waitpidNohang dead = some status) : s.childGone = false := by
  unfold Session.waitpidNohang at h
  split at h
  · cases h
  · rename_i hg
    simpa using hg

theorem iterate_atPoll (cfg : Setup) (s : Session) (i : Pass) (h : AtPoll s) :
    After AtPoll Left (s.iterate cfg i) := by
  have hd := h.1.deliver cfg i
  have hdr : (s.deliver cfg i).childReaped = false := h.2
  unfold Session.iterate
  dsimp only
  split
  · split
    · exact hd.left
    · exact ⟨hd, hdr⟩
  · rw [if_neg (by simpa using hdr)]
    have hpoll : Preceded Allowed ((s.deliver cfg i).trace ++ [.pollFailed]) :=
      hd.orderly.concat trivial
    refine Left.killAndWait (s := { s.deliver cfg i with trace := _ }) ⟨hpoll, hd.gone, ?_⟩ hdr ?_ _
    · have hc := hd.collected
      change ((s.deliver cfg i).trace ++ [Act.pollFailed]).countP Act.isCollected = _
      rw [List.countP_append, hc]
      rfl
    · exact .inl List.getLast?_concat
  · rename_i rev hpoll
    split
    · exact hd.left
    · have ht := hd.timers i
      split
      · rename_i status hw
        have hgone : ((s.deliver cfg i).timers i).childGone = false := by
          unfold Session.sigchld at hw
          split at hw
          · exact Session.waitpidNohang_some hw
          · cases hw
        exact ht.childExited (ht.gone.symm.trans hgone) i status
      · have hc := ht.channels cfg rev i
        split
        · exact hc.left
        · rename_i hdone
          refine ⟨hc, ?_⟩
          rw [← hc.done]
          simpa using hdone

/-- Actions that are allowed after every history. -/
def Act.free : Act → Bool
  | .kill _ => false
  | .collected _ => false
  | .controlWrite _ _ => false
  | .disconnect _ => false
  | _ => true

theorem allowed_of_free {p : List Act} {a : Act} (ha : a.free = true) : Allowed p a := by
  cases a with
  | kill sig => cases ha
  | collected status => cases ha
  | controlWrite m taken => cases ha
  | _ => trivial

theorem preceded_append_free {t acts : List Act} (h : Preceded Allowed t)
    (hf : ∀ a ∈ acts, a.free = true) : Preceded Allowed (t ++ acts) := by
  refine h.append fun p a q hacts => ?_
  exact allowed_of_free (hf a (by simp [hacts]))

theorem countP_free {acts : List Act} (hf : ∀ a ∈ acts, a.free = true) :
    acts.countP Act.isCollected = 0 := by
  rw [List.countP_eq_zero]
  intro a ha hc
  have hfree := hf a ha
  cases a with
  | collected status => cases hfree
  | _ => cases hc

theorem closeSigchld_free (cfg : Setup) : ∀ a ∈ Session.closeSigchld cfg, a.free = true := by
  unfold Session.closeSigchld
  intro a ha
  rcases List.mem_cons.mp ha with rfl | ha
  · rfl
  · split at ha
    · simp only [List.mem_cons, List.not_mem_nil, or_false] at ha
      rcases ha with rfl | rfl <;> rfl
    · cases ha

theorem init_free (cfg : Setup) : ∀ a ∈ (Session.init cfg).trace, a.free = true := by
  intro a ha
  obtain ⟨fd, rfl⟩ | rfl | rfl := mem_initTrace ha <;> rfl

theorem atPoll_init (cfg : Setup) : AtPoll (Session.init cfg) := by
  have hfree := init_free cfg
  have habsent : ∀ {A : Act → Bool}, (∀ a, A a = true → a.free = false) →
      ∀ a ∈ (Session.init cfg).trace, A a = false := by
    intro A hA a ha
    cases hAa : A a with
    | false => rfl
    | true =>
      have hno := hA a hAa
      rw [hfree a ha] at hno
      cases hno
  refine ⟨⟨?_, rfl, rfl, countP_free hfree, ?_, ?_, ?_, ?_, ?_⟩, rfl⟩
  · exact preceded_append_free (t := []) Preceded.nil hfree
  · refine habsent fun a ha => ?_
    cases a with
    | controlWrite m taken => rfl
    | _ => cases ha
  · intro _
    refine habsent fun a ha => ?_
    cases a with
    | kill sig => rfl
    | _ => cases ha
  · intro _
    refine habsent fun a ha => ?_
    cases a with
    | disconnect d => rfl
    | _ => cases ha
  · intro hno
    cases hno
  · intro hno
    cases hno

theorem Left.emitFree {s : Session} (h : Left s) {acts : List Act}
    (hf : ∀ a ∈ acts, a.free = true) : Left { s with trace := s.trace ++ acts } := by
  refine ⟨preceded_append_free h.orderly hf, h.gone, ?_⟩
  have hcoll := h.collected
  change (s.trace ++ acts).countP Act.isCollected = _
  rw [List.countP_append, countP_free hf, Nat.add_zero, hcoll]

theorem Left.cleanup {s : Session} (h : Left s) (cfg : Setup) (final : WaitStatus) :
    Left (s.cleanup cfg final) ∧ (s.cleanup cfg final).childReaped = true := by
  have hleft : Left { s with trace := s.trace ++ [.loopLeft] } :=
    h.emitFree fun a ha => by rw [List.mem_singleton.mp ha]; rfl
  have hclose : ∀ a ∈ [Act.closed .pty] ++
      (if cfg.server = .listening then [.closed .interopListen] else []) ++
      (if cfg.server = .noDirectory then [] else [.socketFile false]) ++
      Session.closeSigchld cfg, a.free = true := by
    intro a ha
    simp only [List.mem_append] at ha
    rcases ha with ((ha | ha) | ha) | ha
    · rw [List.mem_singleton.mp ha]
      rfl
    · split at ha
      · rw [List.mem_singleton.mp ha]
        rfl
      · cases ha
    · split at ha
      · cases ha
      · rw [List.mem_singleton.mp ha]
        rfl
    · exact closeSigchld_free cfg a ha
  cases hr : s.childReaped with
  | true =>
    have heq : s.cleanup cfg final = { s with trace := s.trace ++ [.loopLeft] ++ ([.closed .pty] ++
        (if cfg.server = .listening then [.closed .interopListen] else []) ++
        (if cfg.server = .noDirectory then [] else [.socketFile false]) ++
        Session.closeSigchld cfg) } := by
      simp [Session.cleanup, hr]
    rw [heq]
    exact ⟨hleft.emitFree hclose, hr⟩
  | false =>
    have heq : s.cleanup cfg final =
        { ({ s with trace := s.trace ++ [.loopLeft] } : Session).killAndWait final with
          trace := (({ s with trace := s.trace ++ [.loopLeft] } : Session).killAndWait final).trace ++
            ([.closed .pty] ++
            (if cfg.server = .listening then [.closed .interopListen] else []) ++
            (if cfg.server = .noDirectory then [] else [.socketFile false]) ++
            Session.closeSigchld cfg) } := by
      simp [Session.cleanup, hr]
    rw [heq]
    have hkilled := hleft.killAndWait hr (.inr (.inl (by simp))) final
    exact ⟨hkilled.emitFree hclose, rfl⟩

/-- What the history of a session that has returned looks like. -/
structure Orderly (t : List Act) : Prop where
  collected : t.countP Act.isCollected = 1
  noKillAfter : t.Pairwise fun a b => a.isCollected = true → b.isKill = false
  sighup : t.countP Act.isSighup ≤ 1
  sigkill : ∀ p q, t = p ++ .kill .kill :: q → SigkillAllowed p
  exitStatus : t.countP Act.isExitStatus ≤ 1
  exitCode : ∀ code taken, .controlWrite (.exitStatus code) taken ∈ t →
    ∃ status, .collected status ∈ t ∧ code = status.exitCode
  lastWrite : t.Pairwise fun a b => a.isExitStatus = true → b.isControlWrite = false
  connected : t.Pairwise fun a b => a.isDisconnect = true → b.isExitStatus = false

theorem orderly_of_preceded {t : List Act} (h : Preceded Allowed t)
    (hc : t.countP Act.isCollected = 1) : Orderly t where
  collected := hc
  noKillAfter := by
    refine h.pairwise fun p a ha b hb hbc => ?_
    cases a with
    | kill sig =>
      cases sig <;> rw [ha.1 b hb] at hbc <;> cases hbc
    | _ => rfl
  sighup := by
    refine h.countP_le_one fun p a ha hs b hb => ?_
    cases a with
    | kill sig =>
      cases sig with
      | hup => exact ha.2 b hb
      | kill => cases hs
    | _ => cases hs
  sigkill := fun p q ht => (h p _ q ht).2
  exitStatus := by
    refine h.countP_le_one fun p a ha hs b hb => ?_
    cases a with
    | controlWrite m taken =>
      cases m with
      | exitStatus code => exact ha.2.2 b hb
      | _ => cases hs
    | _ => cases hs
  exitCode := by
    intro code taken hmem
    obtain ⟨p, q, rfl⟩ := List.append_of_mem hmem
    obtain ⟨⟨status, hs, hcode⟩, -⟩ := h p _ q rfl
    exact ⟨status, List.mem_append_left _ hs, hcode⟩
  lastWrite := by
    refine h.pairwise fun p a ha b hb hbe => ?_
    cases a with
    | controlWrite m taken =>
      have hno : b.isExitStatus = false := by
        cases m with
        | exitStatus code => exact ha.2.2 b hb
        | _ => exact ha b hb
      rw [hno] at hbe
      cases hbe
    | _ => rfl
  connected := by
    refine h.pairwise fun p a ha b hb hbd => ?_
    cases a with
    | controlWrite m taken =>
      cases m with
      | exitStatus code =>
        rw [ha.2.1 b hb] at hbd
        cases hbd
      | _ => rfl
    | _ => rfl

theorem orderly_earlyExit (cfg : Setup) (status : WaitStatus) {t : List Act} {v : Int}
    (h : earlyExit cfg status = .returned t v) : Orderly t := by
  obtain ⟨rfl, -⟩ := Outcome.returned.inj h
  have hopen : Preceded Allowed (Session.init cfg).trace :=
    preceded_append_free (t := []) Preceded.nil (init_free cfg)
  have hnone := (atPoll_init cfg).1.noCollected rfl
  have hcollect : Preceded Allowed ((Session.init cfg).trace ++ [.collected status]) :=
    hopen.concat hnone
  have hexit : Preceded Allowed ((Session.init cfg).trace ++ [.collected status] ++
      [.controlWrite (.exitStatus status.exitCode) (sendAll cfg.earlySend
        (ControlMessage.exitStatus status.exitCode).bytes).1]) := by
    refine hcollect.concat ⟨⟨status, by simp, rfl⟩, ?_, ?_⟩
    · exact absent_append ((atPoll_init cfg).1.connected rfl) (by simp [Act.isDisconnect])
    · exact absent_append (atPoll_init cfg).1.noExit (by simp [Act.isExitStatus])
  have hclose : ∀ a ∈ Act.closed .pty :: Session.closeSigchld cfg, a.free = true := by
    intro a ha
    rcases List.mem_cons.mp ha with rfl | ha
    · rfl
    · exact closeSigchld_free cfg a ha
  have hall := preceded_append_free hexit hclose
  have hcount := (atPoll_init cfg).1.collected
  refine orderly_of_preceded ?_ ?_
  · simpa [Session.init] using hall
  · have hclosed := countP_free hclose
    have hsplit : openActs cfg ++ [Act.opened .pty, .collected status,
        .controlWrite (.exitStatus status.exitCode) (sendAll cfg.earlySend
          (ControlMessage.exitStatus status.exitCode).bytes).1, .closed .pty] ++
          Session.closeSigchld cfg = (Session.init cfg).trace ++ ([Act.collected status,
        .controlWrite (.exitStatus status.exitCode) (sendAll cfg.earlySend
          (ControlMessage.exitStatus status.exitCode).bytes).1] ++
          (.closed .pty :: Session.closeSigchld cfg)) := by
      simp [Session.init]
    rw [hsplit, List.countP_append, List.countP_append, hclosed, hcount]
    rfl

/-- On every return after a successful `forkpty` the child has been collected exactly once and
was never signalled after that, and the signals and the exit status follow the shutdown
protocol. -/
theorem runSession_orderly (cfg : Setup) (hfork : cfg.forkpty = true) (passes : List Pass)
    (final : WaitStatus) {t : List Act} {v : Int}
    (h : runSession cfg passes final = .returned t v) : Orderly t := by
  unfold runSession at h
  rw [if_neg (by simp [hfork])] at h
  split at h
  · exact orderly_earlyExit cfg _ h
  · have hrun : After AtPoll Left (runLoop (Session.iterate cfg) (Session.init cfg) passes) :=
      runLoop_inv (iterate_atPoll cfg) (atPoll_init cfg)
    cases hr : runLoop (Session.iterate cfg) (Session.init cfg) passes with
    | inl s =>
      rw [hr] at h
      cases h
    | inr s =>
      rw [hr] at h hrun
      obtain ⟨rfl, -⟩ := Outcome.returned.inj h
      obtain ⟨hend, hreaped⟩ := Left.cleanup hrun cfg final
      have hcoll := hend.collected
      rw [hreaped] at hcoll
      exact orderly_of_preceded hend.orderly hcoll

/-- The host closes the control channel, the child survives `SIGHUP` past the deadline, and is
collected by the SIGCHLD branch one pass after the `SIGKILL`. -/
def hangupPasses : List Pass :=
  [{ controlClose := true, poll := .ready { control := true } },
   { now := 5 },
   { poll := .ready { sigchld := true }, sigchldWait := some (.signaled 9) }]

theorem runSession_orderly_hangup :
    ∃ t v, runSession {} hangupPasses (.exited 0) = .returned t v ∧ Orderly t :=
  ⟨_, _, rfl, runSession_orderly {} rfl hangupPasses (.exited 0) rfl⟩

end WslFreeBSD.Bridge
