import WslFreeBSD.Hvinit.EventLoop

/-!
# Replies on the init channel

The messages that the process sends on the init channel are seen with `initMessage`. A handler of a
request sends one message, its reply, and every other handler sends nothing
(`shows_dispatch`), whether the message is well formed or too small. In a run of the event loop the
requests are answered in order, up to the reply to `TerminateInstance`, which is the last message
(`one_reply_per_request`).
-/

namespace WslFreeBSD.Hvinit

open Lib Protocol

/-! ## Messages of the host and replies -/

/-- The requests: the types of messages that are answered. -/
def requestTypes : List Nat :=
  [LxInitMessageRemountDrvfs, LxInitMessageTerminateInstance, LxInitMessageKernelVersion,
    LxInitMessageAddVirtioFsDevice, LxInitMessageRemountVirtioFsDevice, LxInitMessageStartDistroInit,
    LxInitMessageStopPlan9Server, LxInitMessageQueryNetworkingMode, LxInitMessageQueryVmId]

def isRequest (m : Bytes) : Bool := messageType m ∈ requestTypes

def isTerminate (m : Bytes) : Bool := messageType m = LxInitMessageTerminateInstance

def stringOffsets (m : Bytes) : List Nat :=
  if messageType m = LxInitMessageNetworkInformation then [20 + leAt 12 4 m, 20 + leAt 16 4 m]
  else if messageType m = LxInitMessageTimezoneInformation then [16 + leAt 12 4 m]
  else if messageType m = LxInitMessageAddVirtioFsDevice then [24 + leAt 16 4 m, 24 + leAt 20 4 m]
  else if messageType m = LxInitMessageRemountVirtioFsDevice then [20 + leAt 16 4 m]
  else []

/-- Every string of the message has its NUL inside the message. -/
def StringsTerminated (m : Bytes) : Prop := ∀ off ∈ stringOffsets m, off < m.length → 0 ∈ m.drop off

instance (m : Bytes) : Decidable (StringsTerminated m) :=
  inferInstanceAs (Decidable (∀ off ∈ stringOffsets m, _))

/-- A message of the host: at least a header, of the size that it announces, with its strings. -/
structure HostMessage (m : Bytes) : Prop where
  wellFormed : messageFormat.WellFormed m
  strings : StringsTerminated m

/-- A reply with the sequence number of the message, of the size that it announces. -/
structure IsReplyTo (m r : Bytes) : Prop where
  sequence : sequenceNumber r = sequenceNumber m
  size : messageSize r = r.length

def Replies (m : Bytes) (out : List Bytes) : Prop :=
  if isRequest m then ∃ r, out = [r] ∧ IsReplyTo m r else out = []

theorem HostMessage.length_lt {m : Bytes} (h : HostMessage m) : m.length < 2 ^ 32 := by
  have hsize : messageSize m = m.length := h.wellFormed.2
  exact hsize ▸ leAt_lt 4 4 m

theorem length_cString_lt {m : Bytes} {off : Nat} (h : 0 ∈ m.drop off) :
    off + (cString m off).length < m.length := by
  have hlt : (cString m off).length < (m.drop off).length := by
    refine Nat.lt_of_le_of_ne (List.takeWhile_sublist _).length_le fun heq => ?_
    have hall := List.takeWhile_eq_self_iff.mp
      ((List.takeWhile_prefix (fun b : UInt8 => decide (b ≠ 0))).eq_of_length heq)
    simpa using hall 0 h
  rw [List.length_drop] at hlt
  omega

/-! ## What is sent -/

def initMessage : (Σ e, Op.Answer e) → Option Bytes
  | ⟨.send .init m, _⟩ => some m
  | _ => none

theorem initMessage_hidden (e : Op) (r : Op.Answer e) (h : e.subsystem ≠ .channels) :
    initMessage ⟨e, r⟩ = none := by
  cases e with
  | send channel m => exact absurd rfl h
  | _ => rfl

def sent (t : InitTrace) : List Bytes := t.filterMap initMessage

theorem sent_append (t u : InitTrace) : sent (t ++ u) = sent t ++ sent u := List.filterMap_append

section Shows

variable {α β : Type} {p : InitProgram α} {q : α → InitProgram β} {m : Bytes}

def Silent (p : InitProgram α) : Prop := p.Shows initMessage fun _ out => out = []

/-- The program sends one message, a reply to `m`. -/
def Answers (m : Bytes) (p : InitProgram α) : Prop :=
  p.Shows initMessage fun _ out => ∃ r, out = [r] ∧ IsReplyTo m r

theorem Uses.silent {ss : List Subsystem} (hp : Uses ss p) (hss : Subsystem.channels ∉ ss) : Silent p :=
  hp.hidden initMessage_hidden hss

theorem silent_pure (a : α) : Silent (pure a : InitProgram α) := Program.shows_pure rfl

theorem silent_perform {e : Op} (h : e.subsystem ≠ .channels) :
    Silent (Program.perform e : InitProgram (Op.Answer e)) := by
  refine (uses_self e).silent ?_
  rw [List.mem_singleton]
  exact h.symm

theorem Silent.bind (hp : Silent p) (hq : ∀ a, Silent (q a)) : Silent (p >>= q) :=
  Program.Shows.after_hidden hp hq

theorem Silent.answers (hp : Silent p) (hq : ∀ a, Answers m (q a)) : Answers m (p >>= q) :=
  Program.Shows.after_hidden hp hq

theorem Answers.bind (hp : Answers m p) (hq : ∀ a, Silent (q a)) : Answers m (p >>= q) :=
  Program.Shows.before_hidden hp hq

theorem Answers.ite {c : Prop} [Decidable c] {p' : InitProgram α} (hp : Answers m p)
    (hp' : Answers m p') : Answers m (if c then p else p') :=
  Program.Shows.ite (fun _ => hp) fun _ => hp'

theorem answers_send {r : Bytes} (h : IsReplyTo m r) : Answers m (send .init r) :=
  Program.shows_perform fun _ => ⟨r, rfl, h⟩

end Shows

/-! ## Messages that are replies -/

theorem isReplyTo_header {m l : Bytes} {type size : Nat} (hsize : size < 2 ^ 32)
    (hl : 12 + l.length = size) : IsReplyTo m (header type size (sequenceNumber m) ++ l) := by
  refine ⟨sequenceNumber_header_append (sequenceNumber_lt m) _ _ _, ?_⟩
  rw [messageSize_header_append hsize, List.length_append, length_header, hl]

theorem isReplyTo_resultMessage (m : Bytes) (type result : Nat) :
    IsReplyTo m (resultMessage type (sequenceNumber m) result) :=
  isReplyTo_header (by decide) (by rw [length_leBytes])

theorem isReplyTo_textMessage {m fields text : Bytes} (type : Nat)
    (h : headerSize + fields.length + (text.length + 1) < 2 ^ 32) :
    IsReplyTo m (textMessage type (sequenceNumber m) fields text) := by
  unfold textMessage
  rw [Nat.mod_eq_of_lt h]
  refine isReplyTo_header h ?_
  simp only [headerSize, List.length_append, List.length_singleton]
  omega

/-! ## Handlers -/

section Handlers

variable (g : Globals) (m : Bytes)

theorem answers_sendResultInt32 (result : Int) :
    Answers m (sendResultInt32 (sequenceNumber m) result) :=
  answers_send (isReplyTo_resultMessage m _ _)

theorem answers_sendResultUint32 (result : Nat) :
    Answers m (sendResultUint32 (sequenceNumber m) result) :=
  answers_send (isReplyTo_resultMessage m _ _)

theorem answers_sendResultBool (result : Bool) :
    Answers m (sendResultBool (sequenceNumber m) result) :=
  answers_send (isReplyTo_resultMessage m _ _)

theorem answers_gnsHandleQueryNetworkingMode : Answers m (gnsHandleQueryNetworkingMode m) :=
  (silent_perform (by simp [Op.subsystem])).answers fun _ => answers_sendResultUint32 m _

theorem answers_gnsHandleQueryVmId : Answers m (gnsHandleQueryVmId m) := by
  have hguid : Silent (gnsGetVmGuidString guidPaths) :=
    (uses_gnsGetVmGuidString guidPaths).silent (by simp)
  exact hguid.answers fun guid => hguid.answers fun _ => answers_sendResultUint32 m _

theorem answers_handleRemountDrvfs : Answers m (handleRemountDrvfs g m) := by
  refine Answers.ite ?_ ?_
  · exact (answers_sendResultInt32 m _).bind fun _ => silent_pure g
  · refine Silent.answers ((uses_drvfsMountVolumes _ _ _ _ _ _ _).silent (by simp)) fun out => ?_
    exact (answers_sendResultInt32 m _).bind fun _ => silent_pure _

theorem answers_handleStopPlan9Server : Answers m (handleStopPlan9Server g m) := by
  refine Answers.ite ?_ ?_
  · exact (answers_sendResultBool m _).bind fun _ => silent_pure g
  · refine Silent.answers ((uses_plan9StopServer _ _).silent (by simp)) fun out => ?_
    exact (answers_sendResultBool m _).bind fun _ => silent_pure _

theorem answers_handleKernelVersion : Answers m (handleKernelVersion m) := by
  refine (silent_perform (by simp [Op.subsystem])).answers fun uts => ?_
  refine answers_send (isReplyTo_textMessage _ ?_)
  have hversion : ((uts.map Subtype.val).getD (ascii "unknown")).length < 256 := by
    cases uts with
    | none => decide
    | some release => exact release.2
  rw [length_leBytes]
  simp only [headerSize]
  omega

theorem answers_sendVirtioFsResponse {tag : Bytes} (h : 21 + tag.length < 2 ^ 32) :
    Answers m (sendVirtioFsResponse (sequenceNumber m) tag) := by
  refine answers_send (isReplyTo_textMessage _ ?_)
  simp only [headerSize, List.length_append, length_leBytes]
  omega

theorem answers_handleAddVirtioFsDevice : Answers m (handleAddVirtioFsDevice m) := by
  refine Answers.ite (answers_sendResultInt32 m _) ?_
  refine (silent_perform (by simp [Op.subsystem])).answers fun _ => ?_
  exact answers_sendVirtioFsResponse m (by decide)

theorem answers_handleStartDistroInit : Answers m (handleStartDistroInit g m) :=
  ((uses_bootCommand g).silent (by simp)).answers fun _ => answers_sendResultInt32 m _

theorem answers_handleTerminateInstance : Answers m (handleTerminateInstance g m) := by
  refine (answers_sendResultUint32 m 0).bind fun _ => ?_
  refine Silent.bind ((uses_gnsStopEngine _).silent (by simp)) fun gnsPid => ?_
  refine Silent.bind ((uses_plan9Shutdown _).silent (by simp)) fun plan9 => ?_
  refine Silent.bind ((uses_unmountEach _).silent (by simp)) fun _ => ?_
  exact (silent_perform (by simp [Op.subsystem])).bind fun _ => silent_pure _

end Handlers

theorem answers_handleRemountVirtioFsDevice {m : Bytes} (hm : HostMessage m)
    (htype : messageType m = LxInitMessageRemountVirtioFsDevice) :
    Answers m (handleRemountVirtioFsDevice m) := by
  have hlt := hm.length_lt
  unfold handleRemountVirtioFsDevice
  by_cases hsmall : messageSize m < 20
  · rw [if_pos hsmall]
    exact answers_sendResultInt32 m _
  · rw [if_neg hsmall]
    refine (silent_perform (by simp [Op.subsystem])).answers fun _ => ?_
    refine answers_sendVirtioFsResponse m ?_
    have hoffsets : stringOffsets m = [20 + leAt 16 4 m] := by
      unfold stringOffsets
      rw [htype]
      rfl
    have hstring := hm.strings (20 + leAt 16 4 m) (by simp [hoffsets])
    have hfixed : 20 ≤ m.length := by
      have hsize : messageSize m = m.length := hm.wellFormed.2
      omega
    by_cases hin : leAt 16 4 m < messageSize m - 20
    · have hsize : messageSize m = m.length := hm.wellFormed.2
      have hlength := length_cString_lt (hstring (by omega))
      rw [bufferText, if_pos hin]
      omega
    · rw [bufferText, if_neg hin]
      decide

theorem shows_dispatch (notifyOpen : Bool) (g : Globals) {m : Bytes} (hm : HostMessage m) :
    (dispatch notifyOpen g m).Shows initMessage fun _ out => Replies m out := by
  have hrequest : ∀ {p : InitProgram Globals}, isRequest m = true → Answers m p →
      p.Shows initMessage fun _ out => Replies m out := fun hreq hp =>
    hp.mono fun _ _ h => by rwa [Replies, if_pos hreq]
  have hother : ∀ {p : InitProgram Globals}, isRequest m = false → Silent p →
      p.Shows initMessage fun _ out => Replies m out := fun hreq hp =>
    hp.mono fun _ _ h => by rwa [Replies, if_neg (by simp [hreq])]
  have hkeep : ∀ {h : InitProgram Unit}, Silent h → Silent (keep g h) := fun hs =>
    hs.bind fun _ => silent_pure g
  have hkeepAnswers : ∀ {h : InitProgram Unit}, Answers m h → Answers m (keep g h) := fun ha =>
    ha.bind fun _ => silent_pure g
  have htype : ∀ {type}, messageType m = type → isRequest m = decide (type ∈ requestTypes) := by
    rintro type rfl
    rfl
  -- the cases of the `switch`, in its order
  refine Program.Shows.ite (fun h => hrequest (htype h) (answers_handleTerminateInstance g m)) fun h14 => ?_
  refine Program.Shows.ite (fun h => hother (htype h) (hkeep ?_)) fun _ => ?_
  · refine Program.Shows.ite (fun _ => silent_pure ()) fun _ => ?_
    exact Program.shows_perform fun _ => rfl
  refine Program.Shows.ite (fun h => hother (htype h) (hkeep ?_)) fun _ => ?_
  · exact (uses_gnsHandleNetworkInformation _ _ m).silent (by simp)
  refine Program.Shows.ite (fun h => hother (htype h) (hkeep ?_)) fun _ => ?_
  · exact (uses_timezoneHandleMessage m _).silent (by simp)
  refine Program.Shows.ite (fun h => hother (htype h) (hkeep ?_)) fun _ => ?_
  · exact (uses_gnsHandleStartSocketRelay m).silent (by simp)
  refine Program.Shows.ite (fun h => hrequest (htype h)
    (hkeepAnswers (answers_gnsHandleQueryNetworkingMode m))) fun h25 => ?_
  refine Program.Shows.ite (fun h => hrequest (htype h)
    (hkeepAnswers (answers_gnsHandleQueryVmId m))) fun h26 => ?_
  refine Program.Shows.ite (fun h => hrequest (htype h) (answers_handleRemountDrvfs g m)) fun h13 => ?_
  refine Program.Shows.ite (fun h => hrequest (htype h)
    (answers_handleStopPlan9Server g m)) fun h24 => ?_
  refine Program.Shows.ite (fun h => hrequest (htype h)
    (hkeepAnswers (answers_handleKernelVersion m))) fun h18 => ?_
  refine Program.Shows.ite (fun h => hrequest (htype h)
    (hkeepAnswers (answers_handleAddVirtioFsDevice m))) fun h19 => ?_
  refine Program.Shows.ite (fun h => hrequest (htype h)
    (hkeepAnswers (answers_handleRemountVirtioFsDevice hm h))) fun h21 => ?_
  refine Program.Shows.ite (fun h => hrequest (htype h)
    (hkeepAnswers (answers_handleStartDistroInit g m))) fun h22 => ?_
  refine hother ?_ (silent_pure g)
  simp [isRequest, requestTypes, h13, h14, h18, h19, h21, h22, h24, h25, h26]

/-! ## One pass -/

/-- Between two states the requests among `handled` are answered, one by one and in order. -/
def Answered (handled : List Bytes) (s s' : Init) : Prop :=
  ∃ out, sent s'.trace = sent s.trace ++ out ∧
    List.Forall₂ IsReplyTo (handled.filter isRequest) out

theorem Answered.refl (s : Init) : Answered [] s s :=
  ⟨[], (List.append_nil _).symm, List.Forall₂.nil⟩

theorem Answered.trans {handled handled' : List Bytes} {s s' s'' : Init} (h : Answered handled s s')
    (h' : Answered handled' s' s'') : Answered (handled ++ handled') s s'' := by
  obtain ⟨out, hout, hans⟩ := h
  obtain ⟨out', hout', hans'⟩ := h'
  refine ⟨out ++ out', by rw [hout', hout, List.append_assoc], ?_⟩
  rw [List.filter_append]
  exact List.rel_append hans hans'

namespace Init

variable (env : InitEnvironment) {s : Init}

theorem sent_exec {p : Globals → InitProgram Globals} {R : List Bytes → Prop}
    (hp : (p s.globals).Shows initMessage fun _ out => R out) :
    ∃ out, sent (s.exec env p).trace = sent s.trace ++ out ∧ R out := by
  obtain ⟨u, hu, hR⟩ := Program.Shows.run hp env s.trace
  refine ⟨u.filterMap initMessage, ?_, hR⟩
  change sent ((p s.globals).run env s.trace).2 = _
  rw [hu, sent_append]
  rfl

theorem answered_reap : Answered [] s (s.reap env) := by
  have hsilent : Silent (keep s.globals reapChildren) :=
    Silent.bind (uses_reapChildren.silent (by simp)) fun _ => silent_pure _
  obtain ⟨out, hout, rfl⟩ := sent_exec env (s := s) (p := fun g => keep g reapChildren) hsilent
  exact ⟨[], hout, List.Forall₂.nil⟩

theorem answered_exec {m : Bytes} (hm : HostMessage m) :
    Answered [m] s (s.exec env (dispatch s.notifyOpen · m)) := by
  obtain ⟨out, hout, hreplies⟩ := sent_exec env (s := s)
    (p := (dispatch s.notifyOpen · m)) (shows_dispatch s.notifyOpen s.globals hm)
  refine ⟨out, hout, ?_⟩
  unfold Replies at hreplies
  by_cases hreq : isRequest m
  · rw [if_pos hreq] at hreplies
    obtain ⟨r, rfl, hr⟩ := hreplies
    rw [List.filter_cons_of_pos hreq]
    exact List.Forall₂.cons hr List.Forall₂.nil
  · rw [if_neg hreq] at hreplies
    subst hreplies
    rw [List.filter_cons_of_neg hreq]
    exact List.Forall₂.nil

theorem receive_message {m rest : Bytes} (hm : messageFormat.WellFormed m)
    (hin : s.incoming = m ++ rest) : s.receive env true =
      if isTerminate m then
        .inr (.exited ({ s with incoming := rest }.exec env (dispatch s.notifyOpen · m)))
      else .inl ({ s with incoming := rest }.exec env (dispatch s.notifyOpen · m)) := by
  obtain ⟨hnot, hfirst, hsecond⟩ := Gns.gnsRecvAll_message hm rest
  have htype : messageType (m.take headerSize) = messageType m := leAt_take (by decide)
  unfold receive recvAll
  simp only [hin, hfirst, hsecond, if_neg hnot, List.take_append_drop, htype, isTerminate,
    decide_eq_true_eq]

end Init

/-- Nothing goes wrong with the channel in the pass. -/
def Wakeup.works : Wakeup → Bool
  | .interrupted => true
  | .failed => false
  | .ready _ readable arrives => !readable || arrives

def Wakeup.readable : Wakeup → Bool
  | .ready _ readable _ => readable
  | _ => false

/-- What a pass does when `pending` is what the host has still to say. -/
def PassSpec (pending : List Bytes) (s : Init) (w : Wakeup) : Init ⊕ Ended → Prop
  | .inl s' => ∃ handled rest, pending = handled ++ rest ∧ s'.incoming = rest.flatten ∧
      Answered handled s s' ∧ (∀ m ∈ handled, isTerminate m = false) ∧
      (w.works → handled.length = if w.readable then 1 else 0)
  | .inr (.exited s') => ∃ m rest, pending = m :: rest ∧ isTerminate m = true ∧ Answered [m] s s'
  | .inr (.left s') => Answered [] s s' ∧ (w.works → pending = [])

section Pass

variable (env : InitEnvironment) {pending : List Bytes}

theorem receive_spec {s₀ s : Init} (hms : ∀ m ∈ pending, HostMessage m)
    (hin : s.incoming = pending.flatten) (hans : Answered [] s₀ s) (sigchld arrives : Bool) :
    PassSpec pending s₀ (.ready sigchld true arrives) (s.receive env arrives) := by
  cases arrives with
  | false =>
    have hnone : Init.recvAll false headerSize s.incoming = none := by
      unfold Init.recvAll
      exact if_neg fun h => by simp at h
    rw [Init.receive, hnone]
    exact ⟨hans, fun hw => by simp [Wakeup.works] at hw⟩
  | true =>
    cases pending with
    | nil =>
      have hnone : Init.recvAll true headerSize s.incoming = none := by
        unfold Init.recvAll
        refine if_neg fun h => ?_
        have hlen := h.2
        rw [hin] at hlen
        simp [headerSize] at hlen
      rw [Init.receive, hnone]
      exact ⟨hans, fun _ => rfl⟩
    | cons m ms =>
      have hm := hms m List.mem_cons_self
      rw [Init.receive_message env hm.wellFormed hin]
      have hexec := hans.trans
        (Init.answered_exec env (s := { s with incoming := ms.flatten }) hm)
      by_cases hterm : isTerminate m
      · rw [if_pos hterm]
        exact ⟨m, ms, rfl, hterm, hexec⟩
      · rw [if_neg hterm]
        exact ⟨[m], ms, rfl, rfl, hexec, by simpa using hterm, fun _ => rfl⟩

theorem pass_spec {s : Init} (hms : ∀ m ∈ pending, HostMessage m)
    (hin : s.incoming = pending.flatten) (w : Wakeup) : PassSpec pending s w (s.pass env w) := by
  cases w with
  | interrupted =>
    exact ⟨[], pending, rfl, hin, Answered.refl s, by simp, fun _ => rfl⟩
  | failed => exact ⟨Answered.refl s, fun hw => by simp [Wakeup.works] at hw⟩
  | ready sigchld readable arrives =>
    obtain ⟨s', hs', hin', hans⟩ : ∃ s', (if sigchld then s.reap env else s) = s' ∧
        s'.incoming = pending.flatten ∧ Answered [] s s' := by
      cases sigchld with
      | false => exact ⟨s, rfl, hin, Answered.refl s⟩
      | true => exact ⟨s.reap env, rfl, hin, Init.answered_reap env⟩
    unfold Init.pass
    simp only [hs']
    cases readable with
    | false =>
      exact ⟨[], pending, rfl, hin', hans, by simp, fun _ => rfl⟩
    | true => exact receive_spec env hms hin' hans sigchld arrives

end Pass

/-! ## The whole run -/

/-- The messages up to the first `TerminateInstance`. -/
def untilTerminate : List Bytes → List Bytes
  | [] => []
  | m :: ms => if isTerminate m then [m] else m :: untilTerminate ms

theorem untilTerminate_append {handled : List Bytes} (h : ∀ m ∈ handled, isTerminate m = false)
    (rest : List Bytes) : untilTerminate (handled ++ rest) = handled ++ untilTerminate rest := by
  induction handled with
  | nil => rfl
  | cons m ms ih =>
    have hm := h m List.mem_cons_self
    rw [List.cons_append, untilTerminate, if_neg (by simp [hm]),
      ih fun m' hm' => h m' (List.mem_cons_of_mem _ hm'), List.cons_append]

/-- In every run the requests of the host are answered one by one and in order, each with its
sequence number and with a message of the size that it announces; nothing else is sent, and nothing
after the reply to `TerminateInstance`. With a working channel that is readable often enough, all
messages up to `TerminateInstance` are handled. -/
theorem one_reply_per_request (env : InitEnvironment) (ws : List Wakeup) {s : Init} {ms : List Bytes}
    (hms : ∀ m ∈ ms, HostMessage m) (hin : s.incoming = ms.flatten) :
    ∃ handled, handled <+: untilTerminate ms ∧
      Answered handled s (Init.stateOf (s.eventLoop env ws)) ∧
      ((∀ w ∈ ws, w.works) → ms.length ≤ ws.countP Wakeup.readable → handled = untilTerminate ms) := by
  induction ws generalizing s ms with
  | nil =>
    refine ⟨[], List.nil_prefix, Answered.refl s, fun _ hcount => ?_⟩
    rw [List.length_eq_zero_iff.mp (Nat.le_zero.mp hcount)]
    rfl
  | cons w ws ih =>
    have hpass := pass_spec env hms hin w
    unfold Init.eventLoop runLoop
    cases hstep : s.pass env w with
    | inr e =>
      rw [hstep] at hpass
      cases e with
      | left s' =>
        obtain ⟨hans, hdone⟩ := hpass
        refine ⟨[], List.nil_prefix, hans, fun hw _ => ?_⟩
        rw [hdone (hw w List.mem_cons_self)]
        rfl
      | exited s' =>
        obtain ⟨m, rest, rfl, hterm, hans⟩ := hpass
        have huntil : untilTerminate (m :: rest) = [m] := if_pos hterm
        rw [huntil]
        exact ⟨[m], List.prefix_rfl, hans, fun _ _ => rfl⟩
    | inl s' =>
      rw [hstep] at hpass
      obtain ⟨handled, rest, rfl, hin', hans, hterm, hlen⟩ := hpass
      obtain ⟨handled', hpre, hans', hall⟩ := ih (fun m hm => hms m (List.mem_append_right _ hm)) hin'
      rw [untilTerminate_append hterm]
      refine ⟨handled ++ handled', (List.prefix_append_right_inj handled).mpr hpre, hans.trans hans',
        fun hw hcount => ?_⟩
      have hone := hlen (hw w List.mem_cons_self)
      rw [hall (fun w' hw' => hw w' (List.mem_cons_of_mem _ hw')) ?_]
      rw [List.length_append, List.countP_cons, hone] at hcount
      omega

/-- A query, a request that is too small, and `TerminateInstance`. -/
theorem one_reply_per_request_three :
    ∃ (ms : List Bytes) (ws : List Wakeup), ms.length = 3 ∧
      Answered ms { incoming := ms.flatten }
        (Init.stateOf (Init.eventLoop plainEnvironment { incoming := ms.flatten } ws)) := by
  let ms : List Bytes := [header LxInitMessageKernelVersion 12 7,
    header LxInitMessageAddVirtioFsDevice 13 8 ++ [0], header LxInitMessageTerminateInstance 12 9]
  let ws : List Wakeup := List.replicate 3 (.ready true true true)
  have hms : ∀ m ∈ ms, HostMessage m := by
    intro m hm
    have hall : ∀ m ∈ ms, messageFormat.WellFormed m ∧ StringsTerminated m := by decide
    exact ⟨(hall m hm).1, (hall m hm).2⟩
  obtain ⟨handled, -, hans, hall⟩ :=
    one_reply_per_request plainEnvironment ws (s := { incoming := ms.flatten }) hms rfl
  have hhandled : handled = untilTerminate ms := hall (by decide) (by decide)
  have huntil : untilTerminate ms = ms := by decide
  rw [hhandled, huntil] at hans
  exact ⟨ms, ws, rfl, hans⟩

end WslFreeBSD.Hvinit
