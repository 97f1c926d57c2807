import WslFreeBSD.Bridge.Incoming

/-!
# Messages that do not fit the buffer

The control channel has a buffer of 512 bytes, and a header that announces more than that is
answered like a closed channel: the session starts its shutdown. `Listening` is the invariant
of a host that keeps the channel open and sends messages that fit; `run_oversized` is the run
in which the first message that does not fit arrives. Together they say which sequences of
messages a session survives in every run (`tolerates_iff_fitting`).
-/

namespace WslFreeBSD.Bridge

open Lib Protocol

/-! ## The host and the session -/

/-- The host keeps the control channel open and what it has sent, this pass included, is the
beginning of the messages `ms`. -/
def HostSends (ms : List Bytes) (s : Session) (i : Pass) : Prop :=
  s.controlIn.sent ++ i.controlArrive <+: ms.flatten ∧ i.controlClose = false ∧
    i.controlRecv ≠ .failed

/-- The shutdown has not been started and the child has had no `SIGHUP`. -/
def Undisturbed (s : Session) : Prop :=
  s.hostDisconnected = false ∧ ∀ a ∈ s.trace, a.isDisconnect = false ∧ a.isSighup = false

theorem undisturbed_iff (s : Session) : Undisturbed s ↔ s.alarms = (false, []) := by
  unfold Undisturbed Session.alarms
  rw [Prod.mk.injEq, List.filter_eq_nil_iff]
  refine and_congr_right fun _ => forall₂_congr fun a _ => ?_
  rw [Act.isAlarm, Bool.not_eq_true, Bool.or_eq_false_iff]

/-- A message of the host that is not `TerminateInstance`. -/
def Harmless (m : Bytes) : Prop :=
  messageFormat.WellFormed m ∧ messageType m ≠ LxInitMessageTerminateInstance

/-- What the session knows about a host that sends `ms`. -/
structure Listening (ms : List Bytes) (s : Session) : Prop where
  accounted : s.controlView.Accounted
  isOpen : s.controlIn.closed = false
  sent : s.controlIn.sent <+: ms.flatten
  undisturbed : s.alarms = (false, [])

namespace ChannelView

variable {cap : Nat}

theorem wake_socket (v : ChannelView cap) (c : RecvChoice) :
    (v.wake c).socket.sent = v.socket.sent ∧ (v.wake c).socket.closed = v.socket.closed := by
  have hspec := tryRead_spec v.reader v.socket c
  unfold wake
  split <;> exact ⟨hspec.sent, hspec.closed⟩

theorem received_header {v : ChannelView cap} (h : Accounted v) {ms : List Bytes}
    (hms : ∀ m ∈ ms, messageFormat.WellFormed m) (hsent : v.socket.sent <+: ms.flatten)
    (c : RecvChoice) (h12 : headerSize ≤ (tryRead v.reader v.socket c).reader.len) :
    ∃ m ∈ ms, messageSize (tryRead v.reader v.socket c).reader.valid = m.length ∧
      messageType (tryRead v.reader v.socket c).reader.buf = messageType m := by
  have hacc := accounted_received h c
  have hspec := tryRead_spec v.reader v.socket c
  obtain ⟨later, hlater⟩ := hsent
  have hsum : (messages (v.received c).events).flatten ++
      ((tryRead v.reader v.socket c).reader.valid ++
        ((tryRead v.reader v.socket c).socket.queue ++ later)) = ms.flatten := by
    have hs := hacc.sent
    change (tryRead v.reader v.socket c).socket.sent = _ at hs
    rw [hspec.sent] at hs
    rw [← hlater, hs]
    simp only [List.append_assoc]
    rfl
  have hlen : messageFormat.headerLen ≤ (tryRead v.reader v.socket c).reader.valid.length := by
    rw [Reader.length_valid]
    exact h12
  obtain ⟨m, rest, hm, hsplit⟩ := FrameFormat.exists_next_frame hms hacc.whole hsum hlen
  obtain ⟨hm12, hmsize⟩ := hms m hm
  change headerSize ≤ m.length at hm12
  change headerSize ≤ (tryRead v.reader v.socket c).reader.valid.length at hlen
  simp only [headerSize] at hm12 hlen h12
  refine ⟨m, hm, ?_, ?_⟩
  · have h1 := @leAt_append_of_le 4 4 (tryRead v.reader v.socket c).reader.valid (by omega)
      ((tryRead v.reader v.socket c).socket.queue ++ later)
    rw [hsplit, leAt_append_of_le (by omega)] at h1
    exact h1.symm.trans hmsize
  · have h1 := @leAt_append_of_le 0 4 (tryRead v.reader v.socket c).reader.valid (by omega)
      ((tryRead v.reader v.socket c).socket.queue ++ later)
    rw [hsplit, leAt_append_of_le (by omega), Reader.valid, leAt_take (by omega)] at h1
    exact h1.symm

/-- A reader that all messages fit in returns `-1` only for a closed channel and a failed
`recv`. -/
theorem received_code {v : ChannelView cap} (h : Accounted v) {ms : List Bytes}
    (hms : ∀ m ∈ ms, messageFormat.WellFormed m) (hfit : ∀ m ∈ ms, m.length ≤ cap)
    (hsent : v.socket.sent <+: ms.flatten) (hopen : v.socket.closed = false) {c : RecvChoice}
    (hc : c ≠ .failed) : (tryRead v.reader v.socket c).code ≠ .error := by
  intro he
  rcases tryRead_error _ _ _ he with ⟨hr, -, -⟩ | hr | ⟨h12, hbad⟩
  · obtain ⟨-, -, -, -, hclosed⟩ := tryRead_eof _ _ _ hr
    rw [hopen] at hclosed
    cases hclosed
  · exact hc (tryRead_failed _ _ _ hr).2
  · obtain ⟨m, hm, hsize, -⟩ := received_header h hms hsent c h12
    have hlow : headerSize ≤ m.length := (hms m hm).1
    have hhigh := hfit m hm
    omega

end ChannelView

theorem listening_iterate {ms : List Bytes} (hms : ∀ m ∈ ms, Harmless m)
    (hfit : ∀ m ∈ ms, m.length ≤ controlBufSize) {cfg : Setup} {s : Session} {i : Pass}
    (h : Listening ms s) (hsends : HostSends ms s i) :
    After (Listening ms) (Listening ms) (Session.iterate cfg s i) := by
  obtain ⟨hpre, hclose, hrecv⟩ := hsends
  obtain ⟨hdc, -, hda⟩ := deliver_views s cfg i
  have hsock : s.controlIn.deliver i.controlArrive i.controlClose =
      { sent := s.controlIn.sent ++ i.controlArrive
        queue := s.controlIn.queue ++ i.controlArrive
        closed := false } := by
    unfold InSocket.deliver
    rw [if_neg (by simp [h.isOpen]), hclose]
  have hd : Listening ms (s.deliver cfg i) := by
    refine ⟨?_, ?_, ?_, hda.trans h.undisturbed⟩
    · rw [hdc]
      exact ChannelView.accounted_deliver h.accounted _ _
    · exact congrArg InSocket.closed hsock
    · exact (congrArg InSocket.sent hsock) ▸ hpre
  have hframe : ∀ {s s' : Session}, Listening ms s → s'.controlView = s.controlView →
      s'.alarms = s.alarms → Listening ms s' := by
    intro s s' hs hv ha
    have hin : s'.controlIn = s.controlIn := congrArg ChannelView.socket hv
    exact ⟨hv ▸ hs.accounted, hin ▸ hs.isOpen, hin ▸ hs.sent, ha.trans hs.undisturbed⟩
  obtain ⟨s', hs', hin | ⟨rev, hpoll, rfl⟩⟩ := iterate_incoming s cfg i
  · obtain ⟨hc, -, ha⟩ := incoming_eq hin
    have := hframe hd hc ha
    rcases hs' with hs' | hs' <;> rw [hs'] <;> exact this
  · have ht : Listening ms ((s.deliver cfg i).timers i) := by
      obtain ⟨hc, -, ha⟩ := incoming_eq (incoming_timers (s.deliver cfg i) i)
      exact hframe hd hc ha
    obtain ⟨hcv, hal, -⟩ := channels_views ((s.deliver cfg i).timers i) cfg rev i
    have hwf : ∀ m ∈ ms, messageFormat.WellFormed m := fun m hm => (hms m hm).1
    have hcode := ChannelView.received_code ht.accounted hwf hfit ht.sent ht.isOpen hrecv
    have halarms : (((s.deliver cfg i).timers i).controlBranch rev i).alarms =
        ((s.deliver cfg i).timers i).alarms := by
      refine alarms_controlBranch _ rev i hcode fun hm => ?_
      have h12 : headerSize ≤ (tryRead ((s.deliver cfg i).timers i).controlView.reader
          ((s.deliver cfg i).timers i).controlView.socket i.controlRecv).reader.len := by
        obtain ⟨hwfm, hsplit⟩ := FrameFormat.next?_eq_some_iff.mp (tryRead_message _ _ _ hm)
        have hlen := congrArg List.length hsplit
        have hm12 : headerSize ≤ _ := hwfm.1
        rw [Reader.length_valid, List.length_append] at hlen
        exact hlen ▸ Nat.le_add_right_of_le hm12
      obtain ⟨m, hmem, -, htype⟩ := ChannelView.received_header ht.accounted hwf ht.sent _ h12
      exact fun heq => (hms m hmem).2 (htype.symm.trans heq)
    have hview := controlView_controlBranch ((s.deliver cfg i).timers i) rev i
    have hfinal : Listening ms (((s.deliver cfg i).timers i).channels cfg rev i) := by
      refine hframe ?_ hcv hal
      split at hview
      · exact hframe ht hview halarms
      · obtain ⟨hsent, hclosed⟩ :=
          ChannelView.wake_socket ((s.deliver cfg i).timers i).controlView i.controlRecv
        refine ⟨?_, ?_, ?_, halarms.trans ht.undisturbed⟩
        · rw [hview]
          exact ChannelView.accounted_wake ht.accounted _
        · exact (congrArg (fun v => v.socket.closed) hview).trans (hclosed.trans ht.isOpen)
        · have := (congrArg (fun v => v.socket.sent) hview).trans hsent
          exact this ▸ ht.sent
    rcases hs' with hs' | hs' <;> rw [hs'] <;> exact hfinal

/-! ## One message at a time -/

/-- The host sends one message and the session reads as much of it as fits. -/
def messagePass (m : Bytes) : Pass :=
  { controlArrive := m, controlRecv := .upTo 511, poll := .ready { control := true } }

/-- A session in which the host has sent `x` before and `m` is all that is left to read. -/
structure Arrived (x m : Bytes) (s : Session) : Prop where
  empty : s.cr.valid = []
  socket : s.controlIn = { sent := x ++ m, queue := m }
  connected : s.hostDisconnected = false
  loop : s.terminate = false ∧ s.sessionDone = false

theorem loop_channels (s : Session) (cfg : Setup) (rev : Revents) (i : Pass) :
    (s.channels cfg rev i).terminate = s.terminate ∧
      (s.channels cfg rev i).sessionDone = s.sessionDone := by
  have hcontrol : (s.controlBranch rev i).terminate = s.terminate ∧
      (s.controlBranch rev i).sessionDone = s.sessionDone := by
    unfold Session.controlBranch
    split
    · exact ⟨rfl, rfl⟩
    · dsimp only
      split
      · exact ⟨rfl, rfl⟩
      · exact ⟨rfl, rfl⟩
      · split <;> exact ⟨rfl, rfl⟩
  have hinterop : ∀ s : Session, (s.interopBranch cfg rev i).terminate = s.terminate ∧
      (s.interopBranch cfg rev i).sessionDone = s.sessionDone := by
    intro s
    unfold Session.interopBranch
    split
    · dsimp only
      split <;> exact ⟨rfl, rfl⟩
    · exact ⟨rfl, rfl⟩
  exact ⟨(hinterop _).1.trans hcontrol.1, (hinterop _).2.trans hcontrol.2⟩

theorem arrived_timers {x m : Bytes} {s : Session} (h : Arrived x [] s) (cfg : Setup) :
    Arrived x m ((s.deliver cfg (messagePass m)).timers (messagePass m)) := by
  obtain ⟨htc, -, hta⟩ := incoming_eq
    (incoming_timers (s.deliver cfg (messagePass m)) (messagePass m))
  refine ⟨(congrArg (fun v => v.reader.valid) htc).trans h.empty,
    (congrArg ChannelView.socket htc).trans ?_, (congrArg Prod.fst hta).trans h.connected, ?_⟩
  · change s.controlIn.deliver m false = _
    rw [h.socket, List.append_nil]
    rfl
  · have hesc : ({ s.deliver cfg (messagePass m) with
        trace := (s.deliver cfg (messagePass m)).trace ++ [.now (messagePass m).now] } :
        Session).escalate (messagePass m) = { s.deliver cfg (messagePass m) with
        trace := (s.deliver cfg (messagePass m)).trace ++ [.now (messagePass m).now] } := by
      refine if_neg fun hcond => ?_
      have hd : s.hostDisconnected = true := hcond.1
      rw [h.connected] at hd
      cases hd
    rw [Session.timers, hesc]
    refine ⟨?_, h.loop.2⟩
    change (s.terminate || false) = false
    rw [h.loop.1]
    rfl

/-- The pass goes through the branches and back to `poll`. -/
theorem iterate_messagePass {x : Bytes} {s : Session} (h : Arrived x [] s) (cfg : Setup)
    (m : Bytes) :
    Session.iterate cfg s (messagePass m) = .inl (((s.deliver cfg (messagePass m)).timers
      (messagePass m)).channels cfg { control := true } (messagePass m)) := by
  have hloop := (arrived_timers (m := m) h cfg).loop
  have hterm : (s.deliver cfg (messagePass m)).terminate = false := by
    change (s.terminate || false) = false
    rw [h.loop.1]
    rfl
  have hsig : ((s.deliver cfg (messagePass m)).timers (messagePass m)).sigchld cfg
      { control := true } (messagePass m) = none := if_neg (by simp)
  have hlast := (loop_channels ((s.deliver cfg (messagePass m)).timers (messagePass m)) cfg
    { control := true } (messagePass m)).2.trans hloop.2
  have hpoll : (messagePass m).poll = .ready { control := true } := rfl
  unfold Session.iterate
  dsimp only
  rw [hpoll]
  dsimp only
  rw [if_neg (by rw [hterm]; exact Bool.false_ne_true), hsig]
  dsimp only
  rw [if_neg (by rw [hlast]; exact Bool.false_ne_true)]

section OneMessage

variable {x m : Bytes} {s : Session} (h : Arrived x m s)

include h

/-- The `recv` gets the first 512 bytes of the message. -/
theorem arrived_filled (hm : m ≠ []) :
    (tryRead s.cr s.controlIn (.upTo 511)).reader.valid = m.take controlBufSize ∧
      (tryRead s.cr s.controlIn (.upTo 511)).recvd ≠ some (.got []) := by
  have hlen : s.cr.len = 0 := by
    rw [← Reader.length_valid, h.empty]
    rfl
  rw [h.socket]
  refine ⟨?_, ?_⟩
  · rw [(tryRead_spec _ _ _).filled, h.empty, hlen]
    simp only [InSocket.recv, if_neg hm]
    rfl
  · intro he
    obtain ⟨-, -, -, hq, -⟩ := tryRead_eof _ _ _ he
    exact hm hq

theorem arrived_next (hm : messageFormat.WellFormed m) (hfit : m.length ≤ controlBufSize) :
    (tryRead s.cr s.controlIn (.upTo 511)).reader.valid = m ∧
      (tryRead s.cr s.controlIn (.upTo 511)).code = .message := by
  obtain ⟨hvalid, heof⟩ := arrived_filled h hm.ne_nil
  rw [List.take_of_length_le hfit] at hvalid
  refine ⟨hvalid, ?_⟩
  have hnext : messageFormat.next? (tryRead s.cr s.controlIn (.upTo 511)).reader.valid =
      some (m, []) := by
    rw [hvalid]
    exact FrameFormat.next?_eq_some_iff.mpr ⟨hm, (List.append_nil m).symm⟩
  rcases (tryRead_spec s.cr s.controlIn (.upTo 511)).code with ⟨-, hcause⟩ | hparse
  · rcases hcause with ⟨hr, -, -⟩ | hr | ⟨-, hbad⟩
    · exact absurd hr heof
    · cases (tryRead_failed _ _ _ hr).2
    · rw [Reader.next?_of_badSize _ hbad] at hnext
      cases hnext
  · rw [Reader.next?_valid] at hnext
    split at hnext
    · rename_i hmsg
      exact hparse.trans hmsg
    · cases hnext

theorem arrived_channels (hm : Harmless m) (hfit : m.length ≤ controlBufSize) (cfg : Setup) :
    Arrived (x ++ m) [] (s.channels cfg { control := true } (messagePass m)) := by
  obtain ⟨hvalid, hcode⟩ := arrived_next h hm.1 hfit
  have hspec := tryRead_spec s.cr s.controlIn (.upTo 511)
  obtain ⟨hcv, hal, -⟩ := channels_views s cfg { control := true } (messagePass m)
  have hview : (s.channels cfg { control := true } (messagePass m)).controlView =
      (s.controlView.received (.upTo 511)).handled := by
    rw [hcv, controlView_controlBranch, if_neg (by simp [h.connected])]
    exact ChannelView.wake_of_message hcode
  have hmsg := tryRead_message _ _ _ hcode
  rw [hvalid, FrameFormat.next?_eq_some_iff.mpr ⟨hm.1, (List.append_nil m).symm⟩] at hmsg
  have hlen : headerSize ≤ (tryRead s.cr s.controlIn (.upTo 511)).reader.len := by
    rw [← Reader.length_valid, hvalid]
    exact hm.1.1
  refine ⟨?_, ?_, ?_, ?_⟩
  · have hrest := congrArg Prod.snd (Option.some.inj hmsg)
    exact (congrArg (fun v => v.reader.valid) hview).trans hrest.symm
  · have hmoved := congrArg List.length hspec.moved
    rw [hvalid, h.empty, List.nil_append, List.length_append, h.socket] at hmoved
    have hqueue : (tryRead s.cr s.controlIn (.upTo 511)).socket.queue = [] := by
      apply List.length_eq_zero_iff.mp
      rw [h.socket]
      exact Nat.add_left_cancel (hmoved.trans (Nat.add_zero _).symm)
    refine (congrArg ChannelView.socket hview).trans ?_
    change (tryRead s.cr s.controlIn (.upTo 511)).socket = _
    have hsent : (tryRead s.cr s.controlIn (.upTo 511)).socket.sent = x ++ m ++ [] := by
      rw [hspec.sent, h.socket, List.append_nil]
    have hclosed : (tryRead s.cr s.controlIn (.upTo 511)).socket.closed = false := by
      rw [hspec.closed, h.socket]
    rw [← hsent, ← hqueue, ← hclosed]
  · have htype : messageType (controlTryRead s.cr s.controlIn (.upTo 511)).reader.buf ≠
        LxInitMessageTerminateInstance := by
      have htake : leAt 0 4 (tryRead s.cr s.controlIn (.upTo 511)).reader.valid =
          leAt 0 4 (tryRead s.cr s.controlIn (.upTo 511)).reader.buf := by
        simp only [headerSize] at hlen
        exact leAt_take (by omega)
      rw [hvalid] at htake
      exact fun heq => hm.2 (htake.trans heq)
    have hquiet : (s.controlBranch { control := true } (messagePass m)).alarms = s.alarms := by
      refine alarms_controlBranch s _ _ ?_ fun _ => htype
      intro herr
      rw [show (controlTryRead s.cr s.controlIn (messagePass m).controlRecv).code = .message
        from hcode] at herr
      cases herr
    exact (congrArg Prod.fst (hal.trans hquiet)).trans h.connected
  · obtain ⟨hterm, hdone⟩ := loop_channels s cfg { control := true } (messagePass m)
    exact ⟨hterm.trans h.loop.1, hdone.trans h.loop.2⟩

theorem arrived_oversized (hm : messageFormat.WellFormed m) (hbig : controlBufSize < m.length) :
    (tryRead s.cr s.controlIn (.upTo 511)).code = .error := by
  obtain ⟨hvalid, -⟩ := arrived_filled h hm.ne_nil
  have hlen : (tryRead s.cr s.controlIn (.upTo 511)).reader.len = controlBufSize := by
    rw [← Reader.length_valid, hvalid, List.length_take]
    omega
  have hsize : messageSize (tryRead s.cr s.controlIn (.upTo 511)).reader.buf = m.length := by
    rw [← Reader.messageSize_valid _ (by rw [hlen]; decide), hvalid]
    have htake : leAt 4 4 (m.take controlBufSize) = leAt 4 4 m := leAt_take (by decide)
    exact htake.trans hm.2
  rcases (tryRead_spec s.cr s.controlIn (.upTo 511)).code with ⟨he, -⟩ | hparse
  · exact he
  · rw [hparse, Reader.parse, if_neg (by rw [hlen]; decide),
      if_pos (by rw [hsize]; exact .inr hbig)]

theorem oversized_disconnects (hm : messageFormat.WellFormed m)
    (hbig : controlBufSize < m.length) (cfg : Setup) :
    (s.channels cfg { control := true } (messagePass m)).hostDisconnected = true := by
  obtain ⟨-, hal, -⟩ := channels_views s cfg { control := true } (messagePass m)
  exact (congrArg Prod.fst hal).trans
    (hostDisconnected_controlBranch s _ _ h.connected rfl (arrived_oversized h hm hbig))

end OneMessage

theorem run_oversized {ms fitting : List Bytes} {m : Bytes} (hms : ∀ m ∈ fitting, Harmless m)
    (hfit : ∀ m ∈ fitting, m.length ≤ controlBufSize) (hm : messageFormat.WellFormed m)
    (hbig : controlBufSize < m.length) (cfg : Setup) {x : Bytes} {s : Session}
    (h : Arrived x [] s) (hx : x ++ (fitting ++ [m]).flatten <+: ms.flatten) :
    Meets (Session.iterate cfg) (HostSends ms) s ((fitting ++ [m]).map messagePass) ∧
      ∃ s', runLoop (Session.iterate cfg) s ((fitting ++ [m]).map messagePass) = .inl s' ∧
        s'.hostDisconnected = true := by
  have hsends : ∀ {x u : Bytes} {m : Bytes} {s : Session}, Arrived x [] s →
      x ++ (m ++ u) <+: ms.flatten → HostSends ms s (messagePass m) := by
    intro x u m s hs hpre
    refine ⟨?_, rfl, fun hno => by cases hno⟩
    have hsent : s.controlIn.sent = x := by rw [hs.socket, List.append_nil]
    rw [hsent]
    refine List.IsPrefix.trans ?_ hpre
    exact ⟨u, List.append_assoc _ _ _⟩
  induction fitting generalizing x s with
  | nil =>
    have hiter := iterate_messagePass h cfg m
    refine ⟨⟨hsends h hx, fun s' _ => trivial⟩, _, ?_,
      oversized_disconnects (arrived_timers h cfg) hm hbig cfg⟩
    simp only [List.nil_append, List.map_cons, List.map_nil, runLoop, hiter]
  | cons m' fitting ih =>
    have hiter := iterate_messagePass h cfg m'
    have hnext := arrived_channels (arrived_timers h cfg) (hms m' List.mem_cons_self)
      (hfit m' List.mem_cons_self) cfg
    have hx' : x ++ m' ++ (fitting ++ [m]).flatten <+: ms.flatten := by
      simpa only [List.cons_append, List.flatten_cons, List.append_assoc] using hx
    obtain ⟨hmeets, s', hrun, hd⟩ := ih (fun m hm => hms m (List.mem_cons_of_mem _ hm))
      (fun m hm => hfit m (List.mem_cons_of_mem _ hm)) hnext hx'
    refine ⟨⟨hsends h (by simpa only [List.append_assoc] using hx'), fun s'' hs'' => ?_⟩, s', ?_, hd⟩
    · rw [hiter] at hs''
      cases hs''
      exact hmeets
    · simpa only [List.cons_append, List.map_cons, runLoop, hiter] using hrun

theorem arrived_init (cfg : Setup) : Arrived [] [] (Session.init cfg) := ⟨rfl, rfl, rfl, rfl, rfl⟩

theorem listening_init (ms : List Bytes) (cfg : Setup) : Listening ms (Session.init cfg) := by
  obtain ⟨hc, -, ha⟩ := views_init cfg
  refine ⟨?_, rfl, List.nil_prefix, ha⟩
  rw [hc]
  exact ⟨by simp [messages], by simp [messages]⟩

theorem exists_first_oversized {cap : Nat} {ms : List Bytes} (h : ¬ ∀ m ∈ ms, m.length ≤ cap) :
    ∃ fitting m rest, ms = fitting ++ m :: rest ∧ (∀ m ∈ fitting, m.length ≤ cap) ∧ cap < m.length := by
  induction ms with
  | nil => exact absurd (by simp) h
  | cons m ms ih =>
    by_cases hm : m.length ≤ cap
    · have hms : ¬ ∀ m ∈ ms, m.length ≤ cap := by
        intro hall
        exact h (List.forall_mem_cons.mpr ⟨hm, hall⟩)
      obtain ⟨fitting, m', rest, rfl, hfit, hbig⟩ := ih hms
      exact ⟨m :: fitting, m', rest, rfl, List.forall_mem_cons.mpr ⟨hm, hfit⟩, hbig⟩
    · exact ⟨[], m, ms, rfl, by simp, by omega⟩

/-! ## Which messages a session survives -/

/-- No run that the host can bring about with `ms` shuts the session down. -/
def Tolerates (ms : List Bytes) : Prop :=
  ∀ (cfg : Setup) (passes : List Pass),
    Meets (Session.iterate cfg) (HostSends ms) (Session.init cfg) passes →
    After Undisturbed Undisturbed (runLoop (Session.iterate cfg) (Session.init cfg) passes)

theorem not_tolerates_of_oversized {ms : List Bytes} (hms : ∀ m ∈ ms, Harmless m)
    (hbig : ¬ ∀ m ∈ ms, m.length ≤ controlBufSize) : ¬ Tolerates ms := by
  intro hall
  obtain ⟨fitting, m, rest, rfl, hfit, hm⟩ := exists_first_oversized hbig
  have hmsf : ∀ m ∈ fitting, Harmless m := fun m hm => hms m (by simp [hm])
  have hpre : [] ++ (fitting ++ [m]).flatten <+: (fitting ++ m :: rest).flatten :=
    ⟨rest.flatten, by simp⟩
  obtain ⟨hmeets, s', hrun, hd⟩ := run_oversized hmsf hfit (hms m (by simp)).1 hm {}
    (arrived_init {}) hpre
  have hquiet := hall {} _ hmeets
  rw [hrun] at hquiet
  exact Bool.false_ne_true (hquiet.1.symm.trans hd)

theorem tolerates_of_fitting {ms : List Bytes} (hms : ∀ m ∈ ms, Harmless m)
    (hfit : ∀ m ∈ ms, m.length ≤ controlBufSize) : Tolerates ms := by
  intro cfg passes hmeets
  have hrun : After (Listening ms) (Listening ms)
      (runLoop (Session.iterate cfg) (Session.init cfg) passes) :=
    runLoop_inv_of_meets (fun s i h hC => listening_iterate hms hfit h hC)
      (listening_init ms cfg) hmeets
  cases hr : runLoop (Session.iterate cfg) (Session.init cfg) passes with
  | inl s =>
    rw [hr] at hrun
    exact (undisturbed_iff s).mpr hrun.undisturbed
  | inr s =>
    rw [hr] at hrun
    exact (undisturbed_iff s).mpr hrun.undisturbed

/-- A host that keeps the channel open and sends messages other than `TerminateInstance` never
makes a session shut down, whatever the run, exactly when each of its messages fits into the
512-byte buffer. -/
theorem tolerates_iff_fitting (ms : List Bytes) (hms : ∀ m ∈ ms, Harmless m) :
    Tolerates ms ↔ ∀ m ∈ ms, m.length ≤ controlBufSize := by
  constructor
  · intro hall
    by_contra hbig
    exact not_tolerates_of_oversized hms hbig hall
  · exact tolerates_of_fitting hms

/-- A `NetworkInformation` message with a `resolv.conf` body of `n` bytes. -/
def networkInformation (n : Nat) : Bytes :=
  header LxInitMessageNetworkInformation (21 + n) 1 ++
    (leBytes 4 0 ++ leBytes 4 0 ++ List.replicate n 35 ++ [0])

theorem harmless_networkInformation {n : Nat} (hn : 21 + n < 2 ^ 32) :
    Harmless (networkInformation n) := by
  refine ⟨?_, ?_⟩
  · refine wellFormed_header_append hn ?_
    simp only [List.length_append, length_leBytes, List.length_replicate, List.length_singleton]
    omega
  · rw [networkInformation, messageType_header_append (by decide)]
    decide

theorem length_networkInformation (n : Nat) : (networkInformation n).length = 21 + n := by
  simp only [networkInformation, List.length_append, length_header, length_leBytes,
    List.length_replicate, List.length_singleton]
  omega

/-- A session is shut down by a `NetworkInformation` message of 521 bytes. -/
theorem networkInformation_disconnects :
    ¬ ∀ ms : List Bytes, (∀ m ∈ ms, Harmless m) → Tolerates ms := by
  intro hall
  have hm : ∀ m ∈ [networkInformation 500], Harmless m :=
    List.forall_mem_singleton.mpr (harmless_networkInformation (by decide))
  refine not_tolerates_of_oversized hm ?_ (hall _ hm)
  rw [List.forall_mem_singleton, length_networkInformation]
  decide

theorem tolerates_iff_fitting_small :
    Tolerates [networkInformation 100] ↔ ∀ m ∈ [networkInformation 100], m.length ≤ controlBufSize :=
  tolerates_iff_fitting [networkInformation 100]
    (List.forall_mem_singleton.mpr (harmless_networkInformation (by decide)))

end WslFreeBSD.Bridge
