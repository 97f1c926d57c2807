import WslFreeBSD.Bridge.Lifecycle

/-!
# What a session writes to the control channel

Four writers share the control channel: the window size notification, the exit status, the
negative answer to an unknown message, and the messages relayed for child processes. Each gives
up in its own way when the socket is full and none of them tells the others, so that a message
that was cut in the middle can be followed by another one.

`Sends i` lists how much the socket takes of the messages the pass `i` may write, in the order
of the source; a pass writes some of them (`wrote_iterate`). As long as nothing is taken after a
message that was cut, the stream consists of whole messages and at most the beginning of one
more (`control_stream_framed`).
-/

namespace WslFreeBSD.Bridge

open Lib Protocol

/-! ## The stream -/

/-- A write to the control channel: the message and what the socket took of it. -/
def Act.controlWrite? : Act → Option (Bytes × Bytes)
  | .controlWrite m taken => some (m.bytes, taken)
  | _ => none

def controlWrites (t : List Act) : List (Bytes × Bytes) := t.filterMap Act.controlWrite?

def controlBytes (t : List Act) : Bytes := ((controlWrites t).map Prod.snd).flatten

/-- Whole messages, each of them one that was written, followed by at most an unfinished one. -/
def Framed (t : List Act) : Prop :=
  ∃ (whole : List Bytes) (rest : Bytes), controlBytes t = whole.flatten ++ rest ∧
    whole.Sublist ((controlWrites t).map Prod.fst) ∧
    (∀ m ∈ whole, messageFormat.WellFormed m) ∧
    (rest = [] ∨ ∃ m ∈ (controlWrites t).map Prod.fst,
      messageFormat.WellFormed m ∧ rest <+: m ∧ rest ≠ m)

/-- Every write offers a whole message and nothing is written after a cut one. -/
structure Tidy (ws : List (Bytes × Bytes)) : Prop where
  whole : ∀ w ∈ ws, messageFormat.WellFormed w.1
  begins : ∀ w ∈ ws, w.2 <+: w.1
  stops : StopsAtCut ws

theorem Tidy.initial {ws ws' : List (Bytes × Bytes)} (h : Tidy ws) (hp : ws' <+: ws) : Tidy ws' :=
  ⟨fun w hw => h.whole w (hp.subset hw), fun w hw => h.begins w (hp.subset hw),
    h.stops.sublist hp.sublist⟩

theorem framed_of_tidy {t : List Act} (h : Tidy (controlWrites t)) : Framed t := by
  obtain ⟨whole, rest, heq, hsub, hrest⟩ := h.stops.whole_append h.begins
  have hwf : ∀ m ∈ (controlWrites t).map Prod.fst, messageFormat.WellFormed m := by
    intro m hm
    obtain ⟨w, hw, rfl⟩ := List.mem_map.mp hm
    exact h.whole w hw
  refine ⟨whole, rest, heq, hsub, fun m hm => hwf m (hsub.subset hm), ?_⟩
  rcases hrest with hnil | ⟨m, hm, hpre, hne⟩
  · exact .inl hnil
  · exact .inr ⟨m, hm, hwf m hm, hpre, hne⟩

/-! ## What a pass may write -/

/-- How much of a message of `n` bytes is taken, and `n`. -/
def sendLengths (resume : WriteResult → Bool) (results : List WriteResult) (n : Nat) : Nat × Nat :=
  (takenLength resume results n, n)

def relaySends (i : Pass) : List (Nat × Nat) :=
  match i.accept with
  | none => []
  | some conn => [sendLengths retriesInterrupted conn.sends (messageSize (conn.header.getD []))]

/-- The writes to the control channel that a pass may make: the window size, the exit status and
the negative answer, of 16 bytes each, and the relayed message, as long as its header says. -/
def Sends (i : Pass) : List (Nat × Nat) :=
  [sendLengths waitsWhenBlocked i.sizeSend 16, sendLengths waitsWhenBlocked i.exitSend 16,
    sendLengths waitsWhenBlocked i.nackSend 16] ++ relaySends i

/-- The condition under which a pass keeps the stream intact: after a message that was cut,
before or in this pass, the socket takes nothing. -/
structure SendsIntact (s : Session) (i : Pass) : Prop where
  after : (∃ w ∈ controlWrites s.trace, Cut w) → ∀ x ∈ Sends i, x.1 = 0
  within : (Sends i).Pairwise fun a b => 0 < a.1 ∧ a.1 < a.2 → b.1 = 0

def lengths (w : Bytes × Bytes) : Nat × Nat := (w.2.length, w.1.length)

/-- From `s` to `s'` some of the writes `e` were made. -/
def Wrote (s s' : Session) (e : List (Nat × Nat)) : Prop :=
  ∃ ws, controlWrites s'.trace = controlWrites s.trace ++ ws ∧ (ws.map lengths).Sublist e ∧
    ∀ w ∈ ws, messageFormat.WellFormed w.1 ∧ w.2 <+: w.1

namespace Wrote

variable {s s' s'' : Session} {e e' : List (Nat × Nat)}

theorem refl (s : Session) : Wrote s s [] := ⟨[], by simp, List.Sublist.refl _, by simp⟩

theorem trans (h : Wrote s s' e) (h' : Wrote s' s'' e') : Wrote s s'' (e ++ e') := by
  obtain ⟨ws, heq, hsub, hw⟩ := h
  obtain ⟨ws', heq', hsub', hw'⟩ := h'
  refine ⟨ws ++ ws', by rw [heq', heq, List.append_assoc], ?_, ?_⟩
  · rw [List.map_append]
    exact hsub.append hsub'
  · intro w hmem
    rcases List.mem_append.mp hmem with hmem | hmem
    · exact hw w hmem
    · exact hw' w hmem

theorem mono (h : Wrote s s' e) (he : e.Sublist e') : Wrote s s' e' := by
  obtain ⟨ws, heq, hsub, hw⟩ := h
  exact ⟨ws, heq, hsub.trans he, hw⟩

theorem of_quiet (acts : List Act) (ht : s'.trace = s.trace ++ acts)
    (hq : ∀ a ∈ acts, a.controlWrite? = none) : Wrote s s' [] := by
  refine ⟨[], ?_, List.Sublist.refl _, by simp⟩
  rw [ht, controlWrites, List.filterMap_append, List.filterMap_eq_nil_iff.mpr hq]
  rfl

end Wrote

theorem wellFormed_windowSizeChanged (rows cols : UInt16) :
    messageFormat.WellFormed (ControlMessage.windowSizeChanged rows cols).bytes :=
  wellFormed_header_append (by decide) (by simp)

theorem wellFormed_nack (seq : Nat) : messageFormat.WellFormed (ControlMessage.nack seq).bytes :=
  wellFormed_header_append (by decide) (by simp)

theorem wellFormed_exitStatus (code : Int) :
    messageFormat.WellFormed (ControlMessage.exitStatus code).bytes :=
  wellFormed_header_append (by decide) (by simp)

theorem lengths_writeLoop {resume : WriteResult → Bool} {results : List WriteResult} {m : Bytes}
    {n : Nat} (hn : m.length = n) :
    lengths (m, (writeLoop resume results m).1) = sendLengths resume results n := by
  subst hn
  rw [lengths, sendLengths, length_writeLoop]

theorem wrote_one {s s' : Session} (m : ControlMessage) (resume : WriteResult → Bool)
    (results : List WriteResult) (acts : List Act) {n : Nat} (hn : m.bytes.length = n)
    (hwf : messageFormat.WellFormed m.bytes)
    (ht : s'.trace = s.trace ++ (.controlWrite m (writeLoop resume results m.bytes).1 :: acts))
    (hq : ∀ a ∈ acts, a.controlWrite? = none) : Wrote s s' [sendLengths resume results n] := by
  refine ⟨[(m.bytes, (writeLoop resume results m.bytes).1)], ?_, ?_, ?_⟩
  · rw [ht, controlWrites, List.filterMap_append, List.filterMap_cons,
      List.filterMap_eq_nil_iff.mpr hq]
    rfl
  · rw [List.map_singleton, lengths_writeLoop hn]
  · intro w hw
    rw [List.mem_singleton.mp hw]
    exact ⟨hwf, writeLoop_begins _ _⟩

/-! ## The branches -/

section Branches

variable (s : Session) (cfg : Setup) (rev : Revents) (i : Pass)

theorem wrote_deliver : Wrote s (s.deliver cfg i) [] :=
  .of_quiet [.poll (s.pollSet cfg)] rfl (by simp [Act.controlWrite?])

theorem wrote_timers : Wrote s (s.timers i) [sendLengths waitsWhenBlocked i.sizeSend 16] := by
  have hnow : Wrote s { s with trace := s.trace ++ [.now i.now] } [] :=
    .of_quiet [.now i.now] rfl (by simp [Act.controlWrite?])
  have hescalate : ∀ s : Session, Wrote s (s.escalate i) [] := by
    intro s
    obtain ⟨acts, ht, hacts⟩ := trace_escalate s i
    refine .of_quiet acts ht fun a ha => ?_
    rcases hacts a ha with rfl | ⟨status, rfl⟩ <;> rfl
  have hsize : ∀ s : Session,
      Wrote s (s.sizeCheck i) [sendLengths waitsWhenBlocked i.sizeSend 16] := by
    intro s
    by_cases hsend : s.sizeCheckDue i && i.sizeIoctl &&
        (s.pty.rows != s.fst.trackedRows || s.pty.cols != s.fst.trackedCols)
    · have hacts : s.sizeCheckActs i = [.controlWrite (.windowSizeChanged s.pty.rows s.pty.cols)
          (sendAll i.sizeSend (ControlMessage.windowSizeChanged s.pty.rows s.pty.cols).bytes).1] :=
        if_pos hsend
      exact wrote_one _ waitsWhenBlocked _ [] rfl (wellFormed_windowSizeChanged _ _)
        (congrArg (s.trace ++ ·) hacts) (by simp)
    · have hacts : s.sizeCheckActs i = [] := if_neg hsend
      refine (Wrote.of_quiet [] ?_ (by simp)).mono (List.nil_sublist _)
      exact congrArg (s.trace ++ ·) hacts
  exact hnow.trans ((hescalate _).trans (hsize _))

theorem wrote_childExited (status : WaitStatus) :
    Wrote s (s.childExited i status) [sendLengths waitsWhenBlocked i.exitSend 16] := by
  have hdrain : ∀ a ∈ Act.collected status :: Session.drainActs (!s.hostDisconnected) i.drain,
      a.controlWrite? = none := by
    intro a ha
    rcases List.mem_cons.mp ha with rfl | ha
    · rfl
    · obtain ⟨r, rfl⟩ | ⟨buf, taken, rfl⟩ := mem_drainActs ha <;> rfl
  have h1 : Wrote s { s with trace := s.trace ++
      (.collected status :: Session.drainActs (!s.hostDisconnected) i.drain) } [] :=
    .of_quiet _ rfl hdrain
  refine h1.trans ?_
  cases hh : s.hostDisconnected with
  | true =>
    refine (Wrote.of_quiet [] ?_ (by simp)).mono (List.nil_sublist _)
    simp [Session.childExited, Session.exitActs, hh]
  | false =>
    refine wrote_one (.exitStatus status.exitCode) waitsWhenBlocked i.exitSend [] rfl
      (wellFormed_exitStatus _) ?_ (by simp)
    simp [Session.childExited, Session.exitActs, hh, sendAll]

theorem wrote_controlHandled :
    Wrote s (s.controlHandled i) [sendLengths waitsWhenBlocked i.nackSend 16] := by
  have hmsg : Wrote s { s with trace := s.trace ++ [.controlMessage s.cr.message] } [] :=
    .of_quiet _ rfl (by simp [Act.controlWrite?])
  have htrace : (s.controlHandled i).trace = s.trace ++ [.controlMessage s.cr.message] ++
      (controlDispatch s.cr.buf s.fst s.pty i).acts := by simp [Session.controlHandled]
  refine hmsg.trans ?_
  rcases controlDispatch_acts s.cr.buf s.fst s.pty i with hall | ⟨seq, heq⟩
  · refine (Wrote.of_quiet _ htrace fun a ha => ?_).mono (List.nil_sublist _)
    obtain ⟨c, rfl⟩ | rfl | ⟨target, rfl⟩ := hall a ha <;> rfl
  · rw [heq] at htrace
    exact wrote_one _ waitsWhenBlocked _ [] rfl (wellFormed_nack seq) htrace (by simp)

theorem wrote_controlBranch :
    Wrote s (s.controlBranch rev i) [sendLengths waitsWhenBlocked i.nackSend 16] := by
  have hdisc : ∀ s : Session, Wrote s (s.disconnect i.disconnectTime) [] := by
    intro s
    obtain ⟨acts, ht, hacts⟩ := trace_disconnect s i.disconnectTime
    refine .of_quiet acts ht fun a ha => ?_
    rcases hacts a ha with rfl | rfl <;> rfl
  have hrecv : ∀ (s : Session) (out : TryRead controlBufSize), Wrote s (s.controlReceived out) [] := by
    intro s out
    refine .of_quiet _ rfl fun a ha => ?_
    obtain ⟨x, rfl⟩ := mem_recvActs ha
    rfl
  unfold Session.controlBranch
  split
  · exact (Wrote.refl s).mono (List.nil_sublist _)
  · dsimp only
    split
    · exact ((hrecv _ _).trans (hdisc _)).mono (List.nil_sublist _)
    · exact (hrecv _ _).mono (List.nil_sublist _)
    · have hhandled := (hrecv s (controlTryRead s.cr s.controlIn i.controlRecv)).trans
        (wrote_controlHandled _ i)
      split
      · exact hhandled.trans (hdisc _)
      · exact hhandled

theorem wrote_stdinBranch : Wrote s (s.stdinBranch rev i) [] := by
  refine .of_quiet _ rfl fun a ha => ?_
  obtain ⟨r, rfl⟩ | ⟨buf, taken, rfl⟩ := mem_stdinActs ha <;> rfl

theorem wrote_ptyBranch : Wrote s (s.ptyBranch rev i) [] := by
  refine .of_quiet _ rfl fun a ha => ?_
  obtain ⟨r, rfl⟩ | ⟨buf, taken, rfl⟩ := mem_ptyActs ha <;> rfl

theorem wrote_channelBranch : Wrote s (s.channelBranch cfg rev i) [] := by
  refine .of_quiet _ rfl fun a ha => ?_
  obtain ⟨r, rfl⟩ | ⟨buf, taken, rfl⟩ := mem_channelActs ha <;> rfl

theorem wrote_interopBranch : Wrote s (s.interopBranch cfg rev i) [] := by
  have hrecv : ∀ out : TryRead interopBufSize, Wrote s (s.interopReceived out) [] := by
    intro out
    refine .of_quiet _ rfl fun a ha => ?_
    obtain ⟨x, rfl⟩ := mem_recvActs ha
    rfl
  have hhandled : ∀ s : Session, Wrote s s.interopHandled [] := fun s =>
    .of_quiet _ rfl (by simp [Act.controlWrite?])
  unfold Session.interopBranch
  split
  · dsimp only
    split
    · exact (hrecv _).trans (hhandled _)
    · exact hrecv _
  · exact .refl s

theorem wrote_localBranch : Wrote s (s.localBranch cfg rev i) (relaySends i) := by
  have hnone : Session.localActs cfg rev i = [] → Wrote s (s.localBranch cfg rev i) (relaySends i) := by
    intro hnil
    refine (Wrote.of_quiet [] ?_ (by simp)).mono (List.nil_sublist _)
    exact congrArg (s.trace ++ ·) hnil
  by_cases hrun : cfg.server = .listening ∧ rev.interopListen
  · cases hacc : i.accept with
    | none =>
      refine hnone ?_
      rw [Session.localActs, if_pos hrun, hacc]
      rfl
    | some conn =>
      have hacts : Session.localActs cfg rev i = wslInteropRelayMessage conn := by
        rw [Session.localActs, if_pos hrun, hacc]
        rfl
      have hsends : relaySends i =
          [sendLengths retriesInterrupted conn.sends (messageSize (conn.header.getD []))] := by
        rw [relaySends, hacc]
      rcases wslInteropRelayMessage_eq conn with heq | ⟨seq, heq⟩ | ⟨h, m, seq, res, hh, hlen, hwf, heq⟩
      · exact hnone (hacts.trans heq)
      · refine (Wrote.of_quiet [.childReply seq 0] ?_ (by simp [Act.controlWrite?])).mono
          (List.nil_sublist _)
        exact congrArg (s.trace ++ ·) (hacts.trans heq)
      · rw [hsends, hh]
        exact wrote_one (.relayed m) retriesInterrupted conn.sends [.childReply seq res] hlen hwf
          (congrArg (s.trace ++ ·) (hacts.trans heq)) (by simp [Act.controlWrite?])
  · refine hnone ?_
    rw [Session.localActs, if_neg hrun]

theorem wrote_channels :
    Wrote s (s.channels cfg rev i) (sendLengths waitsWhenBlocked i.nackSend 16 :: relaySends i) :=
  (wrote_controlBranch s rev i).trans <| (wrote_stdinBranch _ rev i).trans <|
    (wrote_ptyBranch _ rev i).trans <| (wrote_channelBranch _ cfg rev i).trans <|
      (wrote_interopBranch _ cfg rev i).trans (wrote_localBranch _ cfg rev i)

theorem wrote_iterate :
    ∃ s', (Session.iterate cfg s i = .inl s' ∨ Session.iterate cfg s i = .inr s') ∧
      Wrote s s' (Sends i) := by
  have hd := wrote_deliver s cfg i
  have hnone : Wrote s (s.deliver cfg i) (Sends i) := hd.mono (List.nil_sublist _)
  unfold Session.iterate
  dsimp only
  split
  · split
    · exact ⟨_, .inr rfl, hnone⟩
    · exact ⟨_, .inl rfl, hnone⟩
  · split
    · refine ⟨_, .inr rfl, (hd.trans (.of_quiet [.pollFailed] rfl ?_)).mono (List.nil_sublist _)⟩
      simp [Act.controlWrite?]
    · obtain ⟨acts, ht, hacts⟩ := trace_pollFailed (s.deliver cfg i) i.pollFailedWait
      refine ⟨_, .inr rfl, (hd.trans (.of_quiet acts ht fun a ha => ?_)).mono (List.nil_sublist _)⟩
      rcases hacts a ha with rfl | rfl | rfl <;> rfl
  · rename_i rev hpoll
    split
    · exact ⟨_, .inr rfl, hnone⟩
    · have ht := hd.trans (wrote_timers (s.deliver cfg i) i)
      split
      · rename_i status hw
        refine ⟨_, .inr rfl, (ht.trans (wrote_childExited _ i status)).mono ?_⟩
        exact List.sublist_append_left [_, _] _
      · have hc := (ht.trans (wrote_channels _ cfg rev i)).mono
          (show List.Sublist _ (Sends i) from (List.sublist_cons_self _ _).cons_cons _)
        split
        · exact ⟨_, .inr rfl, hc⟩
        · exact ⟨_, .inl rfl, hc⟩

end Branches

/-! ## Whole runs -/

theorem tidy_wrote {s s' : Session} {i : Pass} (h : Tidy (controlWrites s.trace))
    (hC : SendsIntact s i) (hw : Wrote s s' (Sends i)) : Tidy (controlWrites s'.trace) := by
  obtain ⟨ws, heq, hsub, hsound⟩ := hw
  have hnew : ws.Pairwise fun a b => Cut a → b.2 = [] := by
    have hpair := List.pairwise_map.mp (hC.within.sublist hsub)
    refine hpair.imp_of_mem fun {a b} ha hb hab hcut => ?_
    have hle := (hsound a ha).2.length_le
    have hpos := List.length_pos_iff.mpr hcut.1
    have hlt : a.2.length < a.1.length := by
      refine Nat.lt_of_le_of_ne hle fun heq => hcut.2 ?_
      exact (hsound a ha).2.eq_of_length heq
    exact List.length_eq_zero_iff.mp (hab ⟨hpos, hlt⟩)
  rw [heq]
  refine ⟨?_, ?_, ?_⟩
  · intro w hw
    rcases List.mem_append.mp hw with hw | hw
    · exact h.whole w hw
    · exact (hsound w hw).1
  · intro w hw
    rcases List.mem_append.mp hw with hw | hw
    · exact h.begins w hw
    · exact (hsound w hw).2
  · refine List.pairwise_append.mpr ⟨h.stops, hnew, fun a ha b hb hcut => ?_⟩
    have hzero := hC.after ⟨a, ha, hcut⟩ (lengths b) (hsub.subset (List.mem_map_of_mem hb))
    exact List.length_eq_zero_iff.mp hzero

theorem tidy_init (cfg : Setup) : Tidy (controlWrites (Session.init cfg).trace) := by
  have hnil : controlWrites (Session.init cfg).trace = [] := by
    refine List.filterMap_eq_nil_iff.mpr fun a ha => ?_
    obtain ⟨fd, rfl⟩ | rfl | rfl := mem_initTrace ha <;> rfl
  rw [hnil]
  exact ⟨by simp, by simp, List.Pairwise.nil⟩

/-- In every run in which the socket takes nothing after a message that was cut, the bytes on
the control channel are, at every point of the run, whole messages followed by at most one
unfinished one. -/
theorem control_stream_framed (cfg : Setup) (passes : List Pass)
    (hsends : Meets (Session.iterate cfg) SendsIntact (Session.init cfg) passes) :
    After (fun s => ∀ p, p <+: s.trace → Framed p) (fun s => ∀ p, p <+: s.trace → Framed p)
      (runLoop (Session.iterate cfg) (Session.init cfg) passes) := by
  have hrun : After (fun s => Tidy (controlWrites s.trace)) (fun s => Tidy (controlWrites s.trace))
      (runLoop (Session.iterate cfg) (Session.init cfg) passes) := by
    refine runLoop_inv_of_meets (fun s i h hC => ?_) (tidy_init cfg) hsends
    obtain ⟨s', hs', hw⟩ := wrote_iterate s cfg i
    have htidy := tidy_wrote h hC hw
    rcases hs' with hs' | hs' <;> rw [hs'] <;> exact htidy
  have hpoint : ∀ s : Session, Tidy (controlWrites s.trace) → ∀ p, p <+: s.trace → Framed p := by
    intro s hs p hp
    exact framed_of_tidy (hs.initial (hp.filterMap _))
  cases hr : runLoop (Session.iterate cfg) (Session.init cfg) passes with
  | inl s =>
    rw [hr] at hrun
    exact hpoint s hrun
  | inr s =>
    rw [hr] at hrun
    exact hpoint s hrun

/-- A message of an unknown type, answered with these results of `send`. -/
def unknownPass (seq : Nat) (results : List WriteResult) : Pass :=
  { controlArrive := header 99 12 seq
    controlRecv := .upTo 511
    poll := .ready { control := true }
    nackSend := results }

/-- The first answer is given up after four bytes and the second one goes out whole. -/
def cutPasses : List Pass :=
  [unknownPass 1 [.took 3, .wouldBlock false], unknownPass 2 [.took 15]]

theorem controlWrites_cutPasses :
    ∃ s, runLoop (Session.iterate {}) (Session.init {}) cutPasses = .inl s ∧
      controlWrites s.trace = [((ControlMessage.nack 1).bytes, [76, 0, 0, 0]),
        ((ControlMessage.nack 2).bytes, (ControlMessage.nack 2).bytes)] :=
  ⟨_, rfl, by decide⟩

/-- The host reads the type of the second answer as the size of the first. -/
theorem nack_after_cut :
    ¬ ∀ (cfg : Setup) (passes : List Pass), After (fun s => ∀ p, p <+: s.trace → Framed p)
      (fun s => ∀ p, p <+: s.trace → Framed p)
      (runLoop (Session.iterate cfg) (Session.init cfg) passes) := by
  intro h
  obtain ⟨s, hs, hwrites⟩ := controlWrites_cutPasses
  have hpoints := h {} cutPasses
  rw [hs] at hpoints
  obtain ⟨whole, rest, heq, hsub, -, hrest⟩ := hpoints s.trace List.prefix_rfl
  have hbytes : controlBytes s.trace = [76, 0, 0, 0] ++ (ControlMessage.nack 2).bytes := by
    rw [controlBytes, hwrites]
    simp
  rw [hbytes] at heq
  rw [hwrites] at hsub hrest
  -- a whole message in front would have its size, 16, where the stream has the type 76
  have hsize : ∀ (seq : Nat) (u : Bytes),
      [76, 0, 0, 0] ++ (ControlMessage.nack 2).bytes ≠ (ControlMessage.nack seq).bytes ++ u := by
    intro seq u hno
    have h4 := congrArg (fun l : Bytes => l[4]?) hno
    simp [ControlMessage.bytes, header, leBytes, LxMessageResultBool] at h4
  rcases List.sublist_cons_iff.mp hsub with hsub | ⟨r, rfl, -⟩
  · rcases List.sublist_cons_iff.mp hsub with hsub | ⟨r, rfl, -⟩
    · rw [List.sublist_nil.mp hsub] at heq
      have hlen : rest.length = 20 := (congrArg List.length heq).symm
      rcases hrest with rfl | ⟨m, hm, -, hpre, -⟩
      · cases hlen
      · have hle := hpre.length_le
        simp only [List.map_cons, List.map_nil, List.mem_cons, List.not_mem_nil, or_false] at hm
        rcases hm with rfl | rfl
        · exact absurd (hlen ▸ hle) (by decide)
        · exact absurd (hlen ▸ hle) (by decide)
    · exact hsize 2 _ (heq.trans (List.append_assoc _ _ _))
  · exact hsize 1 _ (heq.trans (List.append_assoc _ _ _))

/-- The same messages with a socket that is dead after the first answer. -/
def deadPasses : List Pass :=
  [unknownPass 1 [.took 3, .wouldBlock false], unknownPass 2 [.failed]]

theorem control_stream_framed_dead :
    After (fun s => ∀ p, p <+: s.trace → Framed p) (fun s => ∀ p, p <+: s.trace → Framed p)
      (runLoop (Session.iterate {}) (Session.init {}) deadPasses) := by
  refine control_stream_framed {} deadPasses ⟨?_, fun s' hs' => ⟨?_, fun _ _ => trivial⟩⟩
  · refine ⟨?_, by decide⟩
    rintro ⟨w, hw, -⟩
    cases hw
  · exact ⟨fun _ => by decide, by decide⟩

end WslFreeBSD.Bridge
