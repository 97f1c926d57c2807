import WslFreeBSD.Bridge.Lifecycle

/-!
# Messages that reach a session

The control and the interop channel are read in the same way: at a wake-up the session calls
`try_read` once and handles at most one message. `ChannelView` is what a channel looks like
from the outside (reader, socket and the events on it), `ChannelView.wake` is one wake-up, and
every branch of the loop body that does not belong to a channel leaves its view alone
(`incoming_of_frame`).

A message that was received together with an earlier one stays in the buffer until more bytes
arrive (`coalesced_held`), and is lost at the end of the stream. When every `recv` completes at
most one message, nothing is ever held back (`channels_drained`).
-/

namespace WslFreeBSD.Bridge

open Lib Protocol

/-! ## The view of one channel -/

/-- What happens on a message channel. -/
inductive ChannelEvent where
  | recv (r : RecvResult)
  | message (m : Bytes)
  deriving DecidableEq, Repr

def ChannelEvent.message? : ChannelEvent → Option Bytes
  | .message m => some m
  | .recv _ => none

def messages (events : List ChannelEvent) : List Bytes := events.filterMap ChannelEvent.message?

theorem messages_append (e e' : List ChannelEvent) : messages (e ++ e') = messages e ++ messages e' :=
  List.filterMap_append

theorem messages_recv (r : Option RecvResult) : messages (r.toList.map .recv) = [] := by
  cases r <;> rfl

structure ChannelView (cap : Nat) where
  reader : Reader cap
  socket : InSocket
  events : List ChannelEvent

namespace ChannelView

variable {cap : Nat}

def deliver (v : ChannelView cap) (bytes : Bytes) (close : Bool) : ChannelView cap :=
  { v with socket := v.socket.deliver bytes close }

def received (v : ChannelView cap) (c : RecvChoice) : ChannelView cap :=
  let out := tryRead v.reader v.socket c
  ⟨out.reader, out.socket, v.events ++ out.recvd.toList.map .recv⟩

def handled (v : ChannelView cap) : ChannelView cap :=
  { v with
    reader := v.reader.consume (messageSize v.reader.buf)
    events := v.events ++ [.message v.reader.message] }

/-- One wake-up: a `try_read`, and the handling of the message it finds. -/
def wake (v : ChannelView cap) (c : RecvChoice) : ChannelView cap :=
  match (tryRead v.reader v.socket c).code with
  | .message => (v.received c).handled
  | _ => v.received c

theorem wake_of_message {v : ChannelView cap} {c : RecvChoice}
    (h : (tryRead v.reader v.socket c).code = .message) : v.wake c = (v.received c).handled := by
  rw [wake, h]

/-- Handled messages, held bytes and queued bytes make up what the host has sent. -/
structure Accounted (v : ChannelView cap) : Prop where
  whole : ∀ m ∈ messages v.events, messageFormat.WellFormed m
  sent : v.socket.sent = (messages v.events).flatten ++ (v.reader.valid ++ v.socket.queue)

theorem accounted_deliver {v : ChannelView cap} (h : Accounted v) (bytes : Bytes) (close : Bool) :
    Accounted (v.deliver bytes close) := by
  refine ⟨h.whole, ?_⟩
  have hsent := Channel.deliver_sent (u := (messages v.events).flatten ++ v.reader.valid)
    (by rw [h.sent, List.append_assoc]) bytes close
  rw [List.append_assoc] at hsent
  exact hsent

theorem accounted_received {v : ChannelView cap} (h : Accounted v) (c : RecvChoice) :
    Accounted (v.received c) := by
  have hspec := tryRead_spec v.reader v.socket c
  have hmsgs : messages (v.received c).events = messages v.events := by
    change messages (v.events ++ _) = _
    rw [messages_append, messages_recv, List.append_nil]
  refine ⟨?_, ?_⟩
  · rw [hmsgs]
    exact h.whole
  · rw [hmsgs]
    change (tryRead v.reader v.socket c).socket.sent = _ ++ ((tryRead v.reader v.socket c).reader.valid ++
      (tryRead v.reader v.socket c).socket.queue)
    rw [hspec.sent, hspec.moved, h.sent]

theorem accounted_handled {v : ChannelView cap} (h : Accounted v) {r : Bytes}
    (hn : messageFormat.next? v.reader.valid = some (v.reader.message, r))
    (hr : (v.reader.consume (messageSize v.reader.buf)).valid = r) : Accounted v.handled := by
  obtain ⟨hwf, hsplit⟩ := FrameFormat.next?_eq_some_iff.mp hn
  have hmsgs : messages v.handled.events = messages v.events ++ [v.reader.message] :=
    messages_append _ _
  refine ⟨?_, ?_⟩
  · intro m hm
    rw [hmsgs] at hm
    rcases List.mem_append.mp hm with hm | hm
    · exact h.whole m hm
    · rw [List.mem_singleton.mp hm]
      exact hwf
  · rw [hmsgs]
    change v.socket.sent = _ ++ ((v.reader.consume (messageSize v.reader.buf)).valid ++ v.socket.queue)
    rw [h.sent, hr, hsplit]
    simp only [List.flatten_append, List.flatten_singleton, List.append_assoc]

theorem accounted_wake {v : ChannelView cap} (h : Accounted v) (c : RecvChoice) :
    Accounted (v.wake c) := by
  have hrecv := accounted_received h c
  unfold wake
  split
  · rename_i hcode
    exact accounted_handled hrecv (tryRead_message _ _ _ hcode) rfl
  · exact hrecv

/-! ## Nothing is held back -/

/-- The `recv` of a wake-up completes at most one message. -/
def AtMostOne (v : ChannelView cap) (c : RecvChoice) : Prop :=
  (messageFormat.decode (v.reader.valid ++ (v.socket.recv c (cap - v.reader.len)).1.bytes)).length ≤ 1

instance (v : ChannelView cap) (c : RecvChoice) : Decidable (v.AtMostOne c) :=
  inferInstanceAs (Decidable (_ ≤ _))

/-- The end of the stream may be seen after all messages of the stream have been handled. -/
def EofAfterAll (k : InSocket) (p : List ChannelEvent) (e : ChannelEvent) : Prop :=
  e = .recv (.got []) → k.closed = true ∧ messages p = messageFormat.decode k.sent

/-- No complete message is held, and the end of the stream was seen, if at all, after every
message of the stream had been handled. -/
structure Drained (v : ChannelView cap) : Prop extends Accounted v where
  idle : messageFormat.next? v.reader.valid = none
  eof : Preceded (EofAfterAll v.socket) v.events

theorem drained_deliver {v : ChannelView cap} (h : Drained v) (bytes : Bytes) (close : Bool) :
    Drained (v.deliver bytes close) := by
  refine ⟨accounted_deliver h.toAccounted bytes close, h.idle, ?_⟩
  refine h.eof.mono fun p e he heof => ?_
  obtain ⟨hc, hp⟩ := he heof
  have hsame : v.socket.deliver bytes close = v.socket := by
    unfold InSocket.deliver
    rw [if_pos hc]
  change (v.socket.deliver bytes close).closed = true ∧
    messages p = messageFormat.decode (v.socket.deliver bytes close).sent
  rw [hsame]
  exact ⟨hc, hp⟩

/-- A `recv` that reports the end of the stream finds an empty socket and a reader without a
complete message: everything that was sent has been handled. -/
theorem eof_received {v : ChannelView cap} (h : Drained v) (c : RecvChoice) :
    Preceded (EofAfterAll (v.received c).socket) (v.received c).events := by
  have hspec := tryRead_spec v.reader v.socket c
  have hold : Preceded (EofAfterAll (v.received c).socket) v.events := by
    refine h.eof.mono fun p e he heof => ?_
    obtain ⟨hc, hp⟩ := he heof
    exact ⟨hspec.closed.trans hc, hp.trans (congrArg _ hspec.sent.symm)⟩
  cases hr : (tryRead v.reader v.socket c).recvd with
  | none =>
    have hev : (v.received c).events = v.events := by simp [received, hr]
    rw [hev]
    exact hold
  | some r =>
    have hev : (v.received c).events = v.events ++ [.recv r] := by simp [received, hr]
    rw [hev]
    refine hold.concat fun heof => ?_
    cases heof
    obtain ⟨-, -, hsock, hq, hc⟩ := tryRead_eof _ _ _ hr
    have hsent : v.socket.sent = (messages v.events).flatten ++ v.reader.valid := by
      rw [h.sent, hq, List.append_nil]
    refine ⟨hspec.closed.trans hc, ?_⟩
    change _ = messageFormat.decode (tryRead v.reader v.socket c).socket.sent
    rw [hspec.sent]
    exact (FrameFormat.decode_unique h.whole hsent h.idle).symm

theorem drained_wake {v : ChannelView cap} (h : Drained v) {c : RecvChoice}
    (hone : v.AtMostOne c) : Drained (v.wake c) := by
  have hspec := tryRead_spec v.reader v.socket c
  have hacc := accounted_wake h.toAccounted c
  have heof := eof_received h c
  have hlen : (messageFormat.decode (tryRead v.reader v.socket c).reader.valid).length ≤ 1 := by
    rw [hspec.filled]
    exact hone
  unfold wake at hacc ⊢
  split
  · rename_i hcode
    rw [hcode] at hacc
    have hn := tryRead_message _ _ _ hcode
    refine ⟨hacc, ?_, heof.concat fun h => by cases h⟩
    -- the message that was handled is the only one the buffer held
    rw [FrameFormat.decode_of_some hn] at hlen
    have hrest : messageFormat.decode
        ((tryRead v.reader v.socket c).reader.consume
          (messageSize (tryRead v.reader v.socket c).reader.buf)).valid = [] := by
      apply List.length_eq_zero_iff.mp
      rw [List.length_cons] at hlen
      omega
    cases hnext : messageFormat.next? (v.received c).handled.reader.valid with
    | none => rfl
    | some mr =>
      have hsome := FrameFormat.decode_of_some (m := mr.1) (r := mr.2) hnext
      change messageFormat.decode ((tryRead v.reader v.socket c).reader.consume
        (messageSize (tryRead v.reader v.socket c).reader.buf)).valid = _ at hsome
      rw [hrest] at hsome
      cases hsome
  · rename_i hcode
    refine ⟨accounted_received h.toAccounted c, ?_, heof⟩
    change messageFormat.next? (tryRead v.reader v.socket c).reader.valid = none
    rcases hspec.code with ⟨-, hcause⟩ | hparse
    · rcases hcause with ⟨hr, -, -⟩ | hr | ⟨h12, hbad⟩
      · rw [(tryRead_eof _ _ _ hr).2.1]
        exact h.idle
      · rw [(tryRead_failed _ _ _ hr).1]
        exact h.idle
      · exact Reader.next?_of_badSize _ hbad
    · rw [Reader.next?_valid, if_neg (hparse ▸ hcode)]

end ChannelView

/-! ## The channels of a session -/

def Act.controlEvent? : Act → Option ChannelEvent
  | .recv .control r => some (.recv r)
  | .controlMessage m => some (.message m)
  | _ => none

def Act.interopEvent? : Act → Option ChannelEvent
  | .recv .interop r => some (.recv r)
  | .interopMessage m => some (.message m)
  | _ => none

/-- The start of a shutdown and the signal that goes with it. -/
def Act.isAlarm (a : Act) : Bool := a.isDisconnect || a.isSighup

namespace Session

def controlView (s : Session) : ChannelView controlBufSize :=
  ⟨s.cr, s.controlIn, s.trace.filterMap Act.controlEvent?⟩

def interopView (s : Session) : ChannelView interopBufSize :=
  ⟨s.ir, s.interopIn, s.trace.filterMap Act.interopEvent?⟩

def alarms (s : Session) : Bool × List Act := (s.hostDisconnected, s.trace.filter Act.isAlarm)

/-- What the messages of the host have to do with a state. -/
def incoming (s : Session) : ChannelView controlBufSize × ChannelView interopBufSize × Bool × List Act :=
  (s.controlView, s.interopView, s.alarms)

end Session

/-- Actions that have nothing to do with the messages of the host. -/
def Act.isLocal (a : Act) : Bool :=
  a.controlEvent?.isNone && a.interopEvent?.isNone && !a.isAlarm

theorem filterMap_local {acts : List Act} (h : ∀ a ∈ acts, a.isLocal = true) :
    acts.filterMap Act.controlEvent? = [] ∧ acts.filterMap Act.interopEvent? = [] ∧
      acts.filter Act.isAlarm = [] := by
  have hparts : ∀ a ∈ acts, a.controlEvent? = none ∧ a.interopEvent? = none ∧ a.isAlarm = false := by
    intro a ha
    have hlocal := h a ha
    simp only [Act.isLocal, Bool.and_eq_true, Option.isNone_iff_eq_none, Bool.not_eq_true'] at hlocal
    exact ⟨hlocal.1.1, hlocal.1.2, hlocal.2⟩
  refine ⟨?_, ?_, ?_⟩
  · exact List.filterMap_eq_nil_iff.mpr fun a ha => (hparts a ha).1
  · exact List.filterMap_eq_nil_iff.mpr fun a ha => (hparts a ha).2.1
  · exact List.filter_eq_nil_iff.mpr fun a ha => by simp [(hparts a ha).2.2]

theorem incoming_of_frame {s s' : Session} (acts : List Act) (ht : s'.trace = s.trace ++ acts)
    (hl : ∀ a ∈ acts, a.isLocal = true)
    (hf : (s'.cr, s'.ir, s'.controlIn, s'.interopIn, s'.hostDisconnected) =
      (s.cr, s.ir, s.controlIn, s.interopIn, s.hostDisconnected)) : s'.incoming = s.incoming := by
  simp only [Prod.mk.injEq] at hf
  obtain ⟨hcr, hir, hci, hii, hd⟩ := hf
  obtain ⟨h1, h2, h3⟩ := filterMap_local hl
  simp only [Session.incoming, Session.controlView, Session.interopView, Session.alarms, ht,
    List.filterMap_append, List.filter_append, h1, h2, h3, List.append_nil, hcr, hir, hci, hii, hd]

/-! ## What a pass does to the views -/

section Branches

variable (s : Session) (cfg : Setup) (rev : Revents) (i : Pass)

theorem incoming_timers : (s.timers i).incoming = s.incoming := by
  have hnow : ({ s with trace := s.trace ++ [.now i.now] } : Session).incoming = s.incoming := by
    refine incoming_of_frame [.now i.now] rfl (fun a ha => ?_) rfl
    rw [List.mem_singleton.mp ha]
    rfl
  have hescalate : ∀ s : Session, (s.escalate i).incoming = s.incoming := by
    intro s
    unfold Session.escalate
    split
    · split
      · rename_i status hw
        refine incoming_of_frame [.kill .kill, .collected status] rfl (fun a ha => ?_) rfl
        simp only [List.mem_cons, List.not_mem_nil, or_false] at ha
        rcases ha with rfl | rfl <;> rfl
      · refine incoming_of_frame [.kill .kill] rfl (fun a ha => ?_) rfl
        rw [List.mem_singleton.mp ha]
        rfl
    · rfl
  have hsize : ∀ s : Session, (s.sizeCheck i).incoming = s.incoming := by
    intro s
    refine incoming_of_frame (s.sizeCheckActs i) rfl (fun a ha => ?_) rfl
    obtain ⟨rows, cols, rfl⟩ := mem_sizeCheckActs ha
    rfl
  exact (hsize _).trans ((hescalate _).trans hnow)

theorem incoming_stdinBranch : (s.stdinBranch rev i).incoming = s.incoming := by
  refine incoming_of_frame (s.stdinActs rev i) rfl (fun a ha => ?_) rfl
  obtain ⟨r, rfl⟩ | ⟨buf, taken, rfl⟩ := mem_stdinActs ha <;> rfl

theorem incoming_ptyBranch : (s.ptyBranch rev i).incoming = s.incoming := by
  refine incoming_of_frame (s.ptyActs rev i) rfl (fun a ha => ?_) rfl
  obtain ⟨r, rfl⟩ | ⟨buf, taken, rfl⟩ := mem_ptyActs ha <;> rfl

theorem incoming_channelBranch : (s.channelBranch cfg rev i).incoming = s.incoming := by
  refine incoming_of_frame (s.channelActs cfg rev i) rfl (fun a ha => ?_) rfl
  obtain ⟨r, rfl⟩ | ⟨buf, taken, rfl⟩ := mem_channelActs ha <;> rfl

theorem incoming_localBranch : (s.localBranch cfg rev i).incoming = s.incoming := by
  refine incoming_of_frame (Session.localActs cfg rev i) rfl (fun a ha => ?_) rfl
  obtain ⟨seq, result, rfl⟩ | ⟨m, taken, rfl⟩ := mem_localActs ha <;> rfl

theorem incoming_childExited (status : WaitStatus) :
    (s.childExited i status).incoming = s.incoming := by
  refine incoming_of_frame ([.collected status] ++ Session.drainActs (!s.hostDisconnected) i.drain ++
    s.exitActs i status) (by simp [Session.childExited]) (fun a ha => ?_) rfl
  rcases List.mem_append.mp ha with ha | ha
  · rcases List.mem_append.mp ha with ha | ha
    · rw [List.mem_singleton.mp ha]
      rfl
    · obtain ⟨r, rfl⟩ | ⟨buf, taken, rfl⟩ := mem_drainActs ha <;> rfl
  · rw [mem_exitActs ha]
    rfl

theorem incoming_pollFailed (status : WaitStatus) :
    (({ s with trace := s.trace ++ [.pollFailed] } : Session).killAndWait status).incoming =
      s.incoming := by
  obtain ⟨acts, ht, hacts⟩ := trace_pollFailed s status
  refine incoming_of_frame acts ht (fun a ha => ?_) rfl
  rcases hacts a ha with rfl | rfl | rfl <;> rfl

theorem terminate_controlDispatch (mem : Bytes) (fst : FontSizeTracker) (pty : Winsize) :
    (controlDispatch mem fst pty i).terminate = true ↔
      messageType mem = LxInitMessageTerminateInstance := by
  unfold controlDispatch
  by_cases hwin : messageType mem = LxInitMessageWindowSizeChanged
  · rw [if_pos hwin, hwin]
    refine iff_of_false ?_ (by decide)
    split <;> exact Bool.false_ne_true
  · rw [if_neg hwin]
    by_cases hterm : messageType mem = LxInitMessageTerminateInstance
    · rw [if_pos hterm]
      exact iff_of_true rfl hterm
    · rw [if_neg hterm]
      refine iff_of_false ?_ hterm
      split
      · exact Bool.false_ne_true
      · split <;> exact Bool.false_ne_true

theorem events_recvActs (r : Option RecvResult) :
    (Session.recvActs .control r).filterMap Act.controlEvent? = r.toList.map .recv ∧
      (Session.recvActs .interop r).filterMap Act.interopEvent? = r.toList.map .recv := by
  cases r <;> exact ⟨rfl, rfl⟩

theorem controlView_controlReceived (c : RecvChoice) :
    (s.controlReceived (controlTryRead s.cr s.controlIn c)).controlView = s.controlView.received c := by
  simp only [Session.controlView, Session.controlReceived, ChannelView.received,
    List.filterMap_append, events_recvActs]
  rfl

theorem controlView_controlHandled : (s.controlHandled i).controlView = s.controlView.handled := by
  have hacts : (controlDispatch s.cr.buf s.fst s.pty i).acts.filterMap Act.controlEvent? = [] := by
    refine List.filterMap_eq_nil_iff.mpr fun a ha => ?_
    obtain ⟨c, rfl⟩ | rfl | ⟨target, rfl⟩ | ⟨seq, taken, rfl⟩ := mem_controlDispatch ha <;> rfl
  simp only [Session.controlView, Session.controlHandled, ChannelView.handled,
    List.filterMap_append, List.filterMap_cons, Act.controlEvent?, hacts]
  rfl

theorem controlView_disconnect (time : Int) : (s.disconnect time).controlView = s.controlView := by
  cases hs : s.sighupSent <;>
    simp [Session.controlView, Session.disconnect, hs, List.filterMap_append, Act.controlEvent?]

theorem controlView_controlBranch :
    (s.controlBranch rev i).controlView =
      if s.hostDisconnected ∨ ¬ rev.control then s.controlView
      else s.controlView.wake i.controlRecv := by
  unfold Session.controlBranch
  split
  · rfl
  · have hrecv := controlView_controlReceived s i.controlRecv
    have hcode : (tryRead s.controlView.reader s.controlView.socket i.controlRecv).code =
        (controlTryRead s.cr s.controlIn i.controlRecv).code := rfl
    unfold ChannelView.wake
    rw [hcode]
    dsimp only
    cases (controlTryRead s.cr s.controlIn i.controlRecv).code with
    | error =>
      dsimp only
      rw [controlView_disconnect, hrecv]
    | needMore => exact hrecv
    | message =>
      dsimp only
      split
      · rw [controlView_disconnect, controlView_controlHandled, hrecv]
      · rw [controlView_controlHandled, hrecv]

theorem interopView_interopBranch :
    (s.interopBranch cfg rev i).interopView =
      if !s.hostDisconnected && cfg.interop && rev.interop then s.interopView.wake i.interopRecv
      else s.interopView := by
  have hrecv : (s.interopReceived (interopTryRead s.ir s.interopIn i.interopRecv)).interopView =
      s.interopView.received i.interopRecv := by
    simp only [Session.interopView, Session.interopReceived, ChannelView.received,
      List.filterMap_append, events_recvActs]
    rfl
  have hhandled : ∀ s : Session, s.interopHandled.interopView = s.interopView.handled := by
    intro s
    simp only [Session.interopView, Session.interopHandled, ChannelView.handled,
      List.filterMap_append]
    rfl
  unfold Session.interopBranch
  split
  · have hcode : (tryRead s.interopView.reader s.interopView.socket i.interopRecv).code =
        (interopTryRead s.ir s.interopIn i.interopRecv).code := rfl
    unfold ChannelView.wake
    rw [hcode]
    dsimp only
    cases (interopTryRead s.ir s.interopIn i.interopRecv).code with
    | error => exact hrecv
    | needMore => exact hrecv
    | message => exact (hhandled _).trans (congrArg _ hrecv)
  · rfl

theorem interopView_controlBranch : (s.controlBranch rev i).interopView = s.interopView := by
  have hdisc : ∀ (s : Session) (time : Int), (s.disconnect time).interopView = s.interopView := by
    intro s time
    cases hs : s.sighupSent <;>
      simp [Session.interopView, Session.disconnect, hs, List.filterMap_append, Act.interopEvent?]
  have hrecv : ∀ (s : Session) (out : TryRead controlBufSize),
      (s.controlReceived out).interopView = s.interopView := by
    intro s out
    cases hr : out.recvd <;>
      simp [Session.interopView, Session.controlReceived, Session.recvActs, hr,
        List.filterMap_append, Act.interopEvent?]
  have hhandled : ∀ s : Session, (s.controlHandled i).interopView = s.interopView := by
    intro s
    have hacts : (controlDispatch s.cr.buf s.fst s.pty i).acts.filterMap Act.interopEvent? = [] := by
      refine List.filterMap_eq_nil_iff.mpr fun a ha => ?_
      obtain ⟨c, rfl⟩ | rfl | ⟨target, rfl⟩ | ⟨seq, taken, rfl⟩ := mem_controlDispatch ha <;> rfl
    simp [Session.interopView, Session.controlHandled, List.filterMap_append, List.filterMap_cons,
      Act.interopEvent?, hacts]
  unfold Session.controlBranch
  split
  · rfl
  · dsimp only
    split
    · rw [hdisc, hrecv]
    · rw [hrecv]
    · split
      · rw [hdisc, hhandled, hrecv]
      · rw [hhandled, hrecv]

theorem controlView_interopBranch :
    (s.interopBranch cfg rev i).controlView = s.controlView ∧
      (s.interopBranch cfg rev i).alarms = s.alarms := by
  have hrecv : ∀ out : TryRead interopBufSize, (s.interopReceived out).controlView = s.controlView ∧
      (s.interopReceived out).alarms = s.alarms := by
    intro out
    cases hr : out.recvd <;>
      simp [Session.controlView, Session.alarms, Session.interopReceived, Session.recvActs, hr,
        List.filterMap_append, List.filter_append, Act.controlEvent?, Act.isAlarm,
        Act.isDisconnect, Act.isSighup]
  have hhandled : ∀ s : Session, s.interopHandled.controlView = s.controlView ∧
      s.interopHandled.alarms = s.alarms := by
    intro s
    simp [Session.controlView, Session.alarms, Session.interopHandled, List.filterMap_append,
      List.filter_append, Act.controlEvent?, Act.isAlarm, Act.isDisconnect,
      Act.isSighup]
  unfold Session.interopBranch
  split
  · dsimp only
    split
    · exact ⟨(hhandled _).1.trans (hrecv _).1, (hhandled _).2.trans (hrecv _).2⟩
    · exact hrecv _
  · exact ⟨rfl, rfl⟩

/-- The session takes its first step to the shutdown at a return value of `-1` and at
`TerminateInstance`, and nowhere else. -/
theorem alarms_controlBranch (hcode : (controlTryRead s.cr s.controlIn i.controlRecv).code ≠ .error)
    (hterm : (controlTryRead s.cr s.controlIn i.controlRecv).code = .message →
      messageType (controlTryRead s.cr s.controlIn i.controlRecv).reader.buf ≠
        LxInitMessageTerminateInstance) :
    (s.controlBranch rev i).alarms = s.alarms := by
  have hrecv : ∀ (s : Session) (out : TryRead controlBufSize),
      (s.controlReceived out).alarms = s.alarms := by
    intro s out
    cases hr : out.recvd <;>
      simp [Session.alarms, Session.controlReceived, Session.recvActs, hr, List.filter_append,
        Act.isAlarm, Act.isDisconnect, Act.isSighup]
  have hhandled : ∀ s : Session, (s.controlHandled i).alarms = s.alarms := by
    intro s
    have hacts : (controlDispatch s.cr.buf s.fst s.pty i).acts.filter Act.isAlarm = [] := by
      refine List.filter_eq_nil_iff.mpr fun a ha => ?_
      obtain ⟨c, rfl⟩ | rfl | ⟨target, rfl⟩ | ⟨seq, taken, rfl⟩ := mem_controlDispatch ha <;>
        simp [Act.isAlarm, Act.isDisconnect, Act.isSighup]
    simp [Session.alarms, Session.controlHandled, List.filter_append, hacts,
      Act.isAlarm, Act.isDisconnect, Act.isSighup]
  unfold Session.controlBranch
  split
  · rfl
  · dsimp only
    split
    · rename_i he
      exact absurd he hcode
    · rw [hrecv]
    · rename_i hm
      rw [if_neg (by rw [terminate_controlDispatch]; exact hterm hm), hhandled, hrecv]

theorem hostDisconnected_controlBranch (hd : s.hostDisconnected = false) (hc : rev.control = true)
    (hcode : (controlTryRead s.cr s.controlIn i.controlRecv).code = .error) :
    (s.controlBranch rev i).hostDisconnected = true := by
  unfold Session.controlBranch
  rw [if_neg (by simp [hd, hc])]
  dsimp only
  rw [hcode]
  rfl

theorem incoming_eq {s s' : Session} (h : s'.incoming = s.incoming) :
    s'.controlView = s.controlView ∧ s'.interopView = s.interopView ∧ s'.alarms = s.alarms := by
  simpa only [Session.incoming, Prod.mk.injEq] using h

theorem channels_views :
    (s.channels cfg rev i).controlView = (s.controlBranch rev i).controlView ∧
      (s.channels cfg rev i).alarms = (s.controlBranch rev i).alarms ∧
      (s.channels cfg rev i).interopView =
        if !(s.controlBranch rev i).hostDisconnected && cfg.interop && rev.interop then
          s.interopView.wake i.interopRecv
        else s.interopView := by
  have hterminal : ((((s.controlBranch rev i).stdinBranch rev i).ptyBranch rev i).channelBranch cfg
      rev i).incoming = (s.controlBranch rev i).incoming :=
    (incoming_channelBranch _ _ _ _).trans
      ((incoming_ptyBranch _ _ _).trans (incoming_stdinBranch _ _ _))
  obtain ⟨hc, hi, ha⟩ := incoming_eq hterminal
  obtain ⟨hc', hi', ha'⟩ := incoming_eq (incoming_localBranch
    ((((s.controlBranch rev i).stdinBranch rev i).ptyBranch rev i).channelBranch cfg rev
      i |>.interopBranch cfg rev i) cfg rev i)
  obtain ⟨hci, hai⟩ := controlView_interopBranch
    ((((s.controlBranch rev i).stdinBranch rev i).ptyBranch rev i).channelBranch cfg rev i) cfg rev i
  refine ⟨hc'.trans (hci.trans hc), ha'.trans (hai.trans ha), hi'.trans ?_⟩
  rw [interopView_interopBranch, hi, interopView_controlBranch]
  rfl

theorem iterate_incoming :
    ∃ s', (Session.iterate cfg s i = .inl s' ∨ Session.iterate cfg s i = .inr s') ∧
      (s'.incoming = (s.deliver cfg i).incoming ∨
        ∃ rev, i.poll = .ready rev ∧ s' = ((s.deliver cfg i).timers i).channels cfg rev i) := by
  unfold Session.iterate
  dsimp only
  split
  · split
    · exact ⟨_, .inr rfl, .inl rfl⟩
    · exact ⟨_, .inl rfl, .inl rfl⟩
  · split
    · refine ⟨_, .inr rfl, .inl ?_⟩
      refine incoming_of_frame [.pollFailed] rfl (fun a ha => ?_) rfl
      rw [List.mem_singleton.mp ha]
      rfl
    · exact ⟨_, .inr rfl, .inl (incoming_pollFailed _ _)⟩
  · rename_i rev hpoll
    split
    · exact ⟨_, .inr rfl, .inl rfl⟩
    · split
      · exact ⟨_, .inr rfl, .inl ((incoming_childExited _ _ _).trans (incoming_timers _ _))⟩
      · split
        · exact ⟨_, .inr rfl, .inr ⟨rev, hpoll, rfl⟩⟩
        · exact ⟨_, .inl rfl, .inr ⟨rev, hpoll, rfl⟩⟩

end Branches

/-! ## No message is held back -/

/-- Every `recv` that the pass makes completes at most one message. -/
def CompletesAtMostOne (cfg : Setup) (s : Session) (i : Pass) : Prop :=
  ∀ rev, i.poll = .ready rev → s.hostDisconnected = false →
    (rev.control = true →
      (s.controlView.deliver i.controlArrive i.controlClose).AtMostOne i.controlRecv) ∧
    (cfg.interop = true → rev.interop = true →
      (s.interopView.deliver i.interopArrive i.interopClose).AtMostOne i.interopRecv)

def NothingHeld (s : Session) : Prop :=
  messageFormat.next? s.cr.valid = none ∧ messageFormat.next? s.ir.valid = none

/-- When `recv` reported the end of a channel, every complete message that had arrived on it
had been handled. -/
def EofLast (s : Session) : Prop :=
  (∀ p q, s.trace = p ++ .recv .control (.got []) :: q →
    messages (p.filterMap Act.controlEvent?) = messageFormat.decode s.controlIn.sent) ∧
  ∀ p q, s.trace = p ++ .recv .interop (.got []) :: q →
    messages (p.filterMap Act.interopEvent?) = messageFormat.decode s.interopIn.sent

def BothDrained (s : Session) : Prop := s.controlView.Drained ∧ s.interopView.Drained

theorem BothDrained.eofLast {s : Session} (h : BothDrained s) : EofLast s := by
  refine ⟨fun p q ht => ?_, fun p q ht => ?_⟩
  · have hev : s.controlView.events =
        p.filterMap Act.controlEvent? ++ .recv (.got []) :: q.filterMap Act.controlEvent? := by
      simp [Session.controlView, ht, List.filterMap_append, Act.controlEvent?]
    exact (h.1.eof _ _ _ hev rfl).2
  · have hev : s.interopView.events =
        p.filterMap Act.interopEvent? ++ .recv (.got []) :: q.filterMap Act.interopEvent? := by
      simp [Session.interopView, ht, List.filterMap_append, Act.interopEvent?]
    exact (h.2.eof _ _ _ hev rfl).2

theorem deliver_views (s : Session) (cfg : Setup) (i : Pass) :
    (s.deliver cfg i).controlView = s.controlView.deliver i.controlArrive i.controlClose ∧
      (s.deliver cfg i).interopView = s.interopView.deliver i.interopArrive i.interopClose ∧
      (s.deliver cfg i).alarms = s.alarms := by
  simp [Session.deliver, Session.controlView, Session.interopView, Session.alarms,
    ChannelView.deliver, List.filterMap_append, List.filter_append, Act.controlEvent?,
    Act.interopEvent?, Act.isAlarm, Act.isDisconnect, Act.isSighup]

theorem iterate_views (s : Session) (cfg : Setup) (i : Pass) :
    ∃ s', (Session.iterate cfg s i = .inl s' ∨ Session.iterate cfg s i = .inr s') ∧
      (s'.controlView = s.controlView.deliver i.controlArrive i.controlClose ∨
        ∃ rev, i.poll = .ready rev ∧ s.hostDisconnected = false ∧ rev.control = true ∧
          s'.controlView =
            (s.controlView.deliver i.controlArrive i.controlClose).wake i.controlRecv) ∧
      (s'.interopView = s.interopView.deliver i.interopArrive i.interopClose ∨
        ∃ rev, i.poll = .ready rev ∧ s.hostDisconnected = false ∧ cfg.interop = true ∧
          rev.interop = true ∧ s'.interopView =
            (s.interopView.deliver i.interopArrive i.interopClose).wake i.interopRecv) := by
  obtain ⟨hdc, hdi, -⟩ := deliver_views s cfg i
  obtain ⟨s', hs', hin | ⟨rev, hpoll, rfl⟩⟩ := iterate_incoming s cfg i
  · obtain ⟨hc, hi, -⟩ := incoming_eq hin
    exact ⟨s', hs', .inl (hc.trans hdc), .inl (hi.trans hdi)⟩
  · refine ⟨_, hs', ?_, ?_⟩
    all_goals
      obtain ⟨htc, hti, hta⟩ := incoming_eq (incoming_timers (s.deliver cfg i) i)
      obtain ⟨hcc, -, hci⟩ := channels_views ((s.deliver cfg i).timers i) cfg rev i
      have hdisc : ((s.deliver cfg i).timers i).hostDisconnected = s.hostDisconnected :=
        congrArg Prod.fst hta
    · rw [hcc, controlView_controlBranch, htc, hdc, hdisc]
      split
      · exact .inl rfl
      · rename_i hrun
        simp only [not_or, Bool.not_eq_true, Bool.not_eq_false] at hrun
        exact .inr ⟨rev, hpoll, hrun.1, hrun.2, rfl⟩
    · rw [hci, hti, hdi]
      split
      · rename_i hrun
        simp only [Bool.and_eq_true, Bool.not_eq_true'] at hrun
        refine .inr ⟨rev, hpoll, ?_, hrun.1.2, hrun.2, rfl⟩
        -- a session that was disconnected before the control branch still is
        cases hh : s.hostDisconnected with
        | false => rfl
        | true =>
          have hstay : ((s.deliver cfg i).timers i).controlBranch rev i = (s.deliver cfg i).timers i := by
            unfold Session.controlBranch
            rw [if_pos (.inl (hdisc.trans hh))]
          rw [hstay, hdisc, hh] at hrun
          cases hrun.1.1
      · exact .inl rfl

theorem drained_iterate {cfg : Setup} {s : Session} {i : Pass} (h : BothDrained s)
    (hone : CompletesAtMostOne cfg s i) :
    After BothDrained BothDrained (Session.iterate cfg s i) := by
  have hcd := ChannelView.drained_deliver h.1 i.controlArrive i.controlClose
  have hid := ChannelView.drained_deliver h.2 i.interopArrive i.interopClose
  obtain ⟨s', hs', hc, hi⟩ := iterate_views s cfg i
  have hboth : BothDrained s' := by
    refine ⟨?_, ?_⟩
    · rcases hc with hc | ⟨rev, hpoll, hh, hrev, hc⟩
      · rw [hc]
        exact hcd
      · rw [hc]
        exact ChannelView.drained_wake hcd ((hone rev hpoll hh).1 hrev)
    · rcases hi with hi | ⟨rev, hpoll, hh, hcfg, hrev, hi⟩
      · rw [hi]
        exact hid
      · rw [hi]
        exact ChannelView.drained_wake hid ((hone rev hpoll hh).2 hcfg hrev)
  rcases hs' with hs' | hs' <;> rw [hs'] <;> exact hboth

theorem views_init (cfg : Setup) :
    (Session.init cfg).controlView = ⟨Reader.init controlBufSize, {}, []⟩ ∧
      (Session.init cfg).interopView = ⟨Reader.init interopBufSize, {}, []⟩ ∧
      (Session.init cfg).alarms = (false, []) := by
  have hlocal : ∀ a ∈ (Session.init cfg).trace, a.isLocal = true := by
    intro a ha
    obtain ⟨fd, rfl⟩ | rfl | rfl := mem_initTrace ha <;> rfl
  obtain ⟨hc, hi, ha⟩ := filterMap_local hlocal
  refine ⟨?_, ?_, ?_⟩
  · rw [Session.controlView, hc]
    rfl
  · rw [Session.interopView, hi]
    rfl
  · rw [Session.alarms, ha]
    rfl

theorem drained_init (cfg : Setup) : BothDrained (Session.init cfg) := by
  have hempty : ∀ cap, (ChannelView.mk (Reader.init cap) {} []).Drained :=
    fun cap => ⟨⟨by simp [messages], by simp [messages]⟩, rfl, Preceded.nil⟩
  obtain ⟨hc, hi, -⟩ := views_init cfg
  refine ⟨?_, ?_⟩
  · rw [hc]
    exact hempty _
  · rw [hi]
    exact hempty _

/-- In every run in which each `recv` completes at most one message, the readers hold no
complete message whenever the loop is back at `poll`, and the end of a channel is seen only
after its last message was handled. -/
theorem channels_drained (cfg : Setup) (passes : List Pass)
    (hone : Meets (Session.iterate cfg) (CompletesAtMostOne cfg) (Session.init cfg) passes) :
    After (fun s => NothingHeld s ∧ EofLast s) EofLast
      (runLoop (Session.iterate cfg) (Session.init cfg) passes) := by
  have hrun : After BothDrained BothDrained
      (runLoop (Session.iterate cfg) (Session.init cfg) passes) :=
    runLoop_inv_of_meets (fun s i h hC => drained_iterate h hC) (drained_init cfg) hone
  cases hr : runLoop (Session.iterate cfg) (Session.init cfg) passes with
  | inl s =>
    rw [hr] at hrun
    exact ⟨⟨hrun.1.idle, hrun.2.idle⟩, hrun.eofLast⟩
  | inr s =>
    rw [hr] at hrun
    exact hrun.eofLast

/-- Two messages that arrive together, both small enough to be ignored. -/
def coalescedPass : Pass :=
  { controlArrive := header LxInitMessageWindowSizeChanged 12 1 ++
      header LxInitMessageWindowSizeChanged 12 2
    controlRecv := .upTo 511
    poll := .ready { control := true } }

/-- The second of two messages received together is held when the loop is back at `poll`. -/
theorem coalesced_held :
    ¬ ∀ (cfg : Setup) (passes : List Pass), After (fun s => NothingHeld s ∧ EofLast s) EofLast
      (runLoop (Session.iterate cfg) (Session.init cfg) passes) := by
  intro h
  have hheld := (h {} [coalescedPass]).1.1
  revert hheld
  decide

def singlePasses : List Pass :=
  [{ controlArrive := header LxInitMessageWindowSizeChanged 12 1
     controlRecv := .upTo 511
     poll := .ready { control := true } },
   { controlClose := true, poll := .ready { control := true } }]

theorem channels_drained_single :
    After (fun s => NothingHeld s ∧ EofLast s) EofLast
      (runLoop (Session.iterate {}) (Session.init {}) singlePasses) := by
  refine channels_drained {} singlePasses ⟨?_, fun s' hs' => ⟨?_, fun _ _ => trivial⟩⟩
  · intro rev hrev hh
    cases hrev
    exact ⟨fun _ => by decide, fun _ hno => by cases hno⟩
  · intro rev hrev hh
    cases hrev
    cases hs'
    exact ⟨fun _ => by decide, fun _ hno => by cases hno⟩

end WslFreeBSD.Bridge
