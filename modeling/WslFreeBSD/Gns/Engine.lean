import Mathlib.Data.List.Forall2
import WslFreeBSD.Gns.Replies
import WslFreeBSD.Lib.Runs
import WslFreeBSD.Ports.Tracker
import WslFreeBSD.Ports.Wire

/-!
# The GNS engine

`gns_engine_loop`: every pass waits for the channel, scans the ports when nothing has arrived, and
otherwise receives one message and hands it to its handler. The input of a pass is how the wait
ended, with the answers of the environment to everything that is done in the pass.

What the host reads on the channel is the sequence of the messages that were sent, and apart from
the notifications of the port tracker these are the replies to the messages of the host, one for
each and in order (`one_reply_per_message`).
-/

namespace WslFreeBSD.Gns

open Lib Protocol Ports

/-! ## Dispatch -/

/-- A handler that leaves the globals as they are. -/
def keep (g : Globals) (h : Handler Unit) : Handler Globals := do
  h
  pure g

/-- The `switch` of `gns_engine_loop`. -/
def dispatch (g : Globals) (msg : Bytes) : Handler Globals :=
  let type := messageType msg
  let seq := sequenceNumber msg
  if type = LxGnsMessageInterfaceConfiguration then keep g (gnsHandleInterfaceConfiguration msg seq)
  else if type = LxGnsMessageNotification then keep g (gnsHandleNotification g msg seq)
  else if type = LxGnsMessageNoOp then keep g (gnsSendResult seq 0 (ascii "noop"))
  else if type = LxGnsMessageConnectTestRequest then keep g (handleConnectTest msg seq)
  else if type = LxGnsMessageInitialIpConfigurationNotification then
    keep g (gnsSendResult seq 0 (ascii "ip configured"))
  else if type = LxGnsMessageSetupIpv6 then keep g (gnsHandleSetupIpv6 seq)
  else if type = LxGnsMessageVmNicCreatedNotification then handleVmNicCreated g msg seq
  else if type = LxGnsMessagePortMappingRequest then keep g (gnsHandlePortMappingRequest msg seq)
  else if type = LxGnsMessageSetPortListener then keep g (gnsHandleSetPortListener msg seq)
  else if type = LxGnsMessageListenerRelay then keep g (gnsHandleListenerRelay msg seq)
  else if type = LxGnsMessageCreateDeviceRequest then keep g (gnsHandleCreateDevice msg seq)
  else if type = LxGnsMessageModifyGuestDeviceSettingRequest then
    keep g (gnsHandleModifyDeviceSetting msg seq)
  else if type = LxGnsMessageLoopbackRoutesRequest then keep g (gnsHandleLoopbackRoutes msg seq)
  else if type = LxGnsMessageDeviceSettingRequest then keep g (gnsHandleDeviceSetting msg seq)
  else if type = LxGnsMessageIfStateChangeRequest then keep g (gnsHandleIfStateChange msg seq)
  else if type = LxGnsMessageGlobalNetFilter then keep g (gnsHandleGlobalNetfilter msg seq)
  else if type = LxGnsMessageInterfaceNetFilter then keep g (gnsHandleInterfaceNetfilter msg seq)
  else keep g (gnsSendResult seq 0 (ascii "unhandled"))

theorem sendsOne_dispatch (g : Globals) (m : Bytes) : SendsOne (dispatch g m) (IsReplyTo m) := by
  have hkeep : ∀ h : Handler Unit, SendsOne h (IsReplyTo m) → SendsOne (keep g h) (IsReplyTo m) :=
    fun h hone => hone.bind_pure g
  have hne : ∀ {type}, messageType m = type → type ≠ LxGnsMessageIfStateChangeRequest →
      messageType m ≠ LxGnsMessageIfStateChangeRequest := fun h => ne_of_eq_of_ne h
  have hnote : ∀ {type} (note : String), messageType m = type →
      type ≠ LxGnsMessageIfStateChangeRequest → Short (ascii note) →
      SendsOne (keep g (gnsSendResult (sequenceNumber m) 0 (ascii note))) (IsReplyTo m) :=
    fun note h htype hshort => hkeep _ (sendsOne_note (hne h htype) _ hshort)
  have hcommand : ∀ {type} (command : Bytes → Option Bytes) (applied failed : String),
      messageType m = type → type ≠ LxGnsMessageIfStateChangeRequest → Short (ascii applied) →
      Short (ascii failed) → SendsOne
        (keep g (commandHandler command applied failed m (sequenceNumber m))) (IsReplyTo m) :=
    fun command _ _ h htype ha hf => hkeep _ (sendsOne_commandHandler (hne h htype) command ha hf)
  -- the cases of the `switch`, in its order
  refine SendsOne.ite
    (fun h => hkeep _ (sendsOne_gnsHandleInterfaceConfiguration (hne h (by decide)))) fun _ => ?_
  refine SendsOne.ite
    (fun h => hkeep _ (sendsOne_gnsHandleNotification (hne h (by decide)) g)) fun _ => ?_
  refine SendsOne.ite (fun h => hnote _ h (by decide) (by decide)) fun _ => ?_
  refine SendsOne.ite (fun h => hkeep _ (sendsOne_handleConnectTest (hne h (by decide)))) fun _ => ?_
  refine SendsOne.ite (fun h => hnote _ h (by decide) (by decide)) fun _ => ?_
  refine SendsOne.ite (fun h => hkeep _ (sendsOne_gnsHandleSetupIpv6 (hne h (by decide)))) fun _ => ?_
  refine SendsOne.ite (fun h => sendsOne_handleVmNicCreated (hne h (by decide)) g) fun _ => ?_
  refine SendsOne.ite (fun h => hcommand _ _ _ h (by decide) (by decide) (by decide)) fun _ => ?_
  refine SendsOne.ite (fun h => hcommand _ _ _ h (by decide) (by decide) (by decide)) fun _ => ?_
  refine SendsOne.ite
    (fun h => hkeep _ (sendsOne_gnsHandleListenerRelay (hne h (by decide)))) fun _ => ?_
  refine SendsOne.ite (fun h => hcommand _ _ _ h (by decide) (by decide) (by decide)) fun _ => ?_
  refine SendsOne.ite (fun h => hcommand _ _ _ h (by decide) (by decide) (by decide)) fun _ => ?_
  refine SendsOne.ite (fun h => hcommand _ _ _ h (by decide) (by decide) (by decide)) fun _ => ?_
  refine SendsOne.ite
    (fun h => hkeep _ (sendsOne_gnsHandleDeviceSetting (hne h (by decide)))) fun _ => ?_
  refine SendsOne.ite (fun h => hkeep _ (sendsOne_gnsHandleIfStateChange h)) fun hother => ?_
  refine SendsOne.ite (fun h => hcommand _ _ _ h (by decide) (by decide) (by decide)) fun _ => ?_
  refine SendsOne.ite (fun h => hcommand _ _ _ h (by decide) (by decide) (by decide)) fun _ => ?_
  exact hkeep _ (sendsOne_note hother _ (by decide))

/-! ## The loop -/

abbrev Answers := Program.Environment Op Op.Answer

/-- How the wait of a pass ended. A timeout and an interruption come with the time and what the
kernel lists if the ports are scanned; when the channel is ready, with the events of `poll` and
whether the rest of a message arrives in time. -/
inductive Wakeup where
  | timeout (now : Int) (os : OsPorts) (answers : Answers)
  | interrupted (now : Int) (os : OsPorts) (answers : Answers)
  | failed
  | ready (error readable arrives : Bool) (answers : Answers)

/-- The state of the engine: what the host has sent or will send and has not been received, and
everything that was done, oldest first. -/
structure Engine where
  globals : Globals := {}
  tracker : PortTracker := portTrackerInit
  lastPortScan : Int := 0
  incoming : Bytes := []
  trace : HandlerTrace := []

/-- The message of `port_tracker_poll` for a change; these have sequence number 0. -/
def relayMessage : Change PortEntry → Bytes
  | .added e => portTrackerSendRelay LxGnsMessagePortListenerRelayStart e 0
  | .removed e => portTrackerSendRelay LxGnsMessagePortListenerRelayStop e 0

def sendRelays : List (Change PortEntry) → Handler Unit
  | [] => pure ()
  | c :: cs => do
    send (relayMessage c)
    sendRelays cs

/-- The scan of the ports, at most once in a second. -/
def portScan (p : Platform) (e : Engine) (now : Int) (os : OsPorts) (answers : Answers) : Engine :=
  if 1 ≤ now - e.lastPortScan then
    let out := portTrackerPoll p e.tracker { os }
    { e with
      tracker := out.tracker
      lastPortScan := now
      trace := ((sendRelays (out.messages.map Prod.fst)).run answers e.trace).2 }
  else e

/-- `gns_recv_all`: `n` bytes and the rest, unless the stream ends before or the wait for the next
bytes fails. -/
def gnsRecvAll (arrives : Bool) (n : Nat) (incoming : Bytes) : Option (Bytes × Bytes) :=
  if arrives ∧ n ≤ incoming.length then some (incoming.take n, incoming.drop n) else none

/-- Receives a message and handles it. A header that announces less than itself is dropped. -/
def receive (e : Engine) (arrives : Bool) (answers : Answers) : Engine ⊕ Engine :=
  match gnsRecvAll arrives headerSize e.incoming with
  | none => .inr e
  | some (hdr, rest) =>
    if messageSize hdr < headerSize then .inl { e with incoming := rest }
    else
      match gnsRecvAll arrives (messageSize hdr - headerSize) rest with
      | none => .inr { e with incoming := rest }
      | some (payload, rest) =>
        let out := (dispatch e.globals (hdr ++ payload)).run answers e.trace
        .inl { e with globals := out.1, incoming := rest, trace := out.2 }

/-- One pass of `gns_engine_loop`; after an interruption there are no events to look at. -/
def pass (p : Platform) (e : Engine) : Wakeup → Engine ⊕ Engine
  | .timeout now os answers => .inl (portScan p e now os answers)
  | .interrupted now os answers => .inl (portScan p e now os answers)
  | .failed => .inr e
  | .ready error readable arrives answers =>
    if error then .inr e
    else if ¬ readable then .inl e
    else receive e arrives answers

/-- `gns_engine_loop`: the engine after some passes, or when it has left the loop. -/
def gnsEngineLoop (p : Platform) (e : Engine) (ws : List Wakeup) : Engine :=
  (runLoop (pass p) e ws).elim id id

/-! ## What is written -/

/-- `gns_send_all` and the loop of `port_tracker_send_relay` go on after `EAGAIN`, when the
channel becomes writable. -/
def sendResumes : WriteResult → Bool
  | .wouldBlock writable => writable
  | _ => false

def wire (t : HandlerTrace) : Bytes :=
  (t.map fun
    | ⟨.send m, results⟩ => (writeLoop sendResumes results m).1
    | _ => []).flatten

def socketSucceeds (t : HandlerTrace) : Bool :=
  t.all fun
    | ⟨.send m, results⟩ => (writeLoop sendResumes results m).2
    | _ => true

theorem wire_eq_sent {t : HandlerTrace} (h : socketSucceeds t = true) : wire t = (sent t).flatten := by
  induction t with
  | nil => rfl
  | cons c t ih =>
    obtain ⟨hc, ht⟩ := Bool.and_eq_true_iff.mp h
    have hrest := ih ht
    obtain ⟨op, answer⟩ := c
    cases op with
    | send m =>
      have hm : (writeLoop sendResumes answer m).1 = m := (writeLoop_snd_iff _ _).mp hc
      change (writeLoop sendResumes answer m).1 ++ wire t = m ++ (sent t).flatten
      rw [hm, hrest]
    | system cmd => exact hrest
    | popen cmd => exact hrest
    | writeFile path contents => exact hrest
    | connect udp address port => exact hrest
    | socketIpv6 => exact hrest

def isRelay (m : Bytes) : Bool :=
  messageType m = LxGnsMessagePortListenerRelayStart || messageType m = LxGnsMessagePortListenerRelayStop

/-- The messages `out` are the replies to `handled`, with notifications between them. -/
structure Answered (handled out : List Bytes) : Prop where
  wellFormed : ∀ m ∈ out, messageFormat.WellFormed m
  replies : List.Forall₂ IsReplyTo handled (out.filter (!isRelay ·))

theorem Answered.nil : Answered [] [] := ⟨by simp, List.Forall₂.nil⟩

theorem Answered.append {handled handled' out out' : List Bytes} (h : Answered handled out)
    (h' : Answered handled' out') : Answered (handled ++ handled') (out ++ out') := by
  refine ⟨fun m hm => ?_, ?_⟩
  · rcases List.mem_append.mp hm with hm | hm
    · exact h.wellFormed m hm
    · exact h'.wellFormed m hm
  · rw [List.filter_append]
    exact List.rel_append h.replies h'.replies

theorem not_isRelay_of_isReplyTo {m r : Bytes} (h : IsReplyTo m r) : isRelay r = false := by
  have htype := h.type
  unfold replyType at htype
  unfold isRelay
  split at htype
  · rw [htype]
    decide
  · rw [htype]
    decide

theorem Answered.single {m r : Bytes} (h : IsReplyTo m r) : Answered [m] [r] := by
  have hfilter : [r].filter (!isRelay ·) = [r] := by simp [not_isRelay_of_isReplyTo h]
  refine ⟨?_, ?_⟩
  · simpa using h.wellFormed
  · rw [hfilter]
    exact List.Forall₂.cons h List.Forall₂.nil

theorem isRelay_relayMessage (c : Change PortEntry) : isRelay (relayMessage c) = true := by
  unfold isRelay
  cases c with
  | added e =>
    have htype : messageType (relayMessage (.added e)) = LxGnsMessagePortListenerRelayStart :=
      messageType_header_append (by decide) _ _ _
    simp [htype]
  | removed e =>
    have htype : messageType (relayMessage (.removed e)) = LxGnsMessagePortListenerRelayStop :=
      messageType_header_append (by decide) _ _ _
    simp [htype]

theorem Answered.relay (c : Change PortEntry) : Answered [] [relayMessage c] := by
  have hfilter : [relayMessage c].filter (!isRelay ·) = [] := by simp [isRelay_relayMessage]
  have hwf : messageFormat.WellFormed (relayMessage c) := by
    cases c with
    | added e => exact wellFormed_portListenerRelay _ _ _ _ _
    | removed e => exact wellFormed_portListenerRelay _ _ _ _ _
  refine ⟨?_, ?_⟩
  · simpa using hwf
  · rw [hfilter]
    exact List.Forall₂.nil

/-! ## One pass -/

theorem ensures_sendRelays (cs : List (Change PortEntry)) :
    (sendRelays cs).Ensures fun _ t => Answered [] (sent t) := by
  induction cs with
  | nil => exact Answered.nil
  | cons c cs ih =>
    refine Program.ensures_bind.mpr ?_
    intro results
    refine ih.mono ?_
    intro _ t ht
    exact (Answered.relay c).append ht

theorem portScan_spec (p : Platform) (e : Engine) (now : Int) (os : OsPorts) (answers : Answers) :
    (portScan p e now os answers).incoming = e.incoming ∧
      ∃ out, sent (portScan p e now os answers).trace = sent e.trace ++ out ∧ Answered [] out := by
  unfold portScan
  split
  · obtain ⟨u, hu, hans⟩ := (ensures_sendRelays
      ((portTrackerPoll p e.tracker { os }).messages.map Prod.fst)).run answers e.trace
    refine ⟨rfl, sent u, ?_, hans⟩
    dsimp only
    rw [hu, sent_append]
  · exact ⟨rfl, [], (List.append_nil _).symm, Answered.nil⟩

/-- Nothing goes wrong with the channel in the pass. -/
def Wakeup.works : Wakeup → Bool
  | .failed => false
  | .ready error _ arrives _ => !error && arrives
  | _ => true

def Wakeup.readable : Wakeup → Bool
  | .ready _ readable _ _ => readable
  | _ => false

/-- What a pass does when `pending` is what the host has still to say: it answers some of its
messages, in order, and none is skipped; a working channel gives one message for every pass in
which it is readable. -/
def PassSpec (pending : List Bytes) (e : Engine) (w : Wakeup) : Engine ⊕ Engine → Prop
  | .inl e' => ∃ handled rest out, pending = handled ++ rest ∧ e'.incoming = rest.flatten ∧
      sent e'.trace = sent e.trace ++ out ∧ Answered handled out ∧
      (w.works → handled.length = if w.readable then 1 else 0)
  | .inr e' => e'.trace = e.trace ∧ (w.works → pending = [])

theorem gnsRecvAll_append {hdr rest : Bytes} {n : Nat} (h : hdr.length = n) :
    gnsRecvAll true n (hdr ++ rest) = some (hdr, rest) := by
  unfold gnsRecvAll
  rw [if_pos ⟨rfl, by simp; omega⟩, List.take_left' h, List.drop_left' h]

/-- A well-formed message at the front of a stream: its header announces its size, and header and
payload are received one after the other. -/
theorem gnsRecvAll_message {m : Bytes} (hm : messageFormat.WellFormed m) (rest : Bytes) :
    ¬ messageSize (m.take headerSize) < headerSize ∧
      gnsRecvAll true headerSize (m ++ rest) =
        some (m.take headerSize, m.drop headerSize ++ rest) ∧
      gnsRecvAll true (messageSize (m.take headerSize) - headerSize) (m.drop headerSize ++ rest) =
        some (m.drop headerSize, rest) := by
  have hhdr : headerSize ≤ m.length := hm.1
  have hhdrSize : messageSize (m.take headerSize) = m.length := hm.sizeOf_take
  refine ⟨by omega, ?_, ?_⟩
  · have hsplit : m ++ rest = m.take headerSize ++ (m.drop headerSize ++ rest) := by
      rw [← List.append_assoc, List.take_append_drop]
    rw [hsplit]
    exact gnsRecvAll_append (by simp; omega)
  · exact gnsRecvAll_append (by rw [hhdrSize, List.length_drop])

theorem receive_message {e : Engine} {m rest : Bytes} (hm : messageFormat.WellFormed m)
    (hin : e.incoming = m ++ rest) (answers : Answers) :
    receive e true answers =
      .inl { e with
        globals := ((dispatch e.globals m).run answers e.trace).1
        incoming := rest
        trace := ((dispatch e.globals m).run answers e.trace).2 } := by
  obtain ⟨hnot, hfirst, hsecond⟩ := gnsRecvAll_message hm rest
  unfold receive
  simp only [hin, hfirst, hsecond, if_neg hnot, List.take_append_drop]

theorem receive_spec {e : Engine} {pending : List Bytes} {error arrives : Bool}
    (hms : ∀ m ∈ pending, messageFormat.WellFormed m) (hin : e.incoming = pending.flatten)
    (answers : Answers) :
    PassSpec pending e (.ready error true arrives answers) (receive e arrives answers) := by
  cases arrives with
  | false =>
    have hnone : gnsRecvAll false headerSize e.incoming = none := if_neg fun h => by simp at h
    rw [receive, hnone]
    exact ⟨rfl, fun hw => by simp [Wakeup.works] at hw⟩
  | true =>
    cases pending with
    | nil =>
      have hnone : gnsRecvAll true headerSize e.incoming = none := by
        refine if_neg fun h => ?_
        have hlen := h.2
        rw [hin] at hlen
        simp [headerSize] at hlen
      rw [receive, hnone]
      exact ⟨rfl, fun _ => rfl⟩
    | cons m ms =>
      rw [receive_message (hms m List.mem_cons_self) hin]
      obtain ⟨u, hu, r, hr, hreply⟩ := (sendsOne_dispatch e.globals m).run answers e.trace
      refine ⟨[m], ms, [r], rfl, rfl, ?_, Answered.single hreply, fun _ => rfl⟩
      dsimp only
      rw [hu, sent_append, hr]

theorem pass_spec (p : Platform) {e : Engine} {pending : List Bytes}
    (hms : ∀ m ∈ pending, messageFormat.WellFormed m) (hin : e.incoming = pending.flatten)
    (w : Wakeup) : PassSpec pending e w (pass p e w) := by
  have hscan : ∀ now os answers, w.readable = false →
      PassSpec pending e w (.inl (portScan p e now os answers)) := by
    intro now os answers hw
    obtain ⟨hin', out, hout, hans⟩ := portScan_spec p e now os answers
    exact ⟨[], pending, out, rfl, hin'.trans hin, hout, hans, fun _ => by simp [hw]⟩
  cases w with
  | timeout now os answers => exact hscan now os answers rfl
  | interrupted now os answers => exact hscan now os answers rfl
  | failed => exact ⟨rfl, fun hw => by simp [Wakeup.works] at hw⟩
  | ready error readable arrives answers =>
    unfold pass
    cases error with
    | true => exact ⟨rfl, fun hw => by simp [Wakeup.works] at hw⟩
    | false =>
      cases readable with
      | false =>
        exact ⟨[], pending, [], rfl, hin, (List.append_nil _).symm, Answered.nil, fun _ => rfl⟩
      | true => exact receive_spec hms hin answers

/-! ## The whole run -/

/-- In every run the messages of the host are answered from the first on; with a working channel
that is readable often enough, all of them. -/
theorem loop_answers (p : Platform) (ws : List Wakeup) {e : Engine} {pending : List Bytes}
    (hms : ∀ m ∈ pending, messageFormat.WellFormed m) (hin : e.incoming = pending.flatten) :
    ∃ handled out, handled <+: pending ∧
      sent (gnsEngineLoop p e ws).trace = sent e.trace ++ out ∧ Answered handled out ∧
      ((∀ w ∈ ws, w.works) → pending.length ≤ ws.countP Wakeup.readable → handled = pending) := by
  induction ws generalizing e pending with
  | nil =>
    refine ⟨[], [], List.nil_prefix, (List.append_nil _).symm, Answered.nil, fun _ hcount => ?_⟩
    exact (List.length_eq_zero_iff.mp (Nat.le_zero.mp hcount)).symm
  | cons w ws ih =>
    have hpass := pass_spec p hms hin w
    cases hstep : pass p e w with
    | inr e' =>
      rw [hstep] at hpass
      obtain ⟨htrace, hdone⟩ := hpass
      have hloop : gnsEngineLoop p e (w :: ws) = e' := by
        simp only [gnsEngineLoop, runLoop, hstep, Sum.elim_inr, id]
      refine ⟨[], [], List.nil_prefix, ?_, Answered.nil, fun hw _ => ?_⟩
      · rw [hloop, htrace, List.append_nil]
      · exact (hdone (hw w List.mem_cons_self)).symm
    | inl e' =>
      rw [hstep] at hpass
      obtain ⟨handled, rest, out, rfl, hin', hout, hans, hlen⟩ := hpass
      have hrest : ∀ m ∈ rest, messageFormat.WellFormed m :=
        fun m hm => hms m (List.mem_append_right _ hm)
      obtain ⟨handled', out', hpre, hout', hans', hall⟩ := ih hrest hin'
      have hloop : gnsEngineLoop p e (w :: ws) = gnsEngineLoop p e' ws := by
        simp only [gnsEngineLoop, runLoop, hstep]
      refine ⟨handled ++ handled', out ++ out', ?_, ?_, hans.append hans', fun hw hcount => ?_⟩
      · exact (List.prefix_append_right_inj handled).mpr hpre
      · rw [hloop, hout', hout, List.append_assoc]
      · have hone := hlen (hw w List.mem_cons_self)
        rw [hall (fun w' hw' => hw w' (List.mem_cons_of_mem _ hw')) ?_]
        rw [List.length_append, List.countP_cons, hone] at hcount
        omega

/-- The engine with the globals of the process, when the host is going to send some messages. -/
def engineStart (g : Globals) (ms : List Bytes) : Engine where
  globals := g
  incoming := ms.flatten

/-- The messages that the host reads on the channel. -/
def hostReads (e : Engine) : List Bytes := messageFormat.decode (wire e.trace)

/-- What is written consists of whole messages. Apart from notifications of the port tracker these
are replies to the messages of the host, one for each message, in order: well formed, with its
sequence number and the type that belongs to it. All messages are answered once the channel has
been readable for each of them. -/
theorem one_reply_per_message (p : Platform) (g : Globals) (ms : List Bytes)
    (hms : ∀ m ∈ ms, messageFormat.WellFormed m) (ws : List Wakeup)
    (hsocket : socketSucceeds (gnsEngineLoop p (engineStart g ms) ws).trace = true) :
    (hostReads (gnsEngineLoop p (engineStart g ms) ws)).flatten =
        wire (gnsEngineLoop p (engineStart g ms) ws).trace ∧
      ∃ handled, handled <+: ms ∧
        List.Forall₂ IsReplyTo handled
          ((hostReads (gnsEngineLoop p (engineStart g ms) ws)).filter (!isRelay ·)) ∧
        ((∀ w ∈ ws, w.works) → ms.length ≤ ws.countP Wakeup.readable → handled = ms) := by
  obtain ⟨handled, out, hpre, hout, hans, hall⟩ :=
    loop_answers p ws (e := engineStart g ms) hms rfl
  have hwire : wire (gnsEngineLoop p (engineStart g ms) ws).trace = out.flatten := by
    rw [wire_eq_sent hsocket, hout]
    rfl
  have hreads : hostReads (gnsEngineLoop p (engineStart g ms) ws) = out := by
    rw [hostReads, hwire, FrameFormat.decode_flatten hans.wellFormed]
  rw [hreads, hwire]
  exact ⟨rfl, handled, hpre, hans.replies, hall⟩

/-- An environment in which commands fail and the channel takes every message at once. -/
def plainAnswers : Answers := fun _ e =>
  match e with
  | .system _ => (256 : Int)
  | .popen _ => (none : Option Bytes)
  | .writeFile _ _ => true
  | .connect _ _ _ => (none : Option Bool)
  | .socketIpv6 => false
  | .send m => [WriteResult.took m.length]

/-- A request to bring an interface up, then a message of an unknown type, with a new port between
them. -/
theorem one_reply_per_message_two :
    ∃ ms ws, ms.length = 2 ∧ (hostReads (gnsEngineLoop .freebsd (engineStart {} ms) ws)).length = 3 ∧
      ∃ handled, handled = ms ∧ List.Forall₂ IsReplyTo handled
        ((hostReads (gnsEngineLoop .freebsd (engineStart {} ms) ws)).filter (!isRelay ·)) := by
  let ms : List Bytes := [header LxGnsMessageIfStateChangeRequest 13 5 ++ [65], header 99 12 6]
  let os : OsPorts := { pcblist := some [⟨0, true, 0x901F, {}⟩] }
  let ws : List Wakeup := [.ready false true true plainAnswers, .timeout 1 os plainAnswers,
    .ready false true true plainAnswers]
  have hms : ∀ m ∈ ms, messageFormat.WellFormed m := by decide
  have hsocket : socketSucceeds (gnsEngineLoop .freebsd (engineStart {} ms) ws).trace = true := by
    decide
  obtain ⟨-, handled, -, hreplies, hall⟩ := one_reply_per_message .freebsd {} ms hms ws hsocket
  have hworks : ∀ w ∈ ws, w.works := by simp [ws, Wakeup.works]
  refine ⟨ms, ws, rfl, by decide, handled, hall hworks (by decide), hreplies⟩

end WslFreeBSD.Gns
