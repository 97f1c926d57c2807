import WslFreeBSD.Gns.SocketRelay

/-!
# The relay of a localhost connection

The thread of `localhost.cpp` that copies between the guest's TCP socket and the hvsocket of the host. As for
`gns_relay_connection`, the inputs of a run are what the two ends do and the passes of the loop, in any order,
and connections do not break down on their own.

At the end-of-file of one end the relay half-closes the connection to the other one, but the loop is left at the
head of the next pass. So a run delivers everything exactly if the other direction is done by then
(`localhost_relays_iff`).
-/

namespace WslFreeBSD.Reference.LocalhostRelay

open Lib
open Gns.SocketRelay (Peer Conveyed Finished Done Acts acts_send acts_shutdown acts_close finished_iff_done)

/-! ## The loop -/

/-- The two ends, `pollDescriptors[0]` first. A descriptor is -1 when the end-of-file of its end was read, and
`outFd` has then been shut down. -/
structure Relay where
  relay : Peer := {}
  tcp : Peer := {}
  relayEnded : Bool := false
  tcpEnded : Bool := false
  deriving DecidableEq, Repr

/-- The input of a pass: for an end that `poll` reports, how much `read` returns at most; whether writing to an
end that has closed fails. -/
structure Pass where
  relay : Option Nat := none
  tcp : Option Nat := none
  refused : Bool := false
  deriving DecidableEq, Repr

def INITIAL_MESSAGE_BUFFER_SIZE : Nat := 0x1000

/-- The two ends after a turn of the inner loop, whether the descriptor has become -1, and whether the relay
returns. -/
structure Served where
  src : Peer
  dst : Peer
  ended : Bool
  left : Bool

/-- What `UtilReadBuffer` returns at most, which has the buffer grow to a least size. -/
def readSize (bufferSize n : Nat) : Nat := min (n + 1) (max bufferSize INITIAL_MESSAGE_BUFFER_SIZE)

variable (bufferSize : Nat)

/-- A turn of the inner loop. An end that has nothing to be read is only reported when it is shut. -/
def serve (src dst : Peer) (reported : Option Nat) (refused : Bool) : Served :=
  match reported with
  | none => ⟨src, dst, false, false⟩
  | some n =>
    if src.pending = [] then ⟨src, dst, src.shut, false⟩
    else
      let src' := { src with pending := src.pending.drop (readSize bufferSize n) }
      if dst.closed then ⟨src', dst, false, refused⟩
      else ⟨src', { dst with received := dst.received ++ src.pending.take (readSize bufferSize n) },
        false, false⟩

def serveRelay (c : Relay) (p : Pass) : Served := serve bufferSize c.relay c.tcp p.relay p.refused

def afterRelay (c : Relay) (p : Pass) : Relay where
  relay := (serveRelay bufferSize c p).src
  tcp := (serveRelay bufferSize c p).dst
  relayEnded := (serveRelay bufferSize c p).ended
  tcpEnded := c.tcpEnded

def serveTcp (c : Relay) (p : Pass) : Served := serve bufferSize c.tcp c.relay p.tcp p.refused

def afterTcp (c : Relay) (p : Pass) : Relay where
  relay := (serveTcp bufferSize c p).dst
  tcp := (serveTcp bufferSize c p).src
  relayEnded := c.relayEnded
  tcpEnded := (serveTcp bufferSize c p).ended

def pass (c : Relay) (p : Pass) : Relay ⊕ Relay :=
  if c.relayEnded ∨ c.tcpEnded then .inr c
  else if (serveRelay bufferSize c p).left then .inr (afterRelay bufferSize c p)
  else if (serveTcp bufferSize (afterRelay bufferSize c p) p).left then
    .inr (afterTcp bufferSize (afterRelay bufferSize c p) p)
  else .inl (afterTcp bufferSize (afterRelay bufferSize c p) p)

inductive Side where
  | relay
  | tcp
  deriving DecidableEq, Repr

def Relay.update (c : Relay) (f : Peer → Peer) : Side → Relay
  | .relay => { c with relay := f c.relay }
  | .tcp => { c with tcp := f c.tcp }

inductive Event where
  | send (side : Side) (bytes : Bytes)
  | shutdown (side : Side)
  | close (side : Side)
  | pass (p : Pass)
  deriving DecidableEq, Repr

def step (c : Relay) : Event → Relay ⊕ Relay
  | .send side bytes => .inl (c.update (Peer.send bytes) side)
  | .shutdown side => .inl (c.update (fun p => { p with shut := true }) side)
  | .close side => .inl (c.update (fun p => { p with shut := true, closed := true }) side)
  | .pass p => pass bufferSize c p

/-- The thread from `Begin relaying data` on, with what the ends do meanwhile. -/
def relayThread (events : List Event) : Relay ⊕ Relay := runLoop (step bufferSize) {} events

/-! ## Delivery -/

/-- The end-of-file of an end was read: it sends nothing more, and nothing of it is pending. -/
def AtEnd (src : Peer) (ended : Bool) : Prop := ended = true → src.shut = true ∧ src.pending = []

/-- While the relay runs, nothing is lost and an end-of-file is passed on behind the last byte. -/
structure Relaying (c : Relay) : Prop where
  toTcp : Conveyed c.relay c.tcp
  toRelay : Conveyed c.tcp c.relay
  relayEnd : AtEnd c.relay c.relayEnded
  tcpEnd : AtEnd c.tcp c.tcpEnded

def Relays : Relay ⊕ Relay → Prop :=
  After Relaying fun c => Finished c.relay c.tcp ∧ Finished c.tcp c.relay

/-- A turn makes the relay return: what is read of an end is refused by the other end, which has closed. -/
def Refuses (src dst : Peer) (reported : Option Nat) (refused : Bool) : Prop :=
  reported.isSome = true ∧ src.pending ≠ [] ∧ dst.closed = true ∧ refused = true

def remaining (src : Peer) : Option Nat → Bytes
  | none => src.pending
  | some n => src.pending.drop (readSize bufferSize n)

/-- A pass that returns does so when the other direction is done. -/
def ReturnsLate (c : Relay) : Event → Prop
  | .pass p =>
    (c.relayEnded = true → Done c.tcp c.relay) ∧ (c.tcpEnded = true → Done c.relay c.tcp) ∧
      (c.relayEnded = false → c.tcpEnded = false →
        (Refuses c.relay c.tcp p.relay p.refused → Done c.tcp c.relay) ∧
          (¬ Refuses c.relay c.tcp p.relay p.refused → Refuses c.tcp c.relay p.tcp p.refused →
            c.tcp.closed = true ∨ (c.relay.shut = true ∧ remaining bufferSize c.relay p.relay = [])))
  | _ => True

section Serve

variable {bufferSize} {src dst : Peer} {reported : Option Nat} {refused : Bool}

theorem conveyed_serve (h : Conveyed src dst) :
    Conveyed (serve bufferSize src dst reported refused).src
      (serve bufferSize src dst reported refused).dst := by
  cases reported with
  | none => exact h
  | some n =>
    unfold serve
    dsimp only
    by_cases hpending : src.pending = []
    · rw [if_pos hpending]
      exact h
    rw [if_neg hpending]
    by_cases hclosed : dst.closed = true
    · rw [if_pos hclosed]
      exact .inl hclosed
    · rw [if_neg hclosed]
      refine .inr ?_
      have hsent := h.resolve_left hclosed
      dsimp only
      rw [List.append_assoc, List.take_append_drop]
      exact hsent

theorem serve_frame (src dst : Peer) (reported : Option Nat) (refused : Bool) :
    (serve bufferSize src dst reported refused).src =
        { src with pending := remaining bufferSize src reported } ∧
      ∃ received, (serve bufferSize src dst reported refused).dst = { dst with received } := by
  cases reported with
  | none => exact ⟨rfl, dst.received, rfl⟩
  | some n =>
    unfold serve remaining
    dsimp only
    by_cases hpending : src.pending = []
    · rw [if_pos hpending]
      obtain ⟨sent, pending, shut, closed, received⟩ := src
      dsimp only at hpending
      subst hpending
      exact ⟨by rw [List.drop_nil], dst.received, rfl⟩
    · rw [if_neg hpending]
      split
      · exact ⟨rfl, dst.received, rfl⟩
      · exact ⟨rfl, _, rfl⟩

theorem conveyed_serve_other (h : Conveyed dst src) :
    Conveyed (serve bufferSize src dst reported refused).dst
      (serve bufferSize src dst reported refused).src := by
  obtain ⟨hsrc, received, hdst⟩ := @serve_frame bufferSize src dst reported refused
  rw [hsrc, hdst]
  exact h

theorem atEnd_serve : AtEnd (serve bufferSize src dst reported refused).src
    (serve bufferSize src dst reported refused).ended := by
  unfold AtEnd
  cases reported with
  | none => exact fun h => absurd h Bool.false_ne_true
  | some n =>
    unfold serve
    dsimp only
    by_cases hpending : src.pending = []
    · rw [if_pos hpending]
      exact fun hshut => ⟨hshut, hpending⟩
    · rw [if_neg hpending]
      split
      · exact fun h => absurd h Bool.false_ne_true
      · exact fun h => absurd h Bool.false_ne_true

theorem left_iff_refuses :
    (serve bufferSize src dst reported refused).left = true ↔ Refuses src dst reported refused := by
  unfold Refuses
  cases reported with
  | none => simp [serve]
  | some n =>
    unfold serve
    dsimp only
    by_cases hpending : src.pending = []
    · simp [hpending]
    · by_cases hclosed : dst.closed = true
      · simp [hpending, hclosed]
      · simp [hpending, hclosed]

theorem finished_of_refuses (h : Refuses src dst reported refused) :
    Finished (serve bufferSize src dst reported refused).src
      (serve bufferSize src dst reported refused).dst := by
  obtain ⟨-, received, hdst⟩ := @serve_frame bufferSize src dst reported refused
  rw [hdst]
  exact .inl h.2.2.1

end Serve

/-! ## One step -/

theorem AtEnd.send {src : Peer} {ended : Bool} (h : AtEnd src ended) (bytes : Bytes) :
    AtEnd (src.send bytes) ended := by
  intro hended
  obtain ⟨hshut, hpending⟩ := h hended
  rw [Peer.send, if_pos hshut]
  exact ⟨hshut, hpending⟩

theorem AtEnd.done {src : Peer} {ended : Bool} (h : AtEnd src ended) (hended : ended = true) (dst : Peer) :
    Done src dst :=
  Or.inr (h hended)

section Step

variable {bufferSize} {c : Relay} {p : Pass}

theorem relaying_afterRelay (h : Relaying c) : Relaying (afterRelay bufferSize c p) := by
  obtain ⟨-, received, hdst⟩ := @serve_frame bufferSize c.relay c.tcp p.relay p.refused
  refine ⟨conveyed_serve h.toTcp, conveyed_serve_other h.toRelay, atEnd_serve, ?_⟩
  unfold afterRelay serveRelay
  dsimp only
  rw [hdst]
  exact h.tcpEnd

theorem relaying_afterTcp (h : Relaying c) : Relaying (afterTcp bufferSize c p) := by
  obtain ⟨-, received, hdst⟩ := @serve_frame bufferSize c.tcp c.relay p.tcp p.refused
  refine ⟨conveyed_serve_other h.toTcp, conveyed_serve h.toRelay, ?_, atEnd_serve⟩
  unfold afterTcp serveTcp
  dsimp only
  rw [hdst]
  exact h.relayEnd

theorem tcpLeft_iff : (serveTcp bufferSize (afterRelay bufferSize c p) p).left = true ↔
    Refuses c.tcp c.relay p.tcp p.refused := by
  obtain ⟨hsrc, received, hdst⟩ := @serve_frame bufferSize c.relay c.tcp p.relay p.refused
  refine left_iff_refuses.trans ?_
  unfold afterRelay serveRelay
  dsimp only
  rw [hsrc, hdst]
  rfl

theorem done_afterRelay_iff : Done (afterRelay bufferSize c p).tcp (afterRelay bufferSize c p).relay ↔
    Done c.tcp c.relay := by
  obtain ⟨hsrc, received, hdst⟩ := @serve_frame bufferSize c.relay c.tcp p.relay p.refused
  unfold afterRelay serveRelay
  dsimp only
  rw [hsrc, hdst]
  rfl

theorem done_afterBoth_iff :
    Done (afterTcp bufferSize (afterRelay bufferSize c p) p).relay
        (afterTcp bufferSize (afterRelay bufferSize c p) p).tcp ↔
      c.tcp.closed = true ∨ (c.relay.shut = true ∧ remaining bufferSize c.relay p.relay = []) := by
  obtain ⟨hsrc, received, hdst⟩ := @serve_frame bufferSize c.relay c.tcp p.relay p.refused
  obtain ⟨hsrc', received', hdst'⟩ := @serve_frame bufferSize (afterRelay bufferSize c p).tcp
    (afterRelay bufferSize c p).relay p.tcp p.refused
  unfold afterTcp serveTcp
  dsimp only
  rw [hsrc', hdst']
  unfold afterRelay serveRelay
  dsimp only
  rw [hsrc, hdst]
  rfl

theorem relays_pass_iff (h : Relaying c) :
    Relays (pass bufferSize c p) ↔ ReturnsLate bufferSize c (.pass p) := by
  unfold pass ReturnsLate
  by_cases hended : c.relayEnded = true ∨ c.tcpEnded = true
  · rw [if_pos hended]
    refine (and_congr (finished_iff_done h.toTcp) (finished_iff_done h.toRelay)).trans ?_
    constructor
    · rintro ⟨htcp, hrelay⟩
      refine ⟨fun _ => hrelay, fun _ => htcp, fun hno hno' => ?_⟩
      rw [hno, hno'] at hended
      simp at hended
    · rintro ⟨hrelay, htcp, -⟩
      rcases hended with hended | hended
      · exact ⟨h.relayEnd.done hended c.tcp, hrelay hended⟩
      · exact ⟨htcp hended, h.tcpEnd.done hended c.relay⟩
  rw [if_neg hended]
  obtain ⟨hrelayEnded, htcpEnded⟩ := not_or.mp hended
  rw [Bool.not_eq_true] at hrelayEnded htcpEnded
  simp only [hrelayEnded, htcpEnded, Bool.false_eq_true, false_imp_iff, true_imp_iff, true_and]
  have hafter : Relaying (afterRelay bufferSize c p) := relaying_afterRelay h
  by_cases hrelay : (serveRelay bufferSize c p).left = true
  · have hrefuses := left_iff_refuses.mp hrelay
    rw [if_pos hrelay]
    simp only [hrefuses, true_imp_iff, not_true_eq_false, false_imp_iff, and_true]
    refine (and_iff_right (finished_of_refuses hrefuses)).trans ?_
    exact (finished_iff_done hafter.toRelay).trans done_afterRelay_iff
  have hrefuses : ¬ Refuses c.relay c.tcp p.relay p.refused := fun hrefuses =>
    hrelay (left_iff_refuses.mpr hrefuses)
  rw [if_neg hrelay]
  simp only [hrefuses, false_imp_iff, not_false_eq_true, true_imp_iff, true_and]
  by_cases htcp : (serveTcp bufferSize (afterRelay bufferSize c p) p).left = true
  · rw [if_pos htcp]
    simp only [tcpLeft_iff.mp htcp, true_imp_iff]
    refine (and_iff_left (finished_of_refuses (left_iff_refuses.mp htcp))).trans ?_
    exact (finished_iff_done (relaying_afterTcp hafter).toTcp).trans done_afterBoth_iff
  · rw [if_neg htcp]
    exact iff_of_true (relaying_afterTcp hafter) fun hrefuses => absurd (tcpLeft_iff.mpr hrefuses) htcp

theorem Relaying.update (h : Relaying c) {f : Peer → Peer} (hf : ∀ src, Acts src (f src))
    (hend : ∀ src ended, AtEnd src ended → AtEnd (f src) ended) (side : Side) : Relaying (c.update f side) := by
  cases side with
  | relay => exact ⟨h.toTcp.source (hf _), h.toRelay.destination (hf _), hend _ _ h.relayEnd, h.tcpEnd⟩
  | tcp => exact ⟨h.toTcp.destination (hf _), h.toRelay.source (hf _), h.relayEnd, hend _ _ h.tcpEnd⟩

theorem relays_step_iff (h : Relaying c) (e : Event) :
    Relays (step bufferSize c e) ↔ ReturnsLate bufferSize c e := by
  cases e with
  | send side bytes =>
    exact iff_of_true (h.update (acts_send · bytes) (fun _ _ hend => hend.send bytes) side) trivial
  | shutdown side =>
    exact iff_of_true (h.update acts_shutdown (fun _ _ hend hended => ⟨rfl, (hend hended).2⟩) side) trivial
  | close side =>
    exact iff_of_true (h.update acts_close (fun _ _ hend hended => ⟨rfl, (hend hended).2⟩) side) trivial
  | pass p => exact relays_pass_iff h

theorem returnsLate_of_inl {c' : Relay} {e : Event} (h : step bufferSize c e = .inl c') :
    ReturnsLate bufferSize c e := by
  cases e with
  | send side bytes => trivial
  | shutdown side => trivial
  | close side => trivial
  | pass p =>
    change pass bufferSize c p = .inl c' at h
    unfold pass at h
    split at h
    · cases h
    next hended =>
      obtain ⟨hrelayEnded, htcpEnded⟩ := not_or.mp hended
      split at h
      · cases h
      next hrelay =>
        split at h
        · cases h
        next htcp =>
          exact ⟨fun hends => absurd hends hrelayEnded, fun hends => absurd hends htcpEnded, fun _ _ =>
            ⟨fun hrefuses => absurd (left_iff_refuses.mpr hrefuses) hrelay,
              fun _ hrefuses => absurd (tcpLeft_iff.mpr hrefuses) htcp⟩⟩

end Step

/-! ## Runs -/

theorem relaying_start : Relaying {} :=
  ⟨.inr rfl, .inr rfl, fun h => absurd h Bool.false_ne_true, fun h => absurd h Bool.false_ne_true⟩

/-- **Every byte is delivered, whatever the ends do and in whatever order, exactly if the relay never returns
before the other direction is done.** -/
theorem localhost_relays_iff (events : List Event) :
    Relays (relayThread bufferSize events) ↔ Meets (step bufferSize) (ReturnsLate bufferSize) {} events := by
  refine after_runLoop_iff (fun c e c' h hr => ?_) (fun c e c' h hr => ?_) relaying_start
  · have hstep := @relays_step_iff bufferSize c h e
    rw [hr] at hstep
    have he := returnsLate_of_inl hr
    exact ⟨hstep.mpr he, he⟩
  · have hstep := @relays_step_iff bufferSize c h e
    rwa [hr] at hstep

/-- The host sends a request and half-closes; the server answers behind the end-of-file. -/
theorem localhost_answer_is_lost : ¬ ∀ bufferSize events, Relays (relayThread bufferSize events) := by
  intro h
  have hlost := h 4096 [.send .relay (ascii "q"), .shutdown .relay, .pass { relay := some 0 },
    .pass { relay := some 0 }, .send .tcp (ascii "r"), .pass {}]
  rcases hlost.2 with hclosed | ⟨hshut, -⟩
  · cases hclosed
  · cases hshut

end WslFreeBSD.Reference.LocalhostRelay
