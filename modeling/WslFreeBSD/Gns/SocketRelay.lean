import WslFreeBSD.Lib.Bytes
import WslFreeBSD.Lib.Runs

/-!
# The relay of a connection

`gns_relay_connection` copies between a client and the host. Each end has a stream to the relay, and
the relay delivers to each end. The inputs of a run are what the ends do (sending, half-closing,
closing) and the passes of the loop, in any order; connections do not break down on their own.

The loop serves both directions and is left at the first end-of-file from either end, so that the
other direction ends with it. A run delivers everything exactly if the loop is not left before the
other direction is done (`delivers_iff`).
-/

namespace WslFreeBSD.Gns.SocketRelay

open Lib

/-! ## The ends -/

/-- One end of the connection. -/
structure Peer where
  /-- Everything it has sent. -/
  sent : Bytes := []
  /-- What of it the relay has not received. -/
  pending : Bytes := []
  /-- It has half-closed or closed. -/
  shut : Bool := false
  /-- It has closed and takes nothing more. -/
  closed : Bool := false
  received : Bytes := []
  deriving DecidableEq, Repr

inductive Side
  | client
  | host
  deriving DecidableEq, Repr

structure Connection where
  client : Peer := {}
  host : Peer := {}
  deriving DecidableEq, Repr

def Connection.update (c : Connection) (f : Peer → Peer) : Side → Connection
  | .client => { c with client := f c.client }
  | .host => { c with host := f c.host }

def Peer.send (bytes : Bytes) (p : Peer) : Peer :=
  if p.shut then p else { p with sent := p.sent ++ bytes, pending := p.pending ++ bytes }

/-! ## The loop -/

/-- The input of a pass: whether `poll` is interrupted; for an end that is reported, how much `recv`
returns at most; whether sending to an end that has closed fails. -/
structure Pass where
  interrupted : Bool := false
  client : Option Nat := none
  host : Option Nat := none
  refused : Bool := false
  deriving DecidableEq, Repr

/-- The two ends after a branch, and whether the branch leaves the loop. -/
structure Served where
  src : Peer
  dst : Peer
  left : Bool

/-- The branch for an end: `recv` and `gns_send_all` to the other end. An end that has nothing to be
read is only reported when it is shut; then `recv` returns 0. -/
def serve (src dst : Peer) (reported : Option Nat) (refused : Bool) : Served :=
  match reported with
  | none => ⟨src, dst, false⟩
  | some n =>
    if src.pending = [] then ⟨src, dst, src.shut⟩
    else
      let size := min (n + 1) 4096
      let src' := { src with pending := src.pending.drop size }
      if dst.closed then ⟨src', dst, refused⟩
      else ⟨src', { dst with received := dst.received ++ src.pending.take size }, false⟩

def serveClient (c : Connection) (p : Pass) : Served := serve c.client c.host p.client p.refused

def serveHost (c : Connection) (p : Pass) : Served := serve c.host c.client p.host p.refused

/-- The connection after the branch for the client. -/
def afterClient (c : Connection) (p : Pass) : Connection :=
  { client := (serveClient c p).src, host := (serveClient c p).dst }

def afterHost (c : Connection) (p : Pass) : Connection :=
  { client := (serveHost c p).dst, host := (serveHost c p).src }

/-- One pass of `gns_relay_connection`. -/
def pass (c : Connection) (p : Pass) : Connection ⊕ Connection :=
  if p.interrupted then .inl c
  else if (serveClient c p).left then .inr (afterClient c p)
  else if (serveHost (afterClient c p) p).left then .inr (afterHost (afterClient c p) p)
  else .inl (afterHost (afterClient c p) p)

inductive Event
  | send (side : Side) (bytes : Bytes)
  | shutdown (side : Side)
  | close (side : Side)
  | pass (p : Pass)
  deriving DecidableEq, Repr

def step (c : Connection) : Event → Connection ⊕ Connection
  | .send side bytes => .inl (c.update (Peer.send bytes) side)
  | .shutdown side => .inl (c.update (fun p => { p with shut := true }) side)
  | .close side => .inl (c.update (fun p => { p with shut := true, closed := true }) side)
  | .pass p => pass c p

/-- `gns_relay_connection` from the loop on, with what the ends do meanwhile. -/
def gnsRelayConnection (events : List Event) : Connection ⊕ Connection := runLoop step {} events

/-! ## Delivery -/

/-- Nothing from one end is lost on its way to the other, unless that one has closed. -/
def Conveyed (src dst : Peer) : Prop :=
  dst.closed = true ∨ dst.received ++ src.pending = src.sent

/-- One end has sent everything it will, and the other has all of it. -/
def Finished (src dst : Peer) : Prop :=
  dst.closed = true ∨ (src.shut = true ∧ dst.received = src.sent)

/-- While the relay runs nothing is lost; when it ends both directions are finished. -/
def Delivers : Connection ⊕ Connection → Prop :=
  After (fun c => Conveyed c.client c.host ∧ Conveyed c.host c.client)
    (fun c => Finished c.client c.host ∧ Finished c.host c.client)

/-- The direction is done: the source will send nothing more and nothing of it is pending, or the
destination has closed. -/
def Done (src dst : Peer) : Prop :=
  dst.closed = true ∨ (src.shut = true ∧ src.pending = [])

/-- The branch for an end leaves the loop: at its end-of-file, or because the other end has closed and
refuses what is sent to it. -/
def Ends (src dst : Peer) (reported : Option Nat) (refused : Bool) : Prop :=
  reported.isSome = true ∧
    ((src.pending = [] ∧ src.shut = true) ∨
      (src.pending ≠ [] ∧ dst.closed = true ∧ refused = true))

/-- What is pending after the branch for an end. -/
def remaining (src : Peer) : Option Nat → Bytes
  | none => src.pending
  | some n => src.pending.drop (min (n + 1) 4096)

/-- A pass does not leave the loop before the other direction is done. -/
def LeavesLate (c : Connection) : Event → Prop
  | .pass p => p.interrupted = false →
      (Ends c.client c.host p.client p.refused → Done c.host c.client) ∧
        (¬ Ends c.client c.host p.client p.refused → Ends c.host c.client p.host p.refused →
          c.host.closed = true ∨ (c.client.shut = true ∧ remaining c.client p.client = []))
  | _ => True

/-! ## What an end does -/

/-- What an end does of its own: it may send more, and it does not open again. -/
def Acts (p p' : Peer) : Prop :=
  p'.received = p.received ∧ (p.closed = true → p'.closed = true) ∧
    ∃ bytes, p'.sent = p.sent ++ bytes ∧ p'.pending = p.pending ++ bytes

theorem acts_send (p : Peer) (bytes : Bytes) : Acts p (p.send bytes) := by
  unfold Peer.send
  split
  · exact ⟨rfl, id, [], (List.append_nil _).symm, (List.append_nil _).symm⟩
  · exact ⟨rfl, id, bytes, rfl, rfl⟩

theorem acts_shutdown (p : Peer) : Acts p { p with shut := true } :=
  ⟨rfl, id, [], (List.append_nil _).symm, (List.append_nil _).symm⟩

theorem acts_close (p : Peer) : Acts p { p with shut := true, closed := true } :=
  ⟨rfl, fun _ => rfl, [], (List.append_nil _).symm, (List.append_nil _).symm⟩

theorem Conveyed.source {src src' dst : Peer} (h : Conveyed src dst) (hacts : Acts src src') :
    Conveyed src' dst := by
  obtain ⟨-, -, bytes, hsent, hpending⟩ := hacts
  refine h.imp_right fun h => ?_
  rw [hsent, hpending, ← List.append_assoc, h]

theorem Conveyed.destination {src dst dst' : Peer} (h : Conveyed src dst) (hacts : Acts dst dst') :
    Conveyed src dst' := by
  obtain ⟨hreceived, hclosed, -⟩ := hacts
  refine h.imp hclosed fun h => ?_
  rw [hreceived, h]

section Serve

variable {src dst : Peer} {reported : Option Nat} {refused : Bool}

theorem conveyed_serve (h : Conveyed src dst) :
    Conveyed (serve src dst reported refused).src (serve src dst reported refused).dst := by
  cases reported with
  | none => exact h
  | some n =>
    unfold serve
    dsimp only
    by_cases hpending : src.pending = []
    · rw [if_pos hpending]
      exact h
    rw [if_neg hpending]
    by_cases hclosed : dst.closed = true
    · rw [if_pos hclosed]
      exact .inl hclosed
    · rw [if_neg hclosed]
      refine .inr ?_
      have hsent := h.resolve_left hclosed
      dsimp only
      rw [List.append_assoc, List.take_append_drop]
      exact hsent

theorem serve_other (src dst : Peer) (reported : Option Nat) (refused : Bool) :
    (serve src dst reported refused).dst.pending = dst.pending ∧
    (serve src dst reported refused).dst.shut = dst.shut ∧
    (serve src dst reported refused).dst.sent = dst.sent ∧
    (serve src dst reported refused).src.received = src.received ∧
    (serve src dst reported refused).src.closed = src.closed := by
  cases reported with
  | none => exact ⟨rfl, rfl, rfl, rfl, rfl⟩
  | some n =>
    unfold serve
    dsimp only
    split
    · exact ⟨rfl, rfl, rfl, rfl, rfl⟩
    · split <;> exact ⟨rfl, rfl, rfl, rfl, rfl⟩

theorem conveyed_serve_other (h : Conveyed dst src) :
    Conveyed (serve src dst reported refused).dst (serve src dst reported refused).src := by
  obtain ⟨hpending, -, hsent, hreceived, hclosed⟩ :=
    serve_other src dst reported refused
  unfold Conveyed
  rw [hpending, hsent, hreceived, hclosed]
  exact h

theorem finished_of_left (h : Conveyed src dst) (hleft : (serve src dst reported refused).left = true) :
    Finished (serve src dst reported refused).src (serve src dst reported refused).dst := by
  cases reported with
  | none => cases hleft
  | some n =>
    unfold serve at hleft ⊢
    dsimp only at hleft ⊢
    by_cases hpending : src.pending = []
    · rw [if_pos hpending] at hleft ⊢
      rcases h with h | h
      · exact .inl h
      · rw [hpending, List.append_nil] at h
        exact .inr ⟨hleft, h⟩
    rw [if_neg hpending] at hleft ⊢
    by_cases hclosed : dst.closed = true
    · rw [if_pos hclosed]
      exact .inl hclosed
    · rw [if_neg hclosed] at hleft
      cases hleft

theorem finished_iff_done (h : Conveyed src dst) : Finished src dst ↔ Done src dst := by
  unfold Finished Done
  rcases h with h | h
  · simp [h]
  · rw [← h]
    simp

theorem finished_serve_other_iff (h : Conveyed dst src) :
    Finished (serve src dst reported refused).dst (serve src dst reported refused).src ↔
      Done dst src := by
  rw [finished_iff_done (conveyed_serve_other h)]
  obtain ⟨hpending, hshut, -, -, hclosed⟩ :=
    serve_other src dst reported refused
  unfold Done
  rw [hpending, hshut, hclosed]

theorem serve_progress (hpending : src.pending ≠ []) (hopen : dst.closed = false) (n : Nat) :
    ∃ data ≠ [], (serve src dst (some n) refused).dst.received = dst.received ++ data ∧
      data ++ (serve src dst (some n) refused).src.pending = src.pending := by
  refine ⟨src.pending.take (min (n + 1) 4096), ?_, ?_, ?_⟩
  · rw [Ne, List.take_eq_nil_iff, not_or]
    exact ⟨by omega, hpending⟩
  · simp [serve, hpending, hopen]
  · simp [serve, hpending, hopen]

theorem left_iff_ends : (serve src dst reported refused).left = true ↔ Ends src dst reported refused := by
  unfold Ends
  cases reported with
  | none => simp [serve]
  | some n =>
    unfold serve
    dsimp only
    by_cases hpending : src.pending = []
    · simp [hpending]
    · by_cases hclosed : dst.closed = true
      · simp [hpending, hclosed]
      · simp [hpending, hclosed]

theorem serve_src (src dst : Peer) (reported : Option Nat) (refused : Bool) :
    (serve src dst reported refused).src.pending = remaining src reported ∧
    (serve src dst reported refused).src.shut = src.shut ∧
    (serve src dst reported refused).dst.closed = dst.closed := by
  cases reported with
  | none => exact ⟨rfl, rfl, rfl⟩
  | some n =>
    unfold serve remaining
    dsimp only
    by_cases hpending : src.pending = []
    · rw [if_pos hpending, hpending]
      exact ⟨List.drop_nil.symm, rfl, rfl⟩
    · rw [if_neg hpending]
      split <;> exact ⟨rfl, rfl, rfl⟩

end Serve

/-! ## One step -/

section Step

variable {c : Connection} {p : Pass}

theorem hostLeft_iff : (serveHost (afterClient c p) p).left = true ↔
    Ends c.host c.client p.host p.refused := by
  obtain ⟨hpending, hshut, -, -, hclosed⟩ :=
    serve_other c.client c.host p.client p.refused
  refine left_iff_ends.trans ?_
  unfold Ends afterClient serveClient
  dsimp only
  rw [hpending, hshut, hclosed]

theorem conveyed_afterClient (h : Conveyed c.client c.host ∧ Conveyed c.host c.client) :
    Conveyed (afterClient c p).client (afterClient c p).host ∧
      Conveyed (afterClient c p).host (afterClient c p).client :=
  ⟨conveyed_serve h.1, conveyed_serve_other h.2⟩

theorem conveyed_afterHost (h : Conveyed c.client c.host ∧ Conveyed c.host c.client) :
    Conveyed (afterHost c p).client (afterHost c p).host ∧
      Conveyed (afterHost c p).host (afterHost c p).client :=
  ⟨conveyed_serve_other h.1, conveyed_serve h.2⟩

theorem done_afterClient_iff : Done (afterClient c p).client (afterClient c p).host ↔
    c.host.closed = true ∨ (c.client.shut = true ∧ remaining c.client p.client = []) := by
  obtain ⟨hpending, hshut, hclosed⟩ :=
    serve_src c.client c.host p.client p.refused
  unfold Done afterClient serveClient
  dsimp only
  rw [hpending, hshut, hclosed]

theorem delivers_pass_iff (h : Conveyed c.client c.host ∧ Conveyed c.host c.client) :
    Delivers (pass c p) ↔ LeavesLate c (.pass p) := by
  unfold pass LeavesLate
  by_cases hinterrupted : p.interrupted = true
  · rw [if_pos hinterrupted]
    refine iff_of_true h fun hfalse => ?_
    rw [hinterrupted] at hfalse
    cases hfalse
  rw [if_neg hinterrupted]
  have hpoll : p.interrupted = false := Bool.eq_false_iff.mpr hinterrupted
  by_cases hclient : (serveClient c p).left = true
  · have hends := left_iff_ends.mp hclient
    rw [if_pos hclient]
    simp only [hpoll, hends, true_imp_iff, not_true_eq_false, false_imp_iff, and_true]
    have hfirst : Finished (afterClient c p).client (afterClient c p).host :=
      finished_of_left h.1 hclient
    exact (and_iff_right hfirst).trans (finished_serve_other_iff h.2)
  have hends : ¬ Ends c.client c.host p.client p.refused := fun hends =>
    hclient (left_iff_ends.mpr hends)
  rw [if_neg hclient]
  simp only [hpoll, hends, true_imp_iff, not_false_eq_true, false_imp_iff, true_and]
  have hafter := conveyed_afterClient (p := p) h
  by_cases hhost : (serveHost (afterClient c p) p).left = true
  · rw [if_pos hhost]
    have hlast : Finished (afterHost (afterClient c p) p).host (afterHost (afterClient c p) p).client :=
      finished_of_left hafter.2 hhost
    refine (and_iff_left hlast).trans ((finished_serve_other_iff hafter.1).trans ?_)
    rw [done_afterClient_iff]
    exact ⟨fun hdone _ => hdone, fun hall => hall (hostLeft_iff.mp hhost)⟩
  · rw [if_neg hhost]
    exact iff_of_true (conveyed_afterHost hafter) fun hends => absurd (hostLeft_iff.mpr hends) hhost

theorem conveyed_update (h : Conveyed c.client c.host ∧ Conveyed c.host c.client) {f : Peer → Peer}
    (hf : ∀ p, Acts p (f p)) (side : Side) : Conveyed (c.update f side).client (c.update f side).host ∧
      Conveyed (c.update f side).host (c.update f side).client := by
  cases side with
  | client => exact ⟨h.1.source (hf c.client), h.2.destination (hf c.client)⟩
  | host => exact ⟨h.1.destination (hf c.host), h.2.source (hf c.host)⟩

theorem delivers_step_iff (h : Conveyed c.client c.host ∧ Conveyed c.host c.client) (e : Event) :
    Delivers (step c e) ↔ LeavesLate c e := by
  cases e with
  | send side bytes => exact iff_of_true (conveyed_update h (acts_send · bytes) side) trivial
  | shutdown side => exact iff_of_true (conveyed_update h acts_shutdown side) trivial
  | close side => exact iff_of_true (conveyed_update h acts_close side) trivial
  | pass p => exact delivers_pass_iff h

theorem leavesLate_of_inl {c' : Connection} {e : Event} (h : step c e = .inl c') : LeavesLate c e := by
  cases e with
  | send side bytes => trivial
  | shutdown side => trivial
  | close side => trivial
  | pass p =>
    change pass c p = .inl c' at h
    intro hpoll
    unfold pass at h
    rw [if_neg (by simp [hpoll])] at h
    split at h
    · cases h
    next hclient =>
      split at h
      · cases h
      next hhost =>
        exact ⟨fun hends => absurd (left_iff_ends.mpr hends) hclient,
          fun _ hends => absurd (hostLeft_iff.mpr hends) hhost⟩

end Step

/-! ## Runs -/

/-- **Every byte is delivered, whatever the ends do and in whatever order, exactly if the loop is never
left before the other direction is done.** -/
theorem delivers_iff (events : List Event) :
    Delivers (gnsRelayConnection events) ↔ Meets step LeavesLate {} events := by
  refine after_runLoop_iff (fun c e c' h hr => ?_) (fun c e c' h hr => ?_) ⟨.inr rfl, .inr rfl⟩
  · have hstep := delivers_step_iff h e
    rw [hr] at hstep
    have he := leavesLate_of_inl hr
    exact ⟨hstep.mpr he, he⟩
  · have hstep := delivers_step_iff h e
    rwa [hr] at hstep

/-- The client sends a request and half-closes; the answer of the host is reported together with the
end-of-file of the client and is not relayed. -/
theorem answer_is_lost : ¬ ∀ events, Delivers (gnsRelayConnection events) := by
  intro h
  have hlost := h [.send .client (ascii "q"), .shutdown .client, .pass { client := some 0 },
    .send .host (ascii "r"), .pass { client := some 0, host := some 0 }]
  rcases hlost.2 with hclosed | ⟨hshut, -⟩
  · cases hclosed
  · cases hshut

end WslFreeBSD.Gns.SocketRelay
