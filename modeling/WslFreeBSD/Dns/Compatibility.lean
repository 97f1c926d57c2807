import WslFreeBSD.Dns.Routing
import WslFreeBSD.Reference.DnsServer

/-!
# The tunnel and the reference server on one TCP connection

`dns_tunneling.h` is a port of `DnsServer.cpp`. On TCP, the reference tunnels a request with its
two bytes of length and writes a response as it comes from the host; the port strips the length
from the request and puts one in front of the response. A host that serves both would have to tell
them apart.

`tunnel_matches_reference_iff`: on a connection that stays open, with any interleaving of data and
responses, the two agree exactly as long as nothing was tunnelled and nothing was answered.
-/

namespace WslFreeBSD.Dns

open Lib Reference
open Bridge (RecvResult)

/-- What happens to a connection: it becomes readable, or the host responds. -/
inductive ConnInput where
  | data (answers : List ConnAnswer)
  | response (dns : Bytes)

/-- The connection stays open: the client does not close it, the sends succeed, and a response has
the length of a DNS message over TCP. -/
def ConnInput.Open : ConnInput → Prop
  | .data answers =>
    ∀ a ∈ answers, (∀ s ∈ a.sends, s = true) ∧ a.result ≠ .failed ∧ a.result ≠ .got []
  | .response dns => dns.length ≤ 65535

def ConnInput.responses : ConnInput → List Bytes
  | .data _ => []
  | .response dns => [dns]

/-- The handler of the tunnel for the connection in slot `i`, whose identifier is `id`. -/
def serveConnection (i : Fin 32) (id : UInt32) (w : World) : ConnInput → World
  | .data answers => dnsHandleTcpReadable i w answers
  | .response dns => dnsRouteResponse w ⟨IPPROTO_TCP, id⟩ dns true

/-- The bytes that an event writes to the client. -/
def Event.written : Event → Bytes
  | .tcpReply _ _ _ framed true => framed
  | _ => []

def writtenTo (l : List Event) : Bytes := l.flatMap Event.written

/-! ## An open connection -/

/-- The TCP table routes as in `w₀`, and since then `out` was written to clients. -/
structure Serves (w₀ : World) (out : Bytes) (w : World) : Prop where
  routes : ∀ k, (w.conn k).route = (w₀.conn k).route
  written : ∃ l, w.log = w₀.log ++ l ∧ writtenTo l = out

theorem Serves.refl (w : World) : Serves w [] w := ⟨fun _ => rfl, [], by simp, rfl⟩

theorem Serves.setConn {w₀ w : World} {out : Bytes} (h : Serves w₀ out w) {i : Fin 32} {c : DnsTcpConn}
    (hc : c.route = (w.conn i).route) : Serves w₀ out (w.setConn i c) := by
  refine ⟨?_, h.written⟩
  intro k
  by_cases hk : k = i
  · subst hk
    rw [World.conn_setConn, hc]
    exact h.routes k
  · rw [conn_setConn_of_ne _ _ _ hk]
    exact h.routes k

theorem Serves.record {w₀ w : World} {out : Bytes} (h : Serves w₀ out w) (e : Event) :
    Serves w₀ (out ++ e.written) (w.record e) := by
  refine ⟨h.routes, ?_⟩
  obtain ⟨l, hl, hout⟩ := h.written
  refine ⟨l ++ [e], ?_, ?_⟩
  · rw [World.log_record, hl, List.append_assoc]
  · rw [← hout]
    simp [writtenTo]

theorem Serves.recordQuiet {w₀ w : World} {out : Bytes} (h : Serves w₀ out w) {e : Event}
    (he : e.written = []) : Serves w₀ out (w.record e) := by
  have := h.record e
  rwa [he, List.append_nil] at this

theorem Serves.lookup {w₀ w : World} {out : Bytes} (h : Serves w₀ out w) (id : UInt32) :
    dnsTcpLookup w.tunnel id = dnsTcpLookup w₀.tunnel id := by
  have hroute : ∀ k, (w.conn k).used = (w₀.conn k).used ∧ (w.conn k).id = (w₀.conn k).id := by
    intro k
    have := h.routes k
    simp only [DnsTcpConn.route, Prod.mk.injEq] at this
    exact ⟨this.1, this.2.2⟩
  unfold dnsTcpLookup Lib.lookup
  congr 1
  funext k
  rw [show (w.tunnel.tcpConns k).used = _ from (hroute k).1,
    show (w.tunnel.tcpConns k).id = _ from (hroute k).2]
  rfl

theorem DnsTcpConn.route_withLength {c c' : DnsTcpConn} (h : c.withLength = some c') :
    c'.route = c.route := by
  unfold DnsTcpConn.withLength at h
  split at h
  · rw [← Option.some.inj h]
  · split at h
    · cases h
    · rw [← Option.some.inj h]
      rfl

theorem Serves.extractFrames {w₀ w : World} {out : Bytes} (h : Serves w₀ out w) (i : Fin 32)
    (fuel : Nat) {sends : List Bool} (hsends : ∀ s ∈ sends, s = true) :
    Serves w₀ out (extractFrames i fuel w sends).1 := by
  induction fuel generalizing w sends with
  | zero => exact h
  | succ fuel ih =>
    rw [Dns.extractFrames]
    split
    · exact h
    · rename_i c hc
      have hroute := DnsTcpConn.route_withLength hc
      split
      · exact h.setConn hroute
      · have hhead : sends.headD true = true := by
          cases sends with
          | nil => rfl
          | cons s sends => exact hsends s List.mem_cons_self
        dsimp only
        rw [hhead, if_pos rfl]
        refine ih ?_ fun s hs => hsends s (List.mem_of_mem_tail hs)
        refine ((h.setConn hroute).recordQuiet rfl).setConn ?_
        rw [World.conn_record, World.conn_setConn]
        rfl

theorem Serves.readable {w₀ w : World} {out : Bytes} (h : Serves w₀ out w) {i : Fin 32}
    (hframed : Framed i w₀ w) (hfd : 0 ≤ (w₀.conn i).fd) {answers : List ConnAnswer}
    (hopen : (ConnInput.data answers).Open) : Serves w₀ out (dnsHandleTcpReadable i w answers) := by
  induction answers generalizing w with
  | nil =>
    have hroom := length_lt_of_next?_none hframed.incomplete
    have hfd' : (w.conn i).fd = (w₀.conn i).fd := congrArg (·.2.1) (h.routes i)
    rw [dnsHandleTcpReadable, if_neg (by omega), if_neg (by omega)]
    exact h
  | cons a rs ih =>
    have hroom := length_lt_of_next?_none hframed.incomplete
    have hfd' : (w.conn i).fd = (w₀.conn i).fd := congrArg (·.2.1) (h.routes i)
    obtain ⟨hsends, hfail, hnil⟩ := hopen a List.mem_cons_self
    have hrest : (ConnInput.data rs).Open := fun a ha => hopen a (List.mem_cons_of_mem _ ha)
    rw [dnsHandleTcpReadable, if_neg (by omega)]
    cases hr : a.result with
    | wouldBlock =>
      simp only [DnsTcpConn.recv, if_neg (by omega : ¬ (w.conn i).fd < 0)]
      exact h
    | interrupted =>
      simp only [DnsTcpConn.recv, if_neg (by omega : ¬ (w.conn i).fd < 0)]
      exact ih h hframed hrest
    | failed => exact absurd hr hfail
    | got bytes =>
      have hne : bytes ≠ [] := fun hc => hnil (hc ▸ hr)
      have hpos : DNS_TCP_READ_BUF - (w.conn i).readBuf.length ≠ 0 := by omega
      have hgot : bytes.take (DNS_TCP_READ_BUF - (w.conn i).readBuf.length) ≠ [] := by
        simp only [ne_eq, List.take_eq_nil_iff, not_or]
        exact ⟨hpos, hne⟩
      obtain ⟨b, bs, hbs⟩ := List.exists_cons_of_ne_nil hgot
      simp only [DnsTcpConn.recv, if_neg (by omega : ¬ (w.conn i).fd < 0), hbs]
      obtain ⟨w', heq, hw'⟩ := hframed.recv (b :: bs) hsends
      have hserves := (h.setConn (i := i)
        (c := { w.conn i with readBuf := (w.conn i).readBuf ++ b :: bs }) rfl).recordQuiet
        (e := .tcpRecv (w.conn i).id (b :: bs)) rfl
      have hext := hserves.extractFrames i (((w.conn i).readBuf ++ b :: bs).length + 1) hsends
      rw [heq] at hext
      rw [heq]
      exact ih hext hw' hrest

theorem dnsRouteResponse_live {w : World} {id : UInt32} {i : Fin 32} {dns : Bytes}
    (hlive : dnsTcpLookup w.tunnel id = some i) (hlen : dns.length ≤ 65535) :
    dnsRouteResponse w ⟨IPPROTO_TCP, id⟩ dns true =
      w.record (.tcpReply i id (w.conn i).fd (be16 dns.length ++ dns) true) := by
  unfold dnsRouteResponse
  dsimp only
  rw [if_neg (by decide : ¬ IPPROTO_TCP = IPPROTO_UDP), if_pos rfl, hlive]
  dsimp only
  rw [if_neg (by omega : ¬ dns.length > 65535), if_pos rfl]

theorem Framed.recordReply {i j : Fin 32} {w₀ w : World} (h : Framed i w₀ w) (id : UInt32) (fd : Int)
    (framed : Bytes) : Framed i w₀ (w.record (.tcpReply j id fd framed true)) := by
  obtain ⟨l, frames, hl, hwf, hrecv, hfwd, hover⟩ := h.history
  refine ⟨h.lengthOk, h.incomplete, h.id_eq, l ++ [.tcpReply j id fd framed true], frames, ?_, hwf,
    ?_, ?_, ?_⟩
  · rw [World.log_record, hl, List.append_assoc]
  · rw [received_append, hrecv]
    simp [received, Event.received]
  · rw [forwarded_append, hfwd]
    simp [forwarded, Event.forwarded]
  · intro e he
    rcases List.mem_append.mp he with he | he
    · exact hover e he
    · rw [List.mem_singleton.mp he]
      rfl

def framedResponse (dns : Bytes) : Bytes := be16 dns.length ++ dns

theorem serveConnection_run {i : Fin 32} {w₀ : World}
    (hlive : dnsTcpLookup w₀.tunnel (w₀.conn i).id = some i) (hfd : 0 ≤ (w₀.conn i).fd)
    {inputs : List ConnInput} (hopen : ∀ input ∈ inputs, input.Open) {w : World} {out : Bytes}
    (hframed : Framed i w₀ w) (hserves : Serves w₀ out w) :
    Framed i w₀ (inputs.foldl (serveConnection i (w₀.conn i).id) w) ∧
      Serves w₀ (out ++ (inputs.flatMap ConnInput.responses).flatMap framedResponse)
        (inputs.foldl (serveConnection i (w₀.conn i).id) w) := by
  induction inputs generalizing w out with
  | nil => exact ⟨hframed, by simpa using hserves⟩
  | cons input inputs ih =>
    have hrest : ∀ input ∈ inputs, input.Open := fun x hx => hopen x (List.mem_cons_of_mem _ hx)
    have hfirst := hopen input List.mem_cons_self
    cases input with
    | data answers =>
      exact ih hrest (hframed.readable fun a ha => (hfirst a ha).1)
        (hserves.readable hframed hfd hfirst)
    | response dns =>
      have hroute := dnsRouteResponse_live ((hserves.lookup _).trans hlive) hfirst
      rw [List.foldl_cons, serveConnection, hroute]
      have hnext := ih hrest (hframed.recordReply (j := i) (w₀.conn i).id (w.conn i).fd
        (be16 dns.length ++ dns)) (hserves.record _)
      simpa [ConnInput.responses, framedResponse, Event.written, List.append_assoc] using hnext

/-! ## Agreement -/

theorem serveStream_of_incomplete {stream : Bytes} (h : dnsFormat.next? stream = none)
    (choices : List Nat) : serveStream {} stream choices = [] := by
  cases hs : serveStream {} stream choices with
  | nil => rfl
  | cons request rest =>
    obtain ⟨hsize, hle⟩ := (first_new stream).serve choices request (by rw [hs]; rfl)
    rw [List.nil_append] at hsize hle
    unfold FrameFormat.next? at h
    rw [if_pos (by simp only [dnsFormat]; omega)] at h
    cases h

theorem serveStream_ne_bodies {stream m r : Bytes} (h : dnsFormat.next? stream = some (m, r))
    (choices : List Nat) :
    serveStream {} stream choices ≠ (dnsFormat.decode stream).map (·.drop 2) := by
  intro heq
  rw [FrameFormat.decode_of_some h, List.map_cons] at heq
  obtain ⟨hm, rfl⟩ := FrameFormat.next?_eq_some_iff.mp h
  obtain ⟨hsize, -⟩ := (first_new (m ++ r)).serve choices (m.drop 2) (by rw [heq]; rfl)
  have hval : be16Value (m ++ r) = be16Value m := be16Value_append hm.1 r
  have hlen : 2 + be16Value m = m.length := hm.2
  rw [List.nil_append, List.length_drop, hval] at hsize
  omega

theorem framedResponses_eq_iff (responses : List Bytes) :
    responses.flatMap framedResponse = responses.flatMap HandleTcpDnsResponse ↔ responses = [] := by
  constructor
  · intro h
    have hlen : ∀ rs : List Bytes, (rs.flatMap framedResponse).length =
        (rs.flatMap HandleTcpDnsResponse).length + 2 * rs.length := by
      intro rs
      induction rs with
      | nil => rfl
      | cons r rs ih =>
        simp only [List.flatMap_cons, List.length_append, ih, List.length_cons, framedResponse,
          HandleTcpDnsResponse, be16, List.length_nil]
        omega
    have := hlen responses
    rw [h] at this
    apply List.length_eq_zero_iff.mp
    omega
  · rintro rfl
    rfl

/-- On a new connection that stays open, whatever the client sends, however it is cut for either
server, and whatever the host responds in between: the tunnel sends the host the payloads that the
reference sends and the client the bytes that the reference writes exactly when the stream received
holds no complete frame and the host has not responded. -/
theorem tunnel_matches_reference_iff (i : Fin 32) (w : World) (inputs : List ConnInput)
    (choices : List Nat) (hnew : (w.conn i).readBuf = [] ∧ (w.conn i).haveLength = false)
    (hlive : dnsTcpLookup w.tunnel (w.conn i).id = some i) (hfd : 0 ≤ (w.conn i).fd)
    (hopen : ∀ input ∈ inputs, input.Open) :
    ∃ l, (inputs.foldl (serveConnection i (w.conn i).id) w).log = w.log ++ l ∧
      ((forwarded l).map Prod.snd = serveStream {} (received l) choices ∧
        writtenTo l = (inputs.flatMap ConnInput.responses).flatMap HandleTcpDnsResponse ↔
      dnsFormat.next? (received l) = none ∧ inputs.flatMap ConnInput.responses = []) := by
  obtain ⟨hframed, hserves⟩ := serveConnection_run hlive hfd hopen (framed_new hnew) (Serves.refl w)
  obtain ⟨l, frames, hl, hwf, hrecv, hfwd, -⟩ := hframed.history
  obtain ⟨l', hl', hwritten⟩ := hserves.written
  obtain rfl : l = l' := List.append_cancel_left (hl.symm.trans hl')
  have hdec : dnsFormat.decode (received l) = frames :=
    FrameFormat.decode_unique hwf hrecv hframed.incomplete
  have hbodies : (forwarded l).map Prod.snd = (dnsFormat.decode (received l)).map (·.drop 2) := by
    rw [hfwd, hdec, List.map_map]
    rfl
  refine ⟨l, hl, ?_⟩
  rw [hwritten, List.nil_append, framedResponses_eq_iff, hbodies]
  refine and_congr_left fun _ => ⟨fun heq => ?_, fun hnone => ?_⟩
  · cases hn : dnsFormat.next? (received l) with
    | none => rfl
    | some mr => exact absurd heq.symm (serveStream_ne_bodies hn choices)
  · rw [serveStream_of_incomplete hnone, FrameFormat.decode_of_none hnone]
    rfl

/-- A frame that is not complete yet. -/
theorem tunnel_matches_reference_iff_partial :
    ∃ l, ([ConnInput.data [⟨.got [0, 2, 7], []⟩]].foldl (serveConnection 0 1) oneConnection).log =
        oneConnection.log ++ l ∧
      ((forwarded l).map Prod.snd = serveStream {} (received l) [1, 0] ∧
        writtenTo l = ([] : List Bytes).flatMap HandleTcpDnsResponse ↔
      dnsFormat.next? (received l) = none ∧ ([] : List Bytes) = []) :=
  tunnel_matches_reference_iff 0 oneConnection [.data [⟨.got [0, 2, 7], []⟩]] [1, 0] ⟨rfl, rfl⟩
    (by decide) (by decide) (by simp [ConnInput.Open])

/-- A query of one byte and a response of one byte: the tunnel sends the host one byte where the
reference sends three, and the client three where the reference writes one. -/
theorem tunnel_differs_from_reference :
    let w := [ConnInput.data [⟨.got [0, 1, 7], []⟩], .response [8]].foldl (serveConnection 0 1)
      oneConnection
    received w.log = [0, 1, 7] ∧ (forwarded w.log).map Prod.snd = [[7]] ∧
      serveStream {} [0, 1, 7] [1, 0] = [[0, 1, 7]] ∧
      (forwarded w.log).map Prod.snd ≠ serveStream {} (received w.log) [1, 0] ∧
      writtenTo w.log = [0, 1, 8] ∧ writtenTo w.log ≠ HandleTcpDnsResponse [8] := by
  decide

end WslFreeBSD.Dns
