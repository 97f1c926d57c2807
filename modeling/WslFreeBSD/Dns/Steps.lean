import Mathlib.Logic.Relation
import WslFreeBSD.Dns.TcpFrames
import WslFreeBSD.Lib.Runs

/-!
# What the DNS tunnel can do

`Step` lists everything that the handlers of the tunnel do to a `World`: accept, refuse, answer and
expire UDP queries, open and close connections, move bytes through a connection's buffer, write a
response. Every handler, every pass of the loop and hence every run is a chain of such steps
(`dnsTunnelPass_steps`), so that a fact about runs is proved by one case analysis of `Step`.

A connection is closed only through a slot that is in use or was closed before (`Safe`). The
`conn_map` of a pass is safe when it is built, and steps keep it safe, also where the slot is closed
by an event that is handled earlier in the same pass.
-/

namespace WslFreeBSD.Dns

open Lib
open Bridge (RecvResult)
open Relation (ReflTransGen)

/-! ## Steps -/

/-- A slot of the UDP table is given to a query. -/
def World.allocUdp (w : World) (i : Fin 64) (client : SockAddr) (clientLen delay : Nat) : World :=
  { w with
    tunnel :=
      { w.tunnel with
        nextUdpId := w.tunnel.nextUdpId + 1
        udpMap := Function.update w.tunnel.udpMap i
          ⟨true, w.tunnel.nextUdpId + 1, client, clientLen, w.clock + delay + 30000⟩ }
    clock := w.clock + delay }

/-- A slot of the TCP table is given to a connection. -/
def World.allocTcp (w : World) (i : Fin 32) (fd : Int) : World :=
  { w with
    tunnel :=
      { w.tunnel with
        nextTcpId := w.tunnel.nextTcpId + 1
        tcpConns := Function.update w.tunnel.tcpConns i ⟨true, fd, w.tunnel.nextTcpId + 1, [], false, 0⟩ }
    opened := fd :: w.opened }

/-- The connection in a slot may be closed without touching the descriptor of another one. -/
def Safe (w : World) (i : Fin 32) : Prop := (w.conn i).used = true ∨ (w.conn i).fd < 0

/-- Events that concern the data of a connection and no table. -/
def Event.isData : Event → Bool
  | .tcpRecv _ _ | .tcpOverflow _ | .tcpForward _ _ _ | .tcpReject _ => true
  | _ => false

inductive Step (w : World) : World → Prop where
  | udpForward {i : Fin 64} (client : SockAddr) (clientLen : Nat) (payload : Bytes) (delay : Nat)
      (hfree : firstFree DnsUdpEntry.used w.tunnel.udpMap = some i) :
      Step w ((w.allocUdp i client clientLen delay).record
        (.udpForward i (w.tunnel.nextUdpId + 1) client payload (w.clock + delay) true))
  | udpFail {i : Fin 64} (client : SockAddr) (clientLen : Nat) (payload : Bytes) (delay : Nat)
      (hfree : firstFree DnsUdpEntry.used w.tunnel.udpMap = some i) :
      Step w (dnsUdpFree ((w.allocUdp i client clientLen delay).record
        (.udpForward i (w.tunnel.nextUdpId + 1) client payload (w.clock + delay) false))
        (w.tunnel.nextUdpId + 1))
  | udpRefuse (delay : Nat) (hfull : firstFree DnsUdpEntry.used w.tunnel.udpMap = none) :
      Step w ({ w with clock := w.clock + delay }.record (.udpRefused (w.clock + delay)))
  | udpReply {i : Fin 64} (id : UInt32) (dns : Bytes) (hlive : dnsUdpLookup w.tunnel id = some i) :
      Step w (dnsUdpFree (w.record (.udpReply i id (w.tunnel.udpMap i).client dns)) id)
  | expire (delay : Nat) :
      Step w ({ w with tunnel := w.tunnel.expire (w.clock + delay), clock := w.clock + delay }.record
        (.expire (w.clock + delay)))
  | tcpAccept {i : Fin 32} (fd : Int) (hfree : firstFree DnsTcpConn.used w.tunnel.tcpConns = some i)
      (hfd : w.CanOpen fd) :
      Step w ((w.allocTcp i fd).record (.tcpAccept i (w.tunnel.nextTcpId + 1) fd))
  | tcpClose (i : Fin 32) (hsafe : Safe w i) : Step w (dnsTcpClose w i)
  | tcpBuffer (i : Fin 32) (readBuf : Bytes) (haveLength : Bool) (expectLen : Nat) :
      Step w (w.setConn i { w.conn i with readBuf, haveLength, expectLen })
  | data (e : Event) (he : e.isData = true) : Step w (w.record e)
  | tcpReply {i : Fin 32} (id : UInt32) (framed : Bytes) (sent : Bool)
      (hlive : dnsTcpLookup w.tunnel id = some i) :
      Step w (w.record (.tcpReply i id (w.conn i).fd framed sent))
  | stop : Step w { w with tunnel := { w.tunnel with stopping := true } }

abbrev Steps : World → World → Prop := ReflTransGen Step

theorem Steps.inv {I : World → Prop} (hstep : ∀ w w', I w → Step w w' → I w') {w w' : World}
    (h : Steps w w') (hw : I w) : I w' := by
  induction h with
  | refl => exact hw
  | tail _ hs ih => exact hstep _ _ ih hs

/-! ## Tables after the elementary operations -/

section Tables

variable (w : World) (i : Fin 64) (j k : Fin 32)

@[simp] theorem conn_setEntry (e : DnsUdpEntry) : (w.setEntry i e).conn k = w.conn k := rfl

@[simp] theorem conn_allocUdp (client : SockAddr) (len delay : Nat) :
    (w.allocUdp i client len delay).conn k = w.conn k := rfl

theorem conn_dnsUdpFree (id : UInt32) : (dnsUdpFree w id).conn k = w.conn k := by
  unfold dnsUdpFree
  split <;> rfl

@[simp] theorem conn_closeFd (fd : Int) : (w.closeFd fd).conn k = w.conn k := rfl

theorem conn_setConn_of_ne {c : DnsTcpConn} (h : k ≠ j) : (w.setConn j c).conn k = w.conn k := by
  simp [World.conn, World.setConn, h]

theorem conn_allocTcp (fd : Int) :
    (w.allocTcp j fd).conn k =
      if k = j then ⟨true, fd, w.tunnel.nextTcpId + 1, [], false, 0⟩ else w.conn k := by
  simp [World.conn, World.allocTcp, Function.update_apply]

theorem conn_dnsTcpClose :
    (dnsTcpClose w j).conn k = if k = j then { w.conn j with used := false, fd := -1 } else w.conn k := by
  unfold dnsTcpClose
  dsimp only
  by_cases hk : k = j
  · subst hk
    simp
  · rw [conn_setConn_of_ne _ _ _ hk, if_neg hk]
    split <;> rfl

end Tables

theorem Step.safe {w w' : World} (h : Step w w') {k : Fin 32} (hk : Safe w k) : Safe w' k := by
  unfold Safe at hk ⊢
  cases h with
  | udpForward => exact hk
  | udpFail => rwa [conn_dnsUdpFree]
  | udpRefuse => exact hk
  | udpReply => rwa [conn_dnsUdpFree]
  | expire => exact hk
  | @tcpAccept i fd hfree hfd =>
    rw [World.conn_record, conn_allocTcp]
    split
    · exact .inl rfl
    · exact hk
  | tcpClose i hsafe =>
    rw [conn_dnsTcpClose]
    split
    · exact .inr (by decide : (-1 : Int) < 0)
    · exact hk
  | tcpBuffer i =>
    by_cases hki : k = i
    · subst hki
      rwa [World.conn_setConn]
    · rwa [conn_setConn_of_ne _ _ _ hki]
  | data => exact hk
  | tcpReply => exact hk
  | stop => exact hk

theorem Steps.safe {w w' : World} (h : Steps w w') {k : Fin 32} (hk : Safe w k) : Safe w' k :=
  Steps.inv (I := fun w => Safe w k) (fun _ _ hw hs => hs.safe hw) h hk

/-! ## The handlers as chains of steps -/

theorem dnsHandleUdpReadable_steps (w : World) (answers : List UdpAnswer) :
    Steps w (dnsHandleUdpReadable w answers) := by
  induction answers generalizing w with
  | nil => exact .refl
  | cons a rs ih =>
    cases a with
    | interrupted => exact ih w
    | failed => exact .refl
    | datagram client len datagram delay sent =>
      rw [dnsHandleUdpReadable]
      dsimp only
      split
      · exact .refl
      · cases hf : firstFree DnsUdpEntry.used w.tunnel.udpMap with
        | none =>
          rw [dnsUdpAlloc, hf]
          exact .single (.udpRefuse delay hf)
        | some i =>
          rw [dnsUdpAlloc, hf]
          dsimp only [Option.map_some]
          rw [Function.update_self]
          cases sent with
          | true => exact .head (.udpForward client len _ delay hf) (ih _)
          | false => exact .single (.udpFail client len _ delay hf)

theorem dnsHandleTcpAccept_steps (w : World) (answers : List AcceptAnswer) :
    Steps w (dnsHandleTcpAccept w answers) := by
  induction answers generalizing w with
  | nil => exact .refl
  | cons a rs ih =>
    cases a with
    | interrupted => exact ih w
    | failed => exact .refl
    | accepted fd =>
      rw [dnsHandleTcpAccept]
      split
      · rename_i hfd
        cases hf : firstFree DnsTcpConn.used w.tunnel.tcpConns with
        | none =>
          rw [dnsTcpAlloc, hf]
          exact .head (.data (.tcpReject fd) rfl) (ih _)
        | some i =>
          rw [dnsTcpAlloc, hf]
          dsimp only [Option.map_some]
          rw [Function.update_self]
          exact .head (.tcpAccept fd hf hfd) (ih _)
      · exact .refl

theorem extractFrames_steps (i : Fin 32) (fuel : Nat) {w : World} (sends : List Bool)
    (hsafe : Safe w i) : Steps w (extractFrames i fuel w sends).1 := by
  induction fuel generalizing w sends with
  | zero => exact .refl
  | succ fuel ih =>
    rw [extractFrames]
    split
    · exact .refl
    · rename_i c hc
      -- taking the length from the buffer is a step on the buffer
      have hform : ∃ h e, c = { w.conn i with haveLength := h, expectLen := e } := by
        unfold DnsTcpConn.withLength at hc
        split at hc
        · exact ⟨_, _, (Option.some.inj hc).symm⟩
        · split at hc
          · cases hc
          · exact ⟨_, _, (Option.some.inj hc).symm⟩
      obtain ⟨h, e, hc'⟩ := hform
      have hset : Step w (w.setConn i c) := by
        rw [hc']
        exact .tcpBuffer i (w.conn i).readBuf h e
      split
      · exact .single hset
      · dsimp only
        set w₁ := (w.setConn i c).record
          (.tcpForward c.id ((c.readBuf.drop 2).take c.expectLen) (sends.headD true)) with hw₁
        have hsteps : Steps w w₁ := .tail (.single hset) (.data _ rfl)
        split
        · have hbuf : Step w₁ (w₁.setConn i
              { c with readBuf := c.readBuf.drop (2 + c.expectLen), haveLength := false, expectLen := 0 }) := by
            have := Step.tcpBuffer (w := w₁) i (c.readBuf.drop (2 + c.expectLen)) false 0
            rwa [hw₁, World.conn_record, World.conn_setConn] at this
          have hall := hsteps.tail hbuf
          exact hall.trans (ih _ (Steps.safe hall hsafe))
        · exact hsteps.tail (.tcpClose i (Steps.safe hsteps hsafe))

theorem dnsHandleTcpReadable_steps (i : Fin 32) {w : World} (answers : List ConnAnswer)
    (hsafe : Safe w i) : Steps w (dnsHandleTcpReadable i w answers) := by
  have hover : ∀ {w : World}, Safe w i →
      Steps w (dnsTcpClose (w.record (.tcpOverflow (w.conn i).id)) i) := fun {w} hs =>
    .head (.data _ rfl) (.single (.tcpClose i hs))
  induction answers generalizing w with
  | nil =>
    rw [dnsHandleTcpReadable]
    split
    · exact hover hsafe
    · split
      · exact .single (.tcpClose i hsafe)
      · exact .refl
  | cons a rs ih =>
    rw [dnsHandleTcpReadable]
    split
    · exact hover hsafe
    · split
      · exact .refl
      · exact ih hsafe
      · exact .single (.tcpClose i hsafe)
      · exact .single (.tcpClose i hsafe)
      · rename_i b bs _
        dsimp only
        set w₁ := (w.setConn i { w.conn i with readBuf := (w.conn i).readBuf ++ b :: bs }).record
          (.tcpRecv (w.conn i).id (b :: bs)) with hw₁
        have hsteps : Steps w w₁ :=
          .tail (.single (.tcpBuffer i _ (w.conn i).haveLength (w.conn i).expectLen)) (.data _ rfl)
        have hext := hsteps.trans (extractFrames_steps i
          (((w.conn i).readBuf ++ b :: bs).length + 1) a.sends (Steps.safe hsteps hsafe))
        split
        · rename_i w₂ hw₂
          rw [hw₂] at hext
          exact hext.trans (ih (Steps.safe hext hsafe))
        · rename_i w₂ hw₂
          rw [hw₂] at hext
          exact hext

theorem dnsRouteResponse_steps (w : World) (id : DnsClientIdentifier) (dns : Bytes) (sent : Bool) :
    Steps w (dnsRouteResponse w id dns sent) := by
  unfold dnsRouteResponse
  split
  · split
    · exact .refl
    · rename_i i hi
      exact .single (.udpReply id.dnsClientId dns hi)
  · split
    · split
      · exact .refl
      · rename_i i hi
        have hsafe : Safe w i := .inl (lookup_spec hi).1
        split
        · exact .single (.tcpClose i hsafe)
        · have hreply : Step w (w.record
              (.tcpReply i id.dnsClientId (w.conn i).fd (be16 dns.length ++ dns) sent)) :=
            .tcpReply id.dnsClientId _ sent hi
          dsimp only
          split
          · exact .single hreply
          · exact .tail (.single hreply) (.tcpClose i hsafe)
    · exact .refl

theorem dnsHandleChannelReadable_steps (w : World) (a : ChannelAnswer) :
    Steps w (dnsHandleChannelReadable w a) := by
  unfold dnsHandleChannelReadable
  split
  · exact .single .stop
  · exact dnsRouteResponse_steps w _ _ _

theorem handleEvent_steps {w : World} {p : PollFd × EventAnswer}
    (hsafe : ∀ i, p.1.conn = some i → Safe w i) : Steps w (handleEvent w p) := by
  obtain ⟨pfd, a⟩ := p
  unfold handleEvent
  dsimp only
  split
  · exact .refl
  · split
    · exact dnsHandleUdpReadable_steps w a.udp
    · split
      · exact dnsHandleTcpAccept_steps w a.accepts
      · split
        · split
          · exact .single .stop
          · exact dnsHandleChannelReadable_steps w a.channel
        · split
          · exact .refl
          · rename_i i hi
            split
            · exact .single (.tcpClose i (hsafe i hi))
            · exact dnsHandleTcpReadable_steps i a.conn (hsafe i hi)

theorem foldl_handleEvent_steps {ps : List (PollFd × EventAnswer)} {w : World}
    (hsafe : ∀ p ∈ ps, ∀ i, p.1.conn = some i → Safe w i) : Steps w (ps.foldl handleEvent w) := by
  induction ps generalizing w with
  | nil => exact .refl
  | cons p ps ih =>
    have hfirst : Steps w (handleEvent w p) := handleEvent_steps (hsafe p List.mem_cons_self)
    exact hfirst.trans (ih fun q hq i hi =>
      Steps.safe hfirst (hsafe q (List.mem_cons_of_mem _ hq) i hi))

theorem safe_of_mem_pfds {w : World} {pfd : PollFd} (h : pfd ∈ w.tunnel.pfds) {i : Fin 32}
    (hi : pfd.conn = some i) : Safe w i := by
  rcases List.mem_append.mp h with h | h
  · simp only [List.mem_cons, List.not_mem_nil, or_false] at h
    rcases h with rfl | rfl | rfl <;> cases hi
  · obtain ⟨j, hj, rfl⟩ := List.mem_map.mp h
    obtain rfl := Option.some.inj hi
    have hused := (List.mem_filter.mp hj).2
    simp only [Bool.and_eq_true] at hused
    exact .inl hused.1

theorem shutDown_steps (w : World) : Steps w (shutDown w) := by
  unfold shutDown
  generalize List.finRange 32 = is
  induction is generalizing w with
  | nil => exact .refl
  | cons i is ih =>
    rw [List.foldl_cons]
    refine ReflTransGen.trans ?_ (ih _)
    split
    · rename_i hused
      exact .single (.tcpClose i (.inl hused))
    · exact .refl

theorem dnsTunnelPass_steps (w : World) (a : PollAnswer) :
    After (Steps w) (Steps w) (dnsTunnelPass w a) := by
  unfold dnsTunnelPass
  split
  · exact shutDown_steps w
  · cases a with
    | failed => exact shutDown_steps w
    | interrupted => exact ReflTransGen.refl
    | timeout delay => exact ReflTransGen.single (.expire delay)
    | ready events =>
      refine foldl_handleEvent_steps fun p hp i hi => ?_
      exact safe_of_mem_pfds (List.of_mem_zip hp).1 hi

theorem runLoop_steps (w : World) (answers : List PollAnswer) :
    After (Steps w) (Steps w) (runLoop dnsTunnelPass w answers) := by
  refine runLoop_inv (fun w' a hw => ?_) ReflTransGen.refl
  have h := dnsTunnelPass_steps w' a
  cases hp : dnsTunnelPass w' a with
  | inl w'' =>
    rw [hp] at h
    exact hw.trans h
  | inr w'' =>
    rw [hp] at h
    exact hw.trans h

end WslFreeBSD.Dns
