import WslFreeBSD.Bridge.Reader
import WslFreeBSD.Dns.Channel
import WslFreeBSD.Lib.SlotTable

/-!
# The DNS tunnel (`dns_tunneling.h`)

The guest's DNS server keeps a table of pending UDP queries and a table of TCP connections. Every
query, and every connection, gets the next identifier of a counter; queries go to the host over
the channel with this identifier, and the host's responses are routed back by it. `dnsTunnelPass`
is one pass of the `poll` loop of `dns_tunnel_run`, with the events in the order of the poll set.

What the kernel answers is the input of a pass: a script for each loop around a system call, the
end of a script being `EAGAIN`. An answer that the kernel cannot give is treated as an error
(`accept` returning a descriptor that is open) or cut down to what was asked for (`recv` returning
more bytes than there is room). `dns_now_ms` is a clock that an answer can only advance.

A `World` is the tunnel with the clock, the descriptors of accepted connections that are open, and
the history of what was done with the sockets.
-/

namespace WslFreeBSD.Dns

open Lib
open Bridge (RecvResult)

/-! ## State -/

def DNS_MAX_UDP_PKTS : Nat := 4096

/-- `DNS_TCP_READ_BUF`: a length and the largest frame. -/
def DNS_TCP_READ_BUF : Nat := 2 + 65535

/-- `struct sockaddr_in` of a client. -/
structure SockAddr where
  addr : UInt32
  port : UInt16
  deriving DecidableEq, Repr

/-- `struct dns_udp_entry`. -/
structure DnsUdpEntry where
  used : Bool
  id : UInt32
  client : SockAddr
  clientLen : Nat
  deadlineMs : Nat
  deriving DecidableEq, Repr

/-- `struct dns_tcp_conn`. `readBuf` is the part of `read_buf` below `read_len`. -/
structure DnsTcpConn where
  used : Bool
  fd : Int
  id : UInt32
  readBuf : Bytes
  haveLength : Bool
  expectLen : Nat
  deriving DecidableEq, Repr

/-- `struct dns_tunnel`. -/
structure DnsTunnel where
  udpFd : Int
  tcpFd : Int
  channelFd : Int
  stopping : Bool
  nextUdpId : UInt32
  nextTcpId : UInt32
  udpMap : Fin 64 → DnsUdpEntry
  tcpConns : Fin 32 → DnsTcpConn

/-- What is done with the sockets and the tables. `udpForward` and `tcpForward` are calls of
`dns_channel_send` (with their success), `udpReply` and `tcpReply` the calls of `sendto` and
`dns_send_all` for a response, `udpFree` is a slot given back by `dns_udp_free`, `expire` the pass
over the table at a poll timeout. -/
inductive Event where
  | udpForward (slot : Fin 64) (id : UInt32) (client : SockAddr) (payload : Bytes) (time : Nat)
      (sent : Bool)
  | udpRefused (time : Nat)
  | udpReply (slot : Fin 64) (id : UInt32) (client : SockAddr) (dns : Bytes)
  | udpFree (slot : Fin 64)
  | expire (time : Nat)
  | tcpAccept (slot : Fin 32) (id : UInt32) (fd : Int)
  | tcpReject (fd : Int)
  | tcpRecv (id : UInt32) (bytes : Bytes)
  | tcpOverflow (id : UInt32)
  | tcpForward (id : UInt32) (payload : Bytes) (sent : Bool)
  | tcpReply (slot : Fin 32) (id : UInt32) (fd : Int) (framed : Bytes) (sent : Bool)
  | close (fd : Int)
  deriving DecidableEq, Repr

structure World where
  tunnel : DnsTunnel
  clock : Nat
  opened : List Int
  log : List Event

namespace World

def record (w : World) (e : Event) : World := { w with log := w.log ++ [e] }

def setEntry (w : World) (i : Fin 64) (e : DnsUdpEntry) : World :=
  { w with tunnel := { w.tunnel with udpMap := Function.update w.tunnel.udpMap i e } }

def setConn (w : World) (i : Fin 32) (c : DnsTcpConn) : World :=
  { w with tunnel := { w.tunnel with tcpConns := Function.update w.tunnel.tcpConns i c } }

def conn (w : World) (i : Fin 32) : DnsTcpConn := w.tunnel.tcpConns i

end World

/-! ## The UDP client map -/

/-- `dns_udp_alloc`. -/
def dnsUdpAlloc (t : DnsTunnel) (client : SockAddr) (clientLen now : Nat) :
    Option (Fin 64 × DnsTunnel) :=
  (firstFree DnsUdpEntry.used t.udpMap).map fun i =>
    (i, { t with
      nextUdpId := t.nextUdpId + 1
      udpMap := Function.update t.udpMap i ⟨true, t.nextUdpId + 1, client, clientLen, now + 30000⟩ })

/-- `dns_udp_lookup`. -/
def dnsUdpLookup (t : DnsTunnel) (id : UInt32) : Option (Fin 64) :=
  lookup DnsUdpEntry.used DnsUdpEntry.id t.udpMap id

/-- `dns_udp_free`. -/
def dnsUdpFree (w : World) (id : UInt32) : World :=
  match dnsUdpLookup w.tunnel id with
  | none => w
  | some i => (w.setEntry i { w.tunnel.udpMap i with used := false }).record (.udpFree i)

/-! ## The TCP connection table -/

/-- `dns_tcp_alloc`. -/
def dnsTcpAlloc (t : DnsTunnel) (fd : Int) : Option (Fin 32 × DnsTunnel) :=
  (firstFree DnsTcpConn.used t.tcpConns).map fun i =>
    (i, { t with
      nextTcpId := t.nextTcpId + 1
      tcpConns := Function.update t.tcpConns i ⟨true, fd, t.nextTcpId + 1, [], false, 0⟩ })

/-- `dns_tcp_lookup`. -/
def dnsTcpLookup (t : DnsTunnel) (id : UInt32) : Option (Fin 32) :=
  lookup DnsTcpConn.used DnsTcpConn.id t.tcpConns id

/-- `close` of the descriptor of an accepted connection. -/
def World.closeFd (w : World) (fd : Int) : World :=
  { w with opened := w.opened.filter (· ≠ fd), log := w.log ++ [.close fd] }

/-- `dns_tcp_close`. -/
def dnsTcpClose (w : World) (i : Fin 32) : World :=
  let c := w.conn i
  (if c.fd ≥ 0 then w.closeFd c.fd else w).setConn i { c with used := false, fd := -1 }

/-! ## UDP queries -/

/-- What `recvfrom` returns: a datagram (with the time that has passed and whether
`dns_channel_send` will succeed) or an error. -/
inductive UdpAnswer where
  | datagram (client : SockAddr) (clientLen : Nat) (payload : Bytes) (delay : Nat) (sent : Bool)
  | interrupted
  | failed

/-- `dns_handle_udp_readable`. -/
def dnsHandleUdpReadable : World → List UdpAnswer → World
  | w, [] => w
  | w, .interrupted :: rs => dnsHandleUdpReadable w rs
  | w, .failed :: _ => w
  | w, .datagram client clientLen datagram delay sent :: rs =>
    let payload := datagram.take DNS_MAX_UDP_PKTS
    let now := w.clock + delay
    if payload = [] then w
    else
      match dnsUdpAlloc w.tunnel client clientLen now with
      | none => { w with clock := now }.record (.udpRefused now)
      | some (i, t) =>
        let w := { w with tunnel := t, clock := now }.record
          (.udpForward i (t.udpMap i).id client payload now sent)
        if sent then dnsHandleUdpReadable w rs else dnsUdpFree w (t.udpMap i).id

/-! ## TCP connections -/

inductive AcceptAnswer where
  | accepted (fd : Int)
  | interrupted
  | failed

/-- A descriptor that `accept` can return. -/
def World.CanOpen (w : World) (fd : Int) : Prop :=
  0 ≤ fd ∧ fd ∉ w.opened ∧ fd ≠ w.tunnel.udpFd ∧ fd ≠ w.tunnel.tcpFd ∧ fd ≠ w.tunnel.channelFd

instance (w : World) (fd : Int) : Decidable (w.CanOpen fd) := inferInstanceAs (Decidable (_ ∧ _))

/-- `dns_handle_tcp_accept`. -/
def dnsHandleTcpAccept : World → List AcceptAnswer → World
  | w, [] => w
  | w, .interrupted :: rs => dnsHandleTcpAccept w rs
  | w, .failed :: _ => w
  | w, .accepted fd :: rs =>
    if w.CanOpen fd then
      match dnsTcpAlloc w.tunnel fd with
      | none => dnsHandleTcpAccept (w.record (.tcpReject fd)) rs
      | some (i, t) =>
        dnsHandleTcpAccept
          ({ w with tunnel := t, opened := fd :: w.opened }.record (.tcpAccept i (t.tcpConns i).id fd))
          rs
    else w

/-- The length prefix, taken from the buffer once it is there. -/
def DnsTcpConn.withLength (c : DnsTcpConn) : Option DnsTcpConn :=
  if c.haveLength then some c
  else if c.readBuf.length < 2 then none
  else some { c with expectLen := be16Value c.readBuf, haveLength := true }

/-- The inner loop of `dns_handle_tcp_readable`: complete frames are taken from the buffer and
forwarded (`sends` says with which success, the last entries being successes). The result says
whether the handler goes on; it does not when the connection was closed. -/
def extractFrames (i : Fin 32) : Nat → World → List Bool → World × Bool
  | 0, w, _ => (w, true)
  | fuel + 1, w, sends =>
    match (w.conn i).withLength with
    | none => (w, true)
    | some c =>
      if c.readBuf.length < 2 + c.expectLen then (w.setConn i c, true)
      else
        let sent := sends.headD true
        let w := (w.setConn i c).record (.tcpForward c.id ((c.readBuf.drop 2).take c.expectLen) sent)
        if sent then
          extractFrames i fuel
            (w.setConn i
              { c with readBuf := c.readBuf.drop (2 + c.expectLen), haveLength := false, expectLen := 0 })
            sends.tail
        else (dnsTcpClose w i, false)

/-- The answer to one `recv` of a connection and to the sends that follow it. -/
structure ConnAnswer where
  result : RecvResult
  sends : List Bool := []

/-- `recv` into the free part of the buffer. -/
def DnsTcpConn.recv (c : DnsTcpConn) : RecvResult → RecvResult
  | .got bytes => if c.fd < 0 then .failed else .got (bytes.take (DNS_TCP_READ_BUF - c.readBuf.length))
  | r => if c.fd < 0 then .failed else r

/-- `dns_handle_tcp_readable`. -/
def dnsHandleTcpReadable (i : Fin 32) : World → List ConnAnswer → World
  | w, [] =>
    if (w.conn i).readBuf.length ≥ DNS_TCP_READ_BUF then
      dnsTcpClose (w.record (.tcpOverflow (w.conn i).id)) i
    else if (w.conn i).fd < 0 then dnsTcpClose w i
    else w
  | w, a :: rs =>
    if (w.conn i).readBuf.length ≥ DNS_TCP_READ_BUF then
      dnsTcpClose (w.record (.tcpOverflow (w.conn i).id)) i
    else
      match (w.conn i).recv a.result with
      | .wouldBlock => w
      | .interrupted => dnsHandleTcpReadable i w rs
      | .failed => dnsTcpClose w i
      | .got [] => dnsTcpClose w i
      | .got (b :: bs) =>
        let c := w.conn i
        let readBuf := c.readBuf ++ b :: bs
        let w := (w.setConn i { c with readBuf }).record (.tcpRecv c.id (b :: bs))
        match extractFrames i (readBuf.length + 1) w a.sends with
        | (w, true) => dnsHandleTcpReadable i w rs
        | (w, false) => w

/-! ## Responses -/

/-- `dns_route_response`; `sent` is the success of `dns_send_all` on a connection. -/
def dnsRouteResponse (w : World) (id : DnsClientIdentifier) (dns : Bytes) (sent : Bool) : World :=
  if id.protocol = IPPROTO_UDP then
    match dnsUdpLookup w.tunnel id.dnsClientId with
    | none => w
    | some i =>
      dnsUdpFree (w.record (.udpReply i id.dnsClientId (w.tunnel.udpMap i).client dns))
        id.dnsClientId
  else if id.protocol = IPPROTO_TCP then
    match dnsTcpLookup w.tunnel id.dnsClientId with
    | none => w
    | some i =>
      if dns.length > 65535 then dnsTcpClose w i
      else
        let w := w.record (.tcpReply i id.dnsClientId (w.conn i).fd (be16 dns.length ++ dns) sent)
        if sent then w else dnsTcpClose w i
  else w

/-- What the channel delivers to one call of `dns_handle_channel_readable`. -/
structure ChannelAnswer where
  stream : Bytes
  headerCalls : List WriteResult
  payloadCalls : List WriteResult
  sent : Bool

/-- `dns_handle_channel_readable`. -/
def dnsHandleChannelReadable (w : World) (a : ChannelAnswer) : World :=
  match dnsChannelRecv a.headerCalls a.payloadCalls a.stream with
  | none => { w with tunnel := { w.tunnel with stopping := true } }
  | some (id, dns, _) => dnsRouteResponse w id dns a.sent

/-! ## The loop -/

/-- An entry of the poll set with its entry of `conn_map`. -/
structure PollFd where
  fd : Int
  conn : Option (Fin 32)

/-- The events of one descriptor: `readable` is `POLLIN`, `hangup` is `POLLHUP` or `POLLERR`; and
what its handler will find. -/
structure EventAnswer where
  readable : Bool := false
  hangup : Bool := false
  udp : List UdpAnswer := []
  accepts : List AcceptAnswer := []
  channel : ChannelAnswer := ⟨[], [], [], false⟩
  conn : List ConnAnswer := []

/-- What `poll` returns. -/
inductive PollAnswer where
  | failed
  | interrupted
  | timeout (delay : Nat)
  | ready (events : List EventAnswer)

/-- The poll set: the three sockets of the tunnel and the connections in use. -/
def DnsTunnel.pfds (t : DnsTunnel) : List PollFd :=
  [⟨t.udpFd, none⟩, ⟨t.tcpFd, none⟩, ⟨t.channelFd, none⟩] ++
    ((List.finRange 32).filter fun i => (t.tcpConns i).used && (t.tcpConns i).fd ≥ 0).map fun i =>
      ⟨(t.tcpConns i).fd, some i⟩

def DnsTunnel.expire (t : DnsTunnel) (now : Nat) : DnsTunnel :=
  { t with
    udpMap := fun i =>
      let e := t.udpMap i
      if e.used ∧ e.deadlineMs ≠ 0 ∧ e.deadlineMs < now then { e with used := false } else e }

def handleEvent (w : World) (p : PollFd × EventAnswer) : World :=
  let (pfd, a) := p
  if a.readable = false ∧ a.hangup = false then w
  else if pfd.fd = w.tunnel.udpFd then dnsHandleUdpReadable w a.udp
  else if pfd.fd = w.tunnel.tcpFd then dnsHandleTcpAccept w a.accepts
  else if pfd.fd = w.tunnel.channelFd then
    if a.hangup then { w with tunnel := { w.tunnel with stopping := true } }
    else dnsHandleChannelReadable w a.channel
  else
    match pfd.conn with
    | none => w
    | some i => if a.hangup then dnsTcpClose w i else dnsHandleTcpReadable i w a.conn

/-- The connections are closed when the loop is left. -/
def shutDown (w : World) : World :=
  (List.finRange 32).foldl (fun w i => if (w.conn i).used then dnsTcpClose w i else w) w

/-- One pass of the loop of `dns_tunnel_run`. -/
def dnsTunnelPass (w : World) (a : PollAnswer) : World ⊕ World :=
  if w.tunnel.stopping then .inr (shutDown w)
  else
    match a with
    | .failed => .inr (shutDown w)
    | .interrupted => .inl w
    | .timeout delay =>
      let now := w.clock + delay
      .inl ({ w with tunnel := w.tunnel.expire now, clock := now }.record (.expire now))
    | .ready events => .inl ((w.tunnel.pfds.zip events).foldl handleEvent w)

/-- The state in which the loop starts: all of `struct dns_tunnel` is zero except for the
descriptors. -/
def dnsTunnelStart (udpFd tcpFd channelFd : Int) (clock : Nat) : World where
  tunnel :=
    { udpFd, tcpFd, channelFd, stopping := false, nextUdpId := 0, nextTcpId := 0
      udpMap := fun _ => ⟨false, 0, ⟨0, 0⟩, 0, 0⟩
      tcpConns := fun _ => ⟨false, 0, 0, [], false, 0⟩ }
  clock
  opened := []
  log := []

end WslFreeBSD.Dns
