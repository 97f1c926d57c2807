import WslFreeBSD.Dns.Tunnel

/-!
# Which DNS messages fit through the channel

Three limits bound a DNS message that passes the tunnel: a TCP frame has at most 65535 bytes, a
response is written to a TCP client behind a 16-bit length, and `dns_channel_recv` refuses messages
with a payload of more than 65536 bytes, where the payload counts the eight bytes of the client
identifier. So the lengths 65529 to 65535 can be sent but not received, and the failure to receive
stops the tunnel (`channel_roundtrip_iff`, `large_response_stops_tunnel`).
-/

namespace WslFreeBSD.Dns

open Lib Protocol

/-- What `dns_channel_send` has written completely is read back by `dns_channel_recv`, whatever
follows it on the channel and however it is cut. -/
def RoundTrips (protocol : UInt8) (clientId : UInt32) (dns : Bytes) : Prop :=
  ∀ (sendCalls headerCalls payloadCalls : List WriteResult) (rest : Bytes),
    (dnsChannelSend sendCalls protocol clientId dns).2 = true →
    Completes headerCalls headerSize → Completes payloadCalls (identifierSize + dns.length) →
    dnsChannelRecv headerCalls payloadCalls
        ((dnsChannelSend sendCalls protocol clientId dns).1 ++ rest) =
      some (⟨protocol, clientId⟩, dns, rest)

/-- A response from the host for a TCP client that is connected is written to it, framed by its
length, and the tunnel goes on. -/
def Delivered (clientId : UInt32) (dns : Bytes) : Prop :=
  ∀ (w : World) (i : Fin 32) (headerCalls payloadCalls : List WriteResult) (rest : Bytes),
    dnsTcpLookup w.tunnel clientId = some i →
    Completes headerCalls headerSize → Completes payloadCalls (identifierSize + dns.length) →
    dnsHandleChannelReadable w
        ⟨dnsMessage IPPROTO_TCP clientId dns ++ rest, headerCalls, payloadCalls, true⟩ =
      w.record (.tcpReply i clientId (w.conn i).fd (be16 dns.length ++ dns) true)

theorem completes_took {len n : Nat} (h : len ≤ n + 1) : Completes [.took n] len := by
  unfold Completes
  cases len with
  | zero => rfl
  | succ len =>
    simp only [takenLength]
    have hrest : takenLength dnsResume [] (len + 1 - (n + 1)) = 0 := by
      cases len + 1 - (n + 1) <;> rfl
    omega

theorem dnsChannelSend_of_snd {calls : List WriteResult} {protocol : UInt8} {clientId : UInt32}
    {dns : Bytes} (h : (dnsChannelSend calls protocol clientId dns).2 = true) :
    (dnsChannelSend calls protocol clientId dns).1 = dnsMessage protocol clientId dns :=
  (writeLoop_snd_iff calls _).mp h

theorem length_dnsMessage (protocol : UInt8) (clientId : UInt32) (dns : Bytes) :
    (dnsMessage protocol clientId dns).length = 20 + dns.length := by
  simp [dnsMessage]
  omega

theorem dnsChannelSend_took (protocol : UInt8) (clientId : UInt32) (dns : Bytes) :
    (dnsChannelSend [.took (20 + dns.length)] protocol clientId dns).2 = true := by
  apply (writeLoop_snd_iff _ _).mpr
  apply (writeLoop_begins _ _).eq_of_length
  rw [length_writeLoop]
  refine completes_took ?_
  rw [length_dnsMessage]
  omega

theorem roundTrips_of_le {protocol : UInt8} {clientId : UInt32} {dns : Bytes}
    (h : dns.length ≤ 65528) : RoundTrips protocol clientId dns := by
  intro sendCalls headerCalls payloadCalls rest hsent hh hp
  rw [dnsChannelSend_of_snd hsent, dnsChannelRecv_message rest (by omega) hh hp, if_pos h]

theorem delivered_of_le {clientId : UInt32} {dns : Bytes} (h : dns.length ≤ 65528) :
    Delivered clientId dns := by
  intro w i headerCalls payloadCalls rest hlive hh hp
  unfold dnsHandleChannelReadable
  rw [dnsChannelRecv_message rest (by omega) hh hp, if_pos h]
  unfold dnsRouteResponse
  dsimp only
  rw [if_neg (by decide : ¬ IPPROTO_TCP = IPPROTO_UDP), if_pos rfl, hlive]
  dsimp only
  rw [if_neg (by omega : ¬ dns.length > 65535), if_pos rfl]

theorem completes_message (dns : Bytes) :
    Completes [.took 12] headerSize ∧
      Completes [.took (20 + dns.length)] (identifierSize + dns.length) :=
  ⟨completes_took (by decide), completes_took (by rw [identifierSize]; omega)⟩

theorem RoundTrips.length_le {protocol : UInt8} {clientId : UInt32} {dns : Bytes}
    (hlegal : dns.length ≤ 65535) (h : RoundTrips protocol clientId dns) : dns.length ≤ 65528 := by
  by_contra hlong
  obtain ⟨hh, hp⟩ := completes_message dns
  have hsent := dnsChannelSend_took protocol clientId dns
  have hrecv := h _ _ _ [] hsent hh hp
  rw [dnsChannelSend_of_snd hsent, dnsChannelRecv_message [] (by omega) hh hp, if_neg hlong] at hrecv
  cases hrecv

/-- Of the DNS messages that the tunnel can forward, those with at most 65528 bytes survive the
channel, and as responses reach their client. -/
theorem channel_roundtrip_iff (protocol : UInt8) (clientId : UInt32) (dns : Bytes)
    (hlegal : dns.length ≤ 65535) :
    RoundTrips protocol clientId dns ∧ Delivered clientId dns ↔ dns.length ≤ 65528 := by
  constructor
  · rintro ⟨hround, -⟩
    exact hround.length_le hlegal
  · intro h
    exact ⟨roundTrips_of_le h, delivered_of_le h⟩

/-- The smallest query gets through. -/
theorem channel_roundtrip_iff_header :
    RoundTrips IPPROTO_UDP 1 (List.replicate 12 0) ∧ Delivered 1 (List.replicate 12 0) :=
  (channel_roundtrip_iff IPPROTO_UDP 1 (List.replicate 12 0) (by decide)).mpr (by decide)

theorem stops_of_long {dns : Bytes} (hlegal : dns.length ≤ 65535) (hlong : ¬ dns.length ≤ 65528)
    (w : World) (clientId : UInt32) :
    (dnsHandleChannelReadable w ⟨dnsMessage IPPROTO_TCP clientId dns, [.took 12],
      [.took (20 + dns.length)], true⟩).tunnel.stopping = true := by
  obtain ⟨hh, hp⟩ := completes_message dns
  have hrecv : dnsChannelRecv [.took 12] [.took (20 + dns.length)]
      (dnsMessage IPPROTO_TCP clientId dns ++ []) = none := by
    rw [dnsChannelRecv_message [] (by omega) hh hp, if_neg hlong]
  rw [List.append_nil] at hrecv
  unfold dnsHandleChannelReadable
  rw [hrecv]

/-- A response of 65529 bytes is legal but is not read; the tunnel stops. -/
theorem large_response_stops_tunnel :
    ∃ dns : Bytes, dns.length = 65529 ∧
      ¬ (RoundTrips IPPROTO_TCP 1 dns ∧ Delivered 1 dns) ∧
      ∀ w : World, (dnsHandleChannelReadable w ⟨dnsMessage IPPROTO_TCP 1 dns, [.took 12],
        [.took (20 + dns.length)], true⟩).tunnel.stopping = true := by
  have hlen : (List.replicate 65529 (0 : UInt8)).length = 65529 := List.length_replicate
  refine ⟨List.replicate 65529 0, hlen, ?_, ?_⟩
  · intro h
    have := h.1.length_le (by omega)
    omega
  · intro w
    exact stops_of_long (by omega) (by omega) w 1

end WslFreeBSD.Dns
