import WslFreeBSD.Lib.WriteLoop
import WslFreeBSD.Protocol.Messages

/-!
# The DNS channel (`dns_tunneling.h`)

DNS packets travel between guest and host as `LxGnsMessageDnsTunneling` messages: a header, the
identifier of the client (protocol and id) and the raw packet. `dnsChannelSend` builds one and
writes it, `dnsChannelRecv` reads one and refuses what is not such a message.

`dnsChannelRecv_message` says which messages are read back: those whose payload, the eight bytes
of the identifier included, is at most 65536 bytes.

`dns_send_all` and `dns_recv_all` are the same loop around `send` and `recv`; the results of the
calls are a script. `recv` cuts the stream into pieces as `send` cuts the buffer.
-/

namespace WslFreeBSD.Dns

open Lib Protocol

def LxGnsMessageDnsTunneling : Nat := 70
def IPPROTO_UDP : UInt8 := 17
def IPPROTO_TCP : UInt8 := 6

/-- `LX_GNS_DNS_CLIENT_IDENTIFIER` without its padding. -/
structure DnsClientIdentifier where
  protocol : UInt8
  dnsClientId : UInt32
  deriving DecidableEq, Repr

/-- `sizeof(LX_GNS_DNS_CLIENT_IDENTIFIER)`. -/
def identifierSize : Nat := 8

/-- Only a call that would block is repeated, once the descriptor is ready again. -/
def dnsResume : WriteResult → Bool
  | .wouldBlock ready => ready
  | _ => false

/-- `dns_send_all`: what was sent, and whether it is everything. -/
def dnsSendAll (calls : List WriteResult) (buf : Bytes) : Bytes × Bool := writeLoop dnsResume calls buf

/-- `dns_recv_all` of `len` bytes of the stream: the bytes and the rest of the stream. -/
def dnsRecvAll (calls : List WriteResult) (stream : Bytes) (len : Nat) : Option (Bytes × Bytes) :=
  let got := (writeLoop dnsResume calls (stream.take len)).1
  if got.length = len then some (got, stream.drop len) else none

/-- The message that `dns_channel_send` builds. -/
def dnsMessage (protocol : UInt8) (clientId : UInt32) (dns : Bytes) : Bytes :=
  header LxGnsMessageDnsTunneling ((headerSize + identifierSize + dns.length) % 2 ^ 32) 0 ++
    ([protocol, 0, 0, 0] ++ leBytes 4 clientId.toNat ++ dns)

/-- `dns_channel_send`: what was written, and whether it returned 0. -/
def dnsChannelSend (calls : List WriteResult) (protocol : UInt8) (clientId : UInt32) (dns : Bytes) :
    Bytes × Bool :=
  dnsSendAll calls (dnsMessage protocol clientId dns)

/-- `dns_channel_recv`: the identifier, the DNS bytes and the rest of the stream. -/
def dnsChannelRecv (headerCalls payloadCalls : List WriteResult) (stream : Bytes) :
    Option (DnsClientIdentifier × Bytes × Bytes) :=
  match dnsRecvAll headerCalls stream headerSize with
  | none => none
  | some (hdr, rest) =>
    if messageSize hdr < headerSize ∨ messageSize hdr > 65536 + headerSize then none
    else
      let payload := messageSize hdr - headerSize
      match if payload > 0 then dnsRecvAll payloadCalls rest payload else some ([], rest) with
      | none => none
      | some (body, rest) =>
        if messageType hdr ≠ LxGnsMessageDnsTunneling then none
        else if payload < identifierSize then none
        else some (⟨UInt8.ofNat (leAt 0 1 body), UInt32.ofNat (leAt 4 4 body)⟩,
          body.drop identifierSize, rest)

/-! ## Reading a message back -/

/-- The calls get everything they are asked for. -/
def Completes (calls : List WriteResult) (len : Nat) : Prop := takenLength dnsResume calls len = len

theorem dnsRecvAll_of_completes {calls : List WriteResult} {front : Bytes}
    (h : Completes calls front.length) (rest : Bytes) :
    dnsRecvAll calls (front ++ rest) front.length = some (front, rest) := by
  have hlen := @length_writeLoop _ dnsResume calls front
  rw [h] at hlen
  have hgot : (writeLoop dnsResume calls front).1 = front :=
    (writeLoop_begins calls front).eq_of_length hlen
  unfold dnsRecvAll
  dsimp only
  rw [List.take_left, hgot, if_pos rfl, List.drop_left]

theorem dnsRecvAll_spec {calls : List WriteResult} {stream got rest : Bytes} {len : Nat}
    (h : dnsRecvAll calls stream len = some (got, rest)) :
    stream = got ++ rest ∧ got.length = len := by
  unfold dnsRecvAll at h
  dsimp only at h
  split at h
  · rename_i hlen
    obtain ⟨rfl, rfl⟩ := Prod.mk.inj (Option.some.inj h)
    have hgot := @writeLoop_begins _ dnsResume calls (stream.take len)
    have htake : (writeLoop dnsResume calls (stream.take len)).1 = stream.take len := by
      apply hgot.eq_of_length
      have hle := hgot.length_le
      rw [List.length_take] at hle ⊢
      omega
    refine ⟨?_, hlen⟩
    rw [htake, List.take_append_drop]
  · cases h

theorem identifier_append (protocol : UInt8) (clientId : UInt32) (dns : Bytes) :
    (⟨UInt8.ofNat (leAt 0 1 ([protocol, 0, 0, 0] ++ leBytes 4 clientId.toNat ++ dns)),
        UInt32.ofNat (leAt 4 4 ([protocol, 0, 0, 0] ++ leBytes 4 clientId.toNat ++ dns))⟩ :
      DnsClientIdentifier) = ⟨protocol, clientId⟩ := by
  have hid : leAt 4 4 ([protocol, 0, 0, 0] ++ leBytes 4 clientId.toNat ++ dns) = clientId.toNat := by
    rw [List.append_assoc]
    exact leAt_append_leBytes (by rfl) clientId.toNat_lt _
  rw [hid, UInt32.ofNat_toNat]
  simp [leAt, leValue]

/-- Which messages are read back: the channel delivers them completely, and their payload, the
identifier included, has at most 65536 bytes. -/
theorem dnsChannelRecv_message {headerCalls payloadCalls : List WriteResult} {protocol : UInt8}
    {clientId : UInt32} {dns : Bytes} (rest : Bytes) (hsize : dns.length < 2 ^ 32 - 20)
    (hh : Completes headerCalls headerSize)
    (hp : Completes payloadCalls (identifierSize + dns.length)) :
    dnsChannelRecv headerCalls payloadCalls (dnsMessage protocol clientId dns ++ rest) =
      if dns.length ≤ 65528 then some (⟨protocol, clientId⟩, dns, rest) else none := by
  set body := [protocol, 0, 0, 0] ++ leBytes 4 clientId.toNat ++ dns with hbody
  set hdr := header LxGnsMessageDnsTunneling ((headerSize + identifierSize + dns.length) % 2 ^ 32) 0
    with hhdr
  have hlen : body.length = identifierSize + dns.length := by
    simp [hbody, identifierSize]
    omega
  have hsz : messageSize hdr = headerSize + identifierSize + dns.length := by
    have hmod : (headerSize + identifierSize + dns.length) % 2 ^ 32 =
        headerSize + identifierSize + dns.length :=
      Nat.mod_eq_of_lt (by simp only [headerSize, identifierSize]; omega)
    rw [hhdr, hmod, ← List.append_nil (header _ _ _),
      messageSize_header_append (by simp only [headerSize, identifierSize]; omega)]
  have hty : messageType hdr = LxGnsMessageDnsTunneling := by
    rw [hhdr, ← List.append_nil (header _ _ _), messageType_header_append (by decide)]
  have hpay : messageSize hdr - headerSize = body.length := by
    rw [hsz, hlen]
    omega
  have hmsg : dnsMessage protocol clientId dns ++ rest = hdr ++ (body ++ rest) := by
    rw [dnsMessage, ← hhdr, ← hbody, List.append_assoc]
  have hhead : dnsRecvAll headerCalls (hdr ++ (body ++ rest)) headerSize = some (hdr, body ++ rest) := by
    have hl : hdr.length = headerSize := length_header _ _ _
    rw [← hl] at hh ⊢
    exact dnsRecvAll_of_completes hh _
  rw [← hlen] at hp
  have hrecv : dnsRecvAll payloadCalls (body ++ rest) body.length = some (body, rest) :=
    dnsRecvAll_of_completes hp _
  have hdrop : body.drop identifierSize = dns := by
    rw [hbody]
    exact List.drop_left' (by simp [identifierSize])
  unfold dnsChannelRecv
  rw [hmsg, hhead]
  dsimp only
  rw [hpay, if_pos (by rw [hlen, identifierSize]; omega : body.length > 0), hrecv]
  dsimp only
  rw [if_neg (not_not.mpr hty), if_neg (by omega : ¬ body.length < identifierSize),
    hbody, identifier_append, ← hbody, hdrop, hsz]
  by_cases hd : dns.length ≤ 65528
  · rw [if_pos hd, if_neg (by simp only [headerSize, identifierSize]; omega)]
  · rw [if_neg hd, if_pos (by simp only [headerSize, identifierSize]; omega)]

end WslFreeBSD.Dns
