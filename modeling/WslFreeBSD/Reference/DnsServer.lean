import WslFreeBSD.Lib.Bytes

/-!
# The TCP side of the reference DNS server

`DnsServer.cpp` reads a request on a TCP connection into a buffer that first holds the two bytes of
the length and is then resized to hold the length and the request; it never reads more than the
rest of the buffer. The whole buffer, length included, is tunnelled to the host
(`HandleNewTcpData`), and a response of the host is written to the client as it is
(`HandleTcpDnsResponse`).

The offset into the buffer is a 16-bit number, so that it never reaches the end of a buffer of
65536 bytes or more.
-/

namespace WslFreeBSD.Reference

open Lib

/-- `TcpConnectionContext`. -/
structure TcpConnectionContext where
  currentRequestOffset : Nat := 0
  currentDnsRequest : Bytes := [0, 0]
  deriving DecidableEq, Repr

namespace TcpConnectionContext

/-- How much `recv` is asked for. -/
def room (c : TcpConnectionContext) : Nat := c.currentDnsRequest.length - c.currentRequestOffset

/-- The bytes received are stored at the offset, which is then advanced. -/
def store (c : TcpConnectionContext) (bytes : Bytes) : TcpConnectionContext where
  currentRequestOffset := (c.currentRequestOffset + bytes.length) % 2 ^ 16
  currentDnsRequest := c.currentDnsRequest.take c.currentRequestOffset ++ bytes ++
    c.currentDnsRequest.drop (c.currentRequestOffset + bytes.length)

end TcpConnectionContext

/-- `HandleNewTcpData` after `recv` has returned these bytes: the request to be tunnelled, if there
is one, and the connection, unless it is closed. -/
def HandleNewTcpData (c : TcpConnectionContext) (bytes : Bytes) :
    Option Bytes × Option TcpConnectionContext :=
  if bytes = [] then (none, none)
  else
    let c := c.store bytes
    if c.currentRequestOffset = c.currentDnsRequest.length then
      if c.currentDnsRequest.length = 2 then
        (none, some { c with
          currentDnsRequest := c.currentDnsRequest ++
            List.replicate (be16Value c.currentDnsRequest) 0 })
      else (some c.currentDnsRequest, some {})
    else (none, some c)

/-- The requests tunnelled from a connection on which the client sends `stream`. `choices` are the
sizes in which `recv` returns the bytes, as far as there is room. -/
def serveStream : TcpConnectionContext → Bytes → List Nat → List Bytes
  | _, _, [] => []
  | _, [], _ :: _ => []
  | c, b :: stream, n :: choices =>
    let bytes := (b :: stream).take (min (n + 1) c.room)
    match HandleNewTcpData c bytes with
    | (request, none) => request.toList
    | (request, some c) => request.toList ++ serveStream c ((b :: stream).drop bytes.length) choices

/-- `HandleTcpDnsResponse`: what is written to the client. -/
def HandleTcpDnsResponse (dns : Bytes) : Bytes := dns

/-! ## The first request -/

theorem TcpConnectionContext.length_store {c : TcpConnectionContext} {bytes : Bytes}
    (h : c.currentRequestOffset + bytes.length ≤ c.currentDnsRequest.length) :
    (c.store bytes).currentDnsRequest.length = c.currentDnsRequest.length := by
  simp only [TcpConnectionContext.store, List.length_append, List.length_take, List.length_drop]
  omega

/-- Before the first request is complete: `pre` has been received and `stream` is still to come.
The buffer has the size of the length prefix, or the size that it announces. -/
structure First (pre stream : Bytes) (c : TcpConnectionContext) : Prop where
  offset : c.currentRequestOffset ≤ pre.length
  inside : c.currentRequestOffset ≤ c.currentDnsRequest.length
  size : (c.currentDnsRequest.length = 2 ∧ c.currentRequestOffset = pre.length ∧
      c.currentDnsRequest.take c.currentRequestOffset = pre) ∨
    (c.currentDnsRequest.length = 2 + be16Value (pre ++ stream) ∧
      (c.currentDnsRequest.length = 2 → c.currentRequestOffset = 2))

theorem first_new (stream : Bytes) : First [] stream {} :=
  ⟨le_rfl, by decide, .inl ⟨rfl, rfl, rfl⟩⟩

/-- The outcome of one call: the connection is closed, or nothing is tunnelled and the first
request is still incomplete, or a request of the announced size is tunnelled after at least as many
bytes. -/
def FirstOutcome (pre stream : Bytes) (k : Nat) (r : Option Bytes × Option TcpConnectionContext) :
    Prop :=
  r = (none, none) ∨
  (∃ c, r = (none, some c) ∧ First (pre ++ stream.take k) (stream.drop k) c) ∨
  ∃ request c, r = (some request, some c) ∧ request.length = 2 + be16Value (pre ++ stream) ∧
    request.length ≤ (pre ++ stream).length

theorem First.handle_length {pre stream : Bytes} {c : TcpConnectionContext}
    (hlen : c.currentDnsRequest.length = 2) (hoff : c.currentRequestOffset = pre.length)
    (htake : c.currentDnsRequest.take c.currentRequestOffset = pre) {k : Nat} (hk : k ≤ c.room)
    (hk' : k ≤ stream.length) (hne : stream.take k ≠ []) :
    FirstOutcome pre stream k (HandleNewTcpData c (stream.take k)) := by
  have hbytes : (stream.take k).length = k := List.length_take_of_le hk'
  unfold TcpConnectionContext.room at hk
  have hroom : pre.length + k ≤ 2 := by
    have hle := congrArg List.length htake
    rw [List.length_take] at hle
    omega
  set c' := c.store (stream.take k) with hc'
  have hlen' : c'.currentDnsRequest.length = 2 := by
    rw [hc', TcpConnectionContext.length_store (by omega), hlen]
  have hoff' : c'.currentRequestOffset = pre.length + k := by
    change (c.currentRequestOffset + (stream.take k).length) % 2 ^ 16 = _
    omega
  have hpre : c'.currentDnsRequest.take (pre.length + k) = pre ++ stream.take k := by
    change (c.currentDnsRequest.take c.currentRequestOffset ++ stream.take k ++ _).take _ = _
    rw [htake]
    exact List.take_left' (by rw [List.length_append, hbytes])
  have happ : pre ++ stream = pre ++ stream.take k ++ stream.drop k := by
    rw [List.append_assoc, List.take_append_drop]
  unfold HandleNewTcpData
  rw [if_neg hne, ← hc']
  dsimp only
  by_cases hfull : pre.length + k = 2
  · -- the length is complete, and the buffer gets the size that it announces
    have hall : c'.currentDnsRequest = pre ++ stream.take k := by
      rw [← hpre, hfull, ← hlen', List.take_length]
    have hval : be16Value c'.currentDnsRequest = be16Value (pre ++ stream) := by
      have hpref := be16Value_append (l := pre ++ stream.take k)
        (by rw [List.length_append, hbytes]; omega) (stream.drop k)
      rw [hall, ← hpref, ← happ]
    rw [if_pos (by omega), if_pos hlen']
    refine .inr (.inl ⟨_, rfl, ?_, ?_, .inr ⟨?_, ?_⟩⟩)
    · rw [List.length_append, hbytes]
      exact hoff'.le
    · change c'.currentRequestOffset ≤ _
      rw [List.length_append]
      omega
    · rw [List.length_append, List.length_replicate, hlen', hval, ← happ]
    · exact fun _ => by change c'.currentRequestOffset = 2; omega
  · rw [if_neg (by omega)]
    refine .inr (.inl ⟨c', rfl, ?_, ?_, .inl ⟨hlen', ?_, ?_⟩⟩)
    · rw [List.length_append, hbytes]
      exact hoff'.le
    · omega
    · rw [List.length_append, hbytes, hoff']
    · rw [hoff', hpre]

theorem First.handle_body {pre stream : Bytes} {c : TcpConnectionContext}
    (hoffset : c.currentRequestOffset ≤ pre.length)
    (hinside : c.currentRequestOffset ≤ c.currentDnsRequest.length)
    (hlen : c.currentDnsRequest.length = 2 + be16Value (pre ++ stream))
    (hzero : c.currentDnsRequest.length = 2 → c.currentRequestOffset = 2) {k : Nat} (hk : k ≤ c.room)
    (hk' : k ≤ stream.length) (hne : stream.take k ≠ []) :
    FirstOutcome pre stream k (HandleNewTcpData c (stream.take k)) := by
  have hbytes : (stream.take k).length = k := List.length_take_of_le hk'
  have hpos : 0 < k := by
    rcases Nat.eq_zero_or_pos k with rfl | h
    · exact absurd List.take_zero hne
    · exact h
  unfold TcpConnectionContext.room at hk
  have hsize : c.currentDnsRequest.length ≠ 2 := by
    intro h
    have := hzero h
    omega
  set c' := c.store (stream.take k) with hc'
  have hlen' : c'.currentDnsRequest.length = c.currentDnsRequest.length := by
    rw [hc', TcpConnectionContext.length_store (by omega)]
  have hoff' : c'.currentRequestOffset ≤ c.currentRequestOffset + k := by
    change (c.currentRequestOffset + (stream.take k).length) % 2 ^ 16 ≤ _
    rw [hbytes]
    exact Nat.mod_le _ _
  have happ : pre ++ stream = pre ++ stream.take k ++ stream.drop k := by
    rw [List.append_assoc, List.take_append_drop]
  unfold HandleNewTcpData
  rw [if_neg hne, ← hc']
  dsimp only
  by_cases hfull : c'.currentRequestOffset = c'.currentDnsRequest.length
  · rw [if_pos hfull, if_neg (by omega)]
    refine .inr (.inr ⟨_, _, rfl, by omega, ?_⟩)
    rw [List.length_append]
    omega
  · rw [if_neg hfull]
    refine .inr (.inl ⟨c', rfl, ?_, by omega, .inr ⟨?_, fun h => ?_⟩⟩)
    · rw [List.length_append, hbytes]
      omega
    · rw [← happ, hlen', hlen]
    · omega

theorem First.handle {pre stream : Bytes} {c : TcpConnectionContext} (h : First pre stream c) {k : Nat}
    (hk : k ≤ c.room) (hk' : k ≤ stream.length) :
    FirstOutcome pre stream k (HandleNewTcpData c (stream.take k)) := by
  by_cases hne : stream.take k = []
  · refine .inl ?_
    unfold HandleNewTcpData
    rw [if_pos hne]
  · rcases h.size with ⟨hlen, hoff, htake⟩ | ⟨hlen, hzero⟩
    · exact First.handle_length hlen hoff htake hk hk' hne
    · exact First.handle_body h.offset h.inside hlen hzero hk hk' hne

theorem First.serve {pre stream : Bytes} {c : TcpConnectionContext} (h : First pre stream c)
    (choices : List Nat) :
    ∀ request ∈ (serveStream c stream choices).head?,
      request.length = 2 + be16Value (pre ++ stream) ∧ request.length ≤ (pre ++ stream).length := by
  induction choices generalizing pre stream c with
  | nil => simp [serveStream]
  | cons n choices ih =>
    cases stream with
    | nil => simp [serveStream]
    | cons b stream =>
      set k := min (min (n + 1) c.room) (b :: stream).length with hk
      have hbytes : (b :: stream).take (min (n + 1) c.room) = (b :: stream).take k := by
        rw [hk, ← List.take_eq_take_min]
      have hlen : ((b :: stream).take k).length = k := List.length_take_of_le (by omega)
      rw [serveStream, hbytes, hlen]
      rcases h.handle (k := k) (by omega) (by omega) with heq | ⟨c', heq, hc'⟩ | ⟨request, c', heq, hreq⟩
      · simp [heq]
      · rw [heq]
        have hnext := ih hc'
        rw [List.append_assoc, List.take_append_drop] at hnext
        simpa using hnext
      · rw [heq]
        intro r hr
        obtain rfl : request = r := by simpa using hr
        exact hreq

end WslFreeBSD.Reference
