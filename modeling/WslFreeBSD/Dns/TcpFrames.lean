import WslFreeBSD.Dns.Tunnel

/-!
# DNS over TCP: from the byte stream to the forwarded payloads

On a TCP connection a DNS message is preceded by its length in two bytes. `dns_handle_tcp_readable`
collects bytes in a buffer that holds one frame of the largest size, and keeps the length once it
is known (`have_length`, `expect_len`) across calls.

`Framed` is what holds between two calls of `recv`: the bytes received so far are the forwarded
frames followed by the content of the buffer, and the buffer does not hold a complete frame. Hence
the buffer is never full when `recv` is called, and what was forwarded is the decoding of the
stream (`dnsHandleTcpReadable_decodes`), however the stream was cut.
-/

namespace WslFreeBSD.Dns

open Lib
open Bridge (RecvResult)

/-! ## Frames -/

/-- A frame: a length in network byte order and as many bytes. -/
def dnsFormat : FrameFormat UInt8 where
  headerLen := 2
  sizeOf l := 2 + be16Value l
  header_pos := by decide
  sizeOf_append l l' h := by rw [be16Value_append h]

theorem length_lt_of_next?_none {l : Bytes} (h : dnsFormat.next? l = none) :
    l.length < DNS_TCP_READ_BUF := by
  have hlt := be16Value_lt l
  unfold FrameFormat.next? at h
  split at h
  · cases h
  · rename_i hno
    simp only [dnsFormat] at hno
    unfold DNS_TCP_READ_BUF
    omega

/-! ## What the history says about a connection -/

/-- The bytes that an event adds to what was received. -/
def Event.received : Event → Bytes
  | .tcpRecv _ bytes => bytes
  | _ => []

/-- The payload that an event forwards, with the client it is forwarded for. -/
def Event.forwarded : Event → List (UInt32 × Bytes)
  | .tcpForward id payload _ => [(id, payload)]
  | _ => []

def Event.isOverflow : Event → Bool
  | .tcpOverflow _ => true
  | _ => false

def received (l : List Event) : Bytes := l.flatMap Event.received

def forwarded (l : List Event) : List (UInt32 × Bytes) := l.flatMap Event.forwarded

def forwardOf (id : UInt32) (frame : Bytes) : Event := .tcpForward id (frame.drop 2) true

@[simp] theorem received_append (l l' : List Event) : received (l ++ l') = received l ++ received l' := by
  simp [received]

@[simp] theorem forwarded_append (l l' : List Event) :
    forwarded (l ++ l') = forwarded l ++ forwarded l' := by
  simp [forwarded]

theorem received_forwards (id : UInt32) (frames : List Bytes) :
    received (frames.map (forwardOf id)) = [] := by
  induction frames with
  | nil => rfl
  | cons m ms ih => exact ih

theorem forwarded_forwards (id : UInt32) (frames : List Bytes) :
    forwarded (frames.map (forwardOf id)) = frames.map fun m => (id, m.drop 2) := by
  induction frames with
  | nil => rfl
  | cons m ms ih => exact congrArg ((id, m.drop 2) :: ·) ih

/-- The length is only known when it is the one in the buffer. -/
def DnsTcpConn.LengthOk (c : DnsTcpConn) : Prop :=
  c.haveLength = true → 2 ≤ c.readBuf.length ∧ c.expectLen = be16Value c.readBuf

/-! ## The inner loop -/

@[simp] theorem World.conn_setConn (w : World) (i : Fin 32) (c : DnsTcpConn) :
    (w.setConn i c).conn i = c := by
  simp [World.conn, World.setConn]

@[simp] theorem World.log_setConn (w : World) (i : Fin 32) (c : DnsTcpConn) :
    (w.setConn i c).log = w.log := rfl

@[simp] theorem World.conn_record (w : World) (e : Event) (i : Fin 32) :
    (w.record e).conn i = w.conn i := rfl

@[simp] theorem World.log_record (w : World) (e : Event) : (w.record e).log = w.log ++ [e] := rfl

theorem DnsTcpConn.withLength_spec {c : DnsTcpConn} (h : c.LengthOk) :
    (c.withLength = none ∧ c.readBuf.length < 2 ∧ c.haveLength = false) ∨
      (2 ≤ c.readBuf.length ∧ c.withLength =
        some { c with haveLength := true, expectLen := be16Value c.readBuf }) := by
  unfold DnsTcpConn.withLength
  cases hl : c.haveLength with
  | true =>
    obtain ⟨hlen, hexp⟩ := h hl
    refine .inr ⟨hlen, ?_⟩
    rw [if_pos rfl, ← hexp, ← hl]
  | false =>
    by_cases hlen : c.readBuf.length < 2
    · exact .inl ⟨by rw [if_neg Bool.false_ne_true, if_pos hlen], hlen, rfl⟩
    · exact .inr ⟨by omega, by rw [if_neg Bool.false_ne_true, if_neg hlen]⟩

theorem next?_of_short {l : Bytes} (h : l.length < 2 ∨ l.length < 2 + be16Value l) :
    dnsFormat.next? l = none := by
  unfold FrameFormat.next?
  rw [if_neg]
  simp only [dnsFormat]
  omega

theorem wellFormed_take {l : Bytes} (h : 2 + be16Value l ≤ l.length) :
    dnsFormat.WellFormed (l.take (2 + be16Value l)) := by
  have hlen : (l.take (2 + be16Value l)).length = 2 + be16Value l := by
    rw [List.length_take]
    omega
  have hval := be16Value_append (l := l.take (2 + be16Value l)) (by omega) (l.drop (2 + be16Value l))
  rw [List.take_append_drop] at hval
  refine ⟨?_, ?_⟩
  · change 2 ≤ _
    omega
  · change 2 + be16Value (l.take (2 + be16Value l)) = _
    omega

/-- A connection without the frame at the front of its buffer. -/
def DnsTcpConn.dropFrame (c : DnsTcpConn) : DnsTcpConn :=
  { c with readBuf := c.readBuf.drop (2 + be16Value c.readBuf), haveLength := false, expectLen := 0 }

theorem extractFrames_frame {i : Fin 32} {w : World} (fuel : Nat) {sends : List Bool}
    (hok : (w.conn i).LengthOk) (hsent : sends.headD true = true) (hlen : 2 ≤ (w.conn i).readBuf.length)
    (hframe : 2 + be16Value (w.conn i).readBuf ≤ (w.conn i).readBuf.length) :
    ∃ w₁ : World, extractFrames i (fuel + 1) w sends = extractFrames i fuel w₁ sends.tail ∧
      w₁.conn i = (w.conn i).dropFrame ∧
      w₁.log = w.log ++ [forwardOf (w.conn i).id
        ((w.conn i).readBuf.take (2 + be16Value (w.conn i).readBuf))] := by
  set c := w.conn i with hc
  have hsome : c.withLength = some { c with haveLength := true, expectLen := be16Value c.readBuf } := by
    rcases DnsTcpConn.withLength_spec hok with ⟨-, hshort, -⟩ | ⟨-, hsome⟩
    · omega
    · exact hsome
  refine ⟨((w.setConn i { c with haveLength := true, expectLen := be16Value c.readBuf }).record
    (.tcpForward c.id ((c.readBuf.drop 2).take (be16Value c.readBuf)) true)).setConn i c.dropFrame,
    ?_, World.conn_setConn _ _ _, ?_⟩
  · rw [extractFrames, ← hc, hsome]
    dsimp only
    rw [if_neg (by omega), hsent, if_pos rfl]
    rfl
  · have hbody : (c.readBuf.take (2 + be16Value c.readBuf)).drop 2 =
        (c.readBuf.drop 2).take (be16Value c.readBuf) := by
      rw [List.drop_take, Nat.add_sub_cancel_left]
    rw [forwardOf, hbody]
    rfl

theorem extractFrames_spec {i : Fin 32} {fuel : Nat} {w : World} {sends : List Bool}
    (hok : (w.conn i).LengthOk) (hfuel : (w.conn i).readBuf.length < fuel)
    (hsends : ∀ s ∈ sends, s = true) :
    ∃ (w' : World) (frames : List Bytes), extractFrames i fuel w sends = (w', true) ∧
      (w.conn i).readBuf = frames.flatten ++ (w'.conn i).readBuf ∧
      (∀ m ∈ frames, dnsFormat.WellFormed m) ∧ dnsFormat.next? (w'.conn i).readBuf = none ∧
      (w'.conn i).LengthOk ∧ (w'.conn i).id = (w.conn i).id ∧
      w'.log = w.log ++ frames.map (forwardOf (w.conn i).id) := by
  induction fuel generalizing w sends with
  | zero => omega
  | succ fuel ih =>
    rcases DnsTcpConn.withLength_spec hok with ⟨hnone, hlen, hlf⟩ | ⟨hlen, hsome⟩
    · refine ⟨w, [], ?_, rfl, by simp, next?_of_short (.inl hlen), hok, rfl, by simp⟩
      rw [extractFrames, hnone]
    · by_cases hshort : (w.conn i).readBuf.length < 2 + be16Value (w.conn i).readBuf
      · refine ⟨w.setConn i
          { w.conn i with haveLength := true, expectLen := be16Value (w.conn i).readBuf },
          [], ?_, by simp, by simp, ?_, ?_, by simp, by simp⟩
        · rw [extractFrames, hsome]
          exact if_pos hshort
        · rw [World.conn_setConn]
          exact next?_of_short (.inr hshort)
        · rw [World.conn_setConn]
          exact fun _ => ⟨hlen, rfl⟩
      · -- a complete frame: forward it and go on with the rest of the buffer
        have hsent : sends.headD true = true := by
          cases sends with
          | nil => rfl
          | cons s sends => exact hsends s List.mem_cons_self
        obtain ⟨w₁, hstep, hconn, hlog⟩ :=
          extractFrames_frame fuel hok hsent hlen (Nat.le_of_not_lt hshort)
        have hok₁ : (w₁.conn i).LengthOk := by
          rw [hconn]
          intro h
          cases h
        have hfuel₁ : (w₁.conn i).readBuf.length < fuel := by
          rw [hconn, DnsTcpConn.dropFrame, List.length_drop]
          omega
        obtain ⟨w', frames, heq, hbuf, hwf, hnone, hok', hid, hlog'⟩ :=
          ih hok₁ hfuel₁ (fun s hs => hsends s (List.mem_of_mem_tail hs))
        rw [hconn] at hbuf hid hlog'
        refine ⟨w', (w.conn i).readBuf.take (2 + be16Value (w.conn i).readBuf) :: frames,
          hstep.trans heq, ?_, ?_, hnone, hok', hid, ?_⟩
        · rw [List.flatten_cons, List.append_assoc, ← hbuf]
          exact (List.take_append_drop _ _).symm
        · intro m hm
          rcases List.mem_cons.mp hm with rfl | hm
          · exact wellFormed_take (Nat.le_of_not_lt hshort)
          · exact hwf m hm
        · rw [hlog', hlog, List.map_cons, List.append_assoc]
          rfl

/-! ## The handler -/

/-- Between two calls of `recv`: the history `l` since the connection was accepted has received the
forwarded frames and what the buffer holds. -/
structure Framed (i : Fin 32) (w₀ w : World) : Prop where
  lengthOk : (w.conn i).LengthOk
  incomplete : dnsFormat.next? (w.conn i).readBuf = none
  id_eq : (w.conn i).id = (w₀.conn i).id
  history : ∃ (l : List Event) (frames : List Bytes), w.log = w₀.log ++ l ∧ (∀ m ∈ frames, dnsFormat.WellFormed m) ∧
    received l = frames.flatten ++ (w.conn i).readBuf ∧
    forwarded l = frames.map (fun m => ((w₀.conn i).id, m.drop 2)) ∧ ∀ e ∈ l, e.isOverflow = false

theorem framed_new {i : Fin 32} {w : World}
    (hnew : (w.conn i).readBuf = [] ∧ (w.conn i).haveLength = false) : Framed i w w := by
  refine ⟨?_, ?_, rfl, [], [], by simp, by simp, by rw [hnew.1]; rfl, rfl, by simp⟩
  · intro hl
    rw [hnew.2] at hl
    cases hl
  · rw [hnew.1]
    rfl

theorem Framed.close {i : Fin 32} {w₀ w : World} (h : Framed i w₀ w) : Framed i w₀ (dnsTcpClose w i) := by
  have hbuf : ((dnsTcpClose w i).conn i).readBuf = (w.conn i).readBuf := by
    rw [dnsTcpClose, World.conn_setConn]
  have hid : ((dnsTcpClose w i).conn i).id = (w.conn i).id := by rw [dnsTcpClose, World.conn_setConn]
  have hok : ((dnsTcpClose w i).conn i).LengthOk := by
    rw [dnsTcpClose, World.conn_setConn]
    exact h.lengthOk
  have hlog : ∃ l, (dnsTcpClose w i).log = w.log ++ l ∧ received l = [] ∧ forwarded l = [] ∧
      ∀ e ∈ l, e.isOverflow = false := by
    unfold dnsTcpClose
    dsimp only
    rw [World.log_setConn]
    split
    · exact ⟨[.close (w.conn i).fd], rfl, rfl, rfl, by simp [Event.isOverflow]⟩
    · exact ⟨[], by simp, rfl, rfl, by simp⟩
  obtain ⟨l', hl', hr', hf', ho'⟩ := hlog
  obtain ⟨l, frames, hl, hwf, hrecv, hfwd, hover⟩ := h.history
  refine ⟨hok, by rw [hbuf]; exact h.incomplete, hid.trans h.id_eq, l ++ l', frames, ?_, hwf, ?_, ?_, ?_⟩
  · rw [hl', hl, List.append_assoc]
  · rw [received_append, hr', List.append_nil, hbuf, hrecv]
  · rw [forwarded_append, hf', List.append_nil, hfwd]
  · intro e he
    rcases List.mem_append.mp he with he | he
    · exact hover e he
    · exact ho' e he

theorem Framed.recv {i : Fin 32} {w₀ w : World} (h : Framed i w₀ w) (bytes : Bytes) {sends : List Bool}
    (hsends : ∀ s ∈ sends, s = true) :
    ∃ w', extractFrames i (((w.conn i).readBuf ++ bytes).length + 1)
        ((w.setConn i { w.conn i with readBuf := (w.conn i).readBuf ++ bytes }).record
          (.tcpRecv (w.conn i).id bytes)) sends = (w', true) ∧ Framed i w₀ w' := by
  set c := w.conn i with hc
  set w₁ := (w.setConn i { c with readBuf := c.readBuf ++ bytes }).record (.tcpRecv c.id bytes) with hw₁
  have hconn : w₁.conn i = { c with readBuf := c.readBuf ++ bytes } := by
    rw [hw₁, World.conn_record, World.conn_setConn]
  have hok : (w₁.conn i).LengthOk := by
    rw [hconn]
    intro hl
    have hokc : c.LengthOk := h.lengthOk
    obtain ⟨hlen, hexp⟩ := hokc hl
    refine ⟨?_, ?_⟩
    · rw [List.length_append]
      omega
    · rw [be16Value_append hlen]
      exact hexp
  obtain ⟨w', frames', heq, hbuf, hwf', hnone, hok', hid, hlog⟩ :=
    extractFrames_spec hok (by rw [hconn]; exact Nat.lt_succ_self _) hsends
  rw [hconn] at hbuf hid hlog
  have hid₀ : c.id = (w₀.conn i).id := h.id_eq
  obtain ⟨l, frames, hl, hwf, hrecv, hfwd, hover⟩ := h.history
  refine ⟨w', heq, hok', hnone, hid.trans hid₀,
    l ++ ([.tcpRecv c.id bytes] ++ frames'.map (forwardOf c.id)), frames ++ frames', ?_, ?_, ?_, ?_, ?_⟩
  · rw [hlog, hw₁, World.log_record, World.log_setConn, hl]
    simp
  · intro m hm
    rcases List.mem_append.mp hm with hm | hm
    · exact hwf m hm
    · exact hwf' m hm
  · rw [received_append, received_append, received_forwards, hrecv, ← hc, List.append_nil,
      List.flatten_append, List.append_assoc, List.append_assoc, ← hbuf]
    simp [received, Event.received]
  · rw [forwarded_append, forwarded_append, forwarded_forwards, hfwd, List.map_append, hid₀]
    rfl
  · intro e he
    rcases List.mem_append.mp he with he | he
    · exact hover e he
    · rcases List.mem_append.mp he with he | he
      · rw [List.mem_singleton.mp he]
        rfl
      · obtain ⟨m, -, rfl⟩ := List.mem_map.mp he
        rfl

theorem Framed.readable {i : Fin 32} {w₀ w : World} (h : Framed i w₀ w) {answers : List ConnAnswer}
    (hsends : ∀ a ∈ answers, ∀ s ∈ a.sends, s = true) :
    Framed i w₀ (dnsHandleTcpReadable i w answers) := by
  induction answers generalizing w with
  | nil =>
    have hroom := length_lt_of_next?_none h.incomplete
    rw [dnsHandleTcpReadable, if_neg (by omega)]
    split
    · exact h.close
    · exact h
  | cons a rs ih =>
    have hroom := length_lt_of_next?_none h.incomplete
    have hrs : ∀ a ∈ rs, ∀ s ∈ a.sends, s = true := fun a ha => hsends a (List.mem_cons_of_mem _ ha)
    rw [dnsHandleTcpReadable, if_neg (by omega)]
    split
    · exact h
    · exact ih h hrs
    · exact h.close
    · exact h.close
    · rename_i b bs _
      obtain ⟨w', heq, hw'⟩ := h.recv (b :: bs) (hsends a List.mem_cons_self)
      dsimp only
      rw [heq]
      exact ih hw' hrs

theorem DnsTcpConn.recv_fits {c : DnsTcpConn} {r : RecvResult} {bytes : Bytes}
    (hroom : c.readBuf.length ≤ DNS_TCP_READ_BUF) (h : c.recv r = .got bytes) :
    c.readBuf.length + bytes.length ≤ DNS_TCP_READ_BUF := by
  cases r with
  | got all =>
    by_cases hfd : c.fd < 0
    · simp [DnsTcpConn.recv, hfd] at h
    · simp only [DnsTcpConn.recv, hfd, if_false, RecvResult.got.injEq] at h
      rw [← h, List.length_take]
      omega
  | wouldBlock => by_cases hfd : c.fd < 0 <;> simp [DnsTcpConn.recv, hfd] at h
  | interrupted => by_cases hfd : c.fd < 0 <;> simp [DnsTcpConn.recv, hfd] at h
  | failed => by_cases hfd : c.fd < 0 <;> simp [DnsTcpConn.recv, hfd] at h

/-- However the stream of a new connection is cut into pieces, over any number of calls of the
handler with the sends on the channel succeeding, what is forwarded (under the identifier of the
connection) are, in order, the bodies of the complete frames of the stream received; the overflow
branch is not taken, and the buffer holds at most its size, also after the next `recv`. -/
theorem dnsHandleTcpReadable_decodes (i : Fin 32) (w : World) (calls : List (List ConnAnswer))
    (hnew : (w.conn i).readBuf = [] ∧ (w.conn i).haveLength = false)
    (hsends : ∀ answers ∈ calls, ∀ a ∈ answers, ∀ s ∈ a.sends, s = true) :
    ∃ l, (calls.foldl (dnsHandleTcpReadable i) w).log = w.log ++ l ∧
      forwarded l = (dnsFormat.decode (received l)).map (fun m => ((w.conn i).id, m.drop 2)) ∧
      (∀ e ∈ l, e.isOverflow = false) ∧
      ((calls.foldl (dnsHandleTcpReadable i) w).conn i).readBuf.length ≤ DNS_TCP_READ_BUF ∧
      ∀ r bytes, ((calls.foldl (dnsHandleTcpReadable i) w).conn i).recv r = .got bytes →
        ((calls.foldl (dnsHandleTcpReadable i) w).conn i).readBuf.length + bytes.length ≤
          DNS_TCP_READ_BUF := by
  have hrun : ∀ (cs : List (List ConnAnswer)) (w' : World), Framed i w w' →
      (∀ answers ∈ cs, ∀ a ∈ answers, ∀ s ∈ a.sends, s = true) →
      Framed i w (cs.foldl (dnsHandleTcpReadable i) w') := by
    intro cs
    induction cs with
    | nil => exact fun w' h _ => h
    | cons answers cs ih =>
      intro w' h hs
      exact ih _ (h.readable (hs answers List.mem_cons_self))
        fun answers ha => hs answers (List.mem_cons_of_mem _ ha)
  have hend := hrun calls w (framed_new hnew) hsends
  obtain ⟨l, frames, hl, hwf, hrecv, hfwd, hover⟩ := hend.history
  have hdec : dnsFormat.decode (received l) = frames :=
    FrameFormat.decode_unique hwf hrecv hend.incomplete
  have hroom := (length_lt_of_next?_none hend.incomplete).le
  exact ⟨l, hl, by rw [hdec, hfwd], hover, hroom, fun r bytes => DnsTcpConn.recv_fits hroom⟩

def oneConnection : World := dnsHandleTcpAccept (dnsTunnelStart 3 4 5 0) [.accepted 6]

/-- A frame in three pieces, the last of which also holds an empty frame, in two calls. -/
def splitFrame : List (List ConnAnswer) :=
  [[⟨.got [0], []⟩, ⟨.got [3, 7], []⟩], [⟨.got [8, 9, 0, 0], []⟩]]

theorem dnsHandleTcpReadable_decodes_splitFrame :
    forwarded (splitFrame.foldl (dnsHandleTcpReadable 0) oneConnection).log = [(1, [7, 8, 9]), (1, [])] ∧
    ∃ l, (splitFrame.foldl (dnsHandleTcpReadable 0) oneConnection).log = oneConnection.log ++ l ∧
      forwarded l = (dnsFormat.decode (received l)).map (fun m => ((oneConnection.conn 0).id, m.drop 2)) ∧
      (∀ e ∈ l, e.isOverflow = false) ∧
      ((splitFrame.foldl (dnsHandleTcpReadable 0) oneConnection).conn 0).readBuf.length ≤
        DNS_TCP_READ_BUF ∧
      ∀ r bytes, ((splitFrame.foldl (dnsHandleTcpReadable 0) oneConnection).conn 0).recv r = .got bytes →
        ((splitFrame.foldl (dnsHandleTcpReadable 0) oneConnection).conn 0).readBuf.length +
          bytes.length ≤ DNS_TCP_READ_BUF :=
  ⟨by decide, dnsHandleTcpReadable_decodes 0 oneConnection splitFrame ⟨rfl, rfl⟩
    (by simp [splitFrame])⟩

end WslFreeBSD.Dns
