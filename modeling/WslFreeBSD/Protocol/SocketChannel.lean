import WslFreeBSD.Lib.FramedStream
import WslFreeBSD.Lib.Transitions
import WslFreeBSD.Protocol.Messages
import Mathlib.Tactic.Ring

/-!
# `SocketChannel`

The two ends of a connection, each with a `SocketChannel` of `SocketChannel.h`: `SendMessage` numbers a
message and writes it with `UtilWriteBuffer`, `ReceiveMessageOrClosed` reads one with `RecvMessage` and checks
its size, type and number. A call of either is several system calls, and any thread of either end may act
between two of them (`step`); a second call of the same kind at the same end fails at the mutex. `write` and
`recv` move any number of bytes that they can.

The socket is a stream: a `write` fails only when an end has been closed, and what was written before an end
is closed may be lost. A closed socket stays closed.
-/

namespace WslFreeBSD.Protocol

open Lib

/-- `LxMiniInitMessageAny`. -/
def LxMiniInitMessageAny : Nat := 0

/-- The type parameter `TMessage`: its `Type` and its size. -/
structure MessageKind where
  type : Nat
  size : Nat
  header_le : headerSize ≤ size

/-- `Header.SequenceNumber = n`, in place. -/
def stamp (n : Nat) (message : Bytes) : Bytes := message.take 8 ++ leBytes 4 n ++ message.drop headerSize

structure Channel where
  name : Option String
  buffer : Bytes := []
  sentMessages : UInt32 := 0
  receivedMessages : UInt32 := 0
  ignoreSequence : Bool := false

/-- `Buffer.resize`, if the buffer is smaller. -/
def grow (size : Nat) (buffer : Bytes) : Bytes := buffer ++ List.replicate (size - buffer.length) 0

/-- Bytes that `recv` stores at an offset. -/
def fill (buffer : Bytes) (offset : Nat) (bytes : Bytes) : Bytes :=
  buffer.take offset ++ bytes ++ buffer.drop (offset + bytes.length)

/-- `RecvMessage`: the header is being read, or the rest of a message of which `filled` bytes are there. -/
inductive Phase where
  | header
  | body (messageSize filled : Nat)
  deriving DecidableEq

/-- A call of `ReceiveMessageOrClosed`, which holds `m_receiveMutex`. -/
structure Reader where
  kind : MessageKind
  phase : Phase

/-- What a call of `ReceiveMessageOrClosed` came to. -/
inductive Received where
  | closed
  | thrown (kind : MessageKind) (message : Bytes)
  | returned (kind : MessageKind) (message : Bytes)

/-- The message that was read, whether it was accepted or not. -/
def Received.message? : Received → Option Bytes
  | .closed => none
  | .thrown _ m => some m
  | .returned _ m => some m

/-- `ValidateMessageHeader`: no protocol error. -/
def Channel.ValidateMessageHeader (c : Channel) (message : Bytes) (expected : Nat)
    (expectedSequence : UInt32) : Bool :=
  !(decide (messageSize message < headerSize) ||
    (expected != LxMiniInitMessageAny && messageType message != expected) ||
    (!c.ignoreSequence && sequenceNumber message != expectedSequence.toNat))

/-- The checks of `ReceiveMessageOrClosed` on a message that has been read. -/
def Channel.check (c : Channel) (kind : MessageKind) (span : Bytes) : Received :=
  if span.length < kind.size then .thrown kind span
  else if c.ValidateMessageHeader span kind.type c.receivedMessages then .returned kind span
  else .thrown kind span

/-- One end: its channel, whether its socket is open, what the holder of `m_sendMutex` has still to write, and
the holder of `m_receiveMutex`. `spans` are the messages that `SendMessage` has taken, and `received` is what
the calls of `ReceiveMessageOrClosed` came to, oldest first. -/
structure End where
  channel : Channel
  opened : Bool := true
  sending : Option Bytes := none
  reading : Option Reader := none
  spans : List Bytes := []
  received : List Received := []

namespace End

/-- `SendMessage` up to the first `write`. -/
def SendMessage (e : End) (kind : MessageKind) (span : Bytes) : End :=
  if e.sending.isSome || e.channel.name.isNone || decide (span.length < kind.size) then e
  else
    let n := e.channel.sentMessages + 1
    { e with
      channel := { e.channel with sentMessages := n }
      sending := some (stamp n.toNat span)
      spans := e.spans ++ [span] }

/-- `ReceiveMessageOrClosed` up to the first `recv`. -/
def ReceiveMessageOrClosed (e : End) (kind : MessageKind) : End :=
  if e.reading.isSome then e
  else
    { e with
      channel := { e.channel with
        receivedMessages := e.channel.receivedMessages + 1
        buffer := grow headerSize e.channel.buffer }
      reading := some ⟨kind, .header⟩ }

/-- A call of `ReceiveMessageOrClosed` ends. -/
def finish (e : End) (r : Received) : End := { e with reading := none, received := e.received ++ [r] }

/-- The loop of `RecvMessage` goes on, or the message is complete and checked. -/
def advance (e : End) (kind : MessageKind) (size filled : Nat) : End :=
  if filled < size then { e with reading := some ⟨kind, .body size filled⟩ }
  else e.finish (e.channel.check kind (e.channel.buffer.take size))

def store (e : End) (offset : Nat) (bytes : Bytes) : End :=
  { e with channel := { e.channel with buffer := fill e.channel.buffer offset bytes } }

def takeHeader (e : End) (kind : MessageKind) (bytes : Bytes) : End :=
  let e := e.store 0 bytes
  let size := messageSize (e.channel.buffer.take headerSize)
  if size < headerSize then e.finish .closed
  else
    { e with channel := { e.channel with buffer := grow size e.channel.buffer } }.advance kind size headerSize

/-- The next `recv` of a message has returned bytes. -/
def takeBody (e : End) (kind : MessageKind) (size filled : Nat) (bytes : Bytes) : End :=
  (e.store filled bytes).advance kind size (filled + bytes.length)

end End

inductive Side where
  | first
  | second
  deriving DecidableEq

def Side.other : Side → Side
  | .first => .second
  | .second => .first

/-- Both ends, and for each the bytes that it has written and the other end has not read. -/
structure World where
  ends : Side → End
  wire : Side → Bytes

def World.set (w : World) (s : Side) (e : End) : World := { w with ends := Function.update w.ends s e }

def World.put (w : World) (s : Side) (bytes : Bytes) : World :=
  { w with wire := Function.update w.wire s bytes }

/-- What a thread at one end does. -/
inductive Op where
  | SendMessage (kind : MessageKind) (span : Bytes)
  | ReceiveMessageOrClosed (kind : MessageKind)
  /-- `write` takes up to `n + 1` bytes. -/
  | write (n : Nat)
  | writeFails
  /-- `recv` with `MSG_WAITALL`. -/
  | recvHeader
  /-- A signal ends it after `n + 1` bytes. -/
  | recvInterrupted (n : Nat)
  /-- `recv` returns up to `n + 1` bytes. -/
  | recv (n : Nat)
  | recvFails
  | Close

/-- `step w (s, op)`: the thread acts at the end `s`, unless its system call blocks. -/
def step (w : World) : Side × Op → Option World
  | (s, .SendMessage kind span) => some (w.set s ((w.ends s).SendMessage kind span))
  | (s, .ReceiveMessageOrClosed kind) => some (w.set s ((w.ends s).ReceiveMessageOrClosed kind))
  | (s, .write n) =>
    match (w.ends s).sending with
    | none => none
    | some rest =>
      if (w.ends s).opened && (w.ends s.other).opened then
        let left := rest.drop (n + 1)
        some ((w.set s { w.ends s with sending := if left = [] then none else some left }).put s
          (w.wire s ++ rest.take (n + 1)))
      else none
  | (s, .writeFails) =>
    match (w.ends s).sending with
    | none => none
    | some _ =>
      if (w.ends s).opened && (w.ends s.other).opened then none
      else some (w.set s { w.ends s with sending := none })
  | (s, .recvHeader) =>
    match (w.ends s).reading with
    | some ⟨kind, .header⟩ =>
      let bytes := w.wire s.other
      if !(w.ends s).opened then none
      else if headerSize ≤ bytes.length then
        some ((w.set s ((w.ends s).takeHeader kind (bytes.take headerSize))).put s.other
          (bytes.drop headerSize))
      else if (w.ends s.other).opened then none
      else some ((w.set s ((w.ends s).finish .closed)).put s.other [])
    | _ => none
  | (s, .recvInterrupted n) =>
    match (w.ends s).reading with
    | some ⟨_, .header⟩ =>
      let bytes := w.wire s.other
      if (w.ends s).opened && decide (n + 1 < headerSize) && decide (n + 1 ≤ bytes.length) then
        some ((w.set s ((w.ends s).finish .closed)).put s.other (bytes.drop (n + 1)))
      else none
    | _ => none
  | (s, .recv n) =>
    match (w.ends s).reading with
    | some ⟨kind, .body size filled⟩ =>
      let bytes := w.wire s.other
      if !(w.ends s).opened then none
      else if bytes ≠ [] then
        let k := min (n + 1) (size - filled)
        some ((w.set s ((w.ends s).takeBody kind size filled (bytes.take k))).put s.other (bytes.drop k))
      else if (w.ends s.other).opened then none
      else some (w.set s ((w.ends s).finish .closed))
    | _ => none
  | (s, .recvFails) =>
    match (w.ends s).reading with
    | none => none
    | some _ =>
      if (w.ends s).opened && (w.ends s.other).opened then none
      else some ((w.set s ((w.ends s).finish .closed)).put s.other [])
  | (s, .Close) => some (w.set s { w.ends s with opened := false })

/-! ## Numbered messages -/

/-- The messages as `SendMessage` sends them, behind `a` messages that the channel has sent before. -/
def stamps (a : Nat) (spans : List Bytes) : List Bytes :=
  spans.mapIdx fun i m => stamp ((a + i + 1) % 2 ^ 32) m

theorem stamps_concat (a : Nat) (spans : List Bytes) (m : Bytes) :
    stamps a (spans ++ [m]) = stamps a spans ++ [stamp ((a + spans.length + 1) % 2 ^ 32) m] :=
  List.mapIdx_concat

theorem length_stamp (n : Nat) {m : Bytes} (hm : headerSize ≤ m.length) : (stamp n m).length = m.length := by
  simp only [headerSize] at hm
  simp only [stamp, headerSize, List.length_append, List.length_take, length_leBytes, List.length_drop]
  omega

theorem messageSize_stamp (n : Nat) {m : Bytes} (hm : headerSize ≤ m.length) :
    messageSize (stamp n m) = messageSize m := by
  simp only [headerSize] at hm
  have hlen : 4 + 4 ≤ (m.take 8).length := by
    rw [List.length_take]
    omega
  rw [messageSize, stamp, List.append_assoc, leAt_append_of_le hlen, leAt_take (by omega), messageSize]

theorem sequenceNumber_stamp {n : Nat} (hn : n < 2 ^ 32) {m : Bytes} (hm : headerSize ≤ m.length) :
    sequenceNumber (stamp n m) = n := by
  simp only [headerSize] at hm
  have hlen : (m.take 8).length = 8 := by
    rw [List.length_take]
    omega
  rw [sequenceNumber, stamp, List.append_assoc]
  exact leAt_append_leBytes hlen (by omega) _

theorem wellFormed_stamp (n : Nat) {m : Bytes} (hm : headerSize ≤ m.length) (hsize : messageSize m = m.length) :
    messageFormat.WellFormed (stamp n m) := by
  refine ⟨?_, ?_⟩
  · rw [length_stamp n hm]
    exact hm
  · change messageSize (stamp n m) = _
    rw [messageSize_stamp n hm, length_stamp n hm, hsize]

/-! ## The buffer -/

theorem length_grow (size : Nat) (buffer : Bytes) : size ≤ (grow size buffer).length := by
  rw [grow, List.length_append, List.length_replicate]
  omega

theorem take_grow {n size : Nat} {buffer : Bytes} (hn : n ≤ buffer.length) :
    (grow size buffer).take n = buffer.take n :=
  List.take_append_of_le_length hn

theorem take_fill {buffer bytes : Bytes} {offset : Nat} (h : offset ≤ buffer.length) :
    (fill buffer offset bytes).take (offset + bytes.length) = buffer.take offset ++ bytes := by
  apply List.take_left'
  rw [List.length_append, List.length_take, Nat.min_eq_left h]

theorem length_fill {buffer bytes : Bytes} {offset : Nat} (h : offset + bytes.length ≤ buffer.length) :
    (fill buffer offset bytes).length = buffer.length := by
  simp only [fill, List.length_append, List.length_take, List.length_drop]
  omega

/-! ## One direction -/

/-- The kinds of messages that a message that was read may have, if the numbers of the channel agree. -/
def Accepts (agree : Prop) (kind : MessageKind) (m : Bytes) : Prop :=
  kind.size ≤ m.length ∧ (kind.type = LxMiniInitMessageAny ∨ messageType m = kind.type) ∧ agree

/-- A call returned the message exactly if it is accepted. -/
def Received.Agrees (agree : Prop) : Received → Prop
  | .closed => True
  | .thrown kind m => ¬ Accepts agree kind m
  | .returned kind m => Accepts agree kind m

/-- What an end has to do with sending. -/
structure Outgoing where
  opened : Bool
  sending : Option Bytes
  spans : List Bytes
  sentMessages : UInt32

/-- What an end has to do with receiving. -/
structure Incoming where
  opened : Bool
  reading : Option Reader
  received : List Received
  receivedMessages : UInt32
  buffer : Bytes
  ignoreSequence : Bool

def End.outgoing (e : End) : Outgoing := ⟨e.opened, e.sending, e.spans, e.channel.sentMessages⟩

def End.incoming (e : End) : Incoming :=
  ⟨e.opened, e.reading, e.received, e.channel.receivedMessages, e.channel.buffer, e.channel.ignoreSequence⟩

namespace Incoming

def messages (i : Incoming) : List Bytes := i.received.filterMap Received.message?

/-- What is there of the message that is being read. -/
def part (i : Incoming) : Bytes :=
  match i.reading with
  | some ⟨_, .body _ filled⟩ => i.buffer.take filled
  | _ => []

/-- How often `ReceiveMessageOrClosed` has been called. -/
def calls (i : Incoming) : Nat := i.received.length + (if i.reading.isSome then 1 else 0)

def Fits (i : Incoming) : Prop :=
  ∀ r, i.reading = some r →
    match r.phase with
    | .header => headerSize ≤ i.buffer.length
    | .body size filled => headerSize ≤ filled ∧ filled < size ∧ size ≤ i.buffer.length ∧
        messageSize (i.buffer.take filled) = size

end Incoming

/-- One direction of the connection. Before, the sender had sent `a` messages and the receiver had received
`b`. -/
structure Lane (a b : Nat) (ignore : Bool) (o : Outgoing) (wire : Bytes) (i : Incoming) : Prop where
  carried : ∃ lost, messageFormat.Carried (stamps a o.spans) i.messages i.part (wire ++ lost) ∧
    (o.opened = true → i.opened = true → lost = o.sending.getD [])
  sized : ∀ m ∈ o.spans, headerSize ≤ m.length
  sent : o.sentMessages.toNat = (a + o.spans.length) % 2 ^ 32
  counted : i.receivedMessages.toNat = (b + i.calls) % 2 ^ 32
  ignored : i.ignoreSequence = ignore
  fits : i.Fits
  closed : Received.closed ∈ i.received → (o.opened && i.opened) = false ∧ wire = []
  agrees : ∀ r ∈ i.received, r.Agrees (ignore = true ∨ a % 2 ^ 32 = b % 2 ^ 32)

theorem length_filterMap_message {rs : List Received} (h : Received.closed ∉ rs) :
    (rs.filterMap Received.message?).length = rs.length := by
  induction rs with
  | nil => rfl
  | cons r rs ih =>
    have hrest := ih fun hr => h (List.mem_cons_of_mem r hr)
    cases r with
    | closed => exact absurd List.mem_cons_self h
    | thrown kind m => exact congrArg (· + 1) hrest
    | returned kind m => exact congrArg (· + 1) hrest

theorem message?_check (c : Channel) (kind : MessageKind) (span : Bytes) :
    (c.check kind span).message? = some span := by
  unfold Channel.check
  split
  · rfl
  · split <;> rfl

theorem check_ne_closed (c : Channel) (kind : MessageKind) (span : Bytes) :
    c.check kind span ≠ Received.closed := by
  intro hclosed
  have hmessage := message?_check c kind span
  rw [hclosed] at hmessage
  cases hmessage

/-- The checks on a well-formed message with the number `n` of the sender. -/
theorem agrees_check {c : Channel} {kind : MessageKind} {m : Bytes} {n : Nat} {agree : Prop}
    (hm : messageFormat.WellFormed m) (hn : sequenceNumber m = n)
    (hagree : agree ↔ c.ignoreSequence = true ∨ n = c.receivedMessages.toNat) :
    (c.check kind m).Agrees agree := by
  have hsize : ¬ messageSize m < headerSize := by
    rw [show messageSize m = m.length from hm.2]
    exact Nat.not_lt.mpr hm.1
  unfold Channel.check
  split
  · rename_i hshort
    exact fun haccepts => absurd haccepts.1 (Nat.not_le.mpr hshort)
  · rename_i hlong
    have hvalid : c.ValidateMessageHeader m kind.type c.receivedMessages = true ↔
        (kind.type = LxMiniInitMessageAny ∨ messageType m = kind.type) ∧ agree := by
      rw [hagree, ← hn]
      simp only [Channel.ValidateMessageHeader, hsize, decide_false, Bool.false_or, Bool.not_or,
        Bool.and_eq_true, Bool.not_eq_true', Bool.and_eq_false_imp, bne_iff_ne, ne_eq, bne_eq_false_iff_eq]
      refine and_congr ?_ ?_
      · exact ⟨fun h => or_iff_not_imp_left.mpr h, fun h => or_iff_not_imp_left.mp h⟩
      · cases c.ignoreSequence <;> simp
    split
    · rename_i hok
      exact ⟨Nat.not_lt.mp hlong, hvalid.mp hok⟩
    · rename_i hbad
      exact fun haccepts => hbad (hvalid.mpr haccepts.2)

/-! ## What a step does to a direction -/

theorem End.takeHeader_eq {e : End} {kind : MessageKind} {bytes : Bytes}
    (htake : (fill e.channel.buffer 0 bytes).take headerSize = bytes) (hsize : headerSize ≤ messageSize bytes) :
    e.takeHeader kind bytes =
      { e with channel := { e.channel with
        buffer := grow (messageSize bytes) (fill e.channel.buffer 0 bytes) } }.advance kind (messageSize bytes)
          headerSize := by
  have hstore : (e.store 0 bytes).channel.buffer.take headerSize = bytes := htake
  unfold End.takeHeader
  simp only [hstore, if_neg (Nat.not_lt.mpr hsize)]
  rfl

namespace Lane

variable {a b : Nat} {ignore : Bool} {o o' : Outgoing} {wire : Bytes} {i i' : Incoming} {e : End}

/-- `SendMessage` has numbered a message, which is to be written. -/
theorem send (h : Lane a b ignore e.outgoing wire i) {kind : MessageKind} {span : Bytes}
    (hspan : messageSize span = span.length) :
    Lane a b ignore (e.SendMessage kind span).outgoing wire i := by
  unfold End.SendMessage
  split
  · exact h
  · rename_i hfree
    simp only [Bool.or_eq_true, decide_eq_true_eq, not_or, Nat.not_lt] at hfree
    obtain ⟨⟨hidle, -⟩, hsize⟩ := hfree
    have hlong : headerSize ≤ span.length := kind.header_le.trans hsize
    have hsent : e.channel.sentMessages.toNat = (a + e.spans.length) % 2 ^ 32 := h.sent
    have hn : (e.channel.sentMessages + 1).toNat = (a + e.spans.length + 1) % 2 ^ 32 := by
      rw [UInt32.toNat_add, hsent, UInt32.toNat_one]
      omega
    obtain ⟨lost, hcarried, halive⟩ := h.carried
    refine ⟨⟨lost ++ stamp (e.channel.sentMessages + 1).toNat span, ?_, fun ho hi => ?_⟩, ?_, ?_, h.counted,
      h.ignored, h.fits, h.closed, h.agrees⟩
    · change messageFormat.Carried (stamps a (e.spans ++ [span])) _ _ _
      rw [stamps_concat, ← List.append_assoc, hn]
      exact hcarried.send (wellFormed_stamp _ hlong hspan)
    · have hlost : lost = e.sending.getD [] := halive ho hi
      rw [hlost, Option.not_isSome_iff_eq_none.mp hidle]
      rfl
    · intro m hm
      rcases List.mem_append.mp hm with hm | hm
      · exact h.sized m hm
      · rwa [List.mem_singleton.mp hm]
    · change (e.channel.sentMessages + 1).toNat = (a + (e.spans ++ [span]).length) % 2 ^ 32
      rw [hn, List.length_append, List.length_singleton, Nat.add_assoc]

theorem write (h : Lane a b ignore o wire i) {rest : Bytes} (n : Nat) (hrest : o.sending = some rest)
    (ho : o.opened = true) (hi : i.opened = true) :
    Lane a b ignore { o with sending := if rest.drop n = [] then none else some (rest.drop n) }
      (wire ++ rest.take n) i := by
  obtain ⟨lost, hcarried, halive⟩ := h.carried
  have hlost : lost = rest := by
    rw [halive ho hi, hrest]
    rfl
  refine ⟨⟨rest.drop n, ?_, fun _ _ => ?_⟩, h.sized, h.sent, h.counted, h.ignored, h.fits, fun hclosed => ?_,
    h.agrees⟩
  · rw [List.append_assoc, List.take_append_drop, ← hlost]
    exact hcarried
  · by_cases hnil : rest.drop n = []
    · rw [if_pos hnil, hnil]
      rfl
    · rw [if_neg hnil]
      rfl
  · have hdown := (h.closed hclosed).1
    rw [ho, hi] at hdown
    cases hdown

theorem lose (h : Lane a b ignore o wire i) (hdown : (o.opened && i.opened) = false) :
    Lane a b ignore { o with sending := none } wire i := by
  obtain ⟨lost, hcarried, -⟩ := h.carried
  refine ⟨⟨lost, hcarried, fun ho hi => ?_⟩, h.sized, h.sent, h.counted, h.ignored, h.fits, h.closed, h.agrees⟩
  rw [show o.opened = true from ho, hi] at hdown
  cases hdown

theorem close_sender (h : Lane a b ignore o wire i) : Lane a b ignore { o with opened := false } wire i := by
  obtain ⟨lost, hcarried, -⟩ := h.carried
  exact ⟨⟨lost, hcarried, fun ho => absurd ho Bool.false_ne_true⟩, h.sized, h.sent, h.counted, h.ignored,
    h.fits, fun hclosed => ⟨rfl, (h.closed hclosed).2⟩, h.agrees⟩

theorem close_receiver (h : Lane a b ignore o wire i) : Lane a b ignore o wire { i with opened := false } := by
  obtain ⟨lost, hcarried, -⟩ := h.carried
  exact ⟨⟨lost, hcarried, fun _ hi => absurd hi Bool.false_ne_true⟩, h.sized, h.sent, h.counted, h.ignored,
    h.fits, fun hclosed => ⟨Bool.and_false _, (h.closed hclosed).2⟩, h.agrees⟩

theorem receive (h : Lane a b ignore o wire e.incoming) (kind : MessageKind) :
    Lane a b ignore o wire (e.ReceiveMessageOrClosed kind).incoming := by
  unfold End.ReceiveMessageOrClosed
  split
  · exact h
  · rename_i hidle
    have hnone : e.reading = none := Option.not_isSome_iff_eq_none.mp hidle
    have hpart : e.incoming.part = [] := by
      simp only [Incoming.part, End.incoming, hnone]
    obtain ⟨lost, hcarried, halive⟩ := h.carried
    refine ⟨⟨lost, ?_, halive⟩, h.sized, h.sent, ?_, h.ignored, ?_, h.closed, h.agrees⟩
    · rw [hpart] at hcarried
      exact hcarried
    · have hcounted : e.channel.receivedMessages.toNat = (b + e.incoming.calls) % 2 ^ 32 := h.counted
      rw [Incoming.calls, show e.incoming.reading = none from hnone] at hcounted
      change e.channel.receivedMessages.toNat = (b + (e.received.length + 0)) % 2 ^ 32 at hcounted
      change (e.channel.receivedMessages + 1).toNat = (b + (e.received.length + 1)) % 2 ^ 32
      rw [UInt32.toNat_add, hcounted, UInt32.toNat_one]
      omega
    · intro r hr
      cases hr
      exact length_grow headerSize e.channel.buffer

theorem finish_closed (h : Lane a b ignore o wire e.incoming) (hreading : e.reading.isSome = true)
    (hdown : (o.opened && e.opened) = false) : Lane a b ignore o [] (e.finish .closed).incoming := by
  obtain ⟨lost, hcarried, -⟩ := h.carried
  refine ⟨⟨e.incoming.part ++ (wire ++ lost), ?_, fun ho hi => ?_⟩, h.sized, h.sent, ?_, h.ignored, ?_,
    fun _ => ⟨hdown, rfl⟩, fun r hr => ?_⟩
  · have hmessages : (e.finish .closed).incoming.messages = e.incoming.messages := by
      change (e.received ++ [Received.closed]).filterMap Received.message? = _
      rw [List.filterMap_append]
      exact List.append_nil _
    rw [hmessages]
    exact hcarried.giveUp
  · rw [ho, show e.opened = true from hi] at hdown
    cases hdown
  · have hcounted : e.channel.receivedMessages.toNat = (b + e.incoming.calls) % 2 ^ 32 := h.counted
    rw [Incoming.calls, show e.incoming.reading.isSome = true from hreading, if_pos rfl] at hcounted
    change e.channel.receivedMessages.toNat = (b + ((e.received ++ [Received.closed]).length + 0)) % 2 ^ 32
    rw [hcounted, List.length_append, List.length_singleton]
    rfl
  · intro r hr
    cases hr
  · rcases List.mem_append.mp hr with hr | hr
    · exact h.agrees r hr
    · rw [List.mem_singleton.mp hr]
      trivial

theorem advance (h : Lane a b ignore o wire e.incoming) (hwire : wire ≠ []) (hreading : e.reading.isSome = true)
    {buffer wire' : Bytes} (kind : MessageKind) {size filled : Nat}
    (hcarried : ∃ lost,
      messageFormat.Carried (stamps a o.spans) e.incoming.messages (buffer.take filled) (wire' ++ lost) ∧
        (o.opened = true → e.opened = true → lost = o.sending.getD []))
    (hhead : headerSize ≤ filled) (hfilled : filled ≤ size) (hbuffer : size ≤ buffer.length)
    (hsize : messageSize (buffer.take filled) = size) :
    Lane a b ignore o wire'
      ({ e with channel := { e.channel with buffer := buffer } }.advance kind size filled).incoming := by
  have hopen : Received.closed ∉ e.received := fun hclosed => hwire (h.closed hclosed).2
  have hcounted : e.channel.receivedMessages.toNat = (b + (e.received.length + 1)) % 2 ^ 32 := by
    have hcalls : e.channel.receivedMessages.toNat = (b + e.incoming.calls) % 2 ^ 32 := h.counted
    rwa [Incoming.calls, show e.incoming.reading.isSome = true from hreading, if_pos rfl] at hcalls
  obtain ⟨lost, hcarried, halive⟩ := hcarried
  unfold End.advance
  split
  · rename_i hlt
    refine ⟨⟨lost, hcarried, halive⟩, h.sized, h.sent, hcounted, h.ignored, ?_,
      fun hclosed => absurd hclosed hopen, h.agrees⟩
    intro r hr
    cases hr
    exact ⟨hhead, hlt, hbuffer, hsize⟩
  · rename_i hge
    have hfull : filled = size := Nat.le_antisymm hfilled (Nat.not_lt.mp hge)
    subst hfull
    have hm : messageFormat.WellFormed (buffer.take filled) := by
      have hlen : (buffer.take filled).length = filled := List.length_take_of_le hbuffer
      exact ⟨hlen.symm ▸ hhead, hsize.trans hlen.symm⟩
    have hnext := hcarried.frame hm
    have hnumber : sequenceNumber (buffer.take filled) = (a + e.received.length + 1) % 2 ^ 32 := by
      have hget := List.prefix_iff_getElem?.mp hnext.read_begins e.incoming.messages.length
        (by rw [List.length_append, List.length_singleton]; exact Nat.lt_succ_self _)
      have hlength : e.incoming.messages.length = e.received.length := length_filterMap_message hopen
      rw [List.getElem_concat_length rfl, hlength, stamps, List.getElem?_mapIdx] at hget
      obtain ⟨span, hspan, heq⟩ := Option.map_eq_some_iff.mp hget
      rw [← heq]
      exact sequenceNumber_stamp (Nat.mod_lt _ (by decide)) (h.sized span (List.mem_of_getElem? hspan))
    have hagree : (ignore = true ∨ a % 2 ^ 32 = b % 2 ^ 32) ↔ e.channel.ignoreSequence = true ∨
        (a + e.received.length + 1) % 2 ^ 32 = e.channel.receivedMessages.toNat := by
      rw [hcounted, show e.channel.ignoreSequence = ignore from h.ignored]
      refine or_congr Iff.rfl ?_
      omega
    refine ⟨⟨lost, ?_, halive⟩, h.sized, h.sent, ?_, h.ignored, ?_, fun hclosed => ?_, fun r hr => ?_⟩
    · rw [Incoming.messages]
      change messageFormat.Carried _ ((e.received ++ [Channel.check _ kind (buffer.take filled)]).filterMap
        Received.message?) [] _
      rw [List.filterMap_append, List.filterMap_cons, message?_check]
      exact hnext
    · change e.channel.receivedMessages.toNat = (b + ((e.received ++ [_]).length + 0)) % 2 ^ 32
      rw [hcounted, List.length_append, List.length_singleton, Nat.add_zero]
    · intro r hr
      cases hr
    · rcases List.mem_append.mp hclosed with hr | hr
      · exact absurd hr hopen
      · exact absurd (List.mem_singleton.mp hr).symm (check_ne_closed _ _ _)
    · rcases List.mem_append.mp hr with hr | hr
      · exact h.agrees r hr
      · rw [List.mem_singleton.mp hr]
        exact agrees_check hm hnumber hagree

theorem takeHeader (h : Lane a b ignore o wire e.incoming) {kind : MessageKind}
    (hreading : e.reading = some ⟨kind, .header⟩) (hlong : headerSize ≤ wire.length) :
    Lane a b ignore o (wire.drop headerSize) (e.takeHeader kind (wire.take headerSize)).incoming := by
  have hwire : wire ≠ [] := by
    rintro rfl
    exact absurd hlong (by decide)
  have hroom : headerSize ≤ e.channel.buffer.length := h.fits _ hreading
  have hlen : (wire.take headerSize).length = headerSize := List.length_take_of_le hlong
  have hpart : e.incoming.part = [] := by
    simp only [Incoming.part, End.incoming, hreading]
  have htake : (fill e.channel.buffer 0 (wire.take headerSize)).take headerSize = wire.take headerSize := by
    have hfill : (fill e.channel.buffer 0 (wire.take headerSize)).take (0 + (wire.take headerSize).length) =
      e.channel.buffer.take 0 ++ wire.take headerSize := take_fill (Nat.zero_le _)
    rwa [hlen, Nat.zero_add, List.take_zero, List.nil_append] at hfill
  obtain ⟨lost, hcarried, halive⟩ := h.carried
  have hnext : messageFormat.Carried (stamps a o.spans) e.incoming.messages (wire.take headerSize)
      (wire.drop headerSize ++ lost) := by
    rw [hpart] at hcarried
    rw [← List.nil_append (wire.take headerSize)]
    refine FrameFormat.Carried.take ?_
    rwa [← List.append_assoc, List.take_append_drop]
  have hsize := (hnext.size_le hlen.ge).1
  change headerSize ≤ messageSize (wire.take headerSize) at hsize
  have hinside : headerSize ≤ (fill e.channel.buffer 0 (wire.take headerSize)).length := by
    rw [length_fill (by rw [hlen, Nat.zero_add]; exact hroom)]
    exact hroom
  rw [End.takeHeader_eq htake hsize]
  have hsame : (grow (messageSize (wire.take headerSize)) (fill e.channel.buffer 0 (wire.take headerSize))).take
      headerSize = wire.take headerSize := (take_grow hinside).trans htake
  refine h.advance hwire (by rw [hreading]; rfl) kind ⟨lost, ?_, halive⟩ (Nat.le_refl _) hsize
    (length_grow _ _) ?_
  · rw [hsame]
    exact hnext
  · rw [hsame]

theorem takeBody (h : Lane a b ignore o wire e.incoming) {kind : MessageKind} {size filled : Nat} {k : Nat}
    (hreading : e.reading = some ⟨kind, .body size filled⟩) (hwire : wire ≠ []) (hk : k ≤ size - filled) :
    Lane a b ignore o (wire.drop k) (e.takeBody kind size filled (wire.take k)).incoming := by
  obtain ⟨hhead, hlt, hbuffer, hsize⟩ : headerSize ≤ filled ∧ filled < size ∧ size ≤ e.channel.buffer.length ∧
    messageSize (e.channel.buffer.take filled) = size := h.fits _ hreading
  have hlen : (wire.take k).length ≤ k := List.length_take_le _ _
  have hpart : e.incoming.part = e.channel.buffer.take filled := by
    simp only [Incoming.part, End.incoming, hreading]
  have htake : (fill e.channel.buffer filled (wire.take k)).take (filled + (wire.take k).length) =
      e.channel.buffer.take filled ++ wire.take k := take_fill (by omega)
  have hheader : messageFormat.headerLen ≤ (e.channel.buffer.take filled).length := by
    rw [List.length_take_of_le (by omega)]
    exact hhead
  obtain ⟨lost, hcarried, halive⟩ := h.carried
  refine h.advance hwire (by rw [hreading]; rfl) kind ⟨lost, ?_, halive⟩ (by omega) (by omega) ?_ ?_
  · rw [htake, ← hpart]
    refine FrameFormat.Carried.take ?_
    rwa [← List.append_assoc, List.take_append_drop]
  · rw [length_fill (by omega)]
    exact hbuffer
  · rw [htake]
    exact (messageFormat.sizeOf_append _ _ hheader).trans hsize

end Lane

/-! ## Both directions -/

@[simp] theorem Side.other_ne (s : Side) : s.other ≠ s := by
  cases s <;> exact fun h => nomatch h

@[simp] theorem Side.ne_other (s : Side) : s ≠ s.other := (Side.other_ne s).symm

@[simp] theorem Side.other_other (s : Side) : s.other.other = s := by
  cases s <;> rfl

theorem Side.eq_or_eq_other (s t : Side) : s = t ∨ s = t.other := by
  cases s <;> cases t <;> simp [Side.other]

namespace World

variable {w w' : World} {s : Side} {e : End} {bytes : Bytes}

@[simp] theorem set_ends : (w.set s e).ends s = e := Function.update_self ..
@[simp] theorem set_ends_other : (w.set s e).ends s.other = w.ends s.other :=
  Function.update_of_ne (Side.other_ne s) ..
@[simp] theorem put_ends : (w.put s bytes).ends = w.ends := rfl
@[simp] theorem put_wire : (w.put s bytes).wire s = bytes := Function.update_self ..
@[simp] theorem put_wire_other : (w.put s bytes).wire s.other = w.wire s.other :=
  Function.update_of_ne (Side.other_ne s) ..
@[simp] theorem put_other_wire : (w.put s.other bytes).wire s = w.wire s :=
  Function.update_of_ne (Side.ne_other s) ..

/-- The direction from a sender to a receiver that began with these channels. -/
abbrev Between (c c' : Channel) (o : Outgoing) (wire : Bytes) (i : Incoming) : Prop :=
  Protocol.Lane c.sentMessages.toNat c'.receivedMessages.toNat c'.ignoreSequence o wire i

/-- The direction from the end `s`. -/
def Lane (c : Side → Channel) (w : World) (s : Side) : Prop :=
  Between (c s) (c s.other) (w.ends s).outgoing (w.wire s) (w.ends s.other).incoming

variable {c : Side → Channel}

theorem lanes_of {p : Side} (hp : w'.ends p = e) (hother : w'.ends p.other = w.ends p.other)
    (hout : Between (c p) (c p.other) e.outgoing (w'.wire p) (w.ends p.other).incoming)
    (hin : Between (c p.other) (c p) (w.ends p.other).outgoing (w'.wire p.other) e.incoming) (s : Side) :
    w'.Lane c s := by
  rcases Side.eq_or_eq_other s p with rfl | rfl
  · rw [Lane, hp, hother]
    exact hout
  · rw [Lane, Side.other_other, hp, hother]
    exact hin

/-- What is asserted of the messages that are sent, and no signal cuts off the reading of a header. -/
def Asserted : World → Side × Op → Prop
  | _, (_, .SendMessage _ span) => messageSize span = span.length
  | _, (_, .recvInterrupted _) => False
  | _, _ => True

theorem SendMessage_incoming (e : End) (kind : MessageKind) (span : Bytes) :
    (e.SendMessage kind span).incoming = e.incoming := by
  unfold End.SendMessage
  split <;> rfl

theorem ReceiveMessageOrClosed_outgoing (e : End) (kind : MessageKind) :
    (e.ReceiveMessageOrClosed kind).outgoing = e.outgoing := by
  unfold End.ReceiveMessageOrClosed
  split <;> rfl

theorem advance_outgoing (e : End) (kind : MessageKind) (size filled : Nat) :
    (e.advance kind size filled).outgoing = e.outgoing := by
  unfold End.advance
  split <;> rfl

theorem takeHeader_outgoing (e : End) (kind : MessageKind) (bytes : Bytes) :
    (e.takeHeader kind bytes).outgoing = e.outgoing := by
  unfold End.takeHeader
  dsimp only
  split
  · rfl
  · exact advance_outgoing _ _ _ _

theorem takeBody_outgoing (e : End) (kind : MessageKind) (size filled : Nat) (bytes : Bytes) :
    (e.takeBody kind size filled bytes).outgoing = e.outgoing :=
  advance_outgoing _ _ _ _

/-- The ways in which a step can go on, each with what it looks at. -/
inductive Moves (w : World) (p : Side) : Op → World → Prop where
  | send (kind : MessageKind) (span : Bytes) :
    Moves w p (.SendMessage kind span) (w.set p ((w.ends p).SendMessage kind span))
  | receive (kind : MessageKind) :
    Moves w p (.ReceiveMessageOrClosed kind) (w.set p ((w.ends p).ReceiveMessageOrClosed kind))
  | write (n : Nat) {rest : Bytes} (hrest : (w.ends p).sending = some rest) (hp : (w.ends p).opened = true)
    (hother : (w.ends p.other).opened = true) :
    Moves w p (.write n) ((w.set p { w.ends p with
      sending := if rest.drop (n + 1) = [] then none else some (rest.drop (n + 1)) }).put p
        (w.wire p ++ rest.take (n + 1)))
  | writeFails (hdown : ((w.ends p).opened && (w.ends p.other).opened) = false) :
    Moves w p .writeFails (w.set p { w.ends p with sending := none })
  | header {kind : MessageKind} (hr : (w.ends p).reading = some ⟨kind, .header⟩)
    (hlong : headerSize ≤ (w.wire p.other).length) :
    Moves w p .recvHeader ((w.set p ((w.ends p).takeHeader kind ((w.wire p.other).take headerSize))).put p.other
      ((w.wire p.other).drop headerSize))
  | interrupted (n : Nat) (bytes : Bytes) :
    Moves w p (.recvInterrupted n) ((w.set p ((w.ends p).finish .closed)).put p.other bytes)
  | body (n : Nat) {kind : MessageKind} {size filled k : Nat}
    (hr : (w.ends p).reading = some ⟨kind, .body size filled⟩) (hwire : w.wire p.other ≠ [])
    (hk : k ≤ size - filled) :
    Moves w p (.recv n) ((w.set p ((w.ends p).takeBody kind size filled ((w.wire p.other).take k))).put p.other
      ((w.wire p.other).drop k))
  | closed (op : Op) (hr : (w.ends p).reading.isSome = true)
    (hdown : ((w.ends p.other).opened && (w.ends p).opened) = false) :
    Moves w p op ((w.set p ((w.ends p).finish .closed)).put p.other [])
  | close : Moves w p .Close (w.set p { w.ends p with opened := false })

theorem put_self (w : World) (s : Side) : w.put s (w.wire s) = w := by
  rw [put, Function.update_eq_self]

theorem moves_of_step {p : Side} {op : Op} (hstep : step w (p, op) = some w') : Moves w p op w' := by
  cases op with
  | SendMessage kind span =>
    cases hstep
    exact .send kind span
  | ReceiveMessageOrClosed kind =>
    cases hstep
    exact .receive kind
  | write n =>
    simp only [step] at hstep
    split at hstep
    · cases hstep
    · rename_i rest hrest
      split at hstep
      · rename_i hopen
        rw [Bool.and_eq_true] at hopen
        cases hstep
        exact .write n hrest hopen.1 hopen.2
      · cases hstep
  | writeFails =>
    simp only [step] at hstep
    split at hstep
    · cases hstep
    · split at hstep
      · cases hstep
      · rename_i hdown
        cases hstep
        exact .writeFails (Bool.eq_false_iff.mpr hdown)
  | recvHeader =>
    simp only [step] at hstep
    split at hstep
    · rename_i kind hr
      split at hstep
      · cases hstep
      · split at hstep
        · rename_i hlong
          cases hstep
          exact .header hr hlong
        · split at hstep
          · cases hstep
          · rename_i hpeer
            cases hstep
            refine .closed _ (by rw [hr]; rfl) ?_
            rw [Bool.eq_false_iff.mpr hpeer, Bool.false_and]
    · cases hstep
  | recvInterrupted n =>
    simp only [step] at hstep
    split at hstep
    · split at hstep
      · cases hstep
        exact .interrupted n _
      · cases hstep
    · cases hstep
  | recv n =>
    simp only [step] at hstep
    split at hstep
    · rename_i kind size filled hr
      split at hstep
      · cases hstep
      · split at hstep
        · rename_i hwire
          cases hstep
          exact .body n hr hwire (Nat.min_le_right _ _)
        · rename_i hwire
          split at hstep
          · cases hstep
          · rename_i hpeer
            cases hstep
            have hnil : w.wire p.other = [] := not_not.mp hwire
            have hput : (w.set p ((w.ends p).finish .closed)).put p.other [] =
                w.set p ((w.ends p).finish .closed) := by
              rw [← hnil]
              exact put_self (w.set p _) p.other
            rw [← hput]
            refine .closed _ (by rw [hr]; rfl) ?_
            rw [Bool.eq_false_iff.mpr hpeer, Bool.false_and]
    · cases hstep
  | recvFails =>
    simp only [step] at hstep
    split at hstep
    · cases hstep
    · rename_i r hr
      split at hstep
      · cases hstep
      · rename_i hdown
        cases hstep
        refine .closed _ (by rw [hr]; rfl) ?_
        rw [Bool.and_comm]
        exact Bool.eq_false_iff.mpr hdown
  | Close =>
    cases hstep
    exact .close

theorem lane_step (h : ∀ s, w.Lane c s) {a : Side × Op} (ha : Asserted w a) (hstep : step w a = some w') :
    ∀ s, w'.Lane c s := by
  obtain ⟨p, op⟩ := a
  have hout := h p
  have hin : Between (c p.other) (c p) (w.ends p.other).outgoing (w.wire p.other) (w.ends p).incoming := by
    have hother := h p.other
    rwa [Lane, Side.other_other] at hother
  cases moves_of_step hstep with
  | send kind span =>
    refine lanes_of set_ends set_ends_other (Lane.send hout ha) ?_
    rw [SendMessage_incoming]
    exact hin
  | receive kind =>
    refine lanes_of set_ends set_ends_other ?_ (Lane.receive hin kind)
    rw [ReceiveMessageOrClosed_outgoing]
    exact hout
  | write n hrest hp hother =>
    refine lanes_of set_ends set_ends_other ?_ ?_
    · rw [put_wire]
      exact Lane.write hout (n + 1) hrest hp hother
    · rw [put_wire_other]
      exact hin
  | writeFails hdown => exact lanes_of set_ends set_ends_other (Lane.lose hout hdown) hin
  | header hr hlong =>
    refine lanes_of set_ends set_ends_other ?_ ?_
    · rw [put_other_wire, takeHeader_outgoing]
      exact hout
    · rw [put_wire]
      exact Lane.takeHeader hin hr hlong
  | interrupted n bytes => exact ha.elim
  | body n hr hwire hk =>
    refine lanes_of set_ends set_ends_other ?_ ?_
    · rw [put_other_wire, takeBody_outgoing]
      exact hout
    · rw [put_wire]
      exact Lane.takeBody hin hr hwire hk
  | closed op hr hdown =>
    refine lanes_of set_ends set_ends_other ?_ ?_
    · rw [put_other_wire]
      exact hout
    · rw [put_wire]
      exact Lane.finish_closed hin hr hdown
  | close => exact lanes_of set_ends set_ends_other (Lane.close_sender hout) (Lane.close_receiver hin)

/-! ## Runs -/

/-- A new connection between two channels, none of which is in use. -/
def connect (c : Side → Channel) : World where
  ends s := { channel := c s }
  wire _ := []

theorem lane_connect (c : Side → Channel) (s : Side) : (connect c).Lane c s where
  carried := ⟨[], FrameFormat.Carried.nil _, fun _ _ => rfl⟩
  sized m hm := absurd hm List.not_mem_nil
  sent := (Nat.mod_eq_of_lt (UInt32.toNat_lt _)).symm
  counted := (Nat.mod_eq_of_lt (UInt32.toNat_lt _)).symm
  ignored := rfl
  fits r hr := by cases hr
  closed hclosed := absurd hclosed List.not_mem_nil
  agrees r hr := absurd hr List.not_mem_nil

theorem reaches_lane {C : World → Side × Op → Prop} (hC : ∀ w a, C w a → Asserted w a)
    (h : Reaches step C (connect c) w) (s : Side) : w.Lane c s := by
  revert s
  exact h.invariant (lane_connect c) fun w a w' hw ha hstep => lane_step hw (hC w a ha) hstep

/-- What an end has of the messages of the end `s`. -/
structure Delivered (c : Side → Channel) (w : World) (s : Side) : Prop where
  /-- Every message is read once and in order, as it was sent but for its number. -/
  in_order : (w.ends s.other).incoming.messages <+: stamps (c s).sentMessages.toNat (w.ends s).spans
  /-- It is returned exactly if it has the size and the type that are asked for, and the two channels had
  come as far when the connection began, or the numbers are not looked at. -/
  accepted : ∀ r ∈ (w.ends s.other).received, r.Agrees
    ((c s.other).ignoreSequence = true ∨ (c s).sentMessages = (c s.other).receivedMessages)
  /-- A call finds the connection closed only if an end has been closed. -/
  closed : Received.closed ∈ (w.ends s.other).received →
    (w.ends s).opened = false ∨ (w.ends s.other).opened = false

def channels : Side → Channel := fun _ => { name := some "init" }

/-- `MESSAGE_HEADER` itself, with which a message of any type is received. -/
def anyMessage : MessageKind := ⟨LxMiniInitMessageAny, headerSize, Nat.le_refl _⟩

/-- The first end sends a message in two pieces, and the other end reads it. -/
def delivery : List (Side × Op) :=
  [(.first, .SendMessage anyMessage (header 5 12 0)), (.second, .ReceiveMessageOrClosed anyMessage),
    (.first, .write 4), (.first, .write 20), (.second, .recvHeader)]

def delivered (n : Nat) : Option World := (delivery.take n).foldlM step (connect channels)

theorem delivered_isSome : (delivered 5).isSome := by decide

theorem waiting_isSome : (delivered 4).isSome := by decide

theorem asserted_delivery : ∀ a ∈ delivery, ∀ w, Asserted w a := by
  intro a ha w
  simp only [delivery, List.mem_cons, List.not_mem_nil, or_false] at ha
  rcases ha with rfl | rfl | rfl | rfl | rfl
  · have hsize : messageSize (header 5 12 0) = (header 5 12 0).length := by decide
    exact hsize
  all_goals trivial

theorem reaches_delivery {n : Nat} (h : (delivered n).isSome) :
    Reaches step Asserted (connect channels) ((delivered n).get h) :=
  Reaches.start.foldlM (fun a ha => asserted_delivery a (List.mem_of_mem_take ha)) (Option.some_get h).symm

def Reads : Op → Prop
  | .recvHeader => True
  | .recv _ => True
  | .recvFails => True
  | _ => False

theorem header_blocks_iff {p : Side} (hp : (w.ends p).opened = true) (hother : (w.ends p.other).opened = true)
    {kind : MessageKind} (hr : (w.ends p).reading = some ⟨kind, .header⟩) :
    (∀ op, Reads op → step w (p, op) = none) ↔ (w.wire p.other).length < headerSize := by
  constructor
  · intro hnone
    by_contra hlong
    have hread := hnone .recvHeader trivial
    simp only [step, hr, hp, Bool.not_true, Bool.false_eq_true, if_false, if_pos (Nat.not_lt.mp hlong)] at hread
    cases hread
  · intro hshort op hop
    cases op with
    | recvHeader =>
      simp only [step, hr, hp, hother, Bool.not_true, Bool.false_eq_true, if_false, if_true,
        if_neg (Nat.not_le.mpr hshort)]
    | recv n => simp only [step, hr]
    | recvFails => simp only [step, hr, hp, hother, Bool.and_true, if_true]
    | _ => exact hop.elim

theorem body_blocks_iff {p : Side} (hp : (w.ends p).opened = true) (hother : (w.ends p.other).opened = true)
    {kind : MessageKind} {size filled : Nat} (hr : (w.ends p).reading = some ⟨kind, .body size filled⟩) :
    (∀ op, Reads op → step w (p, op) = none) ↔ w.wire p.other = [] := by
  constructor
  · intro hnone
    by_contra hne
    have hread := hnone (.recv 0) trivial
    simp only [step, hr, hp, Bool.not_true, Bool.false_eq_true, if_false, ne_eq, hne, not_false_eq_true,
      if_true] at hread
    cases hread
  · intro hnil op hop
    cases op with
    | recvHeader => simp only [step, hr]
    | recv n =>
      simp only [step, hr, hp, hother, hnil, Bool.not_true, Bool.false_eq_true, if_false, ne_eq,
        not_true_eq_false, if_true]
    | recvFails => simp only [step, hr, hp, hother, Bool.and_true, if_true]
    | _ => exact hop.elim

theorem received_advance {e : End} {rs : List Received} (h : rs = e.received) (kind : MessageKind)
    (size filled : Nat) : rs <+: (e.advance kind size filled).received := by
  subst h
  unfold End.advance
  split
  · exact List.prefix_refl _
  · exact List.prefix_append _ _

theorem received_takeHeader (e : End) (kind : MessageKind) (bytes : Bytes) :
    e.received <+: (e.takeHeader kind bytes).received := by
  unfold End.takeHeader
  dsimp only
  split
  · exact List.prefix_append _ _
  · refine received_advance ?_ _ _ _
    rfl

/-- What a step does to the histories of the end at which it is taken: only `SendMessage` adds to what is
sent. -/
structure Extends (op : Op) (e e' : End) : Prop where
  spans : e'.spans = e.spans ∨ ∃ kind span, op = .SendMessage kind span ∧ e'.spans = e.spans ++ [span]
  received : e.received <+: e'.received

theorem step_extends {p : Side} {op : Op} (hstep : step w (p, op) = some w') :
    Extends op (w.ends p) (w'.ends p) ∧ w'.ends p.other = w.ends p.other := by
  cases moves_of_step hstep with
  | send kind span =>
    refine ⟨?_, set_ends_other⟩
    rw [set_ends, End.SendMessage]
    split
    · exact ⟨.inl rfl, List.prefix_refl _⟩
    · exact ⟨.inr ⟨kind, span, rfl, rfl⟩, List.prefix_refl _⟩
  | receive kind =>
    refine ⟨?_, set_ends_other⟩
    rw [set_ends, End.ReceiveMessageOrClosed]
    split <;> exact ⟨.inl rfl, List.prefix_refl _⟩
  | header hr hlong =>
    refine ⟨?_, set_ends_other⟩
    rw [put_ends, set_ends]
    exact ⟨.inl (congrArg Outgoing.spans (takeHeader_outgoing _ _ _)), received_takeHeader _ _ _⟩
  | body n hr hwire hk =>
    refine ⟨?_, set_ends_other⟩
    rw [put_ends, set_ends]
    exact ⟨.inl (congrArg Outgoing.spans (takeBody_outgoing _ _ _ _ _)), received_advance (by rfl) _ _ _⟩
  | interrupted n bytes => exact ⟨⟨.inl (by simp [End.finish]), by simp [End.finish]⟩, set_ends_other⟩
  | closed op hr hdown => exact ⟨⟨.inl (by simp [End.finish]), by simp [End.finish]⟩, set_ends_other⟩
  | write n hrest hp hother => exact ⟨⟨.inl (by simp), by simp⟩, set_ends_other⟩
  | writeFails hdown => exact ⟨⟨.inl (by simp), by simp⟩, set_ends_other⟩
  | close => exact ⟨⟨.inl (by simp), by simp⟩, set_ends_other⟩

/-- The end `s` answers: each message that it sends is the reply to the one that it read last, and it sends one
for each. -/
def Answers (reply : Bytes → Bytes) (s : Side) (w : World) (a : Side × Op) : Prop :=
  ∀ kind span, a = (s, .SendMessage kind span) → ∃ ms m, (w.ends s).incoming.messages = ms ++ [m] ∧
    (w.ends s).spans.length = ms.length ∧ span = reply m

theorem answers_step {reply : Bytes → Bytes} {s : Side} {a : Side × Op}
    (h : (w.ends s).spans <+: (w.ends s).incoming.messages.map reply) (ha : Answers reply s w a)
    (hstep : step w a = some w') : (w'.ends s).spans <+: (w'.ends s).incoming.messages.map reply := by
  obtain ⟨p, op⟩ := a
  obtain ⟨hext, hother⟩ := step_extends hstep
  rcases Side.eq_or_eq_other s p with rfl | rfl
  · have hmessages : (w.ends s).incoming.messages.map reply <+: (w'.ends s).incoming.messages.map reply :=
      (hext.received.filterMap _).map reply
    rcases hext.spans with hspans | ⟨kind, span, rfl, hspans⟩
    · rw [hspans]
      exact h.trans hmessages
    · obtain ⟨ms, m, hread, hlen, rfl⟩ := ha kind span rfl
      rw [hspans]
      rw [hread, List.map_append, List.map_singleton] at h hmessages
      have hold : (w.ends s).spans = ms.map reply :=
        have hsame : (w.ends s).spans.length = (ms.map reply).length := by rw [hlen, List.length_map]
        (List.prefix_of_prefix_length_le h (List.prefix_append _ _) hsame.le).eq_of_length hsame
      rw [hold]
      exact hmessages
  · rw [hother]
    exact h

/-- The answer to a message is the message itself. -/
def answer : List (Side × Op) :=
  [(.second, .SendMessage anyMessage (header 5 12 1)), (.second, .write 20),
    (.first, .ReceiveMessageOrClosed anyMessage), (.first, .recvHeader)]

theorem answer_isSome : (answer.foldlM step ((delivered 5).get delivered_isSome)).isSome := by decide

def exchanged : World := (answer.foldlM step ((delivered 5).get delivered_isSome)).get answer_isSome

theorem answers_other {reply : Bytes → Bytes} {a : Side × Op}
    (ha : ∀ kind span, a ≠ (.second, .SendMessage kind span)) (w : World) : Answers reply .second w a :=
  fun kind span h => absurd h (ha kind span)

end World

end WslFreeBSD.Protocol
