import WslFreeBSD.Lib.Bytes
import WslFreeBSD.Lib.Framing
import WslFreeBSD.Plan9.Messages

/-!
# Receiving messages

`FillData`, `NextMessage` and the part of `Run` that takes the messages of a connection. The bytes that
are received and not yet returned, `m_RequestData`, are a window of the request buffer. It moves on with
every message, and back to the start of the buffer when more data is needed.

Whatever the transport makes of the stream, the messages are its decoding into frames with their size
in front, and no returned message changes before it is copied (`messages_decoded`).
-/

namespace WslFreeBSD.Plan9

open Lib

/-- What a client sends, and how the transport cuts it: `cut` says how many bytes it would return at a
position of the stream. -/
structure Transport where
  stream : Bytes
  cut : Nat → Nat

/-- The number of bytes of a receive: at least one before the end of the stream, and no more than there is
room for. -/
def Transport.recvCount (T : Transport) (received room : Nat) : Nat :=
  min (max 1 (T.cut received)) (min room (T.stream.length - received))

/-- The buffer of a connection. `m_RequestData` are its `size` bytes at `offset`; `received` counts the
bytes that came from the transport, and `receives` are the ranges that it was given. -/
structure Receiver where
  buffer : Bytes
  offset : Nat
  size : Nat
  received : Nat
  receives : List (Nat × Nat)

def Receiver.init : Receiver := ⟨List.replicate maximumRequestBufferSize 0, 0, 0, 0, []⟩

/-- `std::copy` to the start of the buffer, byte after byte. -/
def copyDown (offset : Nat) : Nat → Bytes → Bytes
  | 0, b => b
  | n + 1, b => (copyDown offset n b).set n (((copyDown offset n b)[offset + n]?).getD 0)

def overwrite (b : Bytes) (start : Nat) (bytes : Bytes) : Bytes :=
  b.take start ++ bytes ++ b.drop (start + bytes.length)

/-- The loop of `FillData`, where the first `size` bytes of the buffer are valid. -/
def fillLoop (T : Transport) (requiredBytes : Nat) (r : Receiver) : Receiver :=
  if r.size < requiredBytes then
    let room := maximumRequestBufferSize - r.size
    let count := T.recvCount r.received room
    let r' : Receiver :=
      { buffer := overwrite r.buffer r.size ((T.stream.drop r.received).take count)
        offset := 0
        size := r.size + count
        received := r.received + count
        receives := r.receives ++ [(r.size, room)] }
    if count = 0 then r' else fillLoop T requiredBytes r'
  else r
termination_by requiredBytes - r.size
decreasing_by
  show requiredBytes - (r.size + count) < requiredBytes - r.size
  omega

/-- `FillData`: whether the required bytes are there afterwards. -/
def fillData (T : Transport) (requiredBytes : Nat) (r : Receiver) : Receiver × Bool :=
  let moved :=
    if 0 < r.size ∧ r.offset ≠ 0 then copyDown r.offset r.size r.buffer else r.buffer
  let filled := fillLoop T requiredBytes { r with buffer := moved, offset := 0 }
  (filled, requiredBytes ≤ filled.size)

/-- What `NextMessage` ends with: a message in the buffer, no message, or an exception. -/
inductive NextResult where
  | message (offset size : Nat)
  | empty
  | invalid

/-- `NextMessage`. -/
def nextMessage (T : Transport) (negotiatedSize : Nat) (r : Receiver) : NextResult × Receiver :=
  let header := if r.size < 4 then fillData T 4 r else (r, true)
  if header.2 then
    let messageSize := leAt header.1.offset 4 header.1.buffer
    if messageSize < 7 ∨ negotiatedSize < messageSize then (.invalid, header.1)
    else
      let body := if header.1.size < messageSize then fillData T messageSize header.1 else (header.1, true)
      if body.2 then
        (.message body.1.offset messageSize,
          { body.1 with offset := body.1.offset + messageSize, size := body.1.size - messageSize })
      else (.empty, body.1)
  else (.empty, header.1)

def Receiver.span (r : Receiver) (offset size : Nat) : Bytes := (r.buffer.drop offset).take size

/-- `Run`: a message that was returned waits for the semaphore, until it is copied. `returned` are the
messages as they were when `NextMessage` returned them, `copied` the copies. -/
structure Connection where
  receiver : Receiver
  message : Option (Nat × Nat)
  returned : List Bytes
  copied : List Bytes
  finished : Bool

def Connection.init : Connection := ⟨Receiver.init, none, [], [], false⟩

/-- One step of `Run`. -/
def Connection.step (T : Transport) (negotiatedSize : Nat) (c : Connection) : Connection :=
  if c.finished then c
  else
    match c.message with
    | some (offset, size) =>
      { c with message := none, copied := c.copied ++ [c.receiver.span offset size] }
    | none =>
      let next := nextMessage T negotiatedSize c.receiver
      match next.1 with
      | .message offset size =>
        { c with
          receiver := next.2
          message := some (offset, size)
          returned := c.returned ++ [next.2.span offset size] }
      | _ => { c with receiver := next.2, finished := true }

def Connection.after (T : Transport) (negotiatedSize : Nat) : Nat → Connection
  | 0 => Connection.init
  | k + 1 => (Connection.after T negotiatedSize k).step T negotiatedSize

/-- The messages of a stream: their size comes first, and counts itself. -/
def messageFormat (negotiatedSize : Nat) : FrameFormat UInt8 where
  headerLen := 4
  sizeOf l := if leAt 0 4 l < 7 ∨ negotiatedSize < leAt 0 4 l then 0 else leAt 0 4 l
  header_pos := by decide
  sizeOf_append l l' h := by rw [leAt_append_of_le (by simpa using h)]

/-! ## Moving data -/

theorem getElem?_copyDown (offset n : Nat) (b : Bytes) (hn : offset + n ≤ b.length) :
    (copyDown offset n b).length = b.length ∧
      ∀ i, (copyDown offset n b)[i]? = if i < n then b[offset + i]? else b[i]? := by
  induction n with
  | zero => exact ⟨rfl, fun i => rfl⟩
  | succ n ih =>
    obtain ⟨hlen, hget⟩ := ih (by omega)
    refine ⟨by rw [copyDown, List.length_set, hlen], fun i => ?_⟩
    -- the source of the last byte has not been overwritten yet
    have hsource : (copyDown offset n b)[offset + n]? = b[offset + n]? := by
      rw [hget, if_neg (by omega)]
    rw [copyDown, List.getElem?_set, hsource, hlen, hget]
    by_cases hi : n = i
    · subst hi
      have hlt : offset + n < b.length := by omega
      rw [if_pos rfl, if_pos (by omega), if_pos (by omega), List.getElem?_eq_getElem hlt]
      rfl
    · rw [if_neg hi]
      by_cases hlt : i < n
      · rw [if_pos hlt, if_pos (by omega)]
      · rw [if_neg hlt, if_neg (by omega)]

theorem take_copyDown {offset n : Nat} {b : Bytes} (hn : offset + n ≤ b.length) :
    (copyDown offset n b).take n = (b.drop offset).take n := by
  obtain ⟨-, hget⟩ := getElem?_copyDown offset n b hn
  refine List.ext_getElem? fun i => ?_
  rw [List.getElem?_take, List.getElem?_take, hget, List.getElem?_drop]
  split <;> simp_all

theorem length_overwrite {b : Bytes} {start : Nat} {bytes : Bytes}
    (h : start + bytes.length ≤ b.length) : (overwrite b start bytes).length = b.length := by
  simp only [overwrite, List.length_append, List.length_take, List.length_drop]
  omega

theorem take_overwrite {b : Bytes} {start : Nat} {bytes : Bytes}
    (h : start + bytes.length ≤ b.length) :
    (overwrite b start bytes).take (start + bytes.length) = b.take start ++ bytes := by
  unfold overwrite
  have hlen : (b.take start ++ bytes).length = start + bytes.length := by simp; omega
  rw [← hlen, List.take_left]

/-! ## The window -/

/-- The window holds what was received of the stream behind its first `consumed` bytes, and every receive
was given a range of the buffer that is not empty. -/
structure Receiver.Valid (T : Transport) (consumed : Nat) (r : Receiver) : Prop where
  length : r.buffer.length = maximumRequestBufferSize
  fits : r.offset + r.size ≤ maximumRequestBufferSize
  position : consumed + r.size = r.received
  inside : r.received ≤ T.stream.length
  window : r.span r.offset r.size = (T.stream.drop consumed).take r.size
  receives : ∀ x ∈ r.receives, 0 < x.2 ∧ x.1 + x.2 ≤ maximumRequestBufferSize

theorem valid_init (T : Transport) : Receiver.init.Valid T 0 where
  length := List.length_replicate ..
  fits := Nat.zero_le _
  position := rfl
  inside := Nat.zero_le _
  window := rfl
  receives := nofun

variable {T : Transport} {consumed : Nat} {r : Receiver}

theorem recvCount_le (T : Transport) (received room : Nat) :
    T.recvCount received room ≤ room ∧ T.recvCount received room ≤ T.stream.length - received := by
  unfold Transport.recvCount
  omega

theorem recvCount_eq_zero {received room : Nat} (hroom : 0 < room)
    (h : T.recvCount received room = 0) : T.stream.length ≤ received := by
  unfold Transport.recvCount at h
  omega

theorem Receiver.Valid.receive (h : r.Valid T consumed) (hoffset : r.offset = 0)
    (hroom : r.size < maximumRequestBufferSize) :
    Receiver.Valid T consumed
      { buffer := overwrite r.buffer r.size ((T.stream.drop r.received).take
          (T.recvCount r.received (maximumRequestBufferSize - r.size)))
        offset := 0
        size := r.size + T.recvCount r.received (maximumRequestBufferSize - r.size)
        received := r.received + T.recvCount r.received (maximumRequestBufferSize - r.size)
        receives := r.receives ++ [(r.size, maximumRequestBufferSize - r.size)] } := by
  obtain ⟨hroom', hinside'⟩ := recvCount_le T r.received (maximumRequestBufferSize - r.size)
  have hinside := h.inside
  have hposition := h.position
  have hlen : ((T.stream.drop r.received).take
      (T.recvCount r.received (maximumRequestBufferSize - r.size))).length =
        T.recvCount r.received (maximumRequestBufferSize - r.size) := by
    rw [List.length_take, List.length_drop]
    omega
  have hfit : r.size + ((T.stream.drop r.received).take
      (T.recvCount r.received (maximumRequestBufferSize - r.size))).length ≤ r.buffer.length := by
    rw [hlen, h.length]
    omega
  have hwindow : r.buffer.take r.size = (T.stream.drop consumed).take r.size := by
    have := h.window
    rwa [Receiver.span, hoffset, List.drop_zero] at this
  refine ⟨?_, ?_, ?_, ?_, ?_, ?_⟩
  · rw [length_overwrite hfit, h.length]
  · show 0 + (r.size + _) ≤ _
    omega
  · show consumed + (r.size + _) = r.received + _
    omega
  · show r.received + _ ≤ _
    omega
  · show ((overwrite _ _ _).drop 0).take (r.size + _) = _
    have htake := take_overwrite hfit
    rw [hlen] at htake
    rw [List.drop_zero, htake, hwindow, List.take_add, List.drop_drop, hposition]
  · intro x hx
    rcases List.mem_append.mp hx with hx | hx
    · exact h.receives x hx
    · obtain rfl := List.mem_singleton.mp hx
      exact ⟨by show 0 < maximumRequestBufferSize - r.size; omega,
        by show r.size + (maximumRequestBufferSize - r.size) ≤ _; omega⟩

theorem fillLoop_valid {requiredBytes : Nat} (h : r.Valid T consumed) (hoffset : r.offset = 0)
    (hrequired : requiredBytes ≤ maximumRequestBufferSize) :
    (fillLoop T requiredBytes r).Valid T consumed ∧ (fillLoop T requiredBytes r).offset = 0 ∧
      ((fillLoop T requiredBytes r).size < requiredBytes →
        (fillLoop T requiredBytes r).received = T.stream.length) := by
  fun_induction fillLoop T requiredBytes r with
  | case1 r hlt room count r' hcount =>
    refine ⟨h.receive hoffset (by omega), rfl, fun _ => ?_⟩
    have hend := recvCount_eq_zero (by show 0 < maximumRequestBufferSize - r.size; omega) hcount
    have hinside := (h.receive hoffset (by omega)).inside
    show r.received + count = _
    have : r.received ≤ T.stream.length := h.inside
    omega
  | case2 r hlt room count r' hcount ih => exact ih (h.receive hoffset (by omega)) rfl
  | case3 r hge => exact ⟨h, hoffset, fun hlt => absurd hlt hge⟩

/-- `FillData` brings the window to the start of the buffer and adds to it. -/
theorem fillData_valid {requiredBytes : Nat} (h : r.Valid T consumed)
    (hrequired : requiredBytes ≤ maximumRequestBufferSize) :
    (fillData T requiredBytes r).1.Valid T consumed ∧
      ((fillData T requiredBytes r).2 = true → requiredBytes ≤ (fillData T requiredBytes r).1.size) ∧
      ((fillData T requiredBytes r).2 = false →
        (T.stream.drop consumed).length < requiredBytes) := by
  have hmoved : Receiver.Valid T consumed
      { r with
        buffer := if 0 < r.size ∧ r.offset ≠ 0 then copyDown r.offset r.size r.buffer else r.buffer
        offset := 0 } := by
    have hfits := h.fits
    refine ⟨?_, ?_, h.position, h.inside, ?_, h.receives⟩
    · show (ite _ _ _ : Bytes).length = _
      split
      · rw [(getElem?_copyDown r.offset r.size r.buffer (by rw [h.length]; exact hfits)).1, h.length]
      · exact h.length
    · show 0 + r.size ≤ _
      omega
    · show ((ite _ _ _ : Bytes).drop 0).take r.size = _
      rw [List.drop_zero, ← h.window, Receiver.span]
      split
      · exact take_copyDown (by rw [h.length]; exact hfits)
      · next hno =>
        by_cases hsize : r.size = 0
        · rw [hsize, List.take_zero, List.take_zero]
        · have hzero : r.offset = 0 := by omega
          rw [hzero, List.drop_zero]
  obtain ⟨hvalid, -, hend⟩ := fillLoop_valid hmoved rfl hrequired
  refine ⟨hvalid, fun htrue => of_decide_eq_true htrue, fun hfalse => ?_⟩
  have hlt := Nat.lt_of_not_le (of_decide_eq_false hfalse)
  have hreceived := hend hlt
  have hposition := hvalid.position
  rw [List.length_drop]
  omega

/-! ## Messages -/

theorem Receiver.Valid.leAt (h : r.Valid T consumed) (hsize : 4 ≤ r.size) :
    leAt r.offset 4 r.buffer = leAt 0 4 (T.stream.drop consumed) := by
  have htake := congrArg (List.take 4) h.window
  rw [Receiver.span, List.take_take, List.take_take, Nat.min_eq_left hsize] at htake
  rw [Lib.leAt, Lib.leAt, List.drop_zero, htake]

theorem Receiver.Valid.span_eq (h : r.Valid T consumed) {n : Nat} (hn : n ≤ r.size) :
    r.span r.offset n = (T.stream.drop consumed).take n := by
  have htake := congrArg (List.take n) h.window
  rwa [Receiver.span, List.take_take, List.take_take, Nat.min_eq_left hn] at htake

theorem Receiver.Valid.size_le (h : r.Valid T consumed) :
    r.size ≤ (T.stream.drop consumed).length := by
  have hposition := h.position
  have hinside := h.inside
  rw [List.length_drop]
  omega

theorem Receiver.Valid.consume (h : r.Valid T consumed) {n : Nat} (hn : n ≤ r.size) :
    Receiver.Valid T (consumed + n) { r with offset := r.offset + n, size := r.size - n } where
  length := h.length
  fits := by
    have := h.fits
    show r.offset + n + (r.size - n) ≤ _
    omega
  position := by
    have := h.position
    show consumed + n + (r.size - n) = r.received
    omega
  inside := h.inside
  window := by
    have hdrop := congrArg (List.drop n) h.window
    rw [Receiver.span, List.drop_take, List.drop_take, List.drop_drop, List.drop_drop] at hdrop
    exact hdrop
  receives := h.receives

/-- A message is the next frame of the stream, and without one there is none. -/
def NextOk (T : Transport) (negotiatedSize consumed : Nat) (next : NextResult × Receiver) : Prop :=
  match next.1 with
  | .message offset size =>
    ∃ rest, (messageFormat negotiatedSize).next? (T.stream.drop consumed) =
      some (next.2.span offset size, rest) ∧ rest = T.stream.drop (consumed + size) ∧
        next.2.Valid T (consumed + size)
  | _ => (messageFormat negotiatedSize).next? (T.stream.drop consumed) = none ∧
      next.2.Valid T consumed

theorem next?_messageFormat (negotiatedSize : Nat) (l : Bytes) :
    (messageFormat negotiatedSize).next? l =
      if 4 ≤ l.length ∧ 7 ≤ leAt 0 4 l ∧ leAt 0 4 l ≤ negotiatedSize ∧ leAt 0 4 l ≤ l.length then
        some (l.take (leAt 0 4 l), l.drop (leAt 0 4 l))
      else none := by
  have hheader : (messageFormat negotiatedSize).headerLen = 4 := rfl
  have hsizeOf : (messageFormat negotiatedSize).sizeOf l =
      if leAt 0 4 l < 7 ∨ negotiatedSize < leAt 0 4 l then 0 else leAt 0 4 l := rfl
  rw [FrameFormat.next?, hheader, hsizeOf]
  by_cases hsize : leAt 0 4 l < 7 ∨ negotiatedSize < leAt 0 4 l
  · rw [if_pos hsize, if_neg (by omega), if_neg (by omega)]
  · rw [if_neg hsize]
    congr 1
    exact propext ⟨fun h => ⟨h.1, by omega, by omega, h.2.2⟩, fun h => ⟨h.1, by omega, h.2.2.2⟩⟩

theorem nextMessage_ok {negotiatedSize : Nat} (h : r.Valid T consumed)
    (hn : negotiatedSize ≤ maximumRequestBufferSize) :
    NextOk T negotiatedSize consumed (nextMessage T negotiatedSize r) := by
  have hheader : ∀ p : Receiver × Bool,
      p = (if r.size < 4 then fillData T 4 r else (r, true)) →
        p.1.Valid T consumed ∧ (p.2 = true → 4 ≤ p.1.size) ∧
          (p.2 = false → (T.stream.drop consumed).length < 4) := by
    rintro p rfl
    split
    · exact fillData_valid h (by decide)
    · next hge => exact ⟨h, fun _ => Nat.le_of_not_lt hge, nofun⟩
  unfold nextMessage
  generalize hp : (if r.size < 4 then fillData T 4 r else (r, true)) = header
  obtain ⟨hvalid, hfour, hshort⟩ := hheader header hp.symm
  dsimp only
  cases hok : header.2 with
  | false =>
    refine ⟨?_, hvalid⟩
    rw [next?_messageFormat, if_neg (by have := hshort hok; omega)]
  | true =>
    have hsize := hvalid.leAt (hfour hok)
    have hlen := (hvalid.size_le).trans' (hfour hok)
    simp only [if_true, hsize]
    generalize hm : leAt 0 4 (T.stream.drop consumed) = messageSize
    by_cases hbad : messageSize < 7 ∨ negotiatedSize < messageSize
    · rw [if_pos hbad]
      refine ⟨?_, hvalid⟩
      rw [next?_messageFormat, hm, if_neg (by omega)]
    · rw [if_neg hbad]
      have hbody : ∀ p : Receiver × Bool, p = (if header.1.size < messageSize then
          fillData T messageSize header.1 else (header.1, true)) →
            p.1.Valid T consumed ∧ (p.2 = true → messageSize ≤ p.1.size) ∧
              (p.2 = false → (T.stream.drop consumed).length < messageSize) := by
        rintro p rfl
        split
        · exact fillData_valid hvalid (by omega)
        · next hge => exact ⟨hvalid, fun _ => Nat.le_of_not_lt hge, nofun⟩
      generalize hq : (if header.1.size < messageSize then fillData T messageSize header.1
        else (header.1, true)) = body
      obtain ⟨hvalid', hall, hshort'⟩ := hbody body hq.symm
      cases hok' : body.2 with
      | false =>
        refine ⟨?_, hvalid'⟩
        rw [next?_messageFormat, hm, if_neg (by have := hshort' hok'; omega)]
      | true =>
        have hfit := hall hok'
        have hlen' := (hvalid'.size_le).trans' hfit
        refine ⟨(T.stream.drop consumed).drop messageSize, ?_, List.drop_drop, hvalid'.consume hfit⟩
        rw [next?_messageFormat, hm, if_pos ⟨hlen, by omega, by omega, hlen'⟩]
        exact congrArg (fun m => some (m, _)) (hvalid'.span_eq hfit).symm

/-! ## Connections -/

/-- The bytes of the message that waits to be copied, as they are now. -/
def Connection.waiting (c : Connection) : List Bytes :=
  (c.message.map fun m => c.receiver.span m.1 m.2).toList

/-- What holds of a connection after `k` steps. -/
structure Connection.Ok (T : Transport) (negotiatedSize k : Nat) (c : Connection) : Prop where
  decoded : ∃ consumed, c.receiver.Valid T consumed ∧
    (messageFormat negotiatedSize).decode T.stream =
      c.returned ++ (messageFormat negotiatedSize).decode (T.stream.drop consumed) ∧
    (c.finished = true → (messageFormat negotiatedSize).next? (T.stream.drop consumed) = none)
  unaltered : c.copied ++ c.waiting = c.returned
  idle : c.finished = true → c.message = none
  busy : c.finished = false → k + c.waiting.length = 2 * c.returned.length

theorem ok_init (T : Transport) (negotiatedSize : Nat) : Connection.init.Ok T negotiatedSize 0 where
  decoded := ⟨0, valid_init T, rfl, nofun⟩
  unaltered := rfl
  idle := nofun
  busy _ := rfl

theorem Connection.Ok.step {negotiatedSize k : Nat} {c : Connection} (h : c.Ok T negotiatedSize k)
    (hn : negotiatedSize ≤ maximumRequestBufferSize) :
    (c.step T negotiatedSize).Ok T negotiatedSize (k + 1) := by
  obtain ⟨⟨consumed, hvalid, hdecoded, hend⟩, hunaltered, hidle, hbusy⟩ := h
  unfold Connection.step
  by_cases hfinished : c.finished = true
  · rw [if_pos hfinished]
    refine ⟨⟨consumed, hvalid, hdecoded, hend⟩, hunaltered, hidle, fun h => ?_⟩
    rw [hfinished] at h
    cases h
  · rw [if_neg hfinished]
    have hbusy' := hbusy (Bool.eq_false_of_not_eq_true hfinished)
    cases hm : c.message with
    | some m =>
      -- the message is copied as it stands in the buffer
      have hwaiting : c.waiting = [c.receiver.span m.1 m.2] := by rw [Connection.waiting, hm]; rfl
      rw [hwaiting] at hunaltered hbusy'
      refine ⟨⟨consumed, hvalid, hdecoded, fun h => absurd h hfinished⟩, ?_, fun _ => rfl, fun _ => ?_⟩
      · show (c.copied ++ [_]) ++ [] = c.returned
        rw [List.append_nil]
        exact hunaltered
      · show k + 1 + 0 = 2 * c.returned.length
        exact hbusy'
    | none =>
      have hwaiting : c.waiting = [] := by rw [Connection.waiting, hm]; rfl
      rw [hwaiting, List.append_nil] at hunaltered
      rw [hwaiting] at hbusy'
      have hnext := nextMessage_ok hvalid hn
      unfold NextOk at hnext
      dsimp only
      cases hres : (nextMessage T negotiatedSize c.receiver).1 with
      | message offset size =>
        rw [hres] at hnext
        obtain ⟨rest, hframe, rfl, hvalid'⟩ := hnext
        rw [FrameFormat.decode_of_some hframe] at hdecoded
        refine ⟨⟨consumed + size, hvalid', ?_, fun h => absurd h hfinished⟩, ?_,
          fun h => absurd h hfinished, fun _ => ?_⟩
        · rw [hdecoded]
          exact (List.append_assoc _ [_] _).symm
        · show c.copied ++ [_] = c.returned ++ [_]
          rw [hunaltered]
        · show k + 1 + 1 = 2 * (c.returned ++ [_]).length
          rw [List.length_append, List.length_singleton]
          simp only [List.length_nil] at hbusy'
          omega
      | empty =>
        rw [hres] at hnext
        exact ⟨⟨consumed, hnext.2, hdecoded, fun _ => hnext.1⟩,
          by rw [Connection.waiting]; simpa [hm] using hunaltered, fun _ => rfl, nofun⟩
      | invalid =>
        rw [hres] at hnext
        exact ⟨⟨consumed, hnext.2, hdecoded, fun _ => hnext.1⟩,
          by rw [Connection.waiting]; simpa [hm] using hunaltered, fun _ => rfl, nofun⟩

theorem ok_after (T : Transport) {negotiatedSize : Nat}
    (hn : negotiatedSize ≤ maximumRequestBufferSize) (k : Nat) :
    (Connection.after T negotiatedSize k).Ok T negotiatedSize k := by
  induction k with
  | zero => exact ok_init T negotiatedSize
  | succ k ih => exact ih.step hn

/-- What a connection does with the stream of a client. -/
structure Decoded (T : Transport) (negotiatedSize : Nat) : Prop where
  /-- The messages are returned in the order of the stream. -/
  order : ∀ k, (Connection.after T negotiatedSize k).returned <+:
    (messageFormat negotiatedSize).decode T.stream
  /-- The copies are what was returned, and a message that is not copied yet has not changed. -/
  unaltered : ∀ k, (Connection.after T negotiatedSize k).copied ++
    (Connection.after T negotiatedSize k).waiting = (Connection.after T negotiatedSize k).returned
  /-- All messages are taken, up to the first size that is refused or the end of the stream. -/
  complete : ∃ n, ∀ k, n ≤ k → (Connection.after T negotiatedSize k).finished = true ∧
    (Connection.after T negotiatedSize k).copied = (messageFormat negotiatedSize).decode T.stream
  /-- Every receive is given a range of the buffer that is not empty. -/
  receives : ∀ k, ∀ x ∈ (Connection.after T negotiatedSize k).receiver.receives,
    0 < x.2 ∧ x.1 + x.2 ≤ maximumRequestBufferSize

/-- However the transport cuts the stream, its messages are taken as they are. -/
theorem messages_decoded (T : Transport) (negotiatedSize : Nat)
    (hn : negotiatedSize ≤ maximumRequestBufferSize) : Decoded T negotiatedSize where
  order k := by
    obtain ⟨consumed, -, hdecoded, -⟩ := (ok_after T hn k).decoded
    exact ⟨_, hdecoded.symm⟩
  unaltered k := (ok_after T hn k).unaltered
  complete := by
    refine ⟨2 * ((messageFormat negotiatedSize).decode T.stream).length + 1, fun k hk => ?_⟩
    have hok := ok_after T hn k
    obtain ⟨consumed, -, hdecoded, hend⟩ := hok.decoded
    have hlen := congrArg List.length hdecoded
    rw [List.length_append] at hlen
    have hfinished : (Connection.after T negotiatedSize k).finished = true := by
      by_contra hno
      have hbusy := hok.busy (Bool.eq_false_of_not_eq_true hno)
      omega
    have hcopied := hok.unaltered
    rw [Connection.waiting, hok.idle hfinished] at hcopied
    rw [FrameFormat.decode_of_none (hend hfinished), List.append_nil] at hdecoded
    exact ⟨hfinished, by rw [hdecoded, ← hcopied]; exact (List.append_nil _).symm⟩
  receives k := by
    obtain ⟨consumed, hvalid, -⟩ := (ok_after T hn k).decoded
    exact hvalid.receives

/-- Two messages and a third that is cut off, received byte by byte. -/
theorem messages_decoded_64 : Decoded
    ⟨[7, 0, 0, 0, 8, 1, 0, 7, 0, 0, 0, 8, 2, 0, 11, 0], fun _ => 1⟩ 64 :=
  messages_decoded _ 64 (by decide)

end WslFreeBSD.Plan9
