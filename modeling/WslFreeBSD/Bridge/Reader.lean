import WslFreeBSD.Lib.Runs
import WslFreeBSD.Protocol.Messages

/-!
# The buffered message readers of `hvbridge`

`control_try_read`/`control_consume` (`hvbridge.c`) and `interop_try_read`/`interop_consume`
(`interop_server.h`) are the same code over a 512-byte and a 1024-byte buffer. A call receives
once into the free part of the buffer and then looks at the header at its start; the caller
processes the message in place and `consume` moves the rest of the buffer down.

The buffer is memory: bytes at and after `len` are leftovers of earlier messages. What the
reader holds is `Reader.valid`, the first `len` bytes, and the two operations append to it
(`valid_fill`) and drop from its front (`valid_consume`).

The stream invariant `Stream` says that the messages handed out, followed by the messages that
the buffer and the unread part of the socket still contain, are the decoding of everything the
host has sent. Every step keeps it, whatever the kernel returns.
-/

namespace WslFreeBSD.Bridge

open Lib Protocol

/-! ## Receiving from a stream socket -/

/-- What `recv` (or `read`) returns. `got []` is the return value 0, the end of the stream. -/
inductive RecvResult where
  | got (bytes : Bytes)
  | wouldBlock
  | interrupted
  | failed
  deriving DecidableEq, Repr

def RecvResult.bytes : RecvResult → Bytes
  | .got bytes => bytes
  | _ => []

/-- A connected stream socket: all bytes the peer has sent, those not received yet, and
whether the peer has closed. -/
structure InSocket where
  sent : Bytes := []
  queue : Bytes := []
  closed : Bool := false
  deriving DecidableEq, Repr

/-- How the kernel answers the next `recv`: with at most `n + 1` of the queued bytes, or with
an error although the socket is usable. -/
inductive RecvChoice where
  | upTo (n : Nat)
  | interrupted
  | failed
  deriving DecidableEq, Repr

namespace InSocket

/-- The peer sends bytes, unless it has closed, and possibly closes. -/
def deliver (k : InSocket) (bytes : Bytes) (close : Bool) : InSocket :=
  if k.closed then k
  else { sent := k.sent ++ bytes, queue := k.queue ++ bytes, closed := close }

/-- `recv` on a non-blocking socket into `space` free bytes. -/
def recv (k : InSocket) (c : RecvChoice) (space : Nat) : RecvResult × InSocket :=
  match c with
  | .interrupted => (.interrupted, k)
  | .failed => (.failed, k)
  | .upTo n =>
    if k.queue = [] then (if k.closed then .got [] else .wouldBlock, k)
    else (.got (k.queue.take (min (n + 1) space)),
      { k with queue := k.queue.drop (min (n + 1) space) })

theorem recv_got {k k' : InSocket} {c : RecvChoice} {space : Nat} {bytes : Bytes}
    (h : k.recv c space = (.got bytes, k')) :
    k.queue = bytes ++ k'.queue ∧ bytes.length ≤ space ∧ k'.sent = k.sent ∧
      k'.closed = k.closed := by
  unfold recv at h
  cases c with
  | interrupted => cases h
  | failed => cases h
  | upTo n =>
    dsimp only at h
    by_cases hq : k.queue = []
    · rw [if_pos hq] at h
      by_cases hc : k.closed
      · rw [if_pos hc] at h
        cases h
        simp
      · rw [if_neg hc] at h
        cases h
    · rw [if_neg hq] at h
      cases h
      refine ⟨(List.take_append_drop _ _).symm, ?_, rfl, rfl⟩
      simp only [List.length_take]
      omega

theorem recv_eof {k k' : InSocket} {c : RecvChoice} {space : Nat} (hspace : 0 < space)
    (h : k.recv c space = (.got [], k')) : k' = k ∧ k.queue = [] ∧ k.closed = true := by
  unfold recv at h
  cases c with
  | interrupted => cases h
  | failed => cases h
  | upTo n =>
    dsimp only at h
    by_cases hq : k.queue = []
    · rw [if_pos hq] at h
      by_cases hc : k.closed
      · rw [if_pos hc] at h
        cases h
        exact ⟨rfl, hq, hc⟩
      · rw [if_neg hc] at h
        cases h
    · rw [if_neg hq] at h
      simp only [Prod.mk.injEq, RecvResult.got.injEq] at h
      have hlen := congrArg List.length h.1
      have hpos := List.length_pos_iff.mpr hq
      simp only [List.length_take, List.length_nil] at hlen
      omega

theorem recv_other {k k' : InSocket} {c : RecvChoice} {space : Nat} {r : RecvResult}
    (h : k.recv c space = (r, k')) (hr : ∀ bytes, r ≠ .got bytes) : k' = k := by
  unfold recv at h
  cases c with
  | interrupted => cases h; rfl
  | failed => cases h; rfl
  | upTo n =>
    dsimp only at h
    by_cases hq : k.queue = []
    · rw [if_pos hq] at h
      by_cases hc : k.closed
      · rw [if_pos hc] at h; cases h; rfl
      · rw [if_neg hc] at h; cases h; rfl
    · rw [if_neg hq] at h
      cases h
      exact absurd rfl (hr _)

theorem recv_failed {k k' : InSocket} {c : RecvChoice} {space : Nat}
    (h : k.recv c space = (.failed, k')) : c = .failed := by
  unfold recv at h
  cases c with
  | interrupted => cases h
  | failed => rfl
  | upTo n =>
    dsimp only at h
    split at h
    · split at h <;> cases h
    · cases h

theorem recv_zero (k : InSocket) (c : RecvChoice) : (k.recv c 0).1.bytes = [] := by
  unfold recv
  cases c with
  | interrupted => rfl
  | failed => rfl
  | upTo n =>
    dsimp only
    split
    · split <;> rfl
    · simp [RecvResult.bytes]

end InSocket

/-! ## The reader -/

/-- `struct control_reader` / `struct interop_reader` with a buffer of `cap` bytes. -/
structure Reader (cap : Nat) where
  buf : Bytes
  len : Nat
  size_eq : buf.length = cap
  len_le : len ≤ cap

namespace Reader

variable {cap : Nat}

/-- `memset(&cr, 0, sizeof(cr))`. -/
def init (cap : Nat) : Reader cap where
  buf := List.replicate cap 0
  len := 0
  size_eq := List.length_replicate
  len_le := Nat.zero_le _

def valid (r : Reader cap) : Bytes := r.buf.take r.len

/-- The effect of a `recv` that stores `bytes` at `buf + len`. -/
def fill (r : Reader cap) (bytes : Bytes) (h : r.len + bytes.length ≤ cap) : Reader cap where
  buf := r.buf.take r.len ++ bytes ++ r.buf.drop (r.len + bytes.length)
  len := r.len + bytes.length
  size_eq := by
    have := r.size_eq
    simp only [List.length_append, List.length_take, List.length_drop]
    omega
  len_le := h

/-- `control_consume` / `interop_consume`: `memmove` what follows the message to the front. -/
def consume (r : Reader cap) (msgSize : Nat) : Reader cap :=
  if r.len > msgSize then
    { buf := (r.buf.drop msgSize).take (r.len - msgSize) ++ r.buf.drop (r.len - msgSize)
      len := r.len - msgSize
      size_eq := by
        have := r.size_eq
        have := r.len_le
        simp only [List.length_append, List.length_take, List.length_drop]
        omega
      len_le := by have := r.len_le; omega }
  else { r with len := 0, len_le := Nat.zero_le _ }

@[simp] theorem valid_init (cap : Nat) : (init cap).valid = [] := rfl

@[simp] theorem length_valid (r : Reader cap) : r.valid.length = r.len := by
  have := r.size_eq
  have := r.len_le
  simp only [valid, List.length_take]
  omega

theorem valid_fill (r : Reader cap) (bytes : Bytes) (h : r.len + bytes.length ≤ cap) :
    (r.fill bytes h).valid = r.valid ++ bytes := by
  have hlen : (r.valid ++ bytes).length = r.len + bytes.length := by simp
  change (r.valid ++ bytes ++ _).take (r.len + bytes.length) = _
  rw [← hlen, List.take_left]

theorem valid_consume (r : Reader cap) (n : Nat) : (r.consume n).valid = r.valid.drop n := by
  have hs := r.size_eq
  have hl := r.len_le
  by_cases h : r.len > n
  · have hlen : ((r.buf.drop n).take (r.len - n)).length = r.len - n := by
      simp only [List.length_take, List.length_drop]
      omega
    have hc : r.consume n =
        { buf := (r.buf.drop n).take (r.len - n) ++ r.buf.drop (r.len - n)
          len := r.len - n
          size_eq := by simp only [List.length_append, List.length_take, List.length_drop]; omega
          len_le := by omega } := by
      simp only [consume, h, if_true]
    rw [hc]
    change ((r.buf.drop n).take (r.len - n) ++ _).take (r.len - n) = (r.buf.take r.len).drop n
    rw [List.take_append_of_le_length (by omega), List.take_of_length_le (by omega), List.drop_take]
  · have hc : (r.consume n).len = 0 := by simp only [consume, h, if_false]
    have hnil : (r.consume n).valid = [] := by
      apply List.length_eq_zero_iff.mp
      rw [length_valid, hc]
    rw [hnil, List.drop_eq_nil_of_le (by rw [length_valid]; omega)]

end Reader

/-- Return value of `control_try_read`: `-1`, `0` or `1`. -/
inductive ReadCode where
  | error
  | needMore
  | message
  deriving DecidableEq, Repr

/-- The part of `control_try_read` after the `recv`: look at the header in the buffer. -/
def Reader.parse {cap : Nat} (r : Reader cap) : ReadCode :=
  if r.len < headerSize then .needMore
  else if messageSize r.buf < headerSize ∨ messageSize r.buf > cap then .error
  else if r.len < messageSize r.buf then .needMore
  else .message

/-- The outcome of one call: the reader and socket afterwards, what `recv` returned (`none`
when the buffer was full and `recv` was not called) and the return value. -/
structure TryRead (cap : Nat) where
  reader : Reader cap
  socket : InSocket
  recvd : Option RecvResult
  code : ReadCode

/-- `control_try_read` / `interop_try_read` over a buffer of `cap` bytes. -/
def tryRead {cap : Nat} (r : Reader cap) (k : InSocket) (c : RecvChoice) : TryRead cap :=
  if hlen : r.len < cap then
    match hr : k.recv c (cap - r.len) with
    | (.got [], k') => ⟨r, k', some (.got []), .error⟩
    | (.got (b :: bs), k') =>
      let r' := r.fill (b :: bs) (by have := (InSocket.recv_got hr).2.1; omega)
      ⟨r', k', some (.got (b :: bs)), r'.parse⟩
    | (.failed, k') => ⟨r, k', some .failed, .error⟩
    | (res, k') => ⟨r, k', some res, r.parse⟩
  else ⟨r, k, none, r.parse⟩

/-- `sizeof(cr->buf)`. -/
def controlBufSize : Nat := 512

/-- `sizeof(ir->buf)`. -/
def interopBufSize : Nat := 1024

def controlTryRead (r : Reader controlBufSize) (k : InSocket) (c : RecvChoice) :
    TryRead controlBufSize := tryRead r k c

def interopTryRead (r : Reader interopBufSize) (k : InSocket) (c : RecvChoice) :
    TryRead interopBufSize := tryRead r k c

/-- The message at the start of the buffer, as long as its header says. -/
def Reader.message {cap : Nat} (r : Reader cap) : Bytes := r.buf.take (messageSize r.buf)

def controlConsume (r : Reader controlBufSize) (msgSize : Nat) : Reader controlBufSize :=
  r.consume msgSize

def interopConsume (r : Reader interopBufSize) (msgSize : Nat) : Reader interopBufSize :=
  r.consume msgSize

/-! ## What one call does -/

section Calls

variable {cap : Nat} (r : Reader cap) (k : InSocket) (c : RecvChoice)

theorem Reader.messageSize_valid (h : headerSize ≤ r.len) :
    messageSize r.valid = messageSize r.buf := by
  simp only [headerSize] at h
  exact leAt_take (by omega)

theorem Reader.next?_valid :
    messageFormat.next? r.valid =
      if r.parse = .message then some (r.message, (r.consume (messageSize r.buf)).valid)
      else none := by
  have hl := r.len_le
  unfold FrameFormat.next? Reader.parse
  rw [Reader.valid_consume, Reader.length_valid]
  change (if headerSize ≤ r.len ∧ headerSize ≤ messageSize r.valid ∧ messageSize r.valid ≤ r.len
    then some (r.valid.take (messageSize r.valid), r.valid.drop (messageSize r.valid)) else none) = _
  by_cases h12 : r.len < headerSize
  · simp only [h12, if_true, reduceCtorEq, if_false]
    exact if_neg (by omega)
  · rw [r.messageSize_valid (by omega)]
    by_cases hbad : messageSize r.buf < headerSize ∨ messageSize r.buf > cap
    · simp only [h12, hbad, if_true, reduceCtorEq, if_false]
      exact if_neg (by omega)
    · by_cases hshort : r.len < messageSize r.buf
      · simp only [h12, hbad, hshort, if_true, reduceCtorEq, if_false]
        exact if_neg (by omega)
      · simp only [h12, hbad, hshort, if_true, if_false]
        rw [if_pos (by omega), Reader.message, Reader.valid, List.take_take,
          Nat.min_eq_left (by omega)]

theorem Reader.parse_error (h : r.parse = .error) :
    headerSize ≤ r.len ∧ (messageSize r.valid < headerSize ∨ cap < messageSize r.valid) := by
  unfold Reader.parse at h
  split at h
  · cases h
  · rename_i h12
    rw [r.messageSize_valid (by omega)]
    split at h
    · rename_i hbad
      exact ⟨by omega, hbad⟩
    · split at h <;> cases h

theorem Reader.next?_of_badSize (h : messageSize r.valid < headerSize ∨ cap < messageSize r.valid) :
    messageFormat.next? r.valid = none := by
  have hl := r.len_le
  have hv := r.length_valid
  refine if_neg ?_
  rintro ⟨-, hlow, hhigh⟩
  change headerSize ≤ messageSize r.valid at hlow
  change messageSize r.valid ≤ r.valid.length at hhigh
  omega

/-- Why a call can return `-1`: the peer has closed and everything was received, the `recv`
failed, or the header at the start of the held bytes does not announce a size that fits. -/
inductive ErrorCause (out : TryRead cap) : Prop where
  | eof (h : out.recvd = some (.got [])) (empty : out.socket.queue = [])
      (closed : out.socket.closed = true)
  | failed (h : out.recvd = some .failed)
  | badSize (header : headerSize ≤ out.reader.len)
      (size : messageSize out.reader.valid < headerSize ∨ cap < messageSize out.reader.valid)

/-- A call moves bytes from the socket to the reader and leaves everything else alone; a
return value of `-1` has one of the three causes, and otherwise it reports whether the held
bytes start with a complete message. -/
structure CallSpec (out : TryRead cap) : Prop where
  filled : out.reader.valid = r.valid ++ (k.recv c (cap - r.len)).1.bytes
  moved : out.reader.valid ++ out.socket.queue = r.valid ++ k.queue
  sent : out.socket.sent = k.sent
  closed : out.socket.closed = k.closed
  code : out.code = .error ∧ ErrorCause out ∨ out.code = out.reader.parse

theorem tryRead_spec : CallSpec r k c (tryRead r k c) := by
  unfold tryRead
  split
  · rename_i hlen
    split
    · rename_i k' hr
      obtain ⟨rfl, hq, hc⟩ := InSocket.recv_eof (by omega) hr
      exact ⟨by simp [hr, RecvResult.bytes], rfl, rfl, rfl, .inl ⟨rfl, .eof rfl hq hc⟩⟩
    · rename_i b bs k' hr
      obtain ⟨hq, -, hs, hc⟩ := InSocket.recv_got hr
      refine ⟨?_, by rw [Reader.valid_fill, List.append_assoc, ← hq], hs, hc, .inr rfl⟩
      rw [Reader.valid_fill, hr]
      rfl
    · rename_i k' hr
      cases InSocket.recv_other hr (by simp)
      exact ⟨by simp [hr, RecvResult.bytes], rfl, rfl, rfl, .inl ⟨rfl, .failed rfl⟩⟩
    · rename_i res k' h1 h2 h3 hr
      have hres : ∀ bytes, res ≠ .got bytes := by
        intro bytes hb
        subst hb
        cases bytes with
        | nil => exact h1 rfl
        | cons b bs => exact h2 _ _ rfl
      have hk : k' = k := InSocket.recv_other hr hres
      subst hk
      refine ⟨?_, rfl, rfl, rfl, .inr rfl⟩
      rw [hr]
      cases res with
      | got bytes => exact absurd rfl (hres bytes)
      | _ => exact (List.append_nil _).symm
  · -- the buffer is full: `recv` is not called, and would have had no room
    rename_i hlen
    have hl := r.len_le
    have hspace : cap - r.len = 0 := by omega
    refine ⟨?_, rfl, rfl, rfl, .inr rfl⟩
    rw [hspace, InSocket.recv_zero, List.append_nil]

theorem tryRead_message (h : (tryRead r k c).code = .message) :
    messageFormat.next? (tryRead r k c).reader.valid = some ((tryRead r k c).reader.message,
      ((tryRead r k c).reader.consume (messageSize (tryRead r k c).reader.buf)).valid) := by
  rcases (tryRead_spec r k c).code with ⟨he, -⟩ | hp
  · rw [h] at he
    cases he
  · rw [Reader.next?_valid, if_pos (hp ▸ h)]

theorem tryRead_error (h : (tryRead r k c).code = .error) : ErrorCause (tryRead r k c) := by
  rcases (tryRead_spec r k c).code with ⟨-, he⟩ | hp
  · exact he
  · obtain ⟨h12, hbad⟩ := Reader.parse_error _ (hp ▸ h)
    exact .badSize h12 hbad

theorem tryRead_eof (h : (tryRead r k c).recvd = some (.got [])) :
    (tryRead r k c).code = .error ∧ (tryRead r k c).reader = r ∧ (tryRead r k c).socket = k ∧
      k.queue = [] ∧ k.closed = true := by
  unfold tryRead at h ⊢
  split at h
  · rename_i hlen
    rw [dif_pos hlen]
    split at h
    · rename_i k' hr
      obtain ⟨rfl, hq, hc⟩ := InSocket.recv_eof (by omega) hr
      exact ⟨rfl, rfl, rfl, hq, hc⟩
    · cases h
    · cases h
    · rename_i res k' h1 h2 h3 hr
      cases h
      exact absurd rfl h1
  · cases h

theorem tryRead_failed (h : (tryRead r k c).recvd = some .failed) :
    (tryRead r k c).reader = r ∧ c = .failed := by
  unfold tryRead at h ⊢
  split at h
  · rename_i hlen
    rw [dif_pos hlen]
    split at h
    · cases h
    · cases h
    · rename_i k' hr
      exact ⟨rfl, InSocket.recv_failed hr⟩
    · rename_i res k' h1 h2 h3 hr
      cases h
      exact absurd rfl h3
  · cases h

end Calls

/-! ## Reading a whole stream -/

/-- One wake-up: bytes that arrive before it, whether the peer closes, and how the kernel
answers the `recv`. -/
structure ReadEvent where
  arrive : Bytes := []
  close : Bool := false
  choice : RecvChoice := .upTo 0

/-- A reader, its socket and the messages handed to the caller so far. -/
structure Channel (cap : Nat) where
  reader : Reader cap
  socket : InSocket
  handed : List Bytes

namespace Channel

variable {cap : Nat}

def init (cap : Nat) : Channel cap := ⟨Reader.init cap, {}, []⟩

def call (ch : Channel cap) (e : ReadEvent) : TryRead cap :=
  tryRead ch.reader (ch.socket.deliver e.arrive e.close) e.choice

/-- One wake-up: a `try_read`, and a `consume` after the message it hands out. The caller
carries on whatever the return value was. -/
def step (ch : Channel cap) (e : ReadEvent) : Channel cap :=
  let out := ch.call e
  match out.code with
  | .message =>
    { reader := out.reader.consume (messageSize out.reader.buf)
      socket := out.socket
      handed := ch.handed ++ [out.reader.message] }
  | _ => { ch with reader := out.reader, socket := out.socket }

def run (cap : Nat) (es : List ReadEvent) : Channel cap := es.foldl step (init cap)

/-- What was handed out, what the reader holds and what is still queued make up what was
sent, and what was handed out consists of whole messages. -/
structure Stream (ch : Channel cap) : Prop where
  whole : ∀ m ∈ ch.handed, messageFormat.WellFormed m
  sent : ch.socket.sent = ch.handed.flatten ++ (ch.reader.valid ++ ch.socket.queue)

theorem stream_init : Stream (init cap) := ⟨by simp [init], by simp [init]⟩

theorem deliver_sent {k : InSocket} {u : Bytes} (h : k.sent = u ++ k.queue) (bytes : Bytes)
    (close : Bool) : (k.deliver bytes close).sent = u ++ (k.deliver bytes close).queue := by
  unfold InSocket.deliver
  split
  · exact h
  · rw [h, List.append_assoc]

theorem stream_call {ch : Channel cap} (h : Stream ch) (e : ReadEvent) :
    (ch.call e).socket.sent =
      ch.handed.flatten ++ ((ch.call e).reader.valid ++ (ch.call e).socket.queue) := by
  have hspec := tryRead_spec ch.reader (ch.socket.deliver e.arrive e.close) e.choice
  have hsent := deliver_sent (u := ch.handed.flatten ++ ch.reader.valid)
    (by rw [h.sent, List.append_assoc]) e.arrive e.close
  rw [call, hspec.sent, hspec.moved, hsent, List.append_assoc]

theorem stream_step {ch : Channel cap} (h : Stream ch) (e : ReadEvent) : Stream (ch.step e) := by
  have hsent := stream_call h e
  cases hcode : (ch.call e).code with
  | error =>
    simp only [step, hcode]
    exact ⟨h.whole, hsent⟩
  | needMore =>
    simp only [step, hcode]
    exact ⟨h.whole, hsent⟩
  | message =>
    simp only [step, hcode]
    obtain ⟨hwf, hsplit⟩ := FrameFormat.next?_eq_some_iff.mp (tryRead_message _ _ _ hcode)
    refine ⟨?_, ?_⟩
    · intro m hm
      rcases List.mem_append.mp hm with hm | hm
      · exact h.whole m hm
      · rw [List.mem_singleton.mp hm]
        exact hwf
    · change (ch.call e).reader.valid = _ at hsplit
      rw [hsent, hsplit]
      simp only [List.flatten_append, List.flatten_singleton, List.append_assoc, call]

theorem stream_run (es : List ReadEvent) : Stream (run cap es) := by
  unfold run
  induction es using List.reverseRecOn with
  | nil => exact stream_init
  | append_singleton es e ih =>
    rw [List.foldl_concat]
    exact stream_step ih e

/-- The messages handed out are the first messages of the decoding of any stream that starts
with what was sent. -/
theorem Stream.handed_prefix {ch : Channel cap} (h : Stream ch) {stream : Bytes}
    (hs : ch.socket.sent <+: stream) : ch.handed <+: messageFormat.decode stream := by
  obtain ⟨later, rfl⟩ := hs
  rw [h.sent, List.append_assoc, FrameFormat.decode_flatten_append h.whole]
  exact List.prefix_append _ _

/-- The reader of capacity `cap` is correct on a run: what it hands out is the beginning of
the decoding of the stream, and the next call returns `-1` only at the end of the stream,
after a failed `recv`, or in front of a message whose size is below the header size or above
the capacity. -/
def Correct (cap : Nat) (stream : Bytes) (es : List ReadEvent) : Prop :=
  (run cap es).socket.sent <+: stream →
    (run cap es).handed <+: messageFormat.decode stream ∧
    ∀ e, ((run cap es).call e).code = .error →
      (((run cap es).call e).recvd = some (.got []) ∧
        ((run cap es).call e).socket.closed = true ∧
        ((run cap es).call e).socket.sent =
          (run cap es).handed.flatten ++ ((run cap es).call e).reader.valid) ∨
      ((run cap es).call e).recvd = some .failed ∨
      ∃ next, ((run cap es).call e).socket.sent = (run cap es).handed.flatten ++ next ∧
        headerSize ≤ next.length ∧ (messageSize next < headerSize ∨ cap < messageSize next)

theorem correct (cap : Nat) (stream : Bytes) (es : List ReadEvent) : Correct cap stream es := by
  intro hs
  have hinv : Stream (run cap es) := stream_run es
  refine ⟨hinv.handed_prefix hs, ?_⟩
  intro e he
  have hsent := stream_call hinv e
  rcases tryRead_error _ _ _ he with ⟨hr, hq, hc⟩ | hr | ⟨h12, hbad⟩
  · refine .inl ⟨hr, hc, ?_⟩
    change ((run cap es).call e).socket.queue = [] at hq
    rw [hsent, hq, List.append_nil]
  · exact .inr (.inl hr)
  · refine .inr (.inr ⟨_, hsent, ?_, ?_⟩)
    · rw [List.length_append, Reader.length_valid]
      exact Nat.le_add_right_of_le h12
    · have hsize : messageSize (((run cap es).call e).reader.valid ++
          ((run cap es).call e).socket.queue) = messageSize ((run cap es).call e).reader.valid :=
        messageFormat.sizeOf_append _ _ (by rw [Reader.length_valid]; exact h12)
      rw [hsize]
      exact hbad

end Channel

/-- Both readers decode the stream, however it is cut into `recv` results. -/
theorem readers_decode_stream (stream : Bytes) (es : List ReadEvent) :
    Channel.Correct controlBufSize stream es ∧ Channel.Correct interopBufSize stream es :=
  ⟨Channel.correct _ stream es, Channel.correct _ stream es⟩

end WslFreeBSD.Bridge
