import WslFreeBSD.Lib.Bytes
import WslFreeBSD.Lib.Runs
import WslFreeBSD.Lib.WriteLoop

/-!
# The relay of one stream

`wsl_interop_relay_pair` copies from one descriptor to another; the direction only says which is
which. Both are non-blocking. The source is the rest of the stream, up to its end-of-file; the inputs
of a pass are the stop flag, what `poll` reports, how much `read` returns, and the results of the
`write` calls.

In a pass that reports data, `EAGAIN` and `EINTR` are waited out. In a pass that reports a hang-up or
an error there is one `read` of at most 4096 bytes, the writes are not repeated, and the loop is left.
So the whole stream is written exactly if what is left at the hang-up goes through at once
(`relays_iff`).
-/

namespace WslFreeBSD.Interop.RelayPair

open Lib

inductive PollResult
  | interrupted
  | failed
  | timeout
  /-- `hangUp` is any of `POLLERR`, `POLLHUP` and `POLLNVAL`. -/
  | ready (hangUp input : Bool)
  deriving DecidableEq, Repr

/-- The result of `read`: at most `n + 1` bytes, or 0 at the end of the stream. -/
inductive ReadResult
  | upTo (n : Nat)
  | wouldBlock
  | interrupted
  | failed
  deriving DecidableEq, Repr

structure Pass where
  /-- `*stop_flag` at the head of the loop. -/
  stop : Bool := false
  /-- When stopping: there is still something to be read. -/
  drain : Bool := false
  poll : PollResult
  /-- `*stop_flag` after a timeout. -/
  stopIdle : Bool := false
  read : ReadResult := .wouldBlock
  writes : List WriteResult := []
  deriving DecidableEq, Repr

structure Relay where
  /-- What is left of the stream. -/
  source : Bytes
  written : Bytes := []
  deriving DecidableEq, Repr

/-- The bytes that `read` returns. -/
def chunk (source : Bytes) : ReadResult → Bytes
  | .upTo n => source.take (min (n + 1) 4096)
  | _ => []

/-- After `EAGAIN` the loop waits and goes on, however the wait ends, and so it does after `EINTR`. -/
def retries : WriteResult → Bool
  | .wouldBlock _ => true
  | .interrupted => true
  | _ => false

def hangUp (s : Relay) (i : Pass) : Relay where
  source := s.source.drop (chunk s.source i.read).length
  written := s.written ++ (writeLoop (fun _ => false) i.writes (chunk s.source i.read)).1

/-- The branch for `POLLIN`. -/
def readable (s : Relay) (i : Pass) : Relay ⊕ Relay :=
  match i.read with
  | .wouldBlock | .interrupted => .inl s
  | .failed => .inr s
  | .upTo n =>
    if s.source = [] then .inr s
    else
      let data := chunk s.source (.upTo n)
      let out := writeLoop retries i.writes data
      let s' : Relay := { source := s.source.drop data.length, written := s.written ++ out.1 }
      if out.2 then .inl s' else .inr s'

/-- One pass of `wsl_interop_relay_pair`. -/
def pass (s : Relay) (i : Pass) : Relay ⊕ Relay :=
  if i.stop ∧ ¬ i.drain then .inr s
  else
    match i.poll with
    | .interrupted => .inl s
    | .failed => .inr s
    | .timeout => if i.stopIdle then .inr s else .inl s
    | .ready hup input =>
      if hup then .inr (hangUp s i) else if input then readable s i else .inl s

def wslInteropRelayPair (stream : Bytes) (passes : List Pass) : Relay ⊕ Relay :=
  runLoop pass { source := stream } passes

/-! ## Conditions -/

/-- The stop flag is not set, neither descriptor fails, and the destination takes what it is given if
it is offered again after `EAGAIN` and `EINTR`. -/
structure Fair (s : Relay) (i : Pass) : Prop where
  running : i.stop = false ∧ i.stopIdle = false
  poll : i.poll ≠ .failed
  read : i.read ≠ .failed
  accepts : (writeLoop retries i.writes (chunk s.source i.read)).2 = true

/-- If a hang-up is reported, one `read` returns what is left of the stream, and the writes go through
without `EAGAIN` and `EINTR`. -/
def DrainsAtHangUp (s : Relay) (i : Pass) : Prop :=
  ∀ input, i.poll = .ready true input → chunk s.source i.read = s.source ∧
    (writeLoop (fun _ => false) i.writes s.source).2 = true

/-- While the relay runs nothing is lost; when it returns, the whole stream is written. -/
def Relays (stream : Bytes) : Relay ⊕ Relay → Prop :=
  After (fun s => s.written ++ s.source = stream) fun s => s.written = stream

/-! ## One pass -/

section Pass

variable {stream : Bytes} {s s' : Relay} {i : Pass}

theorem chunk_begins (source : Bytes) (r : ReadResult) : chunk source r <+: source := by
  cases r with
  | upTo n => exact List.take_prefix _ _
  | wouldBlock => exact List.nil_prefix
  | interrupted => exact List.nil_prefix
  | failed => exact List.nil_prefix

theorem chunk_append_drop (source : Bytes) (r : ReadResult) :
    chunk source r ++ source.drop (chunk source r).length = source := by
  have htake : chunk source r = source.take (chunk source r).length :=
    List.prefix_iff_eq_take.mp (chunk_begins source r)
  calc chunk source r ++ source.drop (chunk source r).length
      = source.take (chunk source r).length ++ source.drop (chunk source r).length :=
        congrArg (· ++ _) htake
    _ = source := List.take_append_drop _ _

theorem drains_of_poll {hup input : Bool} (hpoll : i.poll = .ready hup input) (hhup : hup = false) :
    DrainsAtHangUp s i := by
  subst hhup
  intro input' h
  rw [hpoll] at h
  cases h

theorem drains_of_not_ready (h : ∀ hup input, i.poll ≠ .ready hup input) : DrainsAtHangUp s i :=
  fun input hready => absurd hready (h true input)

/-- The branch for `POLLIN` writes what it reads, as long as it goes on. -/
theorem readable_inl (h : s.written ++ s.source = stream) (hr : readable s i = .inl s') :
    s'.written ++ s'.source = stream := by
  unfold readable at hr
  cases hread : i.read with
  | upTo n =>
    simp only [hread] at hr
    split at hr
    · cases hr
    split at hr
    next hout =>
      cases hr
      dsimp only
      rw [(writeLoop_snd_iff _ _).mp hout, List.append_assoc, chunk_append_drop, h]
    · cases hr
  | wouldBlock =>
    simp only [hread] at hr
    cases hr
    exact h
  | interrupted =>
    simp only [hread] at hr
    cases hr
    exact h
  | failed =>
    simp only [hread] at hr
    cases hr

theorem readable_inr (hfair : Fair s i) (hr : readable s i = .inr s') : s' = s ∧ s.source = [] := by
  unfold readable at hr
  cases hread : i.read with
  | upTo n =>
    have haccepts := hfair.accepts
    simp only [hread] at hr haccepts
    by_cases hsource : s.source = []
    · rw [if_pos hsource] at hr
      cases hr
      exact ⟨rfl, hsource⟩
    · rw [if_neg hsource, if_pos haccepts] at hr
      cases hr
  | wouldBlock =>
    simp only [hread] at hr
    cases hr
  | interrupted =>
    simp only [hread] at hr
    cases hr
  | failed => exact absurd hread hfair.read

theorem pass_inl (h : s.written ++ s.source = stream) (hr : pass s i = .inl s') :
    s'.written ++ s'.source = stream ∧ DrainsAtHangUp s i := by
  unfold pass at hr
  split at hr
  · cases hr
  cases hpoll : i.poll with
  | interrupted =>
    simp only [hpoll] at hr
    cases hr
    exact ⟨h, drains_of_not_ready (by simp [hpoll])⟩
  | failed =>
    simp only [hpoll] at hr
    cases hr
  | timeout =>
    simp only [hpoll] at hr
    split at hr
    · cases hr
    · cases hr
      exact ⟨h, drains_of_not_ready (by simp [hpoll])⟩
  | ready hup input =>
    simp only [hpoll] at hr
    cases hhup : hup with
    | true =>
      rw [if_pos hhup] at hr
      cases hr
    | false =>
      rw [if_neg (by simp [hhup])] at hr
      refine ⟨?_, drains_of_poll hpoll hhup⟩
      split at hr
      · exact readable_inl h hr
      · cases hr
        exact h

/-- Of the rest of the stream, the last read and its writes take everything exactly if the read
returns it and the writes go through. -/
theorem hangUp_written_iff (h : s.written ++ s.source = stream) : (hangUp s i).written = stream ↔
    chunk s.source i.read = s.source ∧ (writeLoop (fun _ => false) i.writes s.source).2 = true := by
  unfold hangUp
  dsimp only
  rw [← h, List.append_cancel_left_eq]
  constructor
  · intro hall
    have hbegins : (writeLoop (fun _ => false) i.writes (chunk s.source i.read)).1 <+:
        chunk s.source i.read := writeLoop_begins _ _
    have hle := hbegins.length_le
    rw [hall] at hle
    have hchunk : chunk s.source i.read = s.source := (chunk_begins _ _).eq_of_length_le hle
    rw [hchunk] at hall
    exact ⟨hchunk, (writeLoop_snd_iff _ _).mpr hall⟩
  · rintro ⟨hchunk, hout⟩
    rw [hchunk]
    exact (writeLoop_snd_iff _ _).mp hout

theorem pass_inr (h : s.written ++ s.source = stream) (hfair : Fair s i) (hr : pass s i = .inr s') :
    s'.written = stream ↔ DrainsAtHangUp s i := by
  unfold pass at hr
  rw [if_neg (by simp [hfair.running.1])] at hr
  cases hpoll : i.poll with
  | interrupted =>
    simp only [hpoll] at hr
    cases hr
  | failed => exact absurd hpoll hfair.poll
  | timeout =>
    simp only [hpoll, hfair.running.2] at hr
    cases hr
  | ready hup input =>
    simp only [hpoll] at hr
    cases hhup : hup with
    | true =>
      rw [if_pos hhup] at hr
      cases hr
      rw [hhup] at hpoll
      rw [hangUp_written_iff h]
      exact ⟨fun hdrains _ _ => hdrains, fun hall => hall input hpoll⟩
    | false =>
      rw [if_neg (by simp [hhup])] at hr
      split at hr
      · obtain ⟨rfl, hsource⟩ := readable_inr hfair hr
        rw [hsource, List.append_nil] at h
        exact iff_of_true h (drains_of_poll hpoll hhup)
      · cases hr

end Pass

/-! ## Runs -/

/-- **The whole stream is written before the relay returns exactly if at a hang-up what is left of it
goes through in one read and without a repeated write.** -/
theorem relays_iff (stream : Bytes) (passes : List Pass)
    (hfair : Meets pass Fair { source := stream } passes) :
    Relays stream (wslInteropRelayPair stream passes) ↔
      Meets pass DrainsAtHangUp { source := stream } passes :=
  after_runLoop_iff_of_meets (fun _ _ _ h _ hr => pass_inl h hr)
    (fun _ _ _ h hfair hr => pass_inr h hfair hr) (List.nil_append stream) hfair

/-- Two bytes are left at the hang-up, and the destination takes them. -/
theorem relays_two_bytes : Relays (ascii "ab") (wslInteropRelayPair (ascii "ab")
    [{ poll := .ready true true, read := .upTo 4095, writes := [.took 1] }]) :=
  (relays_iff (ascii "ab") [{ poll := .ready true true, read := .upTo 4095, writes := [.took 1] }]
    ⟨⟨⟨rfl, rfl⟩, by decide, by decide, by decide⟩, fun _ hr => nomatch hr⟩).mpr
      ⟨fun _ _ => by decide, fun _ hr => nomatch hr⟩

/-- Two bytes are left at the hang-up, and the destination is full for a moment. -/
theorem hang_up_loses_bytes : ¬ ∀ (stream : Bytes) (passes : List Pass),
    Meets pass Fair { source := stream } passes →
      Relays stream (wslInteropRelayPair stream passes) := by
  intro h
  have hlost : [] = ascii "ab" := h (ascii "ab")
    [{ poll := .ready true true, read := .upTo 4095, writes := [.wouldBlock true, .took 1] }]
    ⟨⟨⟨rfl, rfl⟩, by decide, by decide, by decide⟩, fun _ hr => nomatch hr⟩
  exact absurd hlost (by decide)

end WslFreeBSD.Interop.RelayPair
