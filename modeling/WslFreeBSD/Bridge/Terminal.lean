import Mathlib.Data.List.TakeWhile
import WslFreeBSD.Lib.Relay
import WslFreeBSD.Bridge.Lifecycle

/-!
# The terminal relay

A session copies its input from the host to the PTY master and the output of the PTY master to
the host. Both writes give up after a bounded wait, with part of a chunk written, and the loop
carries on with the next chunk. Only the drain after the child's exit stops at a failed write.

The history of each direction, up to a disconnect, is a history of `Lib.Relay`; the chunk lemma
there says that a direction keeps copying as long as its destination takes nothing after a chunk
that fell short. `terminal_copies` is that statement for whole runs.
-/

namespace WslFreeBSD.Bridge

open Lib Protocol

/-! ## The two directions -/

def bytesReceived (fd : Fd) (t : List Act) : Bytes :=
  t.flatMap fun a =>
    match a with
    | .recv fd' r => if fd' = fd then r.bytes else []
    | _ => []

def bytesWritten (fd : Fd) (t : List Act) : Bytes :=
  t.flatMap fun a =>
    match a with
    | .write fd' _ taken => if fd' = fd then taken else []
    | _ => []

/-- At every point before a disconnect, what the PTY has taken is a prefix of what came from
`stdin_fd`, and what `stdout_fd` has taken is a prefix of what came from the PTY. -/
def StreamsIntact (t : List Act) : Prop :=
  ∀ p, p <+: t → (∀ a ∈ p, a.isDisconnect = false) →
    bytesWritten .pty p <+: bytesReceived .stdin p ∧
      bytesWritten .stdout p <+: bytesReceived .pty p

def Act.relayEvent? (src dst : Fd) : Act → Option (RelayEvent UInt8)
  | .recv fd r => if fd = src then some (.got r.bytes) else none
  | .write fd buf taken => if fd = dst then some (.put buf taken) else none
  | _ => none

/-- The history of one direction while the host is connected. -/
def relayEvents (src dst : Fd) (t : List Act) : List (RelayEvent UInt8) :=
  (t.takeWhile fun a => !a.isDisconnect).filterMap (Act.relayEvent? src dst)

theorem received_relayEvent (src dst : Fd) (t : List Act) :
    received (t.filterMap (Act.relayEvent? src dst)) = bytesReceived src t := by
  induction t with
  | nil => rfl
  | cons a t ih =>
    unfold received bytesReceived at ih ⊢
    rw [List.filterMap_cons, List.flatMap_cons, ← ih]
    cases a with
    | recv fd r => by_cases hfd : fd = src <;> simp [Act.relayEvent?, hfd, RelayEvent.gotBytes]
    | write fd buf taken =>
      by_cases hfd : fd = dst <;> simp [Act.relayEvent?, hfd, RelayEvent.gotBytes]
    | _ => rfl

theorem written_relayEvent (src dst : Fd) (t : List Act) :
    written (t.filterMap (Act.relayEvent? src dst)) = bytesWritten dst t := by
  induction t with
  | nil => rfl
  | cons a t ih =>
    unfold written bytesWritten at ih ⊢
    rw [List.filterMap_cons, List.flatMap_cons, ← ih]
    cases a with
    | recv fd r => by_cases hfd : fd = src <;> simp [Act.relayEvent?, hfd, RelayEvent.putBytes]
    | write fd buf taken =>
      by_cases hfd : fd = dst <;> simp [Act.relayEvent?, hfd, RelayEvent.putBytes]
    | _ => rfl

theorem copies_at {src dst : Fd} {t p : List Act} (h : Copies (relayEvents src dst t)) (hp : p <+: t)
    (hconn : ∀ a ∈ p, a.isDisconnect = false) : bytesWritten dst p <+: bytesReceived src p := by
  have hpre : p.filterMap (Act.relayEvent? src dst) <+: relayEvents src dst t := by
    refine List.IsPrefix.filterMap _ ?_
    have hall : p.takeWhile (fun a => !a.isDisconnect) = p :=
      List.takeWhile_eq_self_iff.mpr fun a ha => by simp [hconn a ha]
    obtain ⟨q, rfl⟩ := hp
    rw [List.takeWhile_append, if_pos (by rw [hall])]
    exact List.prefix_append _ _
  have hcopy := h.at_every_point _ hpre
  rwa [written_relayEvent, received_relayEvent] at hcopy

theorem relayEvents_append (src dst : Fd) (t acts : List Act) :
    relayEvents src dst (t ++ acts) = relayEvents src dst t ∧ (∃ a ∈ t, a.isDisconnect = true) ∨
      relayEvents src dst (t ++ acts) = relayEvents src dst t ++ relayEvents src dst acts := by
  unfold relayEvents
  rw [List.takeWhile_append]
  split
  · rename_i hlen
    have hself : t.takeWhile (fun a => !a.isDisconnect) = t :=
      (List.takeWhile_prefix _).eq_of_length hlen
    rw [List.filterMap_append, hself]
    exact .inr rfl
  · rename_i hlen
    refine .inl ⟨rfl, ?_⟩
    by_contra hnone
    refine hlen (congrArg List.length (List.takeWhile_eq_self_iff.mpr fun a ha => ?_))
    cases hd : a.isDisconnect with
    | false => rfl
    | true => exact absurd ⟨a, ha, hd⟩ hnone

theorem relayEvents_append_quiet {src dst : Fd} (t : List Act) {acts : List Act}
    (hq : ∀ a ∈ acts, a.relayEvent? src dst = none) :
    relayEvents src dst (t ++ acts) = relayEvents src dst t := by
  have hnil : relayEvents src dst acts = [] :=
    List.filterMap_eq_nil_iff.mpr fun a ha => hq a ((List.takeWhile_subset _) ha)
  rcases relayEvents_append src dst t acts with ⟨heq, -⟩ | heq
  · exact heq
  · rw [heq, hnil, List.append_nil]

theorem relayEvents_pair (src dst : Fd) (r : RecvResult) (buf taken : Bytes) :
    relayEvents src dst [.recv src r, .write dst buf taken] = [.got r.bytes, .put buf taken] := by
  simp [relayEvents, Act.isDisconnect, Act.relayEvent?]

theorem copies_empty {src dst : Fd} {t : List Act} (h : Copies (relayEvents src dst t))
    {r : RecvResult} (hr : r.bytes = []) : Copies (relayEvents src dst (t ++ [.recv src r])) := by
  rcases relayEvents_append src dst t [.recv src r] with ⟨heq, -⟩ | heq
  · rw [heq]
    exact h
  · have hev : relayEvents src dst [.recv src r] = [.got []] := by
      simp [relayEvents, hr, Act.isDisconnect, Act.relayEvent?]
    rw [heq, hev]
    exact h.append_empty

theorem copies_pair {src dst : Fd} {t : List Act} (h : Copies (relayEvents src dst t))
    {r : RecvResult} {taken : Bytes} (ht : taken <+: r.bytes)
    (hshort : (relayEvents src dst t).any RelayEvent.isShort = true → taken = []) :
    Copies (relayEvents src dst (t ++ [.recv src r, .write dst r.bytes taken])) := by
  rcases relayEvents_append src dst t [.recv src r, .write dst r.bytes taken] with ⟨heq, -⟩ | heq
  · rw [heq]
    exact h
  · rw [heq, relayEvents_pair]
    exact h.chunk ht hshort

theorem copies_chunk {src dst : Fd} {t : List Act} (h : Copies (relayEvents src dst t))
    {r : RecvResult} {taken : Bytes} (ht : taken <+: r.bytes)
    (hshort : (relayEvents src dst t).any RelayEvent.isShort = true → taken = []) :
    Copies (relayEvents src dst (t ++ (.recv src r ::
      if r.bytes = [] then [] else [.write dst r.bytes taken]))) := by
  split
  · rename_i hempty
    exact copies_empty h hempty
  · exact copies_pair h ht hshort

theorem short_of_pair {src dst : Fd} {t : List Act} {buf : Bytes}
    (h : (relayEvents src dst (t ++ [.recv src (.got buf), .write dst buf buf])).any
      RelayEvent.isShort = true) : (relayEvents src dst t).any RelayEvent.isShort = true := by
  rcases relayEvents_append src dst t [.recv src (.got buf), .write dst buf buf] with ⟨heq, -⟩ | heq
  · rwa [heq] at h
  · rw [heq, relayEvents_pair, List.any_append, Bool.or_eq_true] at h
    rcases h with h | h
    · exact h
    · simp [RelayEvent.isShort] at h

/-! ## The branches -/

/-- The condition under which a pass keeps the streams intact: once a write to a descriptor was
given up before its last byte, the descriptor takes nothing more. -/
structure RelayIntact (s : Session) (i : Pass) : Prop where
  pty : (relayEvents .stdin .pty s.trace).any RelayEvent.isShort = true →
    takenLength waitsWhenBlocked i.ptySend (i.stdinRecv.limit 4096).bytes.length = 0
  stdout : (relayEvents .pty .stdout s.trace).any RelayEvent.isShort = true →
    takenLength waitsWhenBlocked i.stdoutSend (i.ptyRead.limit 4096).bytes.length = 0 ∧
      ∀ r ∈ i.drain, takenLength waitsWhenBlocked r.2 (r.1.take 4096).length = 0

def Act.offTerminal (a : Act) : Bool :=
  (a.relayEvent? .stdin .pty).isNone && (a.relayEvent? .pty .stdout).isNone

def Session.streams (s : Session) : List (RelayEvent UInt8) × List (RelayEvent UInt8) :=
  (relayEvents .stdin .pty s.trace, relayEvents .pty .stdout s.trace)

theorem streams_of_frame {s s' : Session} (acts : List Act) (ht : s'.trace = s.trace ++ acts)
    (hq : ∀ a ∈ acts, a.offTerminal = true) : s'.streams = s.streams := by
  have hparts : ∀ a ∈ acts, a.relayEvent? .stdin .pty = none ∧ a.relayEvent? .pty .stdout = none := by
    intro a ha
    have hoff := hq a ha
    simp only [Act.offTerminal, Bool.and_eq_true, Option.isNone_iff_eq_none] at hoff
    exact hoff
  rw [Session.streams, ht, relayEvents_append_quiet _ fun a ha => (hparts a ha).1,
    relayEvents_append_quiet _ fun a ha => (hparts a ha).2]
  rfl

section Branches

variable (s : Session) (cfg : Setup) (rev : Revents) (i : Pass)

theorem streams_deliver : (s.deliver cfg i).streams = s.streams :=
  streams_of_frame [.poll (s.pollSet cfg)] rfl (by simp [Act.offTerminal, Act.relayEvent?])

theorem streams_timers : (s.timers i).streams = s.streams := by
  have hnow : ({ s with trace := s.trace ++ [.now i.now] } : Session).streams = s.streams :=
    streams_of_frame [.now i.now] rfl (by simp [Act.offTerminal, Act.relayEvent?])
  have hescalate : ∀ s : Session, (s.escalate i).streams = s.streams := by
    intro s
    obtain ⟨acts, ht, hacts⟩ := trace_escalate s i
    refine streams_of_frame acts ht fun a ha => ?_
    rcases hacts a ha with rfl | ⟨status, rfl⟩ <;> rfl
  have hsize : ∀ s : Session, (s.sizeCheck i).streams = s.streams := by
    intro s
    refine streams_of_frame (s.sizeCheckActs i) rfl fun a ha => ?_
    obtain ⟨rows, cols, rfl⟩ := mem_sizeCheckActs ha
    rfl
  exact (hsize _).trans ((hescalate _).trans hnow)

theorem streams_controlBranch : (s.controlBranch rev i).streams = s.streams := by
  have hdisc : ∀ s : Session, (s.disconnect i.disconnectTime).streams = s.streams := by
    intro s
    obtain ⟨acts, ht, hacts⟩ := trace_disconnect s i.disconnectTime
    refine streams_of_frame acts ht fun a ha => ?_
    rcases hacts a ha with rfl | rfl <;> rfl
  have hrecv : ∀ (s : Session) (out : TryRead controlBufSize),
      (s.controlReceived out).streams = s.streams := by
    intro s out
    refine streams_of_frame _ rfl fun a ha => ?_
    obtain ⟨x, rfl⟩ := mem_recvActs ha
    rfl
  have hhandled : ∀ s : Session, (s.controlHandled i).streams = s.streams := by
    intro s
    refine streams_of_frame _ rfl fun a ha => ?_
    rcases List.mem_cons.mp ha with rfl | ha
    · rfl
    · obtain ⟨c, rfl⟩ | rfl | ⟨target, rfl⟩ | ⟨seq, taken, rfl⟩ := mem_controlDispatch ha <;> rfl
  unfold Session.controlBranch
  split
  · rfl
  · dsimp only
    split
    · rw [hdisc, hrecv]
    · rw [hrecv]
    · split
      · rw [hdisc, hhandled, hrecv]
      · rw [hhandled, hrecv]

theorem streams_channelBranch : (s.channelBranch cfg rev i).streams = s.streams := by
  refine streams_of_frame _ rfl fun a ha => ?_
  obtain ⟨r, rfl⟩ | ⟨buf, taken, rfl⟩ := mem_channelActs ha <;> rfl

theorem streams_interopBranch : (s.interopBranch cfg rev i).streams = s.streams := by
  have hrecv : ∀ out : TryRead interopBufSize, (s.interopReceived out).streams = s.streams := by
    intro out
    refine streams_of_frame _ rfl fun a ha => ?_
    obtain ⟨x, rfl⟩ := mem_recvActs ha
    rfl
  have hhandled : ∀ s : Session, s.interopHandled.streams = s.streams := fun s =>
    streams_of_frame _ rfl (by simp [Act.offTerminal, Act.relayEvent?])
  unfold Session.interopBranch
  split
  · dsimp only
    split
    · exact (hhandled _).trans (hrecv _)
    · exact hrecv _
  · rfl

theorem streams_localBranch : (s.localBranch cfg rev i).streams = s.streams := by
  refine streams_of_frame _ rfl fun a ha => ?_
  obtain ⟨seq, result, rfl⟩ | ⟨m, taken, rfl⟩ := mem_localActs ha <;> rfl

end Branches

def BothCopy (s : Session) : Prop := Copies s.streams.1 ∧ Copies s.streams.2

theorem copies_stdinBranch {s : Session} (h : BothCopy s) (rev : Revents) {i : Pass}
    (hC : s.streams.1.any RelayEvent.isShort = true →
      takenLength waitsWhenBlocked i.ptySend (i.stdinRecv.limit 4096).bytes.length = 0) :
    BothCopy (s.stdinBranch rev i) ∧ (s.stdinBranch rev i).streams.2 = s.streams.2 := by
  have hout : (s.stdinBranch rev i).streams.2 = s.streams.2 := by
    refine relayEvents_append_quiet _ fun a ha => ?_
    obtain ⟨r, rfl⟩ | ⟨buf, taken, rfl⟩ := mem_stdinActs ha <;> rfl
  refine ⟨⟨?_, hout ▸ h.2⟩, hout⟩
  change Copies (relayEvents .stdin .pty (s.trace ++ s.stdinActs rev i))
  unfold Session.stdinActs
  dsimp only
  split
  · exact copies_chunk h.1 (writeLoop_begins _ _) fun hshort => writeLoop_eq_nil (hC hshort)
  · rw [List.append_nil]
    exact h.1

theorem streams_of_disconnected {s s' : Session} (h : Inv s) (hd : s.hostDisconnected = true)
    (acts : List Act) (ht : s'.trace = s.trace ++ acts) : s'.streams = s.streams := by
  have hmem : ∃ a ∈ s.trace, a.isDisconnect = true := ⟨_, h.deadline hd, rfl⟩
  have hkeep : ∀ src dst, relayEvents src dst s'.trace = relayEvents src dst s.trace := by
    intro src dst
    rw [ht, relayEvents, List.takeWhile_append, if_neg]
    · rfl
    · intro hlen
      obtain ⟨a, ha, hda⟩ := hmem
      have hself := (List.takeWhile_prefix (fun a : Act => !a.isDisconnect)).eq_of_length hlen
      have hall := List.takeWhile_eq_self_iff.mp hself a ha
      rw [hda] at hall
      cases hall
  rw [Session.streams, hkeep, hkeep]
  rfl

theorem copies_ptyBranch {s : Session} (h : BothCopy s) (hinv : Inv s) (rev : Revents) {i : Pass}
    (hC : s.streams.2.any RelayEvent.isShort = true →
      takenLength waitsWhenBlocked i.stdoutSend (i.ptyRead.limit 4096).bytes.length = 0) :
    BothCopy (s.ptyBranch rev i) := by
  cases hd : s.hostDisconnected with
  | true =>
    have hsame : (s.ptyBranch rev i).streams = s.streams :=
      streams_of_disconnected hinv hd (s.ptyActs rev i) rfl
    exact ⟨hsame ▸ h.1, hsame ▸ h.2⟩
  | false =>
    have hin : (s.ptyBranch rev i).streams.1 = s.streams.1 := by
      refine relayEvents_append_quiet _ fun a ha => ?_
      obtain ⟨r, rfl⟩ | ⟨buf, taken, rfl⟩ := mem_ptyActs ha <;> rfl
    refine ⟨hin ▸ h.1, ?_⟩
    change Copies (relayEvents .pty .stdout (s.trace ++ s.ptyActs rev i))
    unfold Session.ptyActs
    dsimp only
    split
    · simp only [hd, Bool.false_eq_true, or_false]
      exact copies_chunk h.2 (writeLoop_begins _ _) fun hshort => writeLoop_eq_nil (hC hshort)
    · rw [List.append_nil]
      exact h.2

theorem copies_drain {t : List Act} (h : Copies (relayEvents .pty .stdout t))
    {reads : List (Bytes × List WriteResult)}
    (hC : (relayEvents .pty .stdout t).any RelayEvent.isShort = true →
      ∀ r ∈ reads, takenLength waitsWhenBlocked r.2 (r.1.take 4096).length = 0) :
    Copies (relayEvents .pty .stdout (t ++ Session.drainActs true reads)) := by
  induction reads generalizing t with
  | nil => simpa [Session.drainActs] using h
  | cons read reads ih =>
    obtain ⟨chunk, results⟩ := read
    unfold Session.drainActs
    split
    · exact copies_empty h rfl
    · dsimp only
      rw [if_pos rfl, ← List.append_assoc]
      have hpair : Copies (relayEvents .pty .stdout (t ++ [.recv .pty (.got (chunk.take 4096)),
          .write .stdout (chunk.take 4096) (sendAll results (chunk.take 4096)).1])) :=
        copies_pair h (writeLoop_begins results (chunk.take 4096)) fun hshort =>
          writeLoop_eq_nil (hC hshort _ List.mem_cons_self)
      split
      · rename_i hok
        have hwhole : (sendAll results (chunk.take 4096)).1 = chunk.take 4096 :=
          (writeLoop_snd_iff _ _).mp hok
        refine ih hpair fun hshort r hr => hC ?_ r (List.mem_cons_of_mem _ hr)
        rw [hwhole] at hshort
        exact short_of_pair hshort
      · rw [List.append_nil]
        exact hpair

theorem copies_childExited {s : Session} (h : BothCopy s) (hinv : Inv s) {i : Pass}
    (hC : s.streams.2.any RelayEvent.isShort = true →
      ∀ r ∈ i.drain, takenLength waitsWhenBlocked r.2 (r.1.take 4096).length = 0)
    (status : WaitStatus) : BothCopy (s.childExited i status) := by
  cases hd : s.hostDisconnected with
  | true =>
    have hsame : (s.childExited i status).streams = s.streams :=
      streams_of_disconnected hinv hd ([.collected status] ++
        Session.drainActs (!s.hostDisconnected) i.drain ++ s.exitActs i status)
        (by simp [Session.childExited])
    exact ⟨hsame ▸ h.1, hsame ▸ h.2⟩
  | false =>
    have htrace : (s.childExited i status).trace =
        s.trace ++ [.collected status] ++ Session.drainActs true i.drain ++ s.exitActs i status := by
      simp [Session.childExited, hd]
    have hcollect : ∀ src dst, relayEvents src dst (s.trace ++ [.collected status]) =
        relayEvents src dst s.trace := fun src dst =>
      relayEvents_append_quiet _ (by simp [Act.relayEvent?])
    have hexit : ∀ src dst t, relayEvents src dst (t ++ s.exitActs i status) =
        relayEvents src dst t := by
      intro src dst t
      refine relayEvents_append_quiet _ fun a ha => ?_
      rw [mem_exitActs ha]
      rfl
    refine ⟨?_, ?_⟩
    · change Copies (relayEvents .stdin .pty (s.childExited i status).trace)
      rw [htrace, hexit, relayEvents_append_quiet, hcollect]
      · exact h.1
      · intro a ha
        obtain ⟨r, rfl⟩ | ⟨buf, taken, rfl⟩ := mem_drainActs ha <;> rfl
    · change Copies (relayEvents .pty .stdout (s.childExited i status).trace)
      rw [htrace, hexit]
      refine copies_drain ?_ ?_
      · rw [hcollect]
        exact h.2
      · rw [hcollect]
        exact hC

/-! ## Whole runs -/

theorem copies_channels {s : Session} (h : BothCopy s) (hinv : Inv s) (cfg : Setup) (rev : Revents)
    {i : Pass} (hC : RelayIntact s i) : BothCopy (s.channels cfg rev i) := by
  have hcontrol := streams_controlBranch s rev i
  have h1 : BothCopy (s.controlBranch rev i) := ⟨hcontrol ▸ h.1, hcontrol ▸ h.2⟩
  obtain ⟨h2, hsame⟩ := copies_stdinBranch h1 rev (i := i) (by rw [hcontrol]; exact hC.pty)
  have h3 : BothCopy (((s.controlBranch rev i).stdinBranch rev i).ptyBranch rev i) := by
    refine copies_ptyBranch h2 ((hinv.controlBranch rev i).stdinBranch rev i) rev ?_
    rw [hsame, hcontrol]
    exact fun hshort => (hC.stdout hshort).1
  have hrest := (streams_localBranch _ cfg rev i).trans ((streams_interopBranch _ cfg rev i).trans
    (streams_channelBranch (((s.controlBranch rev i).stdinBranch rev i).ptyBranch rev i) cfg rev i))
  exact ⟨hrest ▸ h3.1, hrest ▸ h3.2⟩

theorem copies_iterate {cfg : Setup} {s : Session} {i : Pass} (hat : AtPoll s) (h : BothCopy s)
    (hC : RelayIntact s i) : After BothCopy BothCopy (Session.iterate cfg s i) := by
  have hds := streams_deliver s cfg i
  have hd : BothCopy (s.deliver cfg i) := ⟨hds ▸ h.1, hds ▸ h.2⟩
  have hts := (streams_timers (s.deliver cfg i) i).trans hds
  have ht : BothCopy ((s.deliver cfg i).timers i) := ⟨hts ▸ h.1, hts ▸ h.2⟩
  have hCt : RelayIntact ((s.deliver cfg i).timers i) i := by
    refine ⟨fun hshort => hC.pty ?_, fun hshort => hC.stdout ?_⟩
    · change ((s.deliver cfg i).timers i).streams.1.any _ = true at hshort
      rwa [hts] at hshort
    · change ((s.deliver cfg i).timers i).streams.2.any _ = true at hshort
      rwa [hts] at hshort
  have hinv := (hat.1.deliver cfg i).timers i
  unfold Session.iterate
  dsimp only
  split
  · split
    · exact hd
    · exact hd
  · split
    · have hsame : ({ s.deliver cfg i with
          trace := (s.deliver cfg i).trace ++ [.pollFailed] } : Session).streams =
          (s.deliver cfg i).streams :=
        streams_of_frame [.pollFailed] rfl (by simp [Act.offTerminal, Act.relayEvent?])
      exact ⟨hsame ▸ hd.1, hsame ▸ hd.2⟩
    · have hsame : (({ s.deliver cfg i with
          trace := (s.deliver cfg i).trace ++ [.pollFailed] } : Session).killAndWait
          i.pollFailedWait).streams = (s.deliver cfg i).streams := by
        obtain ⟨acts, htrace, hacts⟩ := trace_pollFailed (s.deliver cfg i) i.pollFailedWait
        refine streams_of_frame acts htrace fun a ha => ?_
        rcases hacts a ha with rfl | rfl | rfl <;> rfl
      exact ⟨hsame ▸ hd.1, hsame ▸ hd.2⟩
  · rename_i rev hpoll
    split
    · exact hd
    · split
      · exact copies_childExited ht hinv (fun hshort => (hCt.stdout hshort).2) _
      · have hc := copies_channels ht hinv cfg rev hCt
        split
        · exact hc
        · exact hc

theorem copies_init (cfg : Setup) : BothCopy (Session.init cfg) := by
  have hnil : ∀ src dst, relayEvents src dst (Session.init cfg).trace = [] := by
    intro src dst
    refine List.filterMap_eq_nil_iff.mpr fun a ha => ?_
    obtain ⟨fd, rfl⟩ | rfl | rfl := mem_initTrace (List.takeWhile_subset _ ha) <;> rfl
  refine ⟨?_, ?_⟩
  · change Copies (relayEvents .stdin .pty (Session.init cfg).trace)
    rw [hnil]
    exact Copies.nil
  · change Copies (relayEvents .pty .stdout (Session.init cfg).trace)
    rw [hnil]
    exact Copies.nil

/-- In every run in which a descriptor takes nothing after a write to it was given up, both
directions of the terminal are copied without a gap, at every point before a disconnect and
through the drain after the child's exit. -/
theorem terminal_copies (cfg : Setup) (passes : List Pass)
    (hC : Meets (Session.iterate cfg) RelayIntact (Session.init cfg) passes) :
    After (fun s => StreamsIntact s.trace) (fun s => StreamsIntact s.trace)
      (runLoop (Session.iterate cfg) (Session.init cfg) passes) := by
  have hrun : After (fun s => AtPoll s ∧ BothCopy s) BothCopy
      (runLoop (Session.iterate cfg) (Session.init cfg) passes) := by
    refine runLoop_inv_of_meets (fun s i h hC => ?_) ⟨atPoll_init cfg, copies_init cfg⟩ hC
    have hat := iterate_atPoll cfg s i h.1
    have hcopy : After BothCopy BothCopy (Session.iterate cfg s i) := copies_iterate h.1 h.2 hC
    cases hstep : Session.iterate cfg s i with
    | inl s' =>
      rw [hstep] at hat hcopy
      exact ⟨hat, hcopy⟩
    | inr s' =>
      rw [hstep] at hcopy
      exact hcopy
  have hpoint : ∀ s : Session, BothCopy s → StreamsIntact s.trace := fun s hs p hp hconn =>
    ⟨copies_at hs.1 hp hconn, copies_at hs.2 hp hconn⟩
  cases hr : runLoop (Session.iterate cfg) (Session.init cfg) passes with
  | inl s =>
    rw [hr] at hrun
    exact hpoint s hrun.2
  | inr s =>
    rw [hr] at hrun
    exact hpoint s hrun

/-- Input from the host, written to the PTY with these results. -/
def inputPass (bytes : Bytes) (results : List WriteResult) : Pass :=
  { stdinRecv := .got bytes, poll := .ready { stdin := true }, ptySend := results }

/-- The PTY takes one of two bytes, is full for a second, and takes the next one later. -/
def gapPasses : List Pass :=
  [inputPass [97, 98] [.took 0, .wouldBlock false], inputPass [99] [.took 0]]

theorem input_lost_after_timeout :
    ¬ ∀ (cfg : Setup) (passes : List Pass), After (fun s => StreamsIntact s.trace)
      (fun s => StreamsIntact s.trace) (runLoop (Session.iterate cfg) (Session.init cfg) passes) := by
  intro h
  have hrun : ∃ s, runLoop (Session.iterate {}) (Session.init {}) gapPasses = .inl s ∧
      (∀ a ∈ s.trace, a.isDisconnect = false) ∧ bytesWritten .pty s.trace = [97, 99] ∧
      bytesReceived .stdin s.trace = [97, 98, 99] := ⟨_, rfl, by decide, by decide, by decide⟩
  obtain ⟨s, hs, hconn, hwritten, hreceived⟩ := hrun
  have hintact := h {} gapPasses
  rw [hs] at hintact
  have hpre := (hintact s.trace List.prefix_rfl hconn).1
  rw [hwritten, hreceived] at hpre
  revert hpre
  decide

def fullPasses : List Pass :=
  [inputPass [97, 98] [.took 0, .wouldBlock false], inputPass [99] [.wouldBlock false]]

theorem terminal_copies_full :
    After (fun s => StreamsIntact s.trace) (fun s => StreamsIntact s.trace)
      (runLoop (Session.iterate {}) (Session.init {}) fullPasses) := by
  refine terminal_copies {} fullPasses ⟨⟨?_, ?_⟩, fun s' hs' => ⟨⟨?_, ?_⟩, fun _ _ => trivial⟩⟩
  · decide
  · decide
  · exact fun _ => by decide
  · exact fun _ => ⟨by decide, by decide⟩

end WslFreeBSD.Bridge
