import WslFreeBSD.Bridge.Passes

/-!
# The size of the terminal

The size of the terminal is kept twice: in the PTY and in the tracker that tells a resize by the
host from one by a program in the guest. A `WindowSizeChanged` message sets the PTY first and
the tracker second, and the tracker takes the size of the message even when the PTY did not: the
next size check then reports the old size to the host as if the guest had chosen it.

As long as every resize reaches the PTY (`ResizeApplied`), the two agree at every size check and
the host is told nothing (`resizes_stay_silent`).
-/

namespace WslFreeBSD.Bridge

open Lib Protocol

/-! ## Sizes -/

/-- The tracked size is the size of the PTY. -/
structure Session.Synced (s : Session) : Prop where
  rows : s.fst.trackedRows = s.pty.rows
  cols : s.fst.trackedCols = s.pty.cols

def Act.isSizeNotice : Act → Bool
  | .controlWrite (.windowSizeChanged _ _) _ => true
  | _ => false

def Silent (t : List Act) : Prop := ∀ a ∈ t, a.isSizeNotice = false

/-- The size in a `WindowSizeChanged` message that is long enough to have one. -/
def windowSize? (mem : Bytes) : Option (UInt16 × UInt16) :=
  if messageType mem = LxInitMessageWindowSizeChanged ∧ 16 ≤ messageSize mem then
    some (UInt16.ofNat (leAt 12 2 mem), UInt16.ofNat (leAt 14 2 mem))
  else none

namespace Session

/-- The buffer with the message that a pass takes from the control channel. -/
def controlTaken (s : Session) (i : Pass) : Option Bytes :=
  match i.poll with
  | .ready rev =>
    let out := controlTryRead s.cr (s.controlIn.deliver i.controlArrive i.controlClose) i.controlRecv
    if ¬ s.hostDisconnected ∧ rev.control ∧ out.code = .message then some out.reader.buf else none
  | _ => none

/-- The state in which a pass looks at the size. -/
def atSizeCheck (s : Session) (cfg : Setup) (i : Pass) : Session :=
  let s := s.deliver cfg i
  ({ s with trace := s.trace ++ [.now i.now] } : Session).escalate i

end Session

/-- The size the host asks for reaches the PTY, or it is the size the PTY has. -/
def ResizeApplied (s : Session) (i : Pass) : Prop :=
  ∀ mem rows cols, s.controlTaken i = some mem → windowSize? mem = some (rows, cols) →
    (rows ≠ 0 ∧ cols ≠ 0 ∧ i.setIoctl = true) ∨ (rows = s.pty.rows ∧ cols = s.pty.cols)

/-! ## The branches keep the two sizes together -/

/-- The sizes and the silence are kept from `s` to `s'`. -/
structure Keeps (s s' : Session) : Prop where
  fst : s'.fst = s.fst
  pty : s'.pty = s.pty
  adds : InPass s s'

namespace Keeps

variable {s s' s'' : Session}

theorem trans (h : Keeps s s') (h' : Keeps s' s'') : Keeps s s'' :=
  ⟨h'.fst.trans h.fst, h'.pty.trans h.pty, h.adds.trans h'.adds⟩

theorem synced (h : Keeps s s') (hs : s.Synced) : s'.Synced := by
  refine ⟨?_, ?_⟩
  · rw [h.fst, h.pty]
    exact hs.rows
  · rw [h.fst, h.pty]
    exact hs.cols

end Keeps

theorem silent_of_inPass {s s' : Session} (h : InPass s s') (hs : Silent s.trace) :
    Silent s'.trace := by
  refine Adds.forall_mem (h.mono fun a ha => ?_) hs
  cases a with
  | controlWrite m taken =>
    cases m with
    | windowSizeChanged rows cols => cases ha
    | _ => rfl
  | _ => rfl

section Branches

variable (s : Session) (cfg : Setup) (rev : Revents) (i : Pass)

theorem keeps_deliver (hguest : i.guestResize = none) : Keeps s (s.deliver cfg i) :=
  ⟨rfl, by simp [Session.deliver, hguest], inPass_deliver s cfg i⟩

theorem keeps_escalate : Keeps s (s.escalate i) := by
  have hsizes : (s.escalate i).fst = s.fst ∧ (s.escalate i).pty = s.pty := by
    unfold Session.escalate
    split
    · split <;> exact ⟨rfl, rfl⟩
    · exact ⟨rfl, rfl⟩
  exact ⟨hsizes.1, hsizes.2, inPass_escalate s i⟩

theorem keeps_atSizeCheck (hguest : i.guestResize = none) : Keeps s (s.atSizeCheck cfg i) := by
  have hnow : ∀ s : Session, Keeps s { s with trace := s.trace ++ [.now i.now] } := fun s =>
    ⟨rfl, rfl, inPass_now s i.now⟩
  exact (keeps_deliver s cfg i hguest).trans ((hnow _).trans (keeps_escalate _ i))

theorem sizeCheck_synced {s : Session} (h : s.Synced) :
    (s.sizeCheck i).Synced ∧ (s.sizeCheck i).trace = s.trace ∧ (s.sizeCheck i).pty = s.pty := by
  have hacts : s.sizeCheckActs i = [] := by
    unfold Session.sizeCheckActs
    rw [h.rows, h.cols]
    simp
  refine ⟨?_, ?_, rfl⟩
  · unfold Session.sizeCheck
    split
    · exact ⟨rfl, rfl⟩
    · exact ⟨h.rows, h.cols⟩
  · change s.trace ++ s.sizeCheckActs i = s.trace
    rw [hacts, List.append_nil]

theorem keeps_interopBranch : Keeps s (s.interopBranch cfg rev i) := by
  have hsizes : (s.interopBranch cfg rev i).fst = s.fst ∧ (s.interopBranch cfg rev i).pty = s.pty := by
    unfold Session.interopBranch
    split
    · dsimp only
      split <;> exact ⟨rfl, rfl⟩
    · exact ⟨rfl, rfl⟩
  exact ⟨hsizes.1, hsizes.2, inPass_interopBranch s cfg rev i⟩

theorem dispatch_synced {mem : Bytes} {fst : FontSizeTracker} {pty : Winsize}
    (hrows : fst.trackedRows = pty.rows) (hcols : fst.trackedCols = pty.cols)
    (happlied : ∀ rows cols, windowSize? mem = some (rows, cols) →
      (rows ≠ 0 ∧ cols ≠ 0 ∧ i.setIoctl = true) ∨ (rows = pty.rows ∧ cols = pty.cols)) :
    (controlDispatch mem fst pty i).fst.trackedRows = (controlDispatch mem fst pty i).pty.rows ∧
      (controlDispatch mem fst pty i).fst.trackedCols = (controlDispatch mem fst pty i).pty.cols := by
  unfold controlDispatch
  split
  · rename_i htype
    split
    · rename_i hsize
      obtain ⟨hr, hc, hioctl⟩ | ⟨hr, hc⟩ := happlied _ _ (if_pos ⟨htype, hsize⟩)
      · have hpty : updatePtyWinsize pty (UInt16.ofNat (leAt 12 2 mem))
            (UInt16.ofNat (leAt 14 2 mem)) i.setIoctl =
            { rows := UInt16.ofNat (leAt 12 2 mem), cols := UInt16.ofNat (leAt 14 2 mem) } := by
          unfold updatePtyWinsize
          rw [if_neg (not_or.mpr ⟨hr, hc⟩), if_pos hioctl]
        dsimp only
        rw [hpty]
        split <;> exact ⟨rfl, rfl⟩
      · -- the PTY has the size already, whether it is set once more or not
        dsimp only
        unfold updatePtyWinsize
        rw [hr, hc]
        split <;> split <;> try split
        all_goals exact ⟨rfl, rfl⟩
    · exact ⟨hrows, hcols⟩
  · split
    · exact ⟨hrows, hcols⟩
    · split
      · exact ⟨hrows, hcols⟩
      · split <;> exact ⟨hrows, hcols⟩

theorem synced_controlBranch {s : Session} (hs : s.Synced)
    (happlied : ¬ s.hostDisconnected → rev.control → ∀ rows cols,
      (controlTryRead s.cr s.controlIn i.controlRecv).code = .message →
      windowSize? (controlTryRead s.cr s.controlIn i.controlRecv).reader.buf = some (rows, cols) →
        (rows ≠ 0 ∧ cols ≠ 0 ∧ i.setIoctl = true) ∨ (rows = s.pty.rows ∧ cols = s.pty.cols)) :
    (s.controlBranch rev i).Synced := by
  unfold Session.controlBranch
  split
  · exact hs
  · rename_i hconn
    obtain ⟨hconn, hrev⟩ := not_or.mp hconn
    dsimp only
    split
    · exact ⟨hs.rows, hs.cols⟩
    · exact ⟨hs.rows, hs.cols⟩
    · rename_i hcode
      have hsync := dispatch_synced i hs.rows hs.cols fun rows cols =>
        happlied hconn (not_not.mp hrev) rows cols hcode
      split <;> exact ⟨hsync.1, hsync.2⟩

theorem keeps_channels : Keeps (s.controlBranch rev i) (s.channels cfg rev i) := by
  have hstdin : ∀ s : Session, Keeps s (s.stdinBranch rev i) := fun s =>
    ⟨rfl, rfl, inPass_stdinBranch s rev i⟩
  have hpty : ∀ s : Session, Keeps s (s.ptyBranch rev i) := fun s =>
    ⟨rfl, rfl, inPass_ptyBranch s rev i⟩
  have hchannel : ∀ s : Session, Keeps s (s.channelBranch cfg rev i) := fun s =>
    ⟨rfl, rfl, inPass_channelBranch s cfg rev i⟩
  have hlocal : ∀ s : Session, Keeps s (s.localBranch cfg rev i) := fun s =>
    ⟨rfl, rfl, inPass_localBranch s cfg rev i⟩
  exact (hstdin _).trans <| (hpty _).trans <| (hchannel _).trans <|
    (keeps_interopBranch _ cfg rev i).trans (hlocal _)

theorem atSizeCheck_control : (s.atSizeCheck cfg i).cr = s.cr ∧
    (s.atSizeCheck cfg i).controlIn = s.controlIn.deliver i.controlArrive i.controlClose ∧
    (s.atSizeCheck cfg i).hostDisconnected = s.hostDisconnected := by
  unfold Session.atSizeCheck Session.escalate
  dsimp only
  split
  · split <;> exact ⟨rfl, rfl, rfl⟩
  · exact ⟨rfl, rfl, rfl⟩

end Branches

/-! ## Runs -/

/-- The sizes agree and the host was told nothing. -/
def Quiet (s : Session) : Prop := s.Synced ∧ Silent s.trace

theorem synced_of_applied {s : Session} (cfg : Setup) {i : Pass} {rev : Revents} (hs : s.Synced)
    (hguest : i.guestResize = none) (happlied : ResizeApplied s i) (hpoll : i.poll = .ready rev) :
    (((s.atSizeCheck cfg i).sizeCheck i).controlBranch rev i).Synced := by
  have hcheck := keeps_atSizeCheck s cfg i hguest
  have hsize := sizeCheck_synced i (hcheck.synced hs)
  obtain ⟨hcr, hin, hdisc⟩ := atSizeCheck_control s cfg i
  refine synced_controlBranch rev i hsize.1 fun hconn hrev rows cols hcode hwin => ?_
  change ¬ (s.atSizeCheck cfg i).hostDisconnected = true at hconn
  change (controlTryRead (s.atSizeCheck cfg i).cr (s.atSizeCheck cfg i).controlIn
    i.controlRecv).code = .message at hcode
  change windowSize? (controlTryRead (s.atSizeCheck cfg i).cr (s.atSizeCheck cfg i).controlIn
    i.controlRecv).reader.buf = some (rows, cols) at hwin
  rw [hdisc] at hconn
  rw [hcr, hin] at hcode hwin
  rw [hsize.2.2, hcheck.pty]
  refine happlied _ rows cols ?_ hwin
  simp only [Session.controlTaken, hpoll]
  exact if_pos ⟨hconn, hrev, hcode⟩

theorem quiet_iterate {cfg : Setup} {s : Session} {i : Pass} (h : Quiet s)
    (hguest : i.guestResize = none) (happlied : ResizeApplied s i) :
    After Quiet (fun s => Silent s.trace) (Session.iterate cfg s i) := by
  have hdeliver := keeps_deliver s cfg i hguest
  have hsilent := silent_of_inPass hdeliver.adds h.2
  unfold Session.iterate
  dsimp only
  split
  · split
    · exact hsilent
    · exact ⟨hdeliver.synced h.1, hsilent⟩
  · have hfailed : InPass (s.deliver cfg i)
        { s.deliver cfg i with trace := (s.deliver cfg i).trace ++ [.pollFailed] } :=
      ⟨_, rfl, by simp [Act.inPass]⟩
    split
    · exact silent_of_inPass hfailed hsilent
    · exact silent_of_inPass (hfailed.trans (inPass_killAndWait _ _)) hsilent
  · rename_i rev hpoll
    split
    · exact hsilent
    · have hcheck := keeps_atSizeCheck s cfg i hguest
      have hsize := sizeCheck_synced i (hcheck.synced h.1)
      have htimers : Silent ((s.deliver cfg i).timers i).trace := by
        change Silent ((s.atSizeCheck cfg i).sizeCheck i).trace
        rw [hsize.2.1]
        exact silent_of_inPass hcheck.adds h.2
      split
      · exact silent_of_inPass (inPass_childExited _ i _) htimers
      · have hcontrol := synced_of_applied cfg h.1 hguest happlied hpoll
        have hchannels := silent_of_inPass (inPass_channels _ cfg rev i) htimers
        split
        · exact hchannels
        · exact ⟨(keeps_channels _ cfg rev i).synced hcontrol, hchannels⟩

def Outcome.trace : Outcome → List Act
  | .running s => s.trace
  | .returned t _ => t

theorem quiet_init (cfg : Setup) : Quiet (Session.init cfg) := by
  refine ⟨⟨rfl, rfl⟩, fun a ha => ?_⟩
  obtain ⟨fd, rfl⟩ | rfl | rfl := mem_initTrace ha <;> rfl

theorem silent_openActs (cfg : Setup) : Silent (openActs cfg) := fun a ha =>
  (quiet_init cfg).2 a (List.mem_append_left _ ha)

theorem silent_closeSigchld (cfg : Setup) : Silent (Session.closeSigchld cfg) := by
  unfold Silent Session.closeSigchld
  cases cfg.pipe <;> simp [Act.isSizeNotice]

theorem silent_append {t u : List Act} (ht : Silent t) (hu : Silent u) : Silent (t ++ u) :=
  List.forall_mem_append.mpr ⟨ht, hu⟩

theorem silent_cleanup (cfg : Setup) {s : Session} (hs : Silent s.trace) (final : WaitStatus) :
    Silent (s.cleanup cfg final).trace := by
  have hleft : Silent (s.trace ++ [.loopLeft]) := silent_append hs (by simp [Silent, Act.isSizeNotice])
  have hpty : Silent [.closed .pty] := by simp [Silent, Act.isSizeNotice]
  have hlisten : Silent (if cfg.server = .listening then [.closed .interopListen] else []) := by
    cases cfg.server <;> simp [Silent, Act.isSizeNotice]
  have hfile : Silent (if cfg.server = .noDirectory then [] else [.socketFile false]) := by
    cases cfg.server <;> simp [Silent, Act.isSizeNotice]
  refine silent_append (silent_append (silent_append (silent_append ?_ hpty) hlisten) hfile)
    (silent_closeSigchld cfg)
  split
  · exact hleft
  · exact silent_of_inPass (inPass_killAndWait _ final) hleft

/-- In a run in which no program in the guest sets the size and every resize by the host reaches
the PTY, the host is never told a size and the tracked size is that of the PTY at every size
check. -/
theorem resizes_stay_silent (cfg : Setup) (passes : List Pass) (final : WaitStatus)
    (hguest : ∀ i ∈ passes, i.guestResize = none)
    (happlied : Meets (Session.iterate cfg) ResizeApplied (Session.init cfg) passes) :
    Silent (runSession cfg passes final).trace ∧
      Meets (Session.iterate cfg) (fun s i => (s.atSizeCheck cfg i).Synced) (Session.init cfg)
        passes := by
  have hC := Meets.and_forall hguest happlied
  have hstep : ∀ (s : Session) (i : Pass), Quiet s → i.guestResize = none ∧ ResizeApplied s i →
      After Quiet (fun s => Silent s.trace) (Session.iterate cfg s i) := fun s i hs hi =>
    quiet_iterate hs hi.1 hi.2
  refine ⟨?_, hC.of_inv hstep (fun s i hs hi => ?_) (quiet_init cfg)⟩
  · have hrun := runLoop_inv_of_meets hstep (quiet_init cfg) hC
    unfold runSession
    split
    · exact silent_append (silent_openActs cfg) (silent_closeSigchld cfg)
    · split
      · refine silent_append (silent_append (silent_openActs cfg) ?_) (silent_closeSigchld cfg)
        simp [Silent, Act.isSizeNotice]
      · split
        · rename_i s hs
          rw [hs] at hrun
          exact hrun.2
        · rename_i s hs
          rw [hs] at hrun
          exact silent_cleanup cfg hrun final
  · exact (keeps_atSizeCheck s cfg i hi.1).synced hs.1

def resizePass (rows cols : Nat) : Pass :=
  { controlArrive := header LxInitMessageWindowSizeChanged 16 0 ++ (leBytes 2 rows ++ leBytes 2 cols)
    poll := .ready { control := true }
    controlRecv := .upTo 511 }

def checkPass : Pass := { now := 1 }

/-- A resize to no rows leaves the PTY at 24 rows and the tracker at none. -/
theorem zero_rows_reported :
    ¬ ∀ (cfg : Setup) (passes : List Pass) (final : WaitStatus),
      (∀ i ∈ passes, i.guestResize = none) → Silent (runSession cfg passes final).trace ∧
        Meets (Session.iterate cfg) (fun s i => (s.atSizeCheck cfg i).Synced) (Session.init cfg)
          passes := by
  intro h
  have hsilent := (h {} [resizePass 0 80, checkPass] (.exited 0) (by decide)).1
  have hnotice : (.controlWrite (.windowSizeChanged 24 80) []) ∈
      (runSession {} [resizePass 0 80, checkPass] (.exited 0)).trace := by decide
  exact absurd (hsilent _ hnotice) (by decide)

theorem resizes_stay_silent_once :
    Silent (runSession {} [resizePass 30 100, checkPass] (.exited 0)).trace ∧
      Meets (Session.iterate {}) (fun s i => (s.atSizeCheck {} i).Synced) (Session.init {})
        [resizePass 30 100, checkPass] := by
  refine resizes_stay_silent {} _ (.exited 0) (by decide) ⟨?_, fun s hs => ⟨?_, fun _ _ => trivial⟩⟩
  · intro mem rows cols htaken hwin
    cases htaken
    have hsize : (rows, cols) = (30, 100) := by
      rw [← Option.some.injEq, ← hwin]
      decide
    cases hsize
    exact .inl (by decide)
  · intro mem rows cols htaken
    simp [Session.controlTaken, checkPass] at htaken

end WslFreeBSD.Bridge
