import WslFreeBSD.Hvinit.Main

/-!
# The mounts of a whole run

Before `TerminateInstance` the table of mount points is what the successful mounts of the run have
left in it (`Mounting`); `TerminateInstance` unmounts the entries, the last one first
(`Unmounting`). The table has 16 entries of 63 bytes, so that the mounts are undone, each under its
path and in reverse order, if and only if they fit it (`unmounts_mounts_iff`).
-/

namespace WslFreeBSD.Hvinit

open Lib Protocol Config

/-! ## Observations -/

def MountEvent.mounted? : MountEvent → Option Bytes
  | .mounted path => some path
  | .unmounted _ => none

def MountEvent.unmounted? : MountEvent → Option Bytes
  | .mounted _ => none
  | .unmounted path => some path

def mountEvents (t : InitTrace) : List MountEvent := t.filterMap mountEvent

/-- The paths of the file systems that were mounted, in order. -/
def mountedPaths (t : InitTrace) : List Bytes := (mountEvents t).filterMap MountEvent.mounted?

def unmountedPaths (t : InitTrace) : List Bytes := (mountEvents t).filterMap MountEvent.unmounted?

theorem filterMap_mounted (paths : List Bytes) :
    (paths.map MountEvent.mounted).filterMap MountEvent.mounted? = paths ∧
      (paths.map MountEvent.mounted).filterMap MountEvent.unmounted? = [] := by
  induction paths with
  | nil => exact ⟨rfl, rfl⟩
  | cons path paths ih => exact ⟨congrArg (path :: ·) ih.1, ih.2⟩

theorem filterMap_unmounted (paths : List Bytes) :
    (paths.map MountEvent.unmounted).filterMap MountEvent.mounted? = [] ∧
      (paths.map MountEvent.unmounted).filterMap MountEvent.unmounted? = paths := by
  induction paths with
  | nil => exact ⟨rfl, rfl⟩
  | cons path paths ih => exact ⟨ih.1, congrArg (path :: ·) ih.2⟩

/-! ## The table -/

theorem foldl_fsTrackMount (paths : List Bytes) {tracked : List Bytes}
    (h : tracked.length ≤ F2_MAX_MOUNTS) : paths.foldl fsTrackMount tracked =
      tracked ++ (paths.take (F2_MAX_MOUNTS - tracked.length)).map (·.take trackedLength) := by
  induction paths generalizing tracked with
  | nil => simp
  | cons path paths ih =>
    rw [List.foldl_cons]
    by_cases hroom : tracked.length < F2_MAX_MOUNTS
    · have hlen : (tracked ++ [path.take trackedLength]).length = tracked.length + 1 := by simp
      have htake : F2_MAX_MOUNTS - tracked.length = (F2_MAX_MOUNTS - (tracked.length + 1)) + 1 := by
        omega
      have hstep : fsTrackMount tracked path = tracked ++ [path.take trackedLength] := if_pos hroom
      rw [hstep, ih (by omega), hlen, htake, List.take_succ_cons, List.map_cons, List.append_assoc,
        List.singleton_append]
    · have htake : F2_MAX_MOUNTS - tracked.length = 0 := by omega
      have hstep : fsTrackMount tracked path = tracked := if_neg hroom
      rw [hstep, ih h, htake, List.take_zero, List.take_zero]

def FitTable (paths : List Bytes) : Prop :=
  paths.length ≤ F2_MAX_MOUNTS ∧ ∀ path ∈ paths, path.length ≤ trackedLength

instance (paths : List Bytes) : Decidable (FitTable paths) := inferInstanceAs (Decidable (_ ∧ _))

theorem foldl_fsTrackMount_eq_iff (paths : List Bytes) :
    paths.foldl fsTrackMount [] = paths ↔ FitTable paths := by
  have htable := @foldl_fsTrackMount paths [] (Nat.zero_le _)
  rw [List.nil_append, List.length_nil, Nat.sub_zero] at htable
  rw [htable]
  constructor
  · intro h
    have hlen := congrArg List.length h
    rw [List.length_map, List.length_take] at hlen
    have hcount : paths.length ≤ F2_MAX_MOUNTS := by omega
    refine ⟨hcount, fun path hpath => ?_⟩
    rw [List.take_of_length_le hcount] at h
    have hpathLen : path.take trackedLength = path :=
      List.map_inj_left.mp (h.trans (List.map_id paths).symm) path hpath
    have hlength := congrArg List.length hpathLen
    rw [List.length_take] at hlength
    omega
  · rintro ⟨hcount, hlength⟩
    rw [List.take_of_length_le hcount]
    conv_rhs => rw [← List.map_id paths]
    exact List.map_congr_left fun path hpath => List.take_of_length_le (hlength path hpath)

/-! ## Programs on the globals -/

/-- A program of the process that keeps the table up to date. -/
abbrev KeepsTable (g : Globals) (p : InitProgram Globals) : Prop :=
  Tracks Globals.mountedFs g.mountedFs p

theorem keepsTable_of_uses {g : Globals} {ss : List Subsystem} {h : InitProgram Unit} (hh : Uses ss h)
    (hss : Subsystem.mounts ∉ ss) : KeepsTable g (keep g h) :=
  Tracks.after hh hss fun _ => tracks_pure rfl

theorem tracks_mountDrives (g : Globals) (bitmap : BitVec 32) (ownerUid : Nat) (elevated : Bool) :
    Tracks Prod.fst g.mountedFs (mountDrives g bitmap ownerUid elevated) :=
  tracks_drvfsMountVolumes _ _ _ _ _ _ _

theorem keepsTable_handleRemountDrvfs (g : Globals) (m : Bytes) :
    KeepsTable g (handleRemountDrvfs g m) := by
  refine Tracks.ite ?_ ?_
  · exact Tracks.after (uses_send _ _) (by simp) fun _ => tracks_pure rfl
  · refine (tracks_mountDrives g _ _ _).bind fun out => ?_
    exact Tracks.after (uses_send _ _) (by simp) fun _ => tracks_pure rfl

theorem keepsTable_handleStopPlan9Server (g : Globals) (m : Bytes) :
    KeepsTable g (handleStopPlan9Server g m) := by
  refine Tracks.ite ?_ ?_
  · exact Tracks.after (uses_send _ _) (by simp) fun _ => tracks_pure rfl
  · refine Tracks.after (uses_plan9StopServer _ _) (by simp) fun out => ?_
    exact Tracks.after (uses_send _ _) (by simp) fun _ => tracks_pure rfl

theorem keepsTable_dispatch (notifyOpen : Bool) (g : Globals) {m : Bytes}
    (h : messageType m ≠ LxInitMessageTerminateInstance) : KeepsTable g (dispatch notifyOpen g m) := by
  exact dispatch_cases notifyOpen g m (fun hterm => absurd hterm h)
    (keepsTable_handleRemountDrvfs g m) (keepsTable_handleStopPlan9Server g m)
    (keepsTable_of_uses (uses_gnsHandleStartSocketRelay m) (by simp))
    (fun _ hh => keepsTable_of_uses hh (by simp)) (tracks_pure rfl)

/-- `TerminateInstance` unmounts the entries of the table, the last one first. -/
theorem shows_handleTerminateInstance (g : Globals) (m : Bytes) :
    (handleTerminateInstance g m).Shows mountEvent fun _ o =>
      o = g.mountedFs.reverse.map .unmounted := by
  refine Program.Shows.after_hidden ((uses_send _ _).hidden mountEvent_hidden (by simp)) fun _ => ?_
  refine Program.Shows.after_hidden
    ((uses_gnsStopEngine _).hidden mountEvent_hidden (by simp)) fun _ => ?_
  refine Program.Shows.after_hidden
    ((uses_plan9Shutdown _).hidden mountEvent_hidden (by simp)) fun _ => ?_
  refine Program.Shows.before_hidden (shows_unmountEach _) fun _ => ?_
  exact Program.Shows.after_hidden (Program.shows_perform fun _ => rfl) fun _ =>
    Program.shows_pure rfl

/-! ## Initialize -/

theorem keepsTable_loadSettings (g : Globals) (msg : Bytes) : KeepsTable g (loadSettings g msg) := by
  refine Program.Ensures.mono (Program.Ensures.and
    ((uses_loadSettings g msg).hidden mountEvent_hidden (by simp)) (loadSettings_eq g msg)) ?_
  rintro _ t ⟨ht, config, wslConf, rfl⟩
  exact ⟨[], ht, rfl⟩

theorem tracks_mountInitial (g : Globals) : Tracks Prod.fst g.mountedFs (mountInitial g) := by
  unfold mountInitial
  split
  · exact tracks_pure rfl
  · exact Tracks.ite (tracks_mountDrives g _ _ _) (tracks_pure rfl)

theorem keepsTable_applySettings (g : Globals) (seq : Nat) : KeepsTable g (applySettings g seq) := by
  refine Tracks.after (uses_timezoneApply _ _) (by simp) fun _ => ?_
  refine Tracks.after (uses_applyNetwork g) (by simp) fun _ => ?_
  refine (tracks_mountInitial g).bind fun mounted => ?_
  refine Tracks.after (uses_bootCommand g) (by simp) fun _ => ?_
  refine Tracks.after (uses_self _) (by simp [Op.subsystem]) fun _ => ?_
  refine Tracks.after (uses_plan9StartServer _) (by simp) fun server => ?_
  exact Tracks.after (uses_send _ _) (by simp) fun _ => tracks_pure rfl

theorem keepsTable_handleInitialize (g : Globals) (msg : Bytes) :
    KeepsTable g (handleInitialize g msg) :=
  (keepsTable_loadSettings g msg).bind fun g => keepsTable_applySettings g _

theorem keepsTable_enterLoop (g : Globals) : KeepsTable g (Init.enterLoop g) := by
  refine Tracks.after (uses_send _ _) (by simp) fun _ => ?_
  exact Tracks.after (uses_gnsStartEngine _ _) (by simp) fun _ => tracks_pure rfl

/-! ## Runs -/

/-- Nothing has been unmounted, and the table is what the mounts have left in it. -/
def Mounting (s : Init) : Prop :=
  ∃ paths : List Bytes, mountEvents s.trace = paths.map .mounted ∧
    s.globals.mountedFs = paths.foldl fsTrackMount []

/-- The entries of the table have been unmounted after the mounts. -/
def Unmounting (s : Init) : Prop :=
  ∃ paths : List Bytes, mountEvents s.trace =
    paths.map .mounted ++ (paths.foldl fsTrackMount []).reverse.map .unmounted

namespace Init

variable (env : InitEnvironment) {s : Init}

theorem mountEvents_exec {p : Globals → InitProgram Globals}
    {Q : Globals → List MountEvent → Prop} (hp : (p s.globals).Shows mountEvent Q) :
    ∃ o, mountEvents (s.exec env p).trace = mountEvents s.trace ++ o ∧ Q (s.exec env p).globals o := by
  obtain ⟨u, hu, hQ⟩ := Program.Shows.run hp env s.trace
  refine ⟨u.filterMap mountEvent, ?_, hQ⟩
  change mountEvents ((p s.globals).run env s.trace).2 = _
  rw [hu, mountEvents, List.filterMap_append]
  rfl

theorem mounting_exec {p : Globals → InitProgram Globals} (hs : Mounting s)
    (hp : KeepsTable s.globals (p s.globals)) : Mounting (s.exec env p) := by
  obtain ⟨paths, hevents, htable⟩ := hs
  obtain ⟨o, ho, paths', rfl, htable'⟩ := mountEvents_exec env hp
  refine ⟨paths ++ paths', ?_, ?_⟩
  · rw [ho, hevents, List.map_append]
  · rw [htable', htable, List.foldl_append]

theorem mounting_handshake (memory : Memory) (cuts : Cuts) (hs : Mounting s) :
    Mounting (s.handshake env memory cuts) := by
  have hinit : Mounting (s.receiveInitialize env cuts) := by
    obtain ⟨rest, h⟩ | ⟨rest, msg, h⟩ := receiveInitialize_cases env cuts s
    · rw [h]
      exact hs
    · rw [h]
      exact mounting_exec env (s := { s with incoming := rest }) hs (keepsTable_handleInitialize _ msg)
  refine mounting_exec env ?_ (keepsTable_enterLoop _)
  obtain ⟨rest, h⟩ | ⟨rest, seq, h⟩ :=
    receiveCreateSession_cases env memory cuts (s.receiveInitialize env cuts)
  · rw [h]
    exact hinit
  · rw [h]
    exact mounting_exec env (s := { s.receiveInitialize env cuts with incoming := rest }) hinit
      (keepsTable_of_uses (uses_send _ _) (by simp))

end Init

theorem mounting_loopInvariant (env : InitEnvironment) : LoopInvariant env Mounting Unmounting where
  frame _ _ hs := hs
  reap s hs := Init.mounting_exec env hs (keepsTable_of_uses uses_reapChildren (by simp))
  dispatch s m hm hs := Init.mounting_exec env hs (keepsTable_dispatch s.notifyOpen s.globals hm)
  terminate s m hm hs := by
    obtain ⟨paths, hevents, htable⟩ := hs
    have hshows : (dispatch s.notifyOpen s.globals m).Shows mountEvent fun _ o =>
        o = s.globals.mountedFs.reverse.map .unmounted := by
      unfold dispatch
      dsimp only
      rw [if_pos hm]
      exact shows_handleTerminateInstance s.globals m
    obtain ⟨o, ho, rfl⟩ := Init.mountEvents_exec env (p := (dispatch s.notifyOpen · m)) hshows
    exact ⟨paths, by rw [ho, hevents, htable]⟩

theorem tracks_boot (memory : Memory) : Tracks (fun booted => booted.1.mountedFs) [] (boot memory) := by
  have hpaths : Tracks Globals.mountedFs [] (gnsConfigureTestPaths {}) := by
    refine Program.Ensures.mono (Program.Ensures.and
      ((uses_gnsConfigureTestPaths _).hidden mountEvent_hidden (by simp))
      (gnsConfigureTestPaths_eq _)) ?_
    rintro _ t ⟨ht, path, rfl⟩
    exact ⟨[], ht, rfl⟩
  refine hpaths.bind fun g => (tracks_initializeFilesystems g.mountedFs).bind fun mountedFs => ?_
  exact Tracks.after (uses_connectChannels memory) (by simp) fun _ => tracks_pure rfl

/-- In every run that `TerminateInstance` ends, the entries of the table have been unmounted. -/
theorem unmounting_main {env : InitEnvironment} {memory : Memory} {cuts : Cuts} {incoming : Bytes}
    {ws : List Wakeup} {s : Init} (h : exited? (main env memory cuts incoming ws) = some s) :
    Unmounting s := by
  obtain ⟨u, hu, paths, hevents, htable⟩ := Program.Shows.run (tracks_boot memory) env []
  unfold main at h
  generalize hbooted : (boot memory).run env [] = booted at *
  obtain ⟨⟨g, connected⟩, t⟩ := booted
  cases connected with
  | none => cases h
  | some notifyOpen =>
    have hstart : Mounting { globals := g, notifyOpen, incoming, trace := t } := by
      refine ⟨paths, ?_, htable⟩
      change mountEvents t = _
      rw [show t = [] ++ u from hu]
      exact hevents
    have hloop := (mounting_loopInvariant env).eventLoop
      (Init.mounting_handshake env memory cuts hstart) ws
    dsimp only [Option.map_some] at h
    generalize Init.eventLoop env _ ws = out at h hloop
    match out with
    | .inl s' => cases h
    | .inr (.left s') => cases h
    | .inr (.exited s') =>
      obtain rfl : s' = s := Option.some.inj h
      exact hloop

/-- When `TerminateInstance` has been handled, what was mounted has been unmounted, each file system
under its path and in reverse order, if and only if the mounts of the run fit the table. -/
theorem unmounts_mounts_iff {env : InitEnvironment} {memory : Memory} {cuts : Cuts} {incoming : Bytes}
    {ws : List Wakeup} {s : Init} (h : exited? (main env memory cuts incoming ws) = some s) :
    unmountedPaths s.trace = (mountedPaths s.trace).reverse ↔ FitTable (mountedPaths s.trace) := by
  obtain ⟨paths, hevents⟩ := unmounting_main h
  have hmounted : mountedPaths s.trace = paths := by
    rw [mountedPaths, hevents, List.filterMap_append, (filterMap_mounted paths).1,
      (filterMap_unmounted _).1, List.append_nil]
  have hunmounted : unmountedPaths s.trace = (paths.foldl fsTrackMount []).reverse := by
    rw [unmountedPaths, hevents, List.filterMap_append, (filterMap_mounted paths).2,
      (filterMap_unmounted _).2, List.nil_append]
  rw [hmounted, hunmounted, ← foldl_fsTrackMount_eq_iff]
  exact List.reverse_inj

/-- Two drives. -/
theorem unmounts_mounts_iff_two :
    ∃ s, runWith 12 = some s ∧ (mountedPaths s.trace).length = 5 ∧
      unmountedPaths s.trace = (mountedPaths s.trace).reverse := by
  obtain ⟨s, hs⟩ : ∃ s, runWith 12 = some s := Option.isSome_iff_exists.mp (by decide)
  have hfit : ∀ s, runWith 12 = some s →
      (mountedPaths s.trace).length = 5 ∧ FitTable (mountedPaths s.trace) := by decide
  exact ⟨s, hs, (hfit s hs).1, (unmounts_mounts_iff hs).mpr (hfit s hs).2⟩

/-- Fourteen drives: the last one is mounted and stays so. -/
theorem drive_left_mounted :
    ∃ s, runWith 0x3FFF = some s ∧ (mountedPaths s.trace).getLast? = some (ascii "/mnt/n") ∧
      ascii "/mnt/n" ∉ unmountedPaths s.trace ∧
      unmountedPaths s.trace ≠ (mountedPaths s.trace).reverse := by
  obtain ⟨s, hs⟩ : ∃ s, runWith 0x3FFF = some s := Option.isSome_iff_exists.mp (by decide)
  have hlast : ∀ s, runWith 0x3FFF = some s →
      (mountedPaths s.trace).getLast? = some (ascii "/mnt/n") ∧
        ascii "/mnt/n" ∉ unmountedPaths s.trace := by decide
  obtain ⟨hmounted, hunmounted⟩ := hlast s hs
  refine ⟨s, hs, hmounted, hunmounted, fun heq => hunmounted ?_⟩
  rw [heq, List.mem_reverse]
  exact List.mem_of_getLast? hmounted

end WslFreeBSD.Hvinit
