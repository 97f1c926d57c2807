import WslFreeBSD.Hvinit.Ops
import WslFreeBSD.Paths.Drvfs

/-!
# File systems of `hvinit`

What is mounted at the start and for the drives of the host (`drvfs_mount.h`), the table of mount
points, and the unmounting from that table.

The table is what the successful mounts leave in it: every program here tracks exactly the paths
that it mounts, in order (`Tracks`).
-/

namespace WslFreeBSD.Hvinit

open Lib Protocol Paths

/-! ## The table of mount points -/

def F2_MAX_MOUNTS : Nat := 16

def trackedLength : Nat := 63

/-- `fs_track_mount`: the table afterwards. -/
def fsTrackMount (tracked : List Bytes) (path : Bytes) : List Bytes :=
  if tracked.length < F2_MAX_MOUNTS then tracked ++ [path.take trackedLength] else tracked

def unmountEach : List Bytes → InitProgram Unit
  | [] => pure ()
  | path :: rest => do
    match ← Program.perform (Op.unmount path false) with
    | .busy =>
      let _ ← Program.perform (Op.unmount path true)
      unmountEach rest
    | .done | .failed => unmountEach rest

/-- `fs_unmount_all`. -/
def fsUnmountAll (tracked : List Bytes) : InitProgram Unit := unmountEach tracked.reverse

/-! ## System file systems -/

/-- One of the three file systems of `initialize_filesystems`. -/
def mountSystem (fstype dir : String) (tracked : List Bytes) : InitProgram (List Bytes) := do
  let found ← Program.perform (Op.stat (ascii dir))
  if ¬ found then
    let _ ← Program.perform (Op.mkdir (ascii dir))
  if ← Program.perform (Op.mount (ascii fstype) (ascii dir)) then
    pure (fsTrackMount tracked (ascii dir))
  else pure tracked

/-- `initialize_filesystems`. -/
def initializeFilesystems (tracked : List Bytes) : InitProgram (List Bytes) := do
  let tracked ← mountSystem "devfs" "/dev" tracked
  let tracked ← mountSystem "linprocfs" "/proc" tracked
  mountSystem "tmpfs" "/run" tracked

/-! ## Drives of the host -/

/-- `drvfs_build_options`, with a buffer of 1024 bytes. -/
def drvfsBuildOptions (source stdOptions : Bytes) (drvfsOpts : Option Bytes) (featureFlags : UInt32)
    (elevated : Bool) : Option Bytes :=
  let transport :=
    if featureFlags &&& 0x01 ≠ 0 then
      ascii "msize=262144,trans=virtio," ++ ascii (if elevated then "drvfsa" else "drvfs") ++
        ascii ",cache=mmap,"
    else ascii "msize=65536,trans=fd,cache=mmap,"
  let standard :=
    if stdOptions = [] then transport
    else transport ++ snprintf (1024 - transport.length) (stdOptions ++ [44])
  let aname := ascii "aname=drvfs;path=" ++ source
  if 1024 - standard.length ≤ aname.length then none
  else
    let options := standard ++ aname
    match drvfsOpts with
    | none | some [] => some options
    | some opts =>
      if 1024 - options.length ≤ 1 then none
      else
        let separated := opts.map fun c => if c = 44 then 59 else c
        some (options ++ [59] ++ separated.take (1022 - (options.length + 1)))

/-- Makes one directory after another; the first failure ends it. -/
def mkdirEach : List Bytes → InitProgram Bool
  | [] => pure true
  | dir :: rest => do
    if ← Program.perform (Op.mkdir dir) then mkdirEach rest else pure false

/-- `drvfs_mkdir_p`: the path up to each slash after its first byte, and the path. -/
def drvfsMkdirP (path : Bytes) : InitProgram Bool :=
  if 512 ≤ path.length then pure false
  else
    let tmp := if 1 < path.length ∧ path.getLast? = some 47 then path.dropLast else path
    let slashes := (List.range tmp.length).filter fun i => 1 ≤ i ∧ tmp[i]? = some 47
    mkdirEach (slashes.map tmp.take ++ [tmp])

/-- What all drives of one `drvfs_mount_volumes` have in common. -/
structure DrvfsOptions where
  stdOptions : Bytes
  drvfsOpts : Option Bytes
  featureFlags : UInt32
  elevated : Bool

/-- The mount of `drvfs_mount_single`, after the directory has been found or made. -/
def drvfsMountPrepared (options : DrvfsOptions) (tracked : List Bytes) (source target : Bytes) :
    InitProgram (List Bytes × Bool) :=
  match drvfsBuildOptions source options.stdOptions options.drvfsOpts options.featureFlags
      options.elevated with
  | none => pure (tracked, false)
  | some _ => do
    -- on this system the options are not passed on
    if ← Program.perform (Op.mount (ascii "p9fs") target) then
      pure (fsTrackMount tracked target, true)
    else pure (tracked, false)

/-- `drvfs_mount_single`: the table afterwards, and whether the drive was mounted. -/
def drvfsMountSingle (options : DrvfsOptions) (tracked : List Bytes) (source target : Bytes) :
    InitProgram (List Bytes × Bool) := do
  if ← Program.perform (Op.stat target) then drvfsMountPrepared options tracked source target
  else if ← drvfsMkdirP target then drvfsMountPrepared options tracked source target
  else pure (tracked, false)

/-- The loop of `drvfs_mount_volumes`. -/
def drvfsMountEach (options : DrvfsOptions) :
    List Bytes → List (Bytes × Bytes) → InitProgram (List Bytes × Nat)
  | tracked, [] => pure (tracked, 0)
  | tracked, (source, target) :: rest => do
    let (tracked, mounted) ← drvfsMountSingle options tracked source target
    let (tracked, count) ← drvfsMountEach options tracked rest
    pure (tracked, mounted.toNat + count)

/-- `drvfs_mount_volumes`: the table afterwards, and the number of the mounted drives. -/
def drvfsMountVolumes (tracked : List Bytes) (bitmap : BitVec 32) (ownerUid : Nat) (elevated : Bool)
    (root : Bytes) (drvfsOpts : Option Bytes) (featureFlags : UInt32) :
    InitProgram (List Bytes × Nat) :=
  if bitmap = 0 then pure (tracked, 0)
  else do
    let group ← Program.perform (Op.getpwuid ownerUid)
    let stdOptions := snprintf 256 (ascii "noatime,uid=" ++ decimal ownerUid ++ ascii ",gid=" ++
      decimal (group.getD 0 : Nat))
    drvfsMountEach { stdOptions, drvfsOpts, featureFlags, elevated } tracked
      (Paths.drvfsMountVolumes bitmap root)

/-! ## What the programs use -/

theorem uses_unmountEach (paths : List Bytes) : Uses [.mounts] (unmountEach paths) := by
  induction paths with
  | nil => exact Program.only_pure ()
  | cons path paths ih =>
    refine (uses_perform List.mem_cons_self).bind fun result => ?_
    cases result with
    | busy => exact (uses_perform List.mem_cons_self).bind fun _ => ih
    | done => exact ih
    | failed => exact ih

theorem uses_mkdirEach (dirs : List Bytes) : Uses [.system] (mkdirEach dirs) := by
  induction dirs with
  | nil => exact Program.only_pure true
  | cons dir dirs ih =>
    refine (uses_perform List.mem_cons_self).bind fun made => ?_
    exact ih.ite (Program.only_pure false)

theorem uses_drvfsMkdirP (path : Bytes) : Uses [.system] (drvfsMkdirP path) :=
  (Program.only_pure false).ite (uses_mkdirEach _)

theorem uses_mountSystem (fstype dir : String) (tracked : List Bytes) :
    Uses [.system, .mounts] (mountSystem fstype dir tracked) := by
  have hmount : Uses [.system, .mounts] (do
      if ← Program.perform (Op.mount (ascii fstype) (ascii dir)) then
        pure (fsTrackMount tracked (ascii dir))
      else pure tracked : InitProgram (List Bytes)) := by
    refine (uses_perform (List.mem_cons_of_mem _ List.mem_cons_self)).bind fun mounted => ?_
    exact (Program.only_pure _).ite (Program.only_pure tracked)
  refine (uses_perform List.mem_cons_self).bind fun found => ?_
  refine Program.Only.ite ?_ hmount
  exact (uses_perform List.mem_cons_self).bind fun _ => hmount

theorem uses_initializeFilesystems (tracked : List Bytes) :
    Uses [.system, .mounts] (initializeFilesystems tracked) :=
  (uses_mountSystem _ _ tracked).bind fun tracked =>
    (uses_mountSystem _ _ tracked).bind fun tracked => uses_mountSystem _ _ tracked

section Drives

variable (options : DrvfsOptions) (tracked : List Bytes) (source target : Bytes)

theorem uses_drvfsMountPrepared :
    Uses [.system, .mounts] (drvfsMountPrepared options tracked source target) := by
  unfold drvfsMountPrepared
  split
  · exact Program.only_pure _
  · refine (uses_perform (List.mem_cons_of_mem _ List.mem_cons_self)).bind fun mounted => ?_
    exact (Program.only_pure _).ite (Program.only_pure _)

theorem uses_drvfsMountSingle :
    Uses [.system, .mounts] (drvfsMountSingle options tracked source target) := by
  have hprepared := uses_drvfsMountPrepared options tracked source target
  refine (uses_perform List.mem_cons_self).bind fun found => hprepared.ite ?_
  refine Program.Only.bind ((uses_drvfsMkdirP target).mono (by simp)) fun made => ?_
  exact hprepared.ite (Program.only_pure _)

theorem uses_drvfsMountEach (drives : List (Bytes × Bytes)) :
    Uses [.system, .mounts] (drvfsMountEach options tracked drives) := by
  induction drives generalizing tracked with
  | nil => exact Program.only_pure _
  | cons drive drives ih =>
    refine (uses_drvfsMountSingle options tracked _ _).bind fun out => ?_
    exact (ih out.1).bind fun _ => Program.only_pure _

theorem uses_drvfsMountVolumes (bitmap : BitVec 32) (ownerUid : Nat) (elevated : Bool) (root : Bytes)
    (drvfsOpts : Option Bytes) (featureFlags : UInt32) : Uses [.system, .mounts]
      (drvfsMountVolumes tracked bitmap ownerUid elevated root drvfsOpts featureFlags) := by
  refine (Program.only_pure _).ite ?_
  refine (uses_perform List.mem_cons_self).bind fun _ => ?_
  exact uses_drvfsMountEach _ tracked _

end Drives

/-! ## What is mounted and unmounted -/

inductive MountEvent where
  | mounted (path : Bytes)
  | unmounted (path : Bytes)
  deriving DecidableEq, Repr

/-- A successful mount, and an unmount; the forced attempt on a busy file system repeats the path
of the attempt before it and does not count again. -/
def mountEvent : (Σ e, Op.Answer e) → Option MountEvent
  | ⟨.mount _ dir, true⟩ => some (.mounted dir)
  | ⟨.unmount dir false, _⟩ => some (.unmounted dir)
  | _ => none

theorem mountEvent_hidden (e : Op) (r : Op.Answer e) (h : e.subsystem ≠ .mounts) :
    mountEvent ⟨e, r⟩ = none := by
  cases e with
  | mount fstype dir => exact absurd rfl h
  | unmount dir force => exact absurd rfl h
  | _ => rfl

theorem shows_unmountEach (paths : List Bytes) :
    (unmountEach paths).Shows mountEvent fun _ o => o = paths.map .unmounted := by
  induction paths with
  | nil => exact Program.shows_pure rfl
  | cons path paths ih =>
    refine Program.Shows.bind (Program.shows_perform
      (Q := fun _ o => o = [.unmounted path]) fun _ => rfl) ?_
    rintro result o rfl
    cases result with
    | done => exact ih.mono fun _ o' ho' => congrArg (MountEvent.unmounted path :: ·) ho'
    | failed => exact ih.mono fun _ o' ho' => congrArg (MountEvent.unmounted path :: ·) ho'
    | busy =>
      refine Program.Shows.after_hidden (Program.shows_perform fun _ => rfl) fun _ => ?_
      exact ih.mono fun _ o' ho' => congrArg (MountEvent.unmounted path :: ·) ho'

/-- The program mounts some paths, unmounts nothing, and the table `table` of its value is
`tracked` with these paths. -/
def Tracks {α : Type} (table : α → List Bytes) (tracked : List Bytes) (p : InitProgram α) : Prop :=
  p.Shows mountEvent fun a o => ∃ paths : List Bytes, o = paths.map .mounted ∧
    table a = paths.foldl fsTrackMount tracked

section Tracks

variable {α β : Type} {table : α → List Bytes} {table' : β → List Bytes} {tracked : List Bytes}
  {p : InitProgram α} {q : α → InitProgram β}

theorem tracks_pure {a : α} (h : table a = tracked) : Tracks table tracked (pure a) :=
  Program.shows_pure ⟨[], rfl, h⟩

theorem Tracks.bind (hp : Tracks table tracked p) (hq : ∀ a, Tracks table' (table a) (q a)) :
    Tracks table' tracked (p >>= q) := by
  refine Program.Shows.bind hp ?_
  rintro a o ⟨paths, rfl, ha⟩
  refine Program.Shows.mono (hq a) ?_
  rintro b o ⟨paths', rfl, hb⟩
  exact ⟨paths ++ paths', by rw [List.map_append], by rw [hb, ha, List.foldl_append]⟩

theorem Tracks.after {ss : List Subsystem} (hp : Uses ss p) (hss : Subsystem.mounts ∉ ss)
    (hq : ∀ a, Tracks table' tracked (q a)) : Tracks table' tracked (p >>= q) :=
  Program.Shows.after_hidden (hp.hidden mountEvent_hidden hss) hq

theorem Tracks.ite {c : Prop} [Decidable c] {p' : InitProgram α} (hp : Tracks table tracked p)
    (hp' : Tracks table tracked p') : Tracks table tracked (if c then p else p') := by
  split
  · exact hp
  · exact hp'

theorem tracks_mount (fstype path : Bytes) {mounted failed : α}
    (hmounted : table mounted = fsTrackMount tracked path) (hfailed : table failed = tracked) :
    Tracks table tracked (do
      if ← Program.perform (Op.mount fstype path) then pure mounted else pure failed) := by
  intro result
  cases result with
  | true => exact ⟨[path], rfl, hmounted⟩
  | false => exact ⟨[], rfl, hfailed⟩

end Tracks

theorem tracks_mountSystem (fstype dir : String) (tracked : List Bytes) :
    Tracks id tracked (mountSystem fstype dir tracked) := by
  have hmount : Tracks id tracked (do
      if ← Program.perform (Op.mount (ascii fstype) (ascii dir)) then
        pure (fsTrackMount tracked (ascii dir))
      else pure tracked) := tracks_mount _ (ascii dir) rfl rfl
  refine Tracks.after (uses_self _) (by simp [Op.subsystem]) fun found => ?_
  refine Tracks.ite ?_ hmount
  exact Tracks.after (uses_self _) (by simp [Op.subsystem]) fun _ => hmount

theorem tracks_initializeFilesystems (tracked : List Bytes) :
    Tracks id tracked (initializeFilesystems tracked) :=
  (tracks_mountSystem _ _ tracked).bind fun tracked =>
    (tracks_mountSystem _ _ tracked).bind fun tracked => tracks_mountSystem _ _ tracked

section Drives

variable (options : DrvfsOptions) (tracked : List Bytes) (source target : Bytes)

theorem tracks_drvfsMountPrepared :
    Tracks Prod.fst tracked (drvfsMountPrepared options tracked source target) := by
  unfold drvfsMountPrepared
  split
  · exact tracks_pure rfl
  · exact tracks_mount _ target rfl rfl

theorem tracks_drvfsMountSingle :
    Tracks Prod.fst tracked (drvfsMountSingle options tracked source target) := by
  have hprepared := tracks_drvfsMountPrepared options tracked source target
  refine Tracks.after (uses_self _) (by simp [Op.subsystem]) fun found => ?_
  refine hprepared.ite ?_
  refine Tracks.after (uses_drvfsMkdirP target) (by simp) fun made => ?_
  exact hprepared.ite (tracks_pure rfl)

theorem tracks_drvfsMountEach (drives : List (Bytes × Bytes)) :
    Tracks Prod.fst tracked (drvfsMountEach options tracked drives) := by
  induction drives generalizing tracked with
  | nil => exact tracks_pure rfl
  | cons drive drives ih =>
    refine (tracks_drvfsMountSingle options tracked _ _).bind fun out => ?_
    exact (ih out.1).bind fun _ => tracks_pure rfl

theorem tracks_drvfsMountVolumes (bitmap : BitVec 32) (ownerUid : Nat) (elevated : Bool) (root : Bytes)
    (drvfsOpts : Option Bytes) (featureFlags : UInt32) : Tracks Prod.fst tracked
      (drvfsMountVolumes tracked bitmap ownerUid elevated root drvfsOpts featureFlags) := by
  refine Tracks.ite (tracks_pure rfl) ?_
  refine Tracks.after (uses_self _) (by simp [Op.subsystem]) fun _ => ?_
  exact tracks_drvfsMountEach _ tracked _

end Drives

end WslFreeBSD.Hvinit
