import WslFreeBSD.Translation.MountTable

/-!
# Which mount is found

For a Linux path `findMount` finds the mount that the path is on, `findMount_linux`: the last listed one
whose mount point is the path or a directory above it.

A Windows path may be below the sources of several mounts. The length of the longest match so far is kept
when the match is discarded, so a shorter match that is listed later is not used, although it is reachable:
`findsReachable_iff` says when a reachable mount is found.
-/

namespace WslFreeBSD.Translation

open Lib

/-! ## Linux paths -/

/-- The path is on the mount `m`: no mount listed later is above it. -/
def IsMountOf (table : List MountEntry) (path : Bytes) (m : MountEntry) : Prop :=
  Last (fun m => IsBelow m.mountPoint path) table m

/-- What is to be found for a path on the mount `m`. -/
def reportedSource (m : MountEntry) : Bytes × Option Nat :=
  match windowsSource m with
  | some source => (source, some m.mountPoint.length)
  | none => ([], none)

theorem canonicalisePathSeparator_ne_nil {path : Bytes} (separator : UInt8) (h : path ≠ []) :
    canonicalisePathSeparator path separator ≠ [] := by
  obtain ⟨c, rest, rfl⟩ := List.exists_cons_of_ne_nil h
  refine List.foldlRecOn rest (canonicaliseStep separator) (motive := fun written => written ≠ []) ?_ ?_
  · unfold canonicaliseStep
    split
    · simp
    · simp
  · intro written hwritten d _
    unfold canonicaliseStep
    split
    · split
      · exact hwritten
      · simp
    · simp

theorem windowsSource_ne_nil {m : MountEntry} {source : Bytes} (h : strippedSource m ≠ some [])
    (hsource : windowsSource m = some source) : source ≠ [] := by
  obtain ⟨stripped, hstripped, rfl⟩ := Option.map_eq_some_iff.mp hsource
  have hne : stripped ≠ [] := by
    rintro rfl
    exact h hstripped
  split
  · refine canonicalisePathSeparator_ne_nil 92 ?_
    intro happend
    exact hne (List.append_eq_nil_iff.mp happend).1
  · exact hne

abbrev Above (path : Bytes) (m : MountEntry) : Prop := 0 < isPathPrefix path m.mountPoint false

theorem report_nil (length : Nat) : report ([], length) = ([], none) := rfl

theorem report_of_ne_nil {replacement : Bytes} (h : replacement ≠ []) (length : Nat) :
    report (replacement, length) = (replacement, some length) := by
  unfold report
  rw [if_pos h]

theorem findMountStep_above {path : Bytes} {m : MountEntry} (h : Above path m) (found : Found) :
    report (findMountStep path false found m) = report ((windowsSource m).getD [], m.mountPoint.length) := by
  have hkept : discard path false found.1 m = [] := by
    by_cases hfound : found.1 = []
    · exact (if_neg fun hdrop => hdrop.1 hfound).trans hfound
    · exact if_pos ⟨hfound, h⟩
  unfold findMountStep
  cases windowsSource m with
  | none =>
    simp only [hkept]
    rfl
  | some source =>
    have hlen := isPathPrefix_eq_length h
    have hpos : m.mountPoint.length ≠ 0 := by rw [← hlen]; exact h.ne'
    simp only [Bool.false_eq_true, if_false, hlen, false_and, or_false, hpos]
    rfl

theorem findMountStep_apart {path : Bytes} {m : MountEntry} (h : ¬ Above path m) (found : Found) :
    findMountStep path false found m = found := by
  have hkept : discard path false found.1 m = found.1 := if_neg fun hdrop => h hdrop.2
  have hzero : isPathPrefix path m.mountPoint false = 0 := Nat.eq_zero_of_not_pos h
  unfold findMountStep
  cases windowsSource m with
  | none => rw [hkept]
  | some source => simp only [hkept, Bool.false_eq_true, if_false, hzero, true_or, if_true]

theorem findMount_of_last {table : List MountEntry} {path : Bytes} {m : MountEntry}
    (h : Last (Above path) table m) :
    findMount table path false = report ((windowsSource m).getD [], m.mountPoint.length) := by
  obtain ⟨before, after, rfl, habove, hafter⟩ := h
  refine foldl_settled (I := fun _ => True)
    (Q := fun found => report found = report ((windowsSource m).getD [], m.mountPoint.length)) trivial
    (fun _ _ _ _ => trivial) (fun found _ => findMountStep_above habove found) ?_
  intro found hfound x hx
  rw [findMountStep_apart (hafter x hx)]
  exact hfound

theorem findMount_of_not_above {table : List MountEntry} {path : Bytes} (h : ∀ m ∈ table, ¬ Above path m) :
    findMount table path false = ([], none) := by
  have hkeep : table.foldl (findMountStep path false) ([], 0) = ([], 0) := by
    refine List.foldlRecOn table _ (motive := fun found => found = ([], 0)) rfl ?_
    rintro found rfl m hm
    exact findMountStep_apart (h m hm) _
  unfold findMount
  rw [hkeep]
  rfl

theorem above_iff_isBelow {m : MountEntry} (h : m.mountPoint ≠ ascii "/") (path : Bytes) :
    Above path m ↔ IsBelow m.mountPoint path := by
  rw [Above, isPathPrefix_false_iff (mountPoint_ne_nil m), IsBelow, or_iff_right h]

/-- The mount that a Linux path is on is found, if it has a Windows source, and no other is. -/
theorem findMount_linux {root : MountEntry} {mounts : List MountEntry}
    (hroot : root.mountPoint = ascii "/") (hother : windowsSource root = none)
    (hlater : ∀ m ∈ mounts, m.mountPoint ≠ ascii "/")
    (hsource : ∀ m ∈ mounts, strippedSource m ≠ some []) (path : Bytes) :
    (∃ m, IsMountOf (root :: mounts) path m) ∧
      ∀ m, IsMountOf (root :: mounts) path m →
        findMount (root :: mounts) path false = reportedSource m := by
  refine ⟨exists_last ⟨root, List.mem_cons_self, Or.inl hroot⟩, ?_⟩
  rintro m ⟨before, after, htable, hbelow, hafter⟩
  cases before with
  | nil =>
    obtain ⟨rfl, rfl⟩ : root = m ∧ mounts = after := List.cons.inj htable
    have hapart : ∀ x ∈ mounts, ¬ Above path x :=
      fun x hx habove => hafter x hx ((above_iff_isBelow (hlater x hx) path).mp habove)
    have hnone : reportedSource root = ([], none) := by rw [reportedSource, hother]
    rw [hnone]
    -- the code does not take every path for one below the root
    by_cases habove : Above path root
    · have hlast : Last (Above path) (root :: mounts) root := ⟨[], mounts, rfl, habove, hapart⟩
      rw [findMount_of_last hlast, hother]
      exact report_nil _
    · refine findMount_of_not_above fun x hx => ?_
      rcases List.mem_cons.mp hx with rfl | hx
      · exact habove
      · exact hapart x hx
  | cons first before =>
    obtain ⟨rfl, rfl⟩ : root = first ∧ mounts = before ++ m :: after := List.cons.inj htable
    have hm : m ∈ before ++ m :: after := List.mem_append_right _ List.mem_cons_self
    have hlast : Last (Above path) (root :: (before ++ m :: after)) m := by
      refine ⟨root :: before, after, rfl, (above_iff_isBelow (hlater m hm) path).mpr hbelow, ?_⟩
      intro x hx habove
      have hmem : x ∈ before ++ m :: after := List.mem_append_right _ (List.mem_cons_of_mem _ hx)
      exact hafter x hx ((above_iff_isBelow (hlater x hmem) path).mp habove)
    rw [findMount_of_last hlast, reportedSource]
    cases hwin : windowsSource m with
    | none => exact report_nil _
    | some source => exact report_of_ne_nil (windowsSource_ne_nil (hsource m hm) hwin) _

theorem rootMount_fields : (ascii "/").head? = some 47 ∧
    ∀ field ∈ [ascii "/", ascii "/", ascii "ext4", ascii "/dev/sdc", ascii "rw"], 0 ∉ field := by decide

def rootMount : MountEntry :=
  ⟨ascii "/", ascii "/", ascii "ext4", ascii "/dev/sdc", ascii "rw", rootMount_fields.1, rootMount_fields.2⟩

theorem driveMount_fields : (ascii "/mnt/c").head? = some 47 ∧
    ∀ field ∈ [ascii "/", ascii "/mnt/c", ascii "drvfs", ascii "C:\\", ascii "rw"], 0 ∉ field := by decide

/-- The drive `C:` at `/mnt/c`. -/
def driveMount : MountEntry :=
  ⟨ascii "/", ascii "/mnt/c", ascii "drvfs", ascii "C:\\", ascii "rw", driveMount_fields.1, driveMount_fields.2⟩

theorem findMount_linux_drive :
    (∃ m, IsMountOf [rootMount, driveMount] (ascii "/mnt/c/a") m) ∧
      ∀ m, IsMountOf [rootMount, driveMount] (ascii "/mnt/c/a") m →
        findMount [rootMount, driveMount] (ascii "/mnt/c/a") false = reportedSource m :=
  findMount_linux rfl (by decide) (by simp [driveMount]; decide)
    (by simp; decide) (ascii "/mnt/c/a")

/-! ## Windows paths -/

/-- The length of the source with which the mount matches a Windows path, 0 if it does not match. -/
def matchLength (path : Bytes) (m : MountEntry) : Nat :=
  ((windowsSource m).map fun source => isPathPrefix path source true).getD 0

/-- A mount that is listed later is above the mount point. -/
def Hidden (mountPoint : Bytes) (later : List MountEntry) : Prop :=
  ∃ m ∈ later, IsBelow m.mountPoint mountPoint

/-- A mount that matches the path and that no later mount hides. -/
structure Reachable (table : List MountEntry) (path : Bytes) (m : MountEntry) : Prop where
  matching : 0 < matchLength path m
  not_hidden : ∃ before after, table = before ++ m :: after ∧ ¬ Hidden m.mountPoint after

/-- The mount point of a reachable mount with the longest source is returned, the empty string only if no
mount is reachable. -/
def FindsReachable (table : List MountEntry) (path found : Bytes) : Prop :=
  (found = [] ∧ ∀ m, ¬ Reachable table path m) ∨
    ∃ m, Reachable table path m ∧ found = m.mountPoint ∧
      ∀ m', Reachable table path m' → matchLength path m' ≤ matchLength path m

def Discarded (mountPoint : Bytes) (later : List MountEntry) : Prop :=
  ∃ m ∈ later, 0 < isPathPrefix mountPoint m.mountPoint false

theorem Discarded.hidden {mountPoint : Bytes} {later : List MountEntry} (h : Discarded mountPoint later) :
    Hidden mountPoint later := by
  obtain ⟨m, hm, hpos⟩ := h
  exact ⟨m, hm, Or.inr ((isPathPrefix_false_iff (mountPoint_ne_nil m)).mp hpos)⟩

theorem findMountStep_true (path : Bytes) (found : Found) (m : MountEntry) :
    findMountStep path true found m =
      if matchLength path m = 0 ∨ matchLength path m < found.2 then (discard path true found.1 m, found.2)
      else (m.mountPoint, matchLength path m) := by
  unfold findMountStep matchLength
  cases windowsSource m with
  | none => rfl
  | some source => simp

theorem findMountStep_shorter {path : Bytes} {found : Found} {m : MountEntry}
    (h : matchLength path m = 0 ∨ matchLength path m < found.2) :
    findMountStep path true found m = (discard path true found.1 m, found.2) := by
  rw [findMountStep_true, if_pos h]

theorem foldl_discarded {path : Bytes} {length : Nat} {later : List MountEntry}
    (h : ∀ m ∈ later, matchLength path m = 0 ∨ matchLength path m < length) :
    later.foldl (findMountStep path true) ([], length) = ([], length) := by
  refine List.foldlRecOn later _ (motive := fun found => found = ([], length)) rfl ?_
  rintro found rfl m hm
  rw [findMountStep_shorter (h m hm)]
  rfl

theorem foldl_shorter {path mountPoint : Bytes} {length : Nat} {later : List MountEntry}
    (hne : mountPoint ≠ []) (h : ∀ m ∈ later, matchLength path m < length) :
    (Discarded mountPoint later →
        later.foldl (findMountStep path true) (mountPoint, length) = ([], length)) ∧
      (¬ Discarded mountPoint later →
        later.foldl (findMountStep path true) (mountPoint, length) = (mountPoint, length)) := by
  induction later with
  | nil =>
    refine ⟨?_, fun _ => rfl⟩
    rintro ⟨m, hm, -⟩
    exact absurd hm List.not_mem_nil
  | cons m later ih =>
    obtain ⟨ihdrop, ihkeep⟩ := ih fun x hx => h x (List.mem_cons_of_mem m hx)
    have hrest : ∀ x ∈ later, matchLength path x = 0 ∨ matchLength path x < length :=
      fun x hx => Or.inr (h x (List.mem_cons_of_mem m hx))
    rw [List.foldl_cons, findMountStep_shorter (Or.inr (h m List.mem_cons_self))]
    by_cases hm : 0 < isPathPrefix mountPoint m.mountPoint false
    · have hdrop : discard path true mountPoint m = [] := if_pos ⟨hne, hm⟩
      dsimp only
      rw [hdrop, foldl_discarded hrest]
      exact ⟨fun _ => rfl, fun hno => absurd ⟨m, List.mem_cons_self, hm⟩ hno⟩
    · have hkeep : discard path true mountPoint m = mountPoint := if_neg fun hdrop => hm hdrop.2
      dsimp only
      rw [hkeep]
      refine ⟨?_, fun hno => ihkeep ?_⟩
      · rintro ⟨x, hx, hpos⟩
        rcases List.mem_cons.mp hx with rfl | hx
        · exact absurd hpos hm
        · exact ihdrop ⟨x, hx, hpos⟩
      · rintro ⟨x, hx, hpos⟩
        exact hno ⟨x, List.mem_cons_of_mem m hx, hpos⟩

theorem findMount_longest {path : Bytes} {before after : List MountEntry} {m : MountEntry}
    (hmax : LastMaximum (matchLength path) before m after) (hpos : 0 < matchLength path m) :
    (Discarded m.mountPoint after → findMount (before ++ m :: after) path true = ([], none)) ∧
      (¬ Discarded m.mountPoint after →
        findMount (before ++ m :: after) path true = (m.mountPoint, some (matchLength path m))) := by
  have hbound : (before.foldl (findMountStep path true) ([], 0)).2 ≤ matchLength path m := by
    refine List.foldlRecOn before _ (motive := fun found : Found => found.2 ≤ matchLength path m)
      (Nat.zero_le _) ?_
    intro found hfound x hx
    rw [findMountStep_true]
    split
    · exact hfound
    · exact hmax.le_of_before x hx
  have hstored : (before ++ m :: after).foldl (findMountStep path true) ([], 0) =
      after.foldl (findMountStep path true) (m.mountPoint, matchLength path m) := by
    rw [List.foldl_append, List.foldl_cons, findMountStep_true, if_neg]
    omega
  obtain ⟨hdrop, hkeep⟩ := foldl_shorter (mountPoint_ne_nil m) hmax.lt_of_after
  unfold findMount
  rw [hstored]
  refine ⟨fun h => ?_, fun h => ?_⟩
  · rw [hdrop h]
    exact report_nil _
  · rw [hkeep h]
    exact report_of_ne_nil (mountPoint_ne_nil m) _

theorem findMount_nil {table : List MountEntry} {path : Bytes} (h : ∀ m ∈ table, matchLength path m = 0) :
    findMount table path true = ([], none) := by
  unfold findMount
  rw [foldl_discarded fun m hm => Or.inl (h m hm)]
  exact report_nil _

theorem exists_match_of_findMount {table : List MountEntry} {path : Bytes}
    (h : (findMount table path true).1 ≠ []) :
    ∃ m, 0 < matchLength path m ∧ findMount table path true = (m.mountPoint, some (matchLength path m)) := by
  by_cases hmatch : ∃ x ∈ table, 0 < matchLength path x
  · obtain ⟨x, hx, hxpos⟩ := hmatch
    obtain ⟨before, m, after, rfl, hmax⟩ := exists_lastMaximum (matchLength path) (List.ne_nil_of_mem hx)
    have hpos : 0 < matchLength path m := Nat.lt_of_lt_of_le hxpos (hmax.le hx)
    obtain ⟨hdrop, hkeep⟩ := findMount_longest hmax hpos
    by_cases hdiscarded : Discarded m.mountPoint after
    · rw [hdrop hdiscarded] at h
      exact absurd rfl h
    · exact ⟨m, hpos, hkeep hdiscarded⟩
  · rw [findMount_nil fun m hm => Nat.eq_zero_of_not_pos fun hpos => hmatch ⟨m, hm, hpos⟩] at h
    exact absurd rfl h

/-- A reachable mount with the mount point of `m` is `m`, if `m` is not discarded. -/
theorem not_hidden_of_mountPoint_eq {path : Bytes} {before after : List MountEntry} {m m' : MountEntry}
    (hkeep : ¬ Discarded m.mountPoint after) (hreach : Reachable (before ++ m :: after) path m')
    (heq : m.mountPoint = m'.mountPoint) : ¬ Hidden m.mountPoint after := by
  obtain ⟨before', after', htable, hvisible⟩ := hreach.not_hidden
  rcases List.append_eq_append_iff.mp htable with ⟨mid, rfl, hrest⟩ | ⟨mid, rfl, hrest⟩
  · cases mid with
    | nil =>
      obtain ⟨rfl, rfl⟩ : m = m' ∧ after = after' := List.cons.inj hrest
      exact hvisible
    | cons x mid =>
      -- the reachable mount is listed later, on the same mount point
      obtain ⟨rfl, rfl⟩ : m = x ∧ after = mid ++ m' :: after' := List.cons.inj hrest
      refine absurd ⟨m', List.mem_append_right mid List.mem_cons_self, ?_⟩ hkeep
      exact (isPathPrefix_false_iff (mountPoint_ne_nil m')).mpr (Or.inl heq)
  · cases mid with
    | nil =>
      obtain ⟨rfl, rfl⟩ : m' = m ∧ after' = after := List.cons.inj hrest
      exact hvisible
    | cons x mid =>
      obtain ⟨rfl, rfl⟩ : m' = x ∧ after' = mid ++ m :: after := List.cons.inj hrest
      exact absurd ⟨m, List.mem_append_right mid List.mem_cons_self, Or.inr (Or.inl heq.symm)⟩ hvisible

/-- The last of the mounts with the longest matching source is reachable, or it is discarded and no mount is
reachable. -/
def LongestServes (table : List MountEntry) (path : Bytes) : Prop :=
  ∀ before m after, table = before ++ m :: after → LastMaximum (matchLength path) before m after →
    0 < matchLength path m → ¬ Hidden m.mountPoint after ∨
      (Discarded m.mountPoint after ∧ ∀ m', ¬ Reachable table path m')

theorem Reachable.mem {table : List MountEntry} {path : Bytes} {m : MountEntry} (h : Reachable table path m) :
    m ∈ table := by
  obtain ⟨before, after, rfl, -⟩ := h.not_hidden
  exact List.mem_append_right before List.mem_cons_self

theorem findsReachable_iff (table : List MountEntry) (path : Bytes) :
    FindsReachable table path (findMount table path true).1 ↔ LongestServes table path := by
  constructor
  · rintro hfinds before m after rfl hmax hpos
    obtain ⟨hdrop, hkeep⟩ := findMount_longest hmax hpos
    by_cases hdiscarded : Discarded m.mountPoint after
    · rw [hdrop hdiscarded] at hfinds
      rcases hfinds with ⟨-, hnone⟩ | ⟨m', -, hnil, -⟩
      · exact Or.inr ⟨hdiscarded, hnone⟩
      · exact absurd hnil.symm (mountPoint_ne_nil m')
    · rw [hkeep hdiscarded] at hfinds
      rcases hfinds with ⟨hnil, -⟩ | ⟨m', hreach, heq, -⟩
      · exact absurd hnil (mountPoint_ne_nil m)
      · exact Or.inl (not_hidden_of_mountPoint_eq hdiscarded hreach heq)
  · intro hserves
    by_cases hmatch : ∃ x ∈ table, 0 < matchLength path x
    · obtain ⟨x, hx, hxpos⟩ := hmatch
      obtain ⟨before, m, after, rfl, hmax⟩ := exists_lastMaximum (matchLength path) (List.ne_nil_of_mem hx)
      have hpos : 0 < matchLength path m := Nat.lt_of_lt_of_le hxpos (hmax.le hx)
      obtain ⟨hdrop, hkeep⟩ := findMount_longest hmax hpos
      rcases hserves before m after rfl hmax hpos with hvisible | ⟨hdiscarded, hnone⟩
      · rw [hkeep fun h => hvisible h.hidden]
        exact Or.inr ⟨m, ⟨hpos, before, after, rfl, hvisible⟩, rfl, fun m' hreach => hmax.le hreach.mem⟩
      · rw [hdrop hdiscarded]
        exact Or.inl ⟨rfl, hnone⟩
    · have hzero : ∀ m ∈ table, matchLength path m = 0 :=
        fun m hm => Nat.eq_zero_of_not_pos fun hpos => hmatch ⟨m, hm, hpos⟩
      rw [findMount_nil hzero]
      exact Or.inl ⟨rfl, fun m hreach => absurd hreach.matching (by rw [hzero m hreach.mem]; decide)⟩

theorem dataMount_fields : (ascii "/srv/data").head? = some 47 ∧
    ∀ field ∈ [ascii "/", ascii "/srv/data", ascii "drvfs", ascii "C:\\data", ascii "rw"], 0 ∉ field := by
  decide

/-- A directory of the drive with a mount of its own. -/
def dataMount : MountEntry :=
  ⟨ascii "/", ascii "/srv/data", ascii "drvfs", ascii "C:\\data", ascii "rw", dataMount_fields.1,
    dataMount_fields.2⟩

theorem srvMount_fields : (ascii "/srv").head? = some 47 ∧
    ∀ field ∈ [ascii "/", ascii "/srv", ascii "tmpfs", ascii "tmpfs", ascii "rw"], 0 ∉ field := by decide

def srvMount : MountEntry :=
  ⟨ascii "/", ascii "/srv", ascii "tmpfs", ascii "tmpfs", ascii "rw", srvMount_fields.1, srvMount_fields.2⟩

/-- The drive is not found, since the mount that has been discarded had a longer source. -/
theorem findsReachable_not_drive :
    ¬ FindsReachable [rootMount, dataMount, srvMount, driveMount] (ascii "C:\\data\\a")
      (findMount [rootMount, dataMount, srvMount, driveMount] (ascii "C:\\data\\a") true).1 := by
  have hfound : (findMount [rootMount, dataMount, srvMount, driveMount] (ascii "C:\\data\\a") true).1 = [] := by
    decide
  have hmatch : 0 < matchLength (ascii "C:\\data\\a") driveMount := by decide
  rw [hfound]
  rintro (⟨-, hnone⟩ | ⟨m, -, hnil, -⟩)
  · refine hnone driveMount ⟨hmatch, [rootMount, dataMount, srvMount], [], rfl, ?_⟩
    rintro ⟨m, hm, -⟩
    exact absurd hm List.not_mem_nil
  · exact absurd hnil.symm (mountPoint_ne_nil m)

end WslFreeBSD.Translation
