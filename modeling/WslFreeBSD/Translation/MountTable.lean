import WslFreeBSD.Lib.CText
import WslFreeBSD.Lib.LastMatch

/-!
# The mount table

`UtilFindMount` of `init/util.cpp`, with the functions that it calls. A path is translated with the
mount that it lies on: a Linux path is matched with the mount points, a Windows path with the Windows
sources of the mounts. `findMount` makes one pass over the table and keeps one candidate, which a later
mount may replace or discard.
-/

namespace WslFreeBSD.Translation

open Lib

/-! ## Paths -/

abbrev IsSeparator (c : UInt8) : Prop := c = 47 ∨ c = 92

/-- A step of `UtilCanonicalisePathSeparator`: what has been written, and the next character. -/
def canonicaliseStep (separator : UInt8) (written : Bytes) (c : UInt8) : Bytes :=
  if IsSeparator c then
    -- The first two separators of a UNC path are both kept.
    if 1 < written.length ∧ written.getLast? = some separator then written else written ++ [separator]
  else written ++ [c]

/-- `UtilCanonicalisePathSeparator`. -/
def canonicalisePathSeparator (path : Bytes) (separator : UInt8) : Bytes :=
  path.foldl (canonicaliseStep separator) []

/-- `wsl::shared::string::StartsWith`. -/
def startsWith (string start : Bytes) (caseInsensitive : Bool) : Bool :=
  if string.length < start.length then false
  else if caseInsensitive then eqIgnoringCase (string.take start.length) start
  else string.take start.length = start

def separatorOf (winPath : Bool) : UInt8 := if winPath then 92 else 47

/-- `UtilIsPathPrefix`: the length of the prefix, or 0 if there is no match. -/
def isPathPrefix (path pathStart : Bytes) (winPath : Bool) : Nat :=
  if path.length < pathStart.length ∨
      (path.length > pathStart.length ∧ path[pathStart.length]? ≠ some (separatorOf winPath)) then 0
  else if !startsWith path pathStart winPath then 0
  else pathStart.length

/-! ## Windows sources -/

/-- `UtilStringNextToken`: the next token, without what remains. -/
def stringNextToken (view : Bytes) (separator : UInt8) : Bytes := view.takeWhile (· ≠ separator)

/-- The value of the option `path=`, as a Windows path. -/
def plan9Path (mountSource : Bytes) : Option Bytes :=
  if mountSource.length > 1 ∧ mountSource.head?.any isAlpha ∧ mountSource[1]? = some 58 then
    some (canonicalisePathSeparator mountSource 92)
  else if startsWith mountSource (ascii "UNC\\") false then
    some (canonicalisePathSeparator (ascii "\\\\" ++ mountSource.drop 4) 92)
  else none

/-- `UtilParsePlan9MountSource`: only the first option `aname=drvfs` counts. -/
def parsePlan9MountSource (mountOptions : Bytes) : Bytes :=
  let found := do
    let current ← (mountOptions.splitOnP (· = 44)).find? (startsWith · (ascii "aname=drvfs") false)
    let path ← strstr (ascii "path=") current
    plan9Path (stringNextToken (path.drop 5) 59)
  found.getD []

/-- `UtilParseVirtiofsMountSource`. -/
def parseVirtiofsMountSource (source : Bytes) : Bytes :=
  if startsWith source (ascii "drvfsa") false ∧ source.length ≥ 7 then (source.drop 6).take 1 ++ [58]
  else if startsWith source (ascii "drvfs") false ∧ source.length ≥ 6 then (source.drop 5).take 1 ++ [58]
  else []

/-- The fields of an entry of `/proc/self/mountinfo` that `UtilFindMount` reads, which are C strings.
A mount point is an absolute path. -/
structure MountEntry where
  root : Bytes
  mountPoint : Bytes
  fileSystemType : Bytes
  source : Bytes
  superOptions : Bytes
  absolute : mountPoint.head? = some 47
  terminated : ∀ field ∈ [root, mountPoint, fileSystemType, source, superOptions], 0 ∉ field

/-- The mount source as a Windows path, for the file systems that have one. -/
def mountSource (current : MountEntry) : Option Bytes :=
  if current.fileSystemType = ascii "9p" then
    some (parsePlan9MountSource current.superOptions) |>.filter (· ≠ [])
  else if current.fileSystemType = ascii "virtiofs" then
    some (parseVirtiofsMountSource current.source) |>.filter (· ≠ [])
  else if current.fileSystemType = ascii "drvfs" then
    some (canonicalisePathSeparator current.source 92)
  else none

/-- The mount source without a trailing backslash. -/
def strippedSource (current : MountEntry) : Option Bytes :=
  (mountSource current).map fun source => if source.getLast? = some 92 then source.dropLast else source

/-- The Windows source of a mount: for a bind mount it goes on with the root of the mount. -/
def windowsSource (current : MountEntry) : Option Bytes :=
  (strippedSource current).map fun source =>
    if current.root ≠ ascii "/" then canonicalisePathSeparator (source ++ current.root) 92 else source

theorem mountPoint_ne_nil (m : MountEntry) : m.mountPoint ≠ [] := by
  intro h
  have habs := m.absolute
  rw [h] at habs
  cases habs

/-! ## The pass over the table -/

/-- `FoundReplacement` and `FoundPrefixLength`. -/
abbrev Found := Bytes × Nat

/-- A mount that was found is discarded when the path, or for a Windows path its mount point, is below
the current mount. -/
def discard (path : Bytes) (winPath : Bool) (found : Bytes) (current : MountEntry) : Bytes :=
  if found ≠ [] ∧ isPathPrefix (if winPath then found else path) current.mountPoint false > 0 then []
  else found

/-- The body of the loop of `UtilFindMount`. -/
def findMountStep (path : Bytes) (winPath : Bool) (found : Found) (current : MountEntry) : Found :=
  let kept := discard path winPath found.1 current
  match windowsSource current with
  | none => (kept, found.2)
  | some source =>
    let length := isPathPrefix path (if winPath then source else current.mountPoint) winPath
    if length = 0 ∨ (winPath ∧ length < found.2) then (kept, found.2)
    else (if winPath then current.mountPoint else source, length)

/-- The replacement that is returned, empty if there is none, and what is stored at `PrefixLength`. -/
def report (found : Found) : Bytes × Option Nat := (found.1, if found.1 ≠ [] then some found.2 else none)

/-- `UtilFindMount`. -/
def findMount (table : List MountEntry) (path : Bytes) (winPath : Bool) : Bytes × Option Nat :=
  report (table.foldl (findMountStep path winPath) ([], 0))

/-! ## Prefixes of paths -/

def IsBelow (directory path : Bytes) : Prop :=
  directory = ascii "/" ∨ path = directory ∨ directory ++ [47] <+: path

theorem startsWith_false (string start : Bytes) : startsWith string start false = true ↔ start <+: string := by
  unfold startsWith
  rw [List.prefix_iff_eq_take]
  by_cases hlen : string.length < start.length
  · rw [if_pos hlen]
    refine ⟨fun h => absurd h Bool.false_ne_true, fun h => ?_⟩
    have hle := congrArg List.length h
    rw [List.length_take] at hle
    omega
  · rw [if_neg hlen, if_neg Bool.false_ne_true, decide_eq_true_eq]
    exact eq_comm

theorem startsWith_true_iff (string start : Bytes) :
    startsWith string start true = true ↔ start.map toLower <+: string.map toLower := by
  unfold startsWith
  rw [List.prefix_iff_eq_take, List.length_map, ← List.map_take]
  by_cases hlen : string.length < start.length
  · rw [if_pos hlen]
    refine ⟨fun h => absurd h Bool.false_ne_true, fun h => ?_⟩
    have hle := congrArg List.length h
    rw [List.length_map, List.length_map, List.length_take] at hle
    omega
  · rw [if_neg hlen, if_pos rfl, eqIgnoringCase, decide_eq_true_eq]
    exact eq_comm

theorem isPathPrefix_pos_iff (path pathStart : Bytes) (winPath : Bool) :
    0 < isPathPrefix path pathStart winPath ↔ pathStart ≠ [] ∧ startsWith path pathStart winPath = true ∧
      (path.length = pathStart.length ∨ path[pathStart.length]? = some (separatorOf winPath)) := by
  unfold isPathPrefix
  have hpos : 0 < pathStart.length ↔ pathStart ≠ [] := List.length_pos_iff
  have hlen : startsWith path pathStart winPath = true → pathStart.length ≤ path.length := by
    intro h
    by_contra hlt
    rw [startsWith, if_pos (Nat.not_le.mp hlt)] at h
    exact Bool.false_ne_true h
  split
  · rename_i hno
    refine ⟨fun h => absurd h (lt_irrefl 0), ?_⟩
    rintro ⟨-, hstart, hend⟩
    have hle := hlen hstart
    rcases hno with hno | ⟨hgt, hsep⟩
    · omega
    · rcases hend with hend | hend
      · omega
      · exact absurd hend hsep
  · rename_i hyes
    cases hstart : startsWith path pathStart winPath with
    | false => simp
    | true =>
      simp only [Bool.not_true, Bool.false_eq_true, if_false, hpos, true_and]
      refine ⟨fun h => ⟨h, ?_⟩, fun h => h.1⟩
      by_contra hend
      rw [not_or] at hend
      have hle := hlen hstart
      exact hyes (Or.inr ⟨by omega, hend.2⟩)

theorem isPathPrefix_eq_length {path pathStart : Bytes} {winPath : Bool}
    (h : 0 < isPathPrefix path pathStart winPath) : isPathPrefix path pathStart winPath = pathStart.length := by
  unfold isPathPrefix at h ⊢
  split at h
  · exact absurd h (lt_irrefl 0)
  · split at h
    · exact absurd h (lt_irrefl 0)
    · rename_i hno hstart
      rw [if_neg hno, if_neg hstart]

theorem isPathPrefix_false_iff {directory path : Bytes} (hne : directory ≠ []) :
    0 < isPathPrefix path directory false ↔ path = directory ∨ directory ++ [47] <+: path := by
  rw [isPathPrefix_pos_iff, startsWith_false]
  constructor
  · rintro ⟨-, ⟨rest, rfl⟩, hend⟩
    rcases hend with hend | hend
    · have hrest : rest = [] := by simpa using hend
      exact Or.inl (by rw [hrest, List.append_nil])
    · rw [List.getElem?_append_right (le_refl _), Nat.sub_self] at hend
      obtain ⟨rest, rfl⟩ := List.head?_eq_some_iff.mp ((List.head?_eq_getElem? ..).trans hend)
      exact Or.inr ⟨rest, by simp [separatorOf]⟩
  · rintro (rfl | ⟨rest, rfl⟩)
    · exact ⟨hne, List.prefix_rfl, Or.inl rfl⟩
    · refine ⟨hne, ⟨47 :: rest, by simp⟩, Or.inr ?_⟩
      simp [separatorOf]

end WslFreeBSD.Translation
