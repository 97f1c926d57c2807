import WslFreeBSD.Translation.ThereAndBack

/-!
# Canonical paths

`WslPathTranslate` of `init/wslpath.cpp`, without flags, and `UtilTranslatePathList`. A path is made
absolute, its relative segments are collapsed, and it is translated with `winPathTranslate`.

A translation is a text without NUL, unless a path of the share of the distribution holds an escape
sequence: `zero_mem_wslPathTranslate_unix` and `zero_not_mem_wslPathTranslate_windows`.
-/

namespace WslFreeBSD.Translation

open Lib

/-- What a process sees: the mount table, the value of `WSL_DISTRO_NAME` and the working directory, if
`getcwd` gives it. -/
structure Surroundings where
  table : List MountEntry
  distributionName : Bytes
  workingDirectory : Option Bytes
  name_terminated : 0 ∉ distributionName
  directory_terminated : ∀ cwd ∈ workingDirectory, 0 ∉ cwd

/-! ## Canonical paths -/

/-- `RemoveSegmentCount` at a segment other than `..`: an empty segment and `.` are removed themselves. -/
def removeSegmentCount (segment : Bytes) (count : Nat) : Nat :=
  if count = 0 ∧ (segment = [] ∨ segment = ascii ".") then count + 1 else count

/-- A segment in the loop of `CollapsePath`, which goes from the last segment to the first:
`RemoveSegmentCount`, and the text at `LastSegment` once there is one. -/
def collapseSegment (separator : UInt8) (segment : Bytes) (state : Nat × Option Bytes) : Nat × Option Bytes :=
  if segment = ascii ".." then (state.1 + 1, state.2)
  else if removeSegmentCount segment state.1 > 0 then
    (removeSegmentCount segment state.1 - 1, some (state.2.getD []))
  else
    match state.2 with
    | none => (0, some segment)
    | some last => (0, some (segment ++ separator :: last))

/-- `CollapsePath`. What stands before the first separator is no segment. -/
def collapsePath (path : Bytes) (separator : UInt8) : Option Bytes :=
  let segments := (path.splitOnP (· = separator)).tail
  let collapsed := segments.foldr (collapseSegment separator) (0, none)
  if collapsed.1 = 0 then
    some (path.takeWhile (· ≠ separator) ++ (collapsed.2.map (separator :: ·)).getD [])
  else none

/-- `UtilIsAbsoluteWindowsPath`. -/
def isAbsoluteWindowsPath (path : Bytes) : Bool :=
  path.length ≥ 3 ∧
    ((IsSeparator (path.headD 0) ∧ IsSeparator ((path.drop 1).headD 0)) ∨
      (isAlpha (path.headD 0) ∧ (path.drop 1).headD 0 = 58))

/-- `AbsoluteWindowsPath`. -/
def absoluteWindowsPath (relativePath cwd : Bytes) : Bytes :=
  if relativePath.head? = some 92 then
    if isAlpha (cwd.headD 0) = false ∨ (cwd.drop 1).headD 0 ≠ 58 then [] else cwd.take 2 ++ relativePath
  else cwd ++ [92] ++ relativePath

/-- `AbsolutePath`, and whether the path was relative; empty if the path cannot be collapsed. -/
def absolutePath (path cwd : Bytes) : Bytes × Bool :=
  let relative : Bool := path.head? ≠ some 47
  let newPath := if relative then cwd ++ [47] ++ path else path
  ((collapsePath newPath 47).getD [], relative)

/-- The part of `DosToCanonicalPath` behind the conversion of relative paths. -/
def collapseDosPath (path : Bytes) : Option Bytes :=
  if path.length < 2 then none
  else if path[1]? = some 58 ∧ path[2]? = some 92 then collapsePath path 92
  else if path[0]? = some 92 ∧ path[1]? = some 92 then
    -- A long path loses its prefix; the start of a UNC path is not collapsed.
    if path[2]? = some 63 ∧ path[3]? = some 92 then collapsePath (path.drop 4) 92
    else (collapsePath (path.drop 2) 92).map (path.take 2 ++ ·)
  else none

/-- `DosToCanonicalPath`, and whether the path was relative; empty on failure. -/
def dosToCanonicalPath (s : Surroundings) (cwd path : Bytes) : Bytes × Bool :=
  if isAbsoluteWindowsPath path then ((collapseDosPath path).getD [], false)
  else
    let windowsCwd := winPathTranslate s.table s.distributionName cwd false
    let absolute := absoluteWindowsPath path (windowsCwd.takeWhile (· ≠ 0))
    if windowsCwd = [] ∨ absolute = [] then ([], true) else ((collapseDosPath absolute).getD [], true)

/-! ## Translation -/

inductive TranslateMode where
  | unix
  | windows
  | mixed
  deriving DecidableEq

/-- The end of `WslPathTranslate`: a path below the working directory is made relative again. -/
def relativise (translatedPath outputCwd : Bytes) : Bytes :=
  if (translatedPath.takeWhile (· ≠ 0)).take outputCwd.length = outputCwd then
    let next := translatedPath[outputCwd.length]?.getD 0
    if next = 92 ∨ next = 47 then
      if outputCwd.length + 1 = translatedPath.length then ascii "."
      else translatedPath.drop (outputCwd.length + 1)
    else if next = 0 then translatedPath.drop outputCwd.length
    else translatedPath
  else translatedPath

/-- The canonical path that `WslPathTranslate` translates, and whether the path was relative. -/
def canonicalPath (s : Surroundings) (cwd path : Bytes) (mode : TranslateMode) : Bytes × Bool :=
  if mode = .unix then dosToCanonicalPath s cwd (canonicalisePathSeparator path 92) else absolutePath path cwd

/-- The directory below which the result is made relative. -/
def outputDirectory (s : Surroundings) (cwd : Bytes) (mode : TranslateMode) : Option Bytes :=
  if mode = .unix then some cwd
  else
    let windowsCwd := winPathTranslate s.table s.distributionName cwd false
    if windowsCwd = [] then none else some (windowsCwd.takeWhile (· ≠ 0))

def makeRelative (s : Surroundings) (cwd : Bytes) (mode : TranslateMode) (relative : Bool)
    (translatedPath : Bytes) : Bytes :=
  if relative then ((outputDirectory s cwd mode).map (relativise translatedPath)).getD translatedPath
  else translatedPath

/-- `WslPathTranslate` with no flags. -/
def wslPathTranslate (s : Surroundings) (path : Bytes) (mode : TranslateMode) : Bytes :=
  match s.workingDirectory with
  | none => []
  | some cwd =>
    let canonical := canonicalPath s cwd path mode
    if canonical.1 = [] then []
    else
      let translated := winPathTranslate s.table s.distributionName canonical.1 (mode = .unix)
      if translated = [] then []
      else
        let result := makeRelative s cwd mode canonical.2 translated
        if mode = .mixed then canonicalisePathSeparator (result.takeWhile (· ≠ 0)) 47 else result

/-- The paths of a list that `UtilTranslatePathList` translates. -/
def listedPaths (pathList : Bytes) (isNtPathList : Bool) : List Bytes :=
  if isNtPathList then (tokens (· = 59) pathList).filter isAbsoluteWindowsPath
  else tokens (· = 58) pathList

/-- Their translations, without those that have failed. -/
def translatedPaths (s : Surroundings) (pathList : Bytes) (isNtPathList : Bool) : List Bytes :=
  let mode : TranslateMode := if isNtPathList then .unix else .windows
  ((listedPaths pathList isNtPathList).map fun path => wslPathTranslate s path mode).filter (· ≠ [])

def targetSeparator (isNtPathList : Bool) : UInt8 := if isNtPathList then 58 else 59

/-- `UtilTranslatePathList`. -/
def translatePathList (s : Surroundings) (pathList : Bytes) (isNtPathList : Bool) : Option Bytes :=
  let translatedList :=
    List.intercalate [targetSeparator isNtPathList] (translatedPaths s pathList isNtPathList)
  if translatedList = [] then none else some translatedList

/-! ## Collapsed paths -/

abbrev Single (separator : UInt8) (path : Bytes) : Prop :=
  path.IsChain fun c d => ¬ (c = separator ∧ d = separator)

theorem single_of_not_mem {separator : UInt8} {path : Bytes} (h : separator ∉ path) :
    Single separator path := by
  induction path with
  | nil => exact List.isChain_nil
  | cons c path ih =>
    have hc : c ≠ separator := fun heq => h (heq ▸ List.mem_cons_self)
    cases path with
    | nil => exact List.isChain_singleton c
    | cons d path =>
      exact List.isChain_cons_cons.mpr ⟨fun hboth => hc hboth.1, ih fun hmem => h (List.mem_cons_of_mem c hmem)⟩

theorem single_append {separator : UInt8} {name last : Bytes} (hname : separator ∉ name)
    (hlast : Single separator last) (hhead : last.head? ≠ some separator) :
    Single separator (name ++ separator :: last) := by
  have hrest : Single separator (separator :: last) := by
    cases last with
    | nil => exact List.isChain_singleton separator
    | cons d last =>
      exact List.isChain_cons_cons.mpr ⟨fun hboth => hhead (congrArg some hboth.2), hlast⟩
  induction name with
  | nil => exact hrest
  | cons c name ih =>
    have hc : c ≠ separator := fun heq => hname (heq ▸ List.mem_cons_self)
    have hname' : separator ∉ name := fun hmem => hname (List.mem_cons_of_mem c hmem)
    exact (ih hname').cons fun d _ hboth => hc hboth.1

/-- What is known of the text at `LastSegment`. -/
structure Collapsed (separator : UInt8) (allowed : Bytes) (last : Bytes) : Prop where
  single : Single separator last
  head : last.head? ≠ some separator
  chars : ∀ c ∈ last, c ∈ allowed ∨ c = separator

theorem collapsed_nil (separator : UInt8) (allowed : Bytes) : Collapsed separator allowed [] where
  single := List.isChain_nil
  head := by simp
  chars := by simp

theorem collapsed_collapseSegment {separator : UInt8} {allowed segment : Bytes} {state : Nat × Option Bytes}
    (hsegment : separator ∉ segment) (hchars : ∀ c ∈ segment, c ∈ allowed)
    (h : ∀ last ∈ state.2, Collapsed separator allowed last) :
    ∀ last ∈ (collapseSegment separator segment state).2, Collapsed separator allowed last := by
  have hkept : Collapsed separator allowed (state.2.getD []) := by
    cases hstate : state.2 with
    | none => exact collapsed_nil separator allowed
    | some last => exact h last hstate
  intro last hlast
  unfold collapseSegment at hlast
  split at hlast
  · exact h last hlast
  · split at hlast
    · obtain rfl := Option.some.inj hlast
      exact hkept
    · rename_i hdots hremoved
      -- the segment is kept, so it is not empty
      have hne : segment ≠ [] := by
        rintro rfl
        refine hremoved ?_
        unfold removeSegmentCount
        split
        · omega
        · rename_i hno
          exact Nat.pos_of_ne_zero fun hzero => hno ⟨hzero, Or.inl rfl⟩
      obtain ⟨c, rest, rfl⟩ := List.exists_cons_of_ne_nil hne
      have hfirst : c ≠ separator := fun heq => hsegment (heq ▸ List.mem_cons_self)
      cases hstate : state.2 with
      | none =>
        rw [hstate] at hlast
        obtain rfl := Option.some.inj hlast
        exact ⟨single_of_not_mem hsegment, fun hhead => hfirst (Option.some.inj hhead),
          fun d hd => Or.inl (hchars d hd)⟩
      | some later =>
        have hlater := h later hstate
        rw [hstate] at hlast
        obtain rfl := Option.some.inj hlast
        refine ⟨single_append hsegment hlater.single hlater.head,
          fun hhead => hfirst (Option.some.inj hhead), ?_⟩
        intro d hd
        rcases List.mem_append.mp hd with hd | hd
        · exact Or.inl (hchars d hd)
        · rcases List.mem_cons.mp hd with rfl | hd
          · exact Or.inr rfl
          · exact hlater.chars d hd

theorem collapsePath_spec {path collapsed : Bytes} {separator : UInt8}
    (h : collapsePath path separator = some collapsed) :
    Single separator collapsed ∧ (∀ c ∈ collapsed, c ∈ path ∨ c = separator) ∧
      (path.head? ≠ some separator → path ≠ [] → collapsed.head? = path.head?) := by
  unfold collapsePath at h
  dsimp only at h
  split at h
  · obtain rfl := Option.some.inj h
    have hfirst : separator ∉ path.takeWhile (· ≠ separator) := by
      intro hmem
      simpa using List.mem_takeWhile_imp hmem
    have hchars : ∀ c ∈ path.takeWhile (· ≠ separator), c ∈ path := fun c hc => List.takeWhile_subset _ hc
    have hfold : ∀ last ∈ ((path.splitOnP (· = separator)).tail.foldr (collapseSegment separator) (0, none)).2,
        Collapsed separator path last := by
      refine List.foldrRecOn _ (collapseSegment separator)
        (motive := fun state : Nat × Option Bytes => ∀ last ∈ state.2, Collapsed separator path last)
        (by simp) ?_
      intro state hstate segment hsegment
      have hpiece := List.mem_of_mem_tail hsegment
      refine collapsed_collapseSegment ?_ (fun c hc => (mem_of_mem_splitOnP hpiece hc).1) hstate
      intro hmem
      simpa using (mem_of_mem_splitOnP hpiece hmem).2
    have hhead : path.head? ≠ some separator → path ≠ [] →
        ∀ rest, (path.takeWhile (· ≠ separator) ++ rest).head? = path.head? := by
      intro hstart hne rest
      obtain ⟨c, path, rfl⟩ := List.exists_cons_of_ne_nil hne
      have hc : decide (c ≠ separator) = true := decide_eq_true fun heq => hstart (congrArg some heq)
      rw [List.takeWhile_cons, if_pos hc]
      rfl
    cases hlast : ((path.splitOnP (· = separator)).tail.foldr (collapseSegment separator) (0, none)).2 with
    | none =>
      rw [Option.map_none, Option.getD_none, List.append_nil]
      refine ⟨single_of_not_mem hfirst, fun c hc => Or.inl (hchars c hc), fun hstart hne => ?_⟩
      simpa using hhead hstart hne []
    | some last =>
      obtain ⟨hsingle, hlastHead, hlastChars⟩ := hfold last hlast
      rw [Option.map_some, Option.getD_some]
      refine ⟨single_append hfirst hsingle hlastHead, ?_, fun hstart hne => hhead hstart hne _⟩
      intro c hc
      rcases List.mem_append.mp hc with hc | hc
      · exact Or.inl (hchars c hc)
      · rcases List.mem_cons.mp hc with rfl | hc
        · exact Or.inr rfl
        · exact hlastChars c hc
  · cases h

/-! ## Canonical Windows paths -/

theorem mem_canonicalise {path : Bytes} {separator c : UInt8}
    (h : c ∈ canonicalisePathSeparator path separator) :
    (c ∈ path ∧ ¬ IsSeparator c) ∨ c = separator := by
  have hall : ∀ c ∈ canonicalisePathSeparator path separator, (c ∈ path ∧ ¬ IsSeparator c) ∨ c = separator := by
    refine List.foldlRecOn path (canonicaliseStep separator)
      (motive := fun written => ∀ c ∈ written, (c ∈ path ∧ ¬ IsSeparator c) ∨ c = separator) (by simp) ?_
    intro written hwritten d hd c hc
    unfold canonicaliseStep at hc
    split at hc
    · split at hc
      · exact hwritten c hc
      · rcases List.mem_append.mp hc with hc | hc
        · exact hwritten c hc
        · exact Or.inr (List.mem_singleton.mp hc)
    · rename_i hplain
      rcases List.mem_append.mp hc with hc | hc
      · exact hwritten c hc
      · obtain rfl : c = d := List.mem_singleton.mp hc
        exact Or.inl ⟨hd, hplain⟩
  exact hall c h

/-- A Windows path as it is translated: without slashes, and with single backslashes behind the first two
characters. -/
structure CanonicalWindows (path : Bytes) : Prop where
  terminated : 0 ∉ path
  backslashes : 47 ∉ path
  single : Single 92 (path.drop 2)

theorem Single.drop {separator : UInt8} {path : Bytes} (h : Single separator path) (n : Nat) :
    Single separator (path.drop n) := List.IsChain.drop h n

theorem canonicalWindows_collapsePath {path collapsed : Bytes} (hnul : 0 ∉ path) (hslash : 47 ∉ path)
    (h : collapsePath path 92 = some collapsed) : CanonicalWindows collapsed := by
  obtain ⟨hsingle, hchars, -⟩ := collapsePath_spec h
  refine ⟨fun hmem => ?_, fun hmem => ?_, hsingle.drop 2⟩
  · rcases hchars 0 hmem with hmem | heq
    · exact hnul hmem
    · exact absurd heq (by decide)
  · rcases hchars 47 hmem with hmem | heq
    · exact hslash hmem
    · exact absurd heq (by decide)

theorem canonicalWindows_collapseDosPath {path collapsed : Bytes} (hnul : 0 ∉ path) (hslash : 47 ∉ path)
    (h : collapseDosPath path = some collapsed) : CanonicalWindows collapsed := by
  unfold collapseDosPath at h
  split at h
  · cases h
  · split at h
    · exact canonicalWindows_collapsePath hnul hslash h
    · split at h
      · split at h
        · exact canonicalWindows_collapsePath (fun hmem => hnul (List.mem_of_mem_drop hmem))
            (fun hmem => hslash (List.mem_of_mem_drop hmem)) h
        · obtain ⟨rest, hrest, rfl⟩ := Option.map_eq_some_iff.mp h
          have hcanonical := canonicalWindows_collapsePath (fun hmem => hnul (List.mem_of_mem_drop hmem))
            (fun hmem => hslash (List.mem_of_mem_drop hmem)) hrest
          rename_i hlen _ _ _
          have htake : (path.take 2).length = 2 := by
            rw [List.length_take]
            omega
          refine ⟨?_, ?_, ?_⟩
          · rw [List.mem_append, not_or]
            exact ⟨fun hmem => hnul (List.mem_of_mem_take hmem), hcanonical.terminated⟩
          · rw [List.mem_append, not_or]
            exact ⟨fun hmem => hslash (List.mem_of_mem_take hmem), hcanonical.backslashes⟩
          · rw [List.drop_left' htake]
            exact (collapsePath_spec hrest).1
      · cases h

theorem head?_collapseDosPath_drive {letter : UInt8} {rest collapsed : Bytes} (hletter : letter ≠ 92)
    (h : collapseDosPath (letter :: 58 :: rest) = some collapsed) : collapsed.head? = some letter := by
  unfold collapseDosPath at h
  split at h
  · cases h
  · split at h
    · obtain ⟨-, -, hhead⟩ := collapsePath_spec h
      exact hhead (fun heq => hletter (Option.some.inj heq)) (List.cons_ne_nil _ _)
    · split at h
      · rename_i hunc
        exact absurd (Option.some.inj hunc.1) hletter
      · cases h

theorem isAlpha_spec : ∀ c : UInt8, isAlpha c = true → c ≠ 92 ∧ c ≠ 47 ∧ c ≠ 0 :=
  forall_char (by decide +kernel)

theorem isPrefix_foldl_canonicaliseStep (separator : UInt8) (written rest : Bytes) :
    written <+: rest.foldl (canonicaliseStep separator) written := by
  refine List.foldlRecOn rest (canonicaliseStep separator) (motive := fun later => written <+: later)
    List.prefix_rfl ?_
  intro later hlater c _
  unfold canonicaliseStep
  split
  · split
    · exact hlater
    · exact hlater.trans (List.prefix_append _ _)
  · exact hlater.trans (List.prefix_append _ _)

theorem isAbsoluteWindowsPath_canonicalise {path : Bytes} (h : isAbsoluteWindowsPath path = true) :
    isAbsoluteWindowsPath (canonicalisePathSeparator path 92) = true ∨
      (canonicalisePathSeparator path 92).head? = some 92 := by
  obtain ⟨hlen, hstart⟩ := of_decide_eq_true h
  obtain ⟨a, b, c, rest, rfl⟩ : ∃ a b c rest, path = a :: b :: c :: rest := by
    obtain ⟨a, path, rfl⟩ := List.exists_cons_of_length_pos (show 0 < path.length by omega)
    rw [List.length_cons] at hlen
    obtain ⟨b, path, rfl⟩ := List.exists_cons_of_length_pos (show 0 < path.length by omega)
    rw [List.length_cons] at hlen
    obtain ⟨c, rest, rfl⟩ := List.exists_cons_of_length_pos (show 0 < path.length by omega)
    exact ⟨a, b, c, rest, rfl⟩
  rcases hstart with ⟨ha, -⟩ | ⟨halpha, hcolon⟩
  · refine Or.inr ?_
    have hfirst : canonicaliseStep 92 [] a = [92] := if_pos ha
    obtain ⟨later, hlater⟩ := isPrefix_foldl_canonicaliseStep 92 [92] (b :: c :: rest)
    rw [canonicalisePathSeparator, List.foldl_cons, hfirst, ← hlater]
    rfl
  · refine Or.inl ?_
    obtain rfl : b = 58 := hcolon
    have halpha' : isAlpha a = true := halpha
    have hplain : ¬ IsSeparator a := by
      rintro (heq | heq)
      · exact (isAlpha_spec a halpha').2.1 heq
      · exact (isAlpha_spec a halpha').1 heq
    have hfirst : canonicaliseStep 92 [] a = [a] := if_neg hplain
    have hsecond : canonicaliseStep 92 [a] 58 = [a, 58] := if_neg (by decide)
    obtain ⟨d, hthird⟩ : ∃ d, canonicaliseStep 92 [a, 58] c = [a, 58, d] := by
      unfold canonicaliseStep
      split
      · exact ⟨92, rfl⟩
      · exact ⟨c, rfl⟩
    obtain ⟨later, hlater⟩ := isPrefix_foldl_canonicaliseStep 92 [a, 58, d] rest
    rw [canonicalisePathSeparator, List.foldl_cons, List.foldl_cons, List.foldl_cons, hfirst, hsecond, hthird,
      ← hlater]
    exact decide_eq_true ⟨by simp, Or.inr ⟨halpha', rfl⟩⟩

theorem absoluteWindowsPath_drive {relativePath cwd : Bytes} (hback : relativePath.head? = some 92)
    (hne : absoluteWindowsPath relativePath cwd ≠ []) :
    ∃ letter, isAlpha letter = true ∧ absoluteWindowsPath relativePath cwd = letter :: 58 :: relativePath := by
  unfold absoluteWindowsPath at hne ⊢
  rw [if_pos hback] at hne ⊢
  split at hne
  · exact absurd rfl hne
  · rename_i hdrive
    rw [if_neg hdrive]
    rw [not_or, Bool.not_eq_false, not_not] at hdrive
    obtain ⟨halpha, hcolon⟩ := hdrive
    cases cwd with
    | nil => exact absurd halpha (by decide)
    | cons letter cwd =>
      cases cwd with
      | nil => exact absurd hcolon (show ¬ (0 : UInt8) = 58 by decide)
      | cons colon cwd =>
        obtain rfl : colon = 58 := hcolon
        exact ⟨letter, halpha, rfl⟩

theorem exists_of_getD_ne_nil {path : Option Bytes} (h : path.getD [] ≠ []) : ∃ text, path = some text := by
  cases path with
  | none => exact absurd rfl h
  | some text => exact ⟨text, rfl⟩

theorem dosToCanonicalPath_spec {s : Surroundings} {cwd path : Bytes} (hnul : 0 ∉ path)
    (habs : isAbsoluteWindowsPath path = true)
    (hne : (dosToCanonicalPath s cwd (canonicalisePathSeparator path 92)).1 ≠ []) :
    CanonicalWindows (dosToCanonicalPath s cwd (canonicalisePathSeparator path 92)).1 ∧
      ((dosToCanonicalPath s cwd (canonicalisePathSeparator path 92)).2 = true →
        (dosToCanonicalPath s cwd (canonicalisePathSeparator path 92)).1.head? ≠ some 92) := by
  have hnul' := zero_not_mem_canonicalise hnul (show (92 : UInt8) ≠ 0 by decide)
  have hslash : 47 ∉ canonicalisePathSeparator path 92 := by
    intro hmem
    rcases mem_canonicalise hmem with ⟨-, hplain⟩ | heq
    · exact hplain (Or.inl rfl)
    · exact absurd heq (by decide)
  have hhead := isAbsoluteWindowsPath_canonicalise habs
  generalize canonicalisePathSeparator path 92 = canonical at *
  unfold dosToCanonicalPath at hne ⊢
  cases hcanonical : isAbsoluteWindowsPath canonical with
  | true =>
    rw [hcanonical, if_pos rfl] at hne
    rw [if_pos rfl]
    obtain ⟨collapsed, hcollapsed⟩ := exists_of_getD_ne_nil hne
    rw [hcollapsed]
    exact ⟨canonicalWindows_collapseDosPath hnul' hslash hcollapsed,
      fun hfalse => absurd hfalse Bool.false_ne_true⟩
  | false =>
    have hback : canonical.head? = some 92 := hhead.resolve_left (by rw [hcanonical]; decide)
    rw [hcanonical, if_neg (by decide)] at hne
    rw [if_neg (by decide)]
    dsimp only at hne ⊢
    split at hne
    · exact absurd rfl hne
    · rename_i hcwd
      rw [if_neg hcwd]
      rw [not_or] at hcwd
      obtain ⟨letter, halpha, habsolute⟩ := absoluteWindowsPath_drive hback hcwd.2
      obtain ⟨hbackslash, hslash', hzero⟩ := isAlpha_spec letter halpha
      rw [habsolute] at hne ⊢
      obtain ⟨collapsed, hcollapsed⟩ := exists_of_getD_ne_nil hne
      rw [hcollapsed]
      refine ⟨canonicalWindows_collapseDosPath ?_ ?_ hcollapsed, fun _ hsome => ?_⟩
      · simp [hzero.symm, hnul']
      · simp [hslash'.symm, hslash]
      · rw [Option.getD_some, head?_collapseDosPath_drive hbackslash hcollapsed] at hsome
        exact hbackslash (Option.some.inj hsome)

/-! ## Texts -/

/-- The canonical path is on the share of the distribution and holds an escape sequence. -/
def EscapedShare (s : Surroundings) (path : Bytes) : Prop :=
  (findMount s.table path true).1 = [] ∧ s.distributionName ≠ [] ∧
    ∃ n, sharePrefixLength s.distributionName path = some n ∧ holdsEscape (path.drop n) = true

theorem two_le_sharePrefixLength {distributionName path : Bytes} {n : Nat}
    (h : sharePrefixLength distributionName path = some n) : 2 ≤ n ∧ path.head? = some 92 := by
  have hstart : ∀ pre : Bytes, pre.head? = some 92 → startsWith path (pre ++ distributionName) true = true →
      path.head? = some 92 := by
    intro pre hpre hpath
    obtain ⟨rest, rfl⟩ := List.head?_eq_some_iff.mp hpre
    obtain ⟨later, hlater⟩ := (startsWith_true_iff _ _).mp hpath
    cases path with
    | nil => cases hlater
    | cons c path =>
      have hc : toLower 92 = toLower c := (List.cons.inj hlater).1
      rw [(toLower_eq_separator c).mp hc.symm]
      rfl
  unfold sharePrefixLength at h
  split at h
  · rename_i hpath
    obtain rfl := Option.some.inj h
    refine ⟨?_, hstart _ rfl hpath⟩
    rw [List.length_append]
    exact Nat.le_trans (show 2 ≤ redirectorPrefix.length by decide) (Nat.le_add_right _ _)
  · split at h
    · rename_i hpath
      obtain rfl := Option.some.inj h
      refine ⟨?_, hstart _ rfl hpath⟩
      rw [List.length_append]
      exact Nat.le_trans (show 2 ≤ redirectorCompatPrefix.length by decide) (Nat.le_add_right _ _)
    · cases h

def toSlash (c : UInt8) : UInt8 := if c = 92 then 47 else c

theorem toSlash_spec : ∀ c : UInt8, (toSlash c = 0xef ↔ c = 0xef) ∧
    (toSlash c &&& escapeCharBase ≠ 0 ↔ c &&& escapeCharBase ≠ 0) ∧
    (c &&& escapeCharBase ≠ 0 → toSlash c = c) := forall_char (by decide +kernel)

theorem headD_map_toSlash (memory : Bytes) : (memory.map toSlash).headD 0 = toSlash (memory.headD 0) := by
  cases memory <;> rfl

theorem holdsEscape_map (path : Bytes) : holdsEscape (path.map toSlash) = holdsEscape path := by
  induction path with
  | nil => rfl
  | cons c path ih =>
    have hstart : StartsSequence (toSlash c) (path.map toSlash) ↔ StartsSequence c path := by
      unfold StartsSequence unescapedChar
      rw [← List.map_drop, headD_map_toSlash, headD_map_toSlash, (toSlash_spec c).1,
        (toSlash_spec (path.headD 0)).2.1, (toSlash_spec ((path.drop 1).headD 0)).2.1]
      constructor
      · rintro ⟨hc, hsecond, hthird, hneeds⟩
        rw [(toSlash_spec _).2.2 hsecond, (toSlash_spec _).2.2 hthird] at hneeds
        exact ⟨hc, hsecond, hthird, hneeds⟩
      · rintro ⟨hc, hsecond, hthird, hneeds⟩
        rw [(toSlash_spec _).2.2 hsecond, (toSlash_spec _).2.2 hthird]
        exact ⟨hc, hsecond, hthird, hneeds⟩
    rw [List.map_cons, holdsEscape, holdsEscape, ih, decide_eq_decide.mpr hstart]

theorem canonicaliseInplace_of_canonical {path : Bytes} (h : CanonicalWindows path) {n : Nat} (hn : 1 ≤ n) :
    canonicaliseInplace (path.drop n) 47 = (path.drop n).map toSlash := by
  have htail : Single 92 (path.drop n).tail := by
    have hdrop := h.single.drop (n - 1)
    rw [List.drop_drop] at hdrop
    rw [List.tail_drop]
    have heq : 2 + (n - 1) = n + 1 := by omega
    rw [← heq]
    exact hdrop
  have hcanonical : canonicalisePathSeparator (path.drop n) 47 = (path.drop n).map toSlash :=
    canonicalise_of_single (fun hmem => h.backslashes (List.mem_of_mem_drop hmem)) htail
  rw [canonicaliseInplace_of_length (fun hmem => h.terminated (List.mem_of_mem_drop hmem)), hcanonical]
  rw [hcanonical, List.length_map]

theorem zero_not_mem_map_toSlash {path : Bytes} (h : 0 ∉ path) : 0 ∉ path.map toSlash := by
  intro hmem
  obtain ⟨c, hc, hzero⟩ := List.mem_map.mp hmem
  unfold toSlash at hzero
  split at hzero
  · exact absurd hzero (by decide)
  · exact h (hzero ▸ hc)

theorem zero_mem_winPathTranslate {s : Surroundings} {path : Bytes} (h : CanonicalWindows path) :
    0 ∈ winPathTranslate s.table s.distributionName path true ↔ EscapedShare s path := by
  unfold winPathTranslate
  dsimp only
  by_cases hfound : (findMount s.table path true).1 = []
  · rw [if_pos hfound, EscapedShare, and_iff_right hfound, winPathTranslateInternal]
    by_cases hname : s.distributionName = []
    · rw [if_pos hname]
      exact iff_of_false List.not_mem_nil fun hshare => hshare.1 hname
    · rw [if_neg hname, if_neg (by decide), and_iff_right hname]
      cases hshare : sharePrefixLength s.distributionName path with
      | none =>
        refine iff_of_false List.not_mem_nil ?_
        rintro ⟨n, hn, -⟩
        cases hn
      | some n =>
        have hn := (two_le_sharePrefixLength hshare).1
        have hiff : 0 ∈ linuxPathOfShare (path.drop n) ↔ holdsEscape (path.drop n) = true := by
          unfold linuxPathOfShare
          split
          · rename_i hlen
            rw [List.length_eq_zero_iff.mp hlen]
            decide
          · rw [canonicaliseInplace_of_canonical h (Nat.le_trans (by decide) hn), ← holdsEscape_map]
            have hnul := zero_not_mem_map_toSlash fun hmem => h.terminated (List.mem_of_mem_drop (i := n) hmem)
            cases hholds : holdsEscape ((path.drop n).map toSlash) with
            | true => exact iff_of_true (zero_mem_unescapePathInplace hnul hholds) rfl
            | false =>
              rw [unescapePathInplace_of_not_holds hholds]
              exact iff_of_false hnul Bool.false_ne_true
        rw [hiff]
        constructor
        · exact fun hholds => ⟨n, rfl, hholds⟩
        · rintro ⟨m, hm, hholds⟩
          obtain rfl := Option.some.inj hm
          exact hholds
  · rw [if_neg hfound]
    refine iff_of_false ?_ fun hshare => hfound hshare.1
    obtain ⟨m, hpos, hmatch⟩ := exists_match_of_findMount hfound
    rw [hmatch, Option.getD_some, translateSuffix_reverse, canonicaliseInplace_of_canonical h hpos,
      List.mem_append, not_or]
    refine ⟨m.terminated _ (by simp), zero_not_mem_map_toSlash ?_⟩
    exact fun hmem => h.terminated (List.mem_of_mem_drop hmem)

theorem zero_not_mem_relativise {translatedPath : Bytes} (h : 0 ∉ translatedPath) (outputCwd : Bytes) :
    0 ∉ relativise translatedPath outputCwd := by
  have hdrop : ∀ n, 0 ∉ translatedPath.drop n := fun n hmem => h (List.mem_of_mem_drop hmem)
  unfold relativise
  dsimp only
  split
  · split
    · split
      · decide
      · exact hdrop _
    · split
      · exact hdrop _
      · exact h
  · exact h

theorem zero_not_mem_makeRelative {translatedPath : Bytes} (h : 0 ∉ translatedPath) (s : Surroundings)
    (cwd : Bytes) (mode : TranslateMode) (relative : Bool) :
    0 ∉ makeRelative s cwd mode relative translatedPath := by
  unfold makeRelative
  split
  · cases outputDirectory s cwd mode with
    | none => exact h
    | some directory => exact zero_not_mem_relativise h directory
  · exact h

/-- The translation of a Windows path is a text, unless it is a path of the share with an escape sequence. -/
theorem zero_mem_wslPathTranslate_unix {s : Surroundings} {path : Bytes} (hnul : 0 ∉ path)
    (habs : isAbsoluteWindowsPath path = true) :
    0 ∈ wslPathTranslate s path .unix ↔
      ∃ cwd ∈ s.workingDirectory, EscapedShare s (canonicalPath s cwd path .unix).1 := by
  unfold wslPathTranslate
  cases hcwd : s.workingDirectory with
  | none => simp
  | some cwd =>
    have hsome : (∃ cwd' ∈ some cwd, EscapedShare s (canonicalPath s cwd' path .unix).1) ↔
        EscapedShare s (canonicalPath s cwd path .unix).1 := by simp
    rw [hsome]
    dsimp only
    by_cases hne : (canonicalPath s cwd path .unix).1 = []
    · rw [if_pos hne]
      refine iff_of_false List.not_mem_nil ?_
      rintro ⟨-, -, n, hn, -⟩
      have hhead := (two_le_sharePrefixLength hn).2
      rw [hne] at hhead
      cases hhead
    · rw [if_neg hne]
      obtain ⟨hcanonical, hrelative⟩ := dosToCanonicalPath_spec hnul habs hne
      have hiff : 0 ∈ winPathTranslate s.table s.distributionName (canonicalPath s cwd path .unix).1 true ↔
          EscapedShare s (canonicalPath s cwd path .unix).1 := zero_mem_winPathTranslate hcanonical
      rw [← hiff, if_neg (show ¬ TranslateMode.unix = .mixed by decide), decide_eq_true rfl]
      split
      · rename_i hnil
        rw [hnil]
      · cases hrel : (canonicalPath s cwd path .unix).2 with
        | false => rfl
        | true =>
          -- a relative path is not on the share
          have htext :
              0 ∉ winPathTranslate s.table s.distributionName (canonicalPath s cwd path .unix).1 true := by
            intro hzero
            obtain ⟨-, -, n, hn, -⟩ := hiff.mp hzero
            exact hrelative hrel (two_le_sharePrefixLength hn).2
          exact iff_of_false (zero_not_mem_makeRelative htext s cwd .unix true) htext

/-! ## Paths in Windows -/

theorem singleSlashes_of_single {path : Bytes} (h : Single 47 path) : SingleSlashes path := by
  rintro ⟨before, after, rfl⟩
  have hpair := List.isChain_iff_forall_rel_of_append_cons_cons.mp h
  exact hpair (show before ++ [47, 47] ++ after = before ++ 47 :: 47 :: after by simp) ⟨rfl, rfl⟩

theorem zero_not_mem_winPathTranslate {s : Surroundings} {path : Bytes} (hnul : 0 ∉ path)
    (hsingle : SingleSlashes path) : 0 ∉ winPathTranslate s.table s.distributionName path false := by
  unfold winPathTranslate
  dsimp only
  by_cases hfound : (findMount s.table path false).1 = []
  · rw [if_pos hfound, winPathTranslateInternal]
    split
    · exact List.not_mem_nil
    · rw [if_pos rfl, List.mem_append, List.mem_append, not_or, not_or]
      exact ⟨⟨by decide, s.name_terminated⟩, zero_not_mem_escapePathForNt hnul⟩
  · rw [if_neg hfound]
    obtain ⟨before, m, after, source, suffix, -, hsource, -, -, hpath, -, hmount⟩ :=
      exists_mount_of_findMount hfound
    subst hpath
    rw [hmount, Option.getD_some, List.drop_left, List.mem_append, not_or]
    have hsuffix : 0 ∉ suffix := fun hmem => hnul (List.mem_append_right _ hmem)
    refine ⟨zero_not_mem_windowsSource hsource, zero_not_mem_translateSuffix hsuffix ?_⟩
    exact fun hdouble => hsingle (hdouble.trans (List.suffix_append m.mountPoint suffix).isInfix)

theorem absolutePath_spec {path cwd : Bytes} (hnul : 0 ∉ path) (hcwd : 0 ∉ cwd)
    (hne : (absolutePath path cwd).1 ≠ []) :
    0 ∉ (absolutePath path cwd).1 ∧ SingleSlashes (absolutePath path cwd).1 := by
  unfold absolutePath at hne ⊢
  obtain ⟨collapsed, hcollapsed⟩ := exists_of_getD_ne_nil hne
  obtain ⟨hsingle, hchars, -⟩ := collapsePath_spec hcollapsed
  dsimp only
  rw [hcollapsed]
  refine ⟨fun hmem => ?_, singleSlashes_of_single hsingle⟩
  rcases hchars 0 hmem with hmem | heq
  · split at hmem
    · simp [hnul, hcwd] at hmem
    · exact hnul hmem
  · exact absurd heq (by decide)

theorem zero_not_mem_wslPathTranslate_windows {s : Surroundings} {path : Bytes} (hnul : 0 ∉ path) :
    0 ∉ wslPathTranslate s path .windows := by
  unfold wslPathTranslate
  cases hcwd : s.workingDirectory with
  | none => exact List.not_mem_nil
  | some cwd =>
    dsimp only
    split
    · exact List.not_mem_nil
    · rename_i hne
      obtain ⟨htext, hsingle⟩ := absolutePath_spec hnul (s.directory_terminated cwd hcwd) hne
      rw [if_neg (show ¬ TranslateMode.windows = .mixed by decide)]
      split
      · exact List.not_mem_nil
      · exact zero_not_mem_makeRelative (zero_not_mem_winPathTranslate htext hsingle) s cwd .windows _

/-! ## Lists -/

/-- Where a list of paths is translated to something that is no text: at a path of the share with an escape
sequence. -/
def ListsEscapedShare (s : Surroundings) (pathList : Bytes) (isNtPathList : Bool) : Prop :=
  isNtPathList = true ∧ ∃ path ∈ listedPaths pathList true,
    ∃ cwd ∈ s.workingDirectory, EscapedShare s (canonicalPath s cwd path .unix).1

theorem zero_not_mem_of_mem_listedPaths {pathList path : Bytes} {isNtPathList : Bool} (hnul : 0 ∉ pathList)
    (h : path ∈ listedPaths pathList isNtPathList) : 0 ∉ path := by
  unfold listedPaths at h
  intro hmem
  split at h
  · exact hnul (mem_of_mem_tokens (List.mem_of_mem_filter h) hmem)
  · exact hnul (mem_of_mem_tokens h hmem)

theorem zero_mem_intercalate {separator : UInt8} (hsep : separator ≠ 0) (paths : List Bytes) :
    0 ∈ List.intercalate [separator] paths ↔ ∃ path ∈ paths, 0 ∈ path := by
  induction paths with
  | nil => simp
  | cons path paths ih =>
    cases paths with
    | nil => simp
    | cons next paths =>
      rw [List.intercalate_cons_cons, List.mem_append, List.mem_append, ih, List.mem_singleton]
      simp [hsep.symm]

theorem zero_mem_translatePathList {s : Surroundings} {pathList : Bytes} {isNtPathList : Bool}
    (hnul : 0 ∉ pathList) :
    (∃ list ∈ translatePathList s pathList isNtPathList, 0 ∈ list) ↔
      ListsEscapedShare s pathList isNtPathList := by
  have hsep : targetSeparator isNtPathList ≠ 0 := by cases isNtPathList <;> decide
  have hlist : (∃ list ∈ translatePathList s pathList isNtPathList, 0 ∈ list) ↔
      ∃ path ∈ translatedPaths s pathList isNtPathList, 0 ∈ path := by
    rw [← zero_mem_intercalate hsep]
    unfold translatePathList
    dsimp only
    split
    · rename_i hnil
      rw [hnil]
      simp
    · simp
  have hpaths : (∃ path ∈ translatedPaths s pathList isNtPathList, 0 ∈ path) ↔
      ∃ path ∈ listedPaths pathList isNtPathList,
        0 ∈ wslPathTranslate s path (if isNtPathList then .unix else .windows) := by
    constructor
    · rintro ⟨translated, htranslated, hzero⟩
      obtain ⟨path, hpath, rfl⟩ := List.mem_map.mp (List.mem_of_mem_filter htranslated)
      exact ⟨path, hpath, hzero⟩
    · rintro ⟨path, hpath, hzero⟩
      refine ⟨_, List.mem_filter.mpr ⟨List.mem_map_of_mem hpath, ?_⟩, hzero⟩
      exact decide_eq_true (List.ne_nil_of_mem hzero)
  rw [hlist, hpaths, ListsEscapedShare]
  cases isNtPathList with
  | false =>
    refine iff_of_false ?_ fun hboth => absurd hboth.1 Bool.false_ne_true
    rintro ⟨path, hpath, hzero⟩
    exact zero_not_mem_wslPathTranslate_windows (zero_not_mem_of_mem_listedPaths hnul hpath) hzero
  | true =>
    rw [and_iff_right rfl]
    refine exists_congr fun path => and_congr_right fun hpath => ?_
    exact zero_mem_wslPathTranslate_unix (zero_not_mem_of_mem_listedPaths hnul hpath)
      (List.mem_filter.mp hpath).2

end WslFreeBSD.Translation
