import WslFreeBSD.Lib.FileLines
import WslFreeBSD.Translation.WinPath

/-!
# There and back

A Linux path is translated to a Windows path and back, with the same mount table. The Windows path is found
on the same mount again, or on none, if the Windows sources of the mounts and the share of the distribution
are apart (`SeparateSources`).

On the file system of the distribution characters are escaped and unescaped again. On a Windows mount the
escape sequences are part of the names in Linux too, and are kept: `there_and_back`.
-/

namespace WslFreeBSD.Translation

open Lib

/-! ## Sources are texts -/

theorem zero_not_mem_canonicalise {path : Bytes} (h : 0 ∉ path) {separator : UInt8} (hsep : separator ≠ 0) :
    0 ∉ canonicalisePathSeparator path separator := by
  refine List.foldlRecOn path (canonicaliseStep separator) (motive := fun written => 0 ∉ written) (by simp) ?_
  intro written hwritten c hc
  have hc0 : 0 ≠ c := fun heq => h (heq ▸ hc)
  unfold canonicaliseStep
  split
  · split
    · exact hwritten
    · simp [hwritten, Ne.symm hsep]
  · simp [hwritten, hc0]

theorem strstr_isSuffix {pat s t : Bytes} (h : strstr pat s = some t) : t <:+ s := by
  induction s with
  | nil =>
    rw [strstr] at h
    split at h
    · obtain rfl := Option.some.inj h
      exact List.suffix_rfl
    · cases h
  | cons c s ih =>
    rw [strstr] at h
    split at h
    · obtain rfl := Option.some.inj h
      exact List.suffix_rfl
    · exact (ih h).trans (List.suffix_cons c s)

theorem zero_not_mem_plan9Path {text path : Bytes} (h : 0 ∉ text) (hpath : plan9Path text = some path) :
    0 ∉ path := by
  unfold plan9Path at hpath
  split at hpath
  · obtain rfl := Option.some.inj hpath
    exact zero_not_mem_canonicalise h (by decide)
  · split at hpath
    · obtain rfl := Option.some.inj hpath
      refine zero_not_mem_canonicalise ?_ (by decide)
      rw [List.mem_append, not_or]
      exact ⟨by decide, fun hmem => h (List.mem_of_mem_drop hmem)⟩
    · cases hpath

theorem zero_not_mem_parsePlan9MountSource {options : Bytes} (h : 0 ∉ options) :
    0 ∉ parsePlan9MountSource options := by
  unfold parsePlan9MountSource
  dsimp only
  cases hfind : (options.splitOnP (· = 44)).find? (startsWith · (ascii "aname=drvfs") false) with
  | none => simp
  | some current =>
    have hcurrent : 0 ∉ current :=
      fun hmem => h (mem_of_mem_splitOnP (List.mem_of_find?_eq_some hfind) hmem).1
    cases hpath : strstr (ascii "path=") current with
    | none => simp [hpath]
    | some path =>
      have htext : 0 ∉ stringNextToken (path.drop 5) 59 := fun hmem =>
        hcurrent ((strstr_isSuffix hpath).subset (List.mem_of_mem_drop ((List.takeWhile_subset _) hmem)))
      cases hvalue : plan9Path (stringNextToken (path.drop 5) 59) with
      | none => simp [hpath, hvalue]
      | some value => simpa [hpath, hvalue] using zero_not_mem_plan9Path htext hvalue

theorem zero_not_mem_parseVirtiofsMountSource {source : Bytes} (h : 0 ∉ source) :
    0 ∉ parseVirtiofsMountSource source := by
  have hletter : ∀ n, 0 ∉ (source.drop n).take 1 ++ [58] := by
    intro n
    rw [List.mem_append, not_or]
    exact ⟨fun hmem => h (List.mem_of_mem_drop (List.mem_of_mem_take hmem)), by decide⟩
  unfold parseVirtiofsMountSource
  split
  · exact hletter 6
  · split
    · exact hletter 5
    · simp

theorem zero_not_mem_mountSource {m : MountEntry} {source : Bytes} (h : mountSource m = some source) :
    0 ∉ source := by
  have hsource : 0 ∉ m.source := m.terminated _ (by simp)
  unfold mountSource at h
  split at h
  · obtain ⟨hsome, -⟩ := Option.filter_eq_some_iff.mp h
    obtain rfl := Option.some.inj hsome
    exact zero_not_mem_parsePlan9MountSource (m.terminated _ (by simp))
  · split at h
    · obtain ⟨hsome, -⟩ := Option.filter_eq_some_iff.mp h
      obtain rfl := Option.some.inj hsome
      exact zero_not_mem_parseVirtiofsMountSource hsource
    · split at h
      · obtain rfl := Option.some.inj h
        exact zero_not_mem_canonicalise hsource (by decide)
      · cases h

theorem zero_not_mem_windowsSource {m : MountEntry} {source : Bytes} (h : windowsSource m = some source) :
    0 ∉ source := by
  obtain ⟨stripped, hstripped, rfl⟩ := Option.map_eq_some_iff.mp h
  obtain ⟨whole, hwhole, rfl⟩ := Option.map_eq_some_iff.mp hstripped
  have hzero := zero_not_mem_mountSource hwhole
  have hstrip : 0 ∉ if whole.getLast? = some 92 then whole.dropLast else whole := by
    split
    · exact fun hmem => hzero (List.dropLast_subset _ hmem)
    · exact hzero
  split
  · refine zero_not_mem_canonicalise ?_ (by decide)
    rw [List.mem_append, not_or]
    exact ⟨hstrip, m.terminated _ (by simp)⟩
  · exact hstrip

/-! ## Sources that are apart -/

/-- One of the Windows paths is the other or above it. -/
def Overlap (s t : Bytes) : Prop := 0 < isPathPrefix s t true ∨ 0 < isPathPrefix t s true

instance (s t : Bytes) : Decidable (Overlap s t) := inferInstanceAs (Decidable (_ ∨ _))

/-- No mount is on top of a part of another one, in Windows, nor on the share of the distribution. -/
structure SeparateSources (table : List MountEntry) (distributionName : Bytes) : Prop where
  sources : table.Pairwise fun m m' =>
    ∀ s ∈ windowsSource m, ∀ s' ∈ windowsSource m', ¬ Overlap s s'
  share : ∀ m ∈ table, ∀ s ∈ windowsSource m, ¬ Overlap s (redirectorPrefix ++ distributionName)

theorem isPathPrefix_true_iff (path start : Bytes) :
    0 < isPathPrefix path start true ↔ start ≠ [] ∧ start.map toLower <+: path.map toLower ∧
      (path.length = start.length ∨ path[start.length]? = some 92) := by
  rw [isPathPrefix_pos_iff, startsWith_true_iff]
  rfl

theorem overlap_of_above {path s t : Bytes} (hs : 0 < isPathPrefix path s true)
    (ht : 0 < isPathPrefix path t true) : Overlap s t := by
  have hbelow : ∀ s t : Bytes, s.length ≤ t.length → 0 < isPathPrefix path s true →
      0 < isPathPrefix path t true → 0 < isPathPrefix t s true := by
    intro s t hle hs ht
    rw [isPathPrefix_true_iff] at hs ht ⊢
    obtain ⟨hne, hstart, hend⟩ := hs
    obtain ⟨-, hstart', -⟩ := ht
    have hle' : (s.map toLower).length ≤ (t.map toLower).length := by simpa using hle
    refine ⟨hne, List.prefix_of_prefix_length_le hstart hstart' hle', ?_⟩
    rcases Nat.eq_or_lt_of_le hle with heq | hlt
    · exact Or.inl heq.symm
    · have hlen := hstart'.length_le
      rw [List.length_map, List.length_map] at hlen
      have hsep : path[s.length]? = some 92 := by
        rcases hend with hend | hend
        · omega
        · exact hend
      have hmap : (path.map toLower)[s.length]? = (t.map toLower)[s.length]? := by
        obtain ⟨rest, hrest⟩ := hstart'
        rw [← hrest, List.getElem?_append_left (by simpa using hlt)]
      rw [List.getElem?_map, List.getElem?_map, hsep, List.getElem?_eq_getElem hlt] at hmap
      have hchar : toLower t[s.length] = 92 := (Option.some.inj hmap).symm
      rw [List.getElem?_eq_getElem hlt, (toLower_eq_separator _).mp hchar]
      exact Or.inr rfl
  rcases Nat.le_total s.length t.length with hle | hle
  · exact Or.inr (hbelow s t hle hs ht)
  · exact Or.inl (hbelow t s hle ht hs)

def driveOf (path : Bytes) : Option UInt8 :=
  if path.head?.any isAlpha ∧ path[1]? = some 58 then path.head?.map toLower else none

/-- No two mounts have sources on the same drive. -/
def OneMountPerDrive (table : List MountEntry) : Prop :=
  table.Pairwise fun m m' => ∀ s ∈ windowsSource m, ∀ s' ∈ windowsSource m',
    driveOf s = driveOf s' → driveOf s = none

/-- Of the sources that are not on a drive, none is the source or the share of another, or a part of it. -/
structure SeparateShares (table : List MountEntry) (distributionName : Bytes) : Prop where
  sources : table.Pairwise fun m m' => ∀ s ∈ windowsSource m, ∀ s' ∈ windowsSource m',
    driveOf s = none → driveOf s' = none → ¬ Overlap s s'
  share : ∀ m ∈ table, ∀ s ∈ windowsSource m, driveOf s = none →
    ¬ Overlap s (redirectorPrefix ++ distributionName)

theorem toLower_eq_colon : ∀ c : UInt8, toLower c = 58 ↔ c = 58 := forall_char (by decide +kernel)

theorem driveOf_eq (path : Bytes) :
    driveOf path = if (path.map toLower).head?.any isAlpha ∧ (path.map toLower)[1]? = some 58 then
      (path.map toLower).head? else none := by
  unfold driveOf
  have hcolon : (path.map toLower)[1]? = some 58 ↔ path[1]? = some 58 := by
    rw [List.getElem?_map]
    cases path[1]? with
    | none => simp
    | some c => simp [toLower_eq_colon]
  have halpha : (path.map toLower).head?.any isAlpha = path.head?.any isAlpha := by
    cases path with
    | nil => rfl
    | cons c path => exact isAlpha_toLower c
  rw [List.head?_map] at halpha
  simp only [hcolon, halpha, List.head?_map]

theorem driveOf_of_isPathPrefix {path start : Bytes} (h : 0 < isPathPrefix path start true) :
    driveOf path = driveOf start := by
  obtain ⟨hne, ⟨rest, hrest⟩, hend⟩ := (isPathPrefix_true_iff _ _).mp h
  have hlen : 0 < start.length := List.length_pos_iff.mpr hne
  rw [driveOf_eq path, driveOf_eq start, ← hrest]
  have hhead : (start.map toLower ++ rest).head? = (start.map toLower).head? := by
    rw [List.head?_append_of_ne_nil _ (by simpa using hne)]
  rw [hhead]
  by_cases hone : start.length = 1
  · -- behind a single character comes a separator, not a colon
    have hnone : (start.map toLower)[1]? ≠ some 58 := by
      rw [List.getElem?_eq_none (by simp [hone])]
      simp
    have hnone' : (start.map toLower ++ rest)[1]? ≠ some 58 := by
      rw [hrest, List.getElem?_map]
      rcases hend with hend | hend
      · rw [List.getElem?_eq_none (by omega)]
        simp
      · rw [hone] at hend
        rw [hend]
        decide
    rw [if_neg fun hboth => hnone' hboth.2, if_neg fun hboth => hnone hboth.2]
  · rw [List.getElem?_append_left (by rw [List.length_map]; omega)]

theorem Overlap.driveOf_eq {s t : Bytes} (h : Overlap s t) : driveOf s = driveOf t := by
  rcases h with h | h
  · exact driveOf_of_isPathPrefix h
  · exact (driveOf_of_isPathPrefix h).symm

theorem SeparateShares.separateSources {table : List MountEntry} {distributionName : Bytes}
    (h : SeparateShares table distributionName) (hdrive : OneMountPerDrive table) :
    SeparateSources table distributionName := by
  constructor
  · refine (hdrive.and h.sources).imp ?_
    rintro m m' ⟨hone, hshares⟩ s hs s' hs' hover
    have hnone := hone s hs s' hs' hover.driveOf_eq
    exact hshares s hs s' hs' hnone (hover.driveOf_eq.symm.trans hnone) hover
  · intro m hm s hs hover
    exact h.share m hm s hs hover.driveOf_eq hover

theorem matchLength_pos_iff {path : Bytes} {m : MountEntry} :
    0 < matchLength path m ↔ ∃ s, windowsSource m = some s ∧ 0 < isPathPrefix path s true := by
  unfold matchLength
  cases windowsSource m with
  | none => simp
  | some source => simp

/-! ## Suffixes -/

/-- An absolute Linux path without doubled slashes and without the first byte of an escape sequence. -/
structure PlainPath (path : Bytes) : Prop where
  absolute : path.head? = some 47
  terminated : 0 ∉ path
  unescaped : 0xef ∉ path
  single : SingleSlashes path

theorem zero_not_mem_escapePathForNt {path : Bytes} (h : 0 ∉ path) : 0 ∉ escapePathForNt path := by
  intro hmem
  obtain ⟨c, hc, hzero⟩ := List.mem_flatMap.mp hmem
  unfold escapePathChar at hzero
  split at hzero
  · exact absurd hzero (by decide)
  · cases hneeds : escapeCharNeedsEscape c with
    | true =>
      rw [hneeds] at hzero
      exact ((escapeSequence_spec c hneeds).2.2.2 0 hzero).1 rfl
    | false =>
      rw [hneeds] at hzero
      obtain rfl : 0 = c := List.mem_singleton.mp hzero
      exact h hc

theorem canonicaliseInplace_of_length {string : Bytes} {separator : UInt8} (h : 0 ∉ string)
    (hlen : (canonicalisePathSeparator string separator).length = string.length) :
    canonicaliseInplace string separator = canonicalisePathSeparator string separator := by
  have htext : string.takeWhile (· ≠ 0) = string := by
    rw [List.takeWhile_eq_self_iff]
    intro c hc
    rw [decide_eq_true_eq]
    rintro rfl
    exact h hc
  unfold canonicaliseInplace
  rw [htext]
  exact overwrite_of_length hlen

theorem canonicaliseInplace_escapePathForNt {path : Bytes} (h : 0 ∉ path) (hsingle : SingleSlashes path) :
    canonicaliseInplace (escapePathForNt path) 47 = escapeText path := by
  have hcanonical := canonicalise_escapePathForNt hsingle
  rw [canonicaliseInplace_of_length (zero_not_mem_escapePathForNt h), hcanonical]
  rw [hcanonical, length_escapeText, length_escapePathForNt]

abbrev DriveRoot (source suffix : Bytes) : Prop := suffix = [] ∧ source.length = 2 ∧ source[1]? = some 58

theorem translateSuffix_false {source suffix : Bytes} (h : 0 ∉ suffix) (hsingle : SingleSlashes suffix) :
    translateSuffix source suffix false = if DriveRoot source suffix then [92] else escapePathForNt suffix := by
  have hlength : translatedSuffixLength source suffix false =
      if DriveRoot source suffix then 1 else escapePathForNtLength suffix := by
    simp only [translatedSuffixLength, DriveRoot, if_true, List.length_eq_zero_iff]
  unfold translateSuffix
  rw [hlength]
  by_cases hroot : DriveRoot source suffix
  · rw [if_pos hroot, if_pos hroot]
    obtain ⟨rfl, -⟩ := hroot
    rfl
  · rw [if_neg hroot, if_neg hroot]
    dsimp only
    by_cases heq : escapePathForNtLength suffix = suffix.length
    · have hlegal := (escapePathForNtLength_eq_iff suffix).mp heq
      have hcanonical := canonicalise_of_legal hsingle hlegal
      rw [if_neg (not_not_intro heq), ← hcanonical]
      refine canonicaliseInplace_of_length h ?_
      show (canonicalisePathSeparator suffix 92).length = suffix.length
      rw [hcanonical, length_escapePathForNt, heq]
    · have hlong : ¬ (suffix.length = 0 ∧ escapePathForNtLength suffix = 1) := by
        rintro ⟨hnil, -⟩
        rw [List.length_eq_zero_iff] at hnil
        subst hnil
        exact heq rfl
      rw [if_pos heq, if_neg hlong]

/-- What a suffix has become after both translations. -/
def returnedSuffix (source suffix : Bytes) : Bytes :=
  if DriveRoot source suffix then [47] else escapeText suffix

theorem translateSuffix_reverse (mountPoint suffix : Bytes) :
    translateSuffix mountPoint suffix true = canonicaliseInplace suffix 47 := by
  simp [translateSuffix, translatedSuffixLength, separatorOf]

theorem translateSuffix_true {source mountPoint suffix : Bytes} (h : 0 ∉ suffix)
    (hsingle : SingleSlashes suffix) :
    translateSuffix mountPoint (translateSuffix source suffix false) true = returnedSuffix source suffix := by
  rw [translateSuffix_reverse, translateSuffix_false h hsingle, returnedSuffix]
  by_cases hroot : DriveRoot source suffix
  · rw [if_pos hroot, if_pos hroot]
    decide
  · rw [if_neg hroot, if_neg hroot]
    exact canonicaliseInplace_escapePathForNt h hsingle

theorem zero_not_mem_translateSuffix {source suffix : Bytes} (h : 0 ∉ suffix) (hsingle : SingleSlashes suffix) :
    0 ∉ translateSuffix source suffix false := by
  rw [translateSuffix_false h hsingle]
  split
  · decide
  · exact zero_not_mem_escapePathForNt h

theorem escapePathForNt_head? {path : Bytes} (h : path.head? = some 47) :
    (escapePathForNt path).head? = some 92 := by
  obtain ⟨rest, rfl⟩ := List.head?_eq_some_iff.mp h
  rfl

/-! ## The file system of the distribution -/

theorem isPathPrefix_append {start rest : Bytes} (hne : start ≠ []) (h : rest = [] ∨ rest.head? = some 92) :
    0 < isPathPrefix (start ++ rest) start true := by
  rw [isPathPrefix_true_iff, List.map_append]
  refine ⟨hne, List.prefix_append _ _, ?_⟩
  rcases h with rfl | h
  · exact Or.inl (by rw [List.append_nil])
  · refine Or.inr ?_
    rw [List.getElem?_append_right le_rfl, Nat.sub_self, ← List.head?_eq_getElem?]
    exact h

theorem matchLength_share {table : List MountEntry} {distributionName : Bytes}
    (h : SeparateSources table distributionName) {rest : Bytes} (hrest : rest.head? = some 92)
    {m : MountEntry} (hm : m ∈ table) :
    matchLength (redirectorPrefix ++ distributionName ++ rest) m = 0 := by
  by_contra hpos
  obtain ⟨s, hs, hmatch⟩ := matchLength_pos_iff.mp (Nat.pos_of_ne_zero hpos)
  have hshare : 0 < isPathPrefix (redirectorPrefix ++ distributionName ++ rest)
      (redirectorPrefix ++ distributionName) true :=
    isPathPrefix_append (by simp [redirectorPrefix, ascii]) (Or.inr hrest)
  exact h.share m hm s hs (overlap_of_above hmatch hshare)

theorem winPathTranslate_share {table : List MountEntry} {distributionName path : Bytes}
    (h : SeparateSources table distributionName) (hname : distributionName ≠ []) (hpath : PlainPath path) :
    winPathTranslate table distributionName (redirectorPrefix ++ distributionName ++ escapePathForNt path)
      true = unescapePathInplace (escapeText path) := by
  have hhead := escapePathForNt_head? hpath.absolute
  have hnone := findMount_nil fun m hm => matchLength_share h hhead hm
  have hstart : startsWith (redirectorPrefix ++ distributionName ++ escapePathForNt path)
      (redirectorPrefix ++ distributionName) true = true :=
    (startsWith_true_iff_exists _ _).mpr ⟨_, _, rfl, decide_eq_true rfl⟩
  have hne : (escapePathForNt path).length ≠ 0 := by
    rw [Ne, List.length_eq_zero_iff]
    intro hnil
    rw [hnil] at hhead
    cases hhead
  unfold winPathTranslate winPathTranslateInternal sharePrefixLength
  dsimp only
  rw [hnone, if_pos rfl, if_neg hname, if_neg (by decide), if_pos hstart]
  dsimp only
  rw [List.drop_left, linuxPathOfShare, if_neg hne,
    canonicaliseInplace_escapePathForNt hpath.terminated hpath.single]

/-! ## Windows mounts -/

theorem exists_mount_of_findMount {table : List MountEntry} {path : Bytes}
    (h : (findMount table path false).1 ≠ []) :
    ∃ before m after source suffix, table = before ++ m :: after ∧ windowsSource m = some source ∧ source ≠ [] ∧
      (∀ x ∈ after, ¬ Above path x) ∧ path = m.mountPoint ++ suffix ∧
      (suffix = [] ∨ suffix.head? = some 47) ∧
      findMount table path false = (source, some m.mountPoint.length) := by
  by_cases habove : ∃ m ∈ table, Above path m
  · obtain ⟨m, hlast⟩ := exists_last habove
    have hfound := findMount_of_last hlast
    obtain ⟨before, after, rfl, hm, hafter⟩ := hlast
    have hne : (windowsSource m).getD [] ≠ [] := by
      intro hnil
      rw [hfound, hnil] at h
      exact h rfl
    obtain ⟨source, hsource⟩ : ∃ source, windowsSource m = some source := by
      cases hwin : windowsSource m with
      | none => exact absurd (by rw [hwin]; rfl) hne
      | some source => exact ⟨source, rfl⟩
    rw [hsource, Option.getD_some] at hfound hne
    rw [report_of_ne_nil hne] at hfound
    have hsplit : ∃ suffix, path = m.mountPoint ++ suffix ∧ (suffix = [] ∨ suffix.head? = some 47) := by
      rcases (isPathPrefix_false_iff (mountPoint_ne_nil m)).mp hm with heq | ⟨rest, hrest⟩
      · exact ⟨[], by rw [heq, List.append_nil], Or.inl rfl⟩
      · exact ⟨47 :: rest, by rw [← hrest, List.append_assoc]; rfl, Or.inr rfl⟩
    obtain ⟨suffix, hpath, hhead⟩ := hsplit
    exact ⟨before, m, after, source, suffix, rfl, hsource, hne, hafter, hpath, hhead, hfound⟩
  · rw [findMount_of_not_above fun m hm hab => habove ⟨m, hm, hab⟩] at h
    exact absurd rfl h

theorem Above.trans {path suffix : Bytes} {m x : MountEntry} (hpath : path = m.mountPoint ++ suffix)
    (hsuffix : suffix = [] ∨ suffix.head? = some 47) (h : Above m.mountPoint x) : Above path x := by
  rw [Above, isPathPrefix_false_iff (mountPoint_ne_nil x)] at h ⊢
  rcases h with heq | hbelow
  · rcases hsuffix with rfl | hhead
    · exact Or.inl (by rw [hpath, heq, List.append_nil])
    · obtain ⟨rest, rfl⟩ := List.head?_eq_some_iff.mp hhead
      refine Or.inr ⟨rest, ?_⟩
      rw [hpath, heq, List.append_assoc]
      rfl
  · exact Or.inr (hpath ▸ hbelow.trans (List.prefix_append _ _))

theorem findMount_below_source {before after : List MountEntry} {m : MountEntry}
    {distributionName source rest : Bytes} (h : SeparateSources (before ++ m :: after) distributionName)
    (hsource : windowsSource m = some source) (hne : source ≠ [])
    (hrest : rest = [] ∨ rest.head? = some 92) (hkept : ¬ Discarded m.mountPoint after) :
    findMount (before ++ m :: after) (source ++ rest) true = (m.mountPoint, some source.length) := by
  have hpos := isPathPrefix_append hne hrest
  have hlength : matchLength (source ++ rest) m = source.length := by
    rw [matchLength, hsource, Option.map_some, Option.getD_some]
    exact isPathPrefix_eq_length hpos
  have hsourcePos : 0 < source.length := List.length_pos_iff.mpr hne
  obtain ⟨-, hback, hcross⟩ := List.pairwise_append.mp h.sources
  have hother : ∀ x, (∀ s ∈ windowsSource x, ¬ Overlap source s) → matchLength (source ++ rest) x = 0 := by
    intro x hapart
    by_contra hmatch
    obtain ⟨s, hs, hbelow⟩ := matchLength_pos_iff.mp (Nat.pos_of_ne_zero hmatch)
    exact hapart s hs (overlap_of_above hpos hbelow)
  have hmax : LastMaximum (matchLength (source ++ rest)) before m after := by
    refine ⟨fun x hx => ?_, fun x hx => ?_⟩
    · rw [hother x fun s hs hover => hcross x hx m List.mem_cons_self s hs source hsource hover.symm]
      exact Nat.zero_le _
    · rw [hother x fun s hs => (List.pairwise_cons.mp hback).1 x hx source hsource s hs, hlength]
      exact hsourcePos
  rw [(findMount_longest hmax (by rw [hlength]; exact hsourcePos)).2 hkept, hlength]

theorem winPathTranslate_mount {before after : List MountEntry} {m : MountEntry}
    {distributionName source suffix : Bytes} (h : SeparateSources (before ++ m :: after) distributionName)
    (hsource : windowsSource m = some source) (hne : source ≠ []) (hkept : ¬ Discarded m.mountPoint after)
    (hnul : 0 ∉ suffix) (hsingle : SingleSlashes suffix) (hsuffix : suffix = [] ∨ suffix.head? = some 47) :
    winPathTranslate (before ++ m :: after) distributionName (source ++ translateSuffix source suffix false)
      true = m.mountPoint ++ returnedSuffix source suffix := by
  have hrest : translateSuffix source suffix false = [] ∨
      (translateSuffix source suffix false).head? = some 92 := by
    rw [translateSuffix_false hnul hsingle]
    split
    · exact Or.inr rfl
    · rcases hsuffix with rfl | hhead
      · exact Or.inl rfl
      · exact Or.inr (escapePathForNt_head? hhead)
  have hfound := findMount_below_source h hsource hne hrest hkept
  unfold winPathTranslate
  dsimp only
  rw [hfound]
  dsimp only
  rw [if_neg (mountPoint_ne_nil m), Option.getD_some, List.drop_left, translateSuffix_true hnul hsingle]

/-! ## Both translations -/

/-- The translation of a path to Windows, as the string that it is, and of its text back. -/
def thereAndBack (table : List MountEntry) (distributionName path : Bytes) : Bytes :=
  winPathTranslate table distributionName
    ((winPathTranslate table distributionName path false).takeWhile (· ≠ 0)) true

theorem takeWhile_of_not_mem {text : Bytes} (h : 0 ∉ text) : text.takeWhile (· ≠ 0) = text := by
  rw [List.takeWhile_eq_self_iff]
  intro c hc
  rw [decide_eq_true_eq]
  rintro rfl
  exact h hc

theorem PlainPath.suffix {start suffix : Bytes} (h : PlainPath (start ++ suffix)) :
    0 ∉ suffix ∧ SingleSlashes suffix := by
  refine ⟨fun hmem => h.terminated (List.mem_append_right _ hmem), fun hdouble => h.single ?_⟩
  exact hdouble.trans (List.suffix_append start suffix).isInfix

theorem thereAndBack_unmounted {table : List MountEntry} {distributionName path : Bytes}
    (h : SeparateSources table distributionName) (hname : distributionName ≠ []) (hnul : 0 ∉ distributionName)
    (hpath : PlainPath path) (hnone : (findMount table path false).1 = []) :
    thereAndBack table distributionName path = unescapePathInplace (escapeText path) := by
  have hthere : winPathTranslate table distributionName path false =
      redirectorPrefix ++ distributionName ++ escapePathForNt path := by
    unfold winPathTranslate winPathTranslateInternal
    dsimp only
    rw [hnone, if_pos rfl, if_neg hname, if_pos rfl]
  have htext : 0 ∉ redirectorPrefix ++ distributionName ++ escapePathForNt path := by
    rw [List.mem_append, List.mem_append, not_or, not_or]
    exact ⟨⟨by decide, hnul⟩, zero_not_mem_escapePathForNt hpath.terminated⟩
  unfold thereAndBack
  rw [hthere, takeWhile_of_not_mem htext]
  exact winPathTranslate_share h hname hpath

theorem thereAndBack_mounted {table : List MountEntry} {distributionName path source : Bytes} {n : Nat}
    (h : SeparateSources table distributionName) (hpath : PlainPath path)
    (hfound : findMount table path false = (source, some n)) :
    thereAndBack table distributionName path = path.take n ++ returnedSuffix source (path.drop n) := by
  have hne : (findMount table path false).1 ≠ [] := by
    intro hnil
    rw [findMount, report] at hfound hnil
    rw [if_neg (not_not_intro hnil)] at hfound
    cases congrArg Prod.snd hfound
  obtain ⟨before, m, after, source', suffix, rfl, hsource, hnonempty, hafter, rfl, hsuffix, hfound'⟩ :=
    exists_mount_of_findMount hne
  obtain ⟨rfl, hlen⟩ := Prod.mk.inj (hfound'.symm.trans hfound)
  obtain rfl := Option.some.inj hlen
  obtain ⟨hnul', hsingle⟩ := hpath.suffix
  have hkept : ¬ Discarded m.mountPoint after := by
    rintro ⟨x, hx, habove⟩
    exact hafter x hx (Above.trans rfl hsuffix habove)
  have hthere : winPathTranslate (before ++ m :: after) distributionName (m.mountPoint ++ suffix) false =
      source' ++ translateSuffix source' suffix false := by
    unfold winPathTranslate
    dsimp only
    rw [hfound']
    dsimp only
    rw [if_neg hnonempty, Option.getD_some, List.drop_left]
  have htext : 0 ∉ source' ++ translateSuffix source' suffix false := by
    rw [List.mem_append, not_or]
    exact ⟨zero_not_mem_windowsSource hsource, zero_not_mem_translateSuffix hnul' hsingle⟩
  unfold thereAndBack
  rw [hthere, takeWhile_of_not_mem htext, List.take_left, List.drop_left]
  exact winPathTranslate_mount h hsource hnonempty hkept hnul' hsingle hsuffix

/-- A path on the file system of the distribution comes back as the text of the string, and one on a Windows
mount with escape sequences for the characters that NTFS does not allow. -/
theorem there_and_back {table : List MountEntry} {distributionName path : Bytes}
    (hdrive : OneMountPerDrive table) (hshare : SeparateShares table distributionName)
    (hname : distributionName ≠ []) (hnul : 0 ∉ distributionName) (hpath : PlainPath path) :
    ((findMount table path false).1 = [] →
        (thereAndBack table distributionName path).takeWhile (· ≠ 0) = path ∧
          ((∀ c ∈ path, escapeCharNeedsEscape c = false) → thereAndBack table distributionName path = path)) ∧
      ∀ source n, findMount table path false = (source, some n) →
        thereAndBack table distributionName path = path.take n ++ returnedSuffix source (path.drop n) := by
  have h := hshare.separateSources hdrive
  constructor
  · intro hnone
    rw [thereAndBack_unmounted h hname hnul hpath hnone]
    refine ⟨takeWhile_unescapePathInplace hpath.terminated hpath.unescaped, fun hlegal => ?_⟩
    rw [escapeText_eq_self hlegal]
    exact unescapePathInplace_of_not_holds (holdsEscape_of_not_mem hpath.unescaped)
  · intro source n hfound
    exact thereAndBack_mounted h hpath hfound

instance (path : Bytes) : Decidable (SingleSlashes path) := inferInstanceAs (Decidable (¬ [47, 47] <:+: path))

theorem there_and_back_drive :
    OneMountPerDrive [rootMount, driveMount] ∧ SeparateShares [rootMount, driveMount] (ascii "d") ∧
      PlainPath (ascii "/mnt/c/a") ∧
      ((findMount [rootMount, driveMount] (ascii "/mnt/c/a") false).1 = [] →
        (thereAndBack [rootMount, driveMount] (ascii "d") (ascii "/mnt/c/a")).takeWhile (· ≠ 0) =
            ascii "/mnt/c/a" ∧
          ((∀ c ∈ ascii "/mnt/c/a", escapeCharNeedsEscape c = false) →
            thereAndBack [rootMount, driveMount] (ascii "d") (ascii "/mnt/c/a") = ascii "/mnt/c/a")) ∧
      ∀ source n, findMount [rootMount, driveMount] (ascii "/mnt/c/a") false = (source, some n) →
        thereAndBack [rootMount, driveMount] (ascii "d") (ascii "/mnt/c/a") =
          (ascii "/mnt/c/a").take n ++ returnedSuffix source ((ascii "/mnt/c/a").drop n) := by
  have hdrive : OneMountPerDrive [rootMount, driveMount] := by
    unfold OneMountPerDrive
    decide
  have hshare : SeparateShares [rootMount, driveMount] (ascii "d") := ⟨by decide, by decide⟩
  have hpath : PlainPath (ascii "/mnt/c/a") := ⟨rfl, by decide, by decide, by decide +kernel⟩
  exact ⟨hdrive, hshare, hpath, there_and_back hdrive hshare (by decide) (by decide) hpath⟩

theorem shareMount_fields : (ascii "/a").head? = some 47 ∧
    ∀ field ∈ [ascii "/", ascii "/a", ascii "drvfs", ascii "\\\\srv\\x", ascii "rw"], 0 ∉ field := by decide

def shareMount : MountEntry :=
  ⟨ascii "/", ascii "/a", ascii "drvfs", ascii "\\\\srv\\x", ascii "rw", shareMount_fields.1,
    shareMount_fields.2⟩

theorem partMount_fields : (ascii "/b").head? = some 47 ∧
    ∀ field ∈ [ascii "/", ascii "/b", ascii "drvfs", ascii "\\\\srv\\x\\y", ascii "rw"], 0 ∉ field := by decide

/-- A directory of the share `\\srv\x` with a mount of its own. -/
def partMount : MountEntry :=
  ⟨ascii "/", ascii "/b", ascii "drvfs", ascii "\\\\srv\\x\\y", ascii "rw", partMount_fields.1,
    partMount_fields.2⟩

theorem ownMount_fields : (ascii "/s").head? = some 47 ∧
    ∀ field ∈ [ascii "/", ascii "/s", ascii "drvfs", ascii "\\\\wsl.localhost\\d", ascii "rw"], 0 ∉ field := by
  decide

/-- The share of the distribution `d`, mounted in it. -/
def ownMount : MountEntry :=
  ⟨ascii "/", ascii "/s", ascii "drvfs", ascii "\\\\wsl.localhost\\d", ascii "rw", ownMount_fields.1,
    ownMount_fields.2⟩

/-- A path does not come back as it was, up to a trailing slash. -/
def ComesBackOther (table : List MountEntry) (path : Bytes) : Prop :=
  OneMountPerDrive table ∧ PlainPath path ∧ thereAndBack table (ascii "d") path ≠ path ∧
    thereAndBack table (ascii "d") path ≠ path ++ [47]

theorem comesBackOther_colon :
    ComesBackOther [rootMount, driveMount] (ascii "/mnt/c/a:b") ∧
      ComesBackOther [rootMount, shareMount, partMount] (ascii "/a/y/z") ∧
      ComesBackOther [rootMount, ownMount] (ascii "/x") := by
  unfold ComesBackOther OneMountPerDrive
  refine ⟨?_, ?_, ?_⟩
  · exact ⟨by decide, ⟨rfl, by decide, by decide, by decide +kernel⟩, by decide +kernel, by decide +kernel⟩
  · exact ⟨by decide, ⟨rfl, by decide, by decide, by decide +kernel⟩, by decide +kernel, by decide +kernel⟩
  · exact ⟨by decide, ⟨rfl, by decide, by decide, by decide +kernel⟩, by decide +kernel, by decide +kernel⟩

end WslFreeBSD.Translation
