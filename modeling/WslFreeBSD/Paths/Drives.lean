import WslFreeBSD.Paths.AutomountRoot
import WslFreeBSD.Paths.Drvfs

/-!
# Drives as wslpath and init see them

`wslpath` converts the path of a drive to a directory and back, and init mounts the drive on a
directory. Both directories come from `/etc/wsl.conf`, so they should be the same
(`DriveAgrees`). Directories are compared by their paths up to repeated slashes, and the paths that
are converted back are those that the system reports, without repeated slashes.

`drivesAgree_iff` says when they are, for plain files: the first root, up to repeated and trailing
slashes, is the last root of the file, which is an absolute path other than `/`, and the mount points
fit into the buffer of init. A root of `/` is excluded because `to_windows` asks for a slash after
the root, so that it does not find the drive in `/c`.
-/

namespace WslFreeBSD.Paths

open Lib Config

/-! ## Agreement -/

def winSep (mixed : Bool) : UInt8 := if mixed then 47 else 92

/-- With this root, `wslpath` takes the directory for the drive, and everything below it, for the
drive. -/
structure DriveAgrees (root : Bytes) (drive : UInt8) (target : Bytes) : Prop where
  unix : ∃ dir, toUnix root [drive, 58, 92] (2 * pathMax) = .ok dir ∧ collapse dir = collapse target
  windows : ∀ cwd mixed, toWindows root cwd (collapse target) (2 * pathMax) mixed =
    .ok [drive, 58, winSep mixed]
  below : ∀ cwd mixed rest, (collapse target ++ 47 :: rest).length < pathMax →
    toWindows root cwd (collapse target ++ 47 :: rest) (2 * pathMax) mixed =
      .ok (drive :: 58 :: winSep mixed :: replaceSep rest 47 (winSep mixed))

/-- `wslpath` and init agree on every drive that init mounts. -/
def DrivesAgree (file : Bytes) : Prop :=
  ∀ bitmap drive target, ([drive, 58, 92], target) ∈ drvfsMountVolumes bitmap (driveRoot file) →
    isAlpha drive = true → DriveAgrees (readAutomountRoot pathMax (some file)) drive target

/-- The first root names the directory that the last one spells without repeated slashes, and its
drives have names that fit. -/
structure SameRoot (first last : Bytes) : Prop where
  absolute : last.head? = some 47
  same : collapse (first ++ [47]) = last ++ [47]
  fits : first.length ≤ 253

instance (first last : Bytes) : Decidable (SameRoot first last) :=
  decidable_of_iff (last.head? = some 47 ∧ collapse (first ++ [47]) = last ++ [47] ∧
    first.length ≤ 253) ⟨fun ⟨h₁, h₂, h₃⟩ => ⟨h₁, h₂, h₃⟩, fun h => ⟨h.absolute, h.same, h.fits⟩⟩

/-! ## Converting paths of drives -/

theorem letter_spec {i : Nat} (h : i < 26) :
    isAlpha (UInt8.ofNat (97 + i)) = true ∧ toUpper (UInt8.ofNat (97 + i)) = UInt8.ofNat (65 + i) ∧
      isAlpha (UInt8.ofNat (65 + i)) = true ∧ toLower (UInt8.ofNat (65 + i)) = UInt8.ofNat (97 + i) ∧
      UInt8.ofNat (97 + i) ≠ 47 := by
  have hall : ∀ i : Fin 26, isAlpha (UInt8.ofNat (97 + i)) = true ∧
      toUpper (UInt8.ofNat (97 + i)) = UInt8.ofNat (65 + i) ∧
      isAlpha (UInt8.ofNat (65 + i)) = true ∧ toLower (UInt8.ofNat (65 + i)) = UInt8.ofNat (97 + i) ∧
      UInt8.ofNat (97 + i) ≠ 47 := by decide
  exact hall ⟨i, h⟩

/-- A drive letter is followed by a slash or nothing, so it is not the start of `wsl`. -/
theorem uncRest_drive {x : UInt8} {tail : Bytes} (h : tail = [] ∨ tail.head? = some 47) :
    uncRest (x :: tail) = none := by
  unfold uncRest
  dsimp only
  rw [if_neg]
  rintro ⟨hwsl, -⟩
  have hpre := List.isPrefixOf_iff_prefix.mp hwsl
  obtain ⟨t, ht⟩ := hpre
  have htail : 115 :: 108 :: t = tail := (List.cons.inj ht).2
  rcases h with rfl | h
  · cases htail
  · rw [← htail] at h
    exact absurd (Option.some.inj h) (by decide)

/-- `to_windows` finds what stands below the root. -/
theorem below_spec {root : Bytes} (hroot : root.head? = some 47) (cwd : Option Bytes) (rest : Bytes) :
    absolutePath cwd (root ++ 47 :: rest) = .ok (root ++ 47 :: rest) ∧
      (root ≠ [] ∧ root.isPrefixOf (root ++ 47 :: rest) = true ∧
        ((root ++ 47 :: rest).drop root.length).head? = some 47) ∧
      (root ++ 47 :: rest).drop (root.length + 1) = rest := by
  obtain ⟨r, rfl⟩ := List.head?_eq_some_iff.mp hroot
  refine ⟨if_pos rfl, ⟨List.cons_ne_nil _ _, ?_, ?_⟩, ?_⟩
  · exact List.isPrefixOf_iff_prefix.mpr (List.prefix_append _ _)
  · rw [List.drop_left]
    rfl
  · rw [← List.drop_drop, List.drop_left]
    rfl

theorem printInto_of_lt {size : Nat} {text : Bytes} (h : text.length < size) :
    printInto size text = .ok text :=
  if_neg (Nat.not_le.mpr h)

theorem toWindows_drive {root : Bytes} (hroot : root.head? = some 47) (cwd : Option Bytes)
    {x : UInt8} (hx : isAlpha x = true) {tail : Bytes} (htail : tail = [] ∨ tail.head? = some 47)
    {size : Nat} (hfits : tail.tail.length + 3 < size) (mixed : Bool) :
    toWindows root cwd (root ++ 47 :: x :: tail) size mixed =
      .ok (toUpper x :: 58 :: winSep mixed :: replaceSep tail.tail 47 (winSep mixed)) := by
  obtain ⟨habs, hbelow, hrest⟩ := below_spec hroot cwd (x :: tail)
  have hdrive : driveRest (x :: tail) = some (x, tail.tail) := if_pos ⟨hx, htail⟩
  have hprint : ∀ sep : UInt8, printInto size ([toUpper x, 58, sep] ++ tail.tail) =
      .ok ([toUpper x, 58, sep] ++ tail.tail) := by
    intro sep
    apply printInto_of_lt
    rw [List.length_append, List.length_cons, List.length_cons, List.length_cons, List.length_nil]
    omega
  unfold toWindows
  rw [habs]
  simp only [bind, Except.bind]
  rw [if_pos hbelow, hrest, uncRest_drive htail]
  dsimp only
  rw [hdrive]
  dsimp only
  rw [hprint]
  rfl

theorem eq_of_printInto {size : Nat} {text out : Bytes} {f : Bytes → Bytes}
    (h : f <$> printInto size text = .ok out) : out = f text := by
  unfold printInto at h
  split at h
  · cases h
  · exact (Except.ok.inj h).symm

theorem exists_drive_of_toWindows {root path out : Bytes} {size : Nat} {d : UInt8}
    (hd : isAlpha d = true) (h : toWindows root none path size false = .ok (d :: out)) :
    path.head? = some 47 ∧ root.length + 2 ≤ path.length := by
  by_cases hhead : path.head? = some 47
  · refine ⟨hhead, ?_⟩
    have hbackslash : ∀ {text : Bytes}, text.head? = some 92 → d :: out ≠ text := by
      rintro text htext rfl
      obtain rfl := Option.some.inj htext
      exact absurd hd (by decide)
    have hplain : d :: out ≠ replaceSep path 47 92 := by
      apply hbackslash
      obtain ⟨p, rfl⟩ := List.head?_eq_some_iff.mp hhead
      rfl
    have habs : absolutePath none path = .ok path := if_pos hhead
    unfold toWindows at h
    rw [habs] at h
    simp only [bind, Except.bind, Bool.false_eq_true, if_false] at h
    split at h
    · split at h
      · exact absurd (eq_of_printInto h) (hbackslash rfl)
      · split at h
        · next c remainder hdrive =>
          have hne : path.drop (root.length + 1) ≠ [] := by
            intro hnil
            rw [hnil] at hdrive
            cases hdrive
          have hlen := List.length_pos_iff.mpr hne
          rw [List.length_drop] at hlen
          omega
        · exact absurd (eq_of_printInto h) hplain
    · exact absurd (eq_of_printInto h) hplain
  · have habs : absolutePath none path = .error .getcwd := if_neg hhead
    unfold toWindows at h
    rw [habs] at h
    cases h

theorem replaceSep_of_not_mem {s : Bytes} {old new : UInt8} (h : old ∉ s) : replaceSep s old new = s := by
  unfold replaceSep
  conv_rhs => rw [← List.map_id s]
  apply List.map_congr_left
  intro c hc
  apply if_neg
  rintro rfl
  exact h hc

theorem ne_backslash_of_isAlpha {x : UInt8} (h : isAlpha x = true) : x ≠ 92 := by
  rintro rfl
  exact absurd h (by decide)

theorem toUnix_drive {root : Bytes} (hroot : 92 ∉ root) {x : UInt8} (hx : isAlpha x = true)
    {size : Nat} (hfits : root.length + 2 < size) :
    toUnix root [x, 58, 92] size = .ok (root ++ [47, toLower x]) := by
  have hne := ne_backslash_of_isAlpha hx
  have hlower : toLower x ≠ 92 := ne_backslash_of_isAlpha ((isAlpha_toLower x).trans hx)
  have hpre : ∀ s : Bytes, List.isPrefixOf (92 :: s) [x, 58, 92] = false := by
    intro s
    simp [List.isPrefixOf, hne.symm]
  have hlong : (ascii "\\\\?\\").isPrefixOf [x, 58, 92] = false := hpre _
  have hunc : (ascii "\\\\").isPrefixOf [x, 58, 92] = false := hpre _
  have hprint : printInto size (root ++ [47, toLower x]) = .ok (root ++ [47, toLower x]) := by
    apply printInto_of_lt
    rw [List.length_append, List.length_cons, List.length_cons, List.length_nil]
    omega
  have hkeep : replaceSep (root ++ [47, toLower x]) 92 47 = root ++ [47, toLower x] := by
    apply replaceSep_of_not_mem
    simp [hroot, hlower.symm]
  unfold toUnix
  rw [hlong, if_neg Bool.false_ne_true]
  simp only [hunc, Bool.false_eq_true, if_false, hx, if_true, List.head?_cons, true_or, List.tail_cons]
  rw [hprint]
  exact congrArg Except.ok hkeep

/-! ## Roots -/

section

variable {first last : Bytes}

theorem SameRoot.driveAgrees (h : SameRoot first last) (hlast : 92 ∉ last) (hlen : last.length ≤ 1023)
    {i : Nat} (hi : i < 26) :
    DriveAgrees last (UInt8.ofNat (65 + i))
      (snprintf 256 (first ++ [47, UInt8.ofNat (97 + i)])) := by
  obtain ⟨halpha, hupper, hdrive, hlower, hslash⟩ := letter_spec hi
  have htake : snprintf 256 (first ++ [47, UInt8.ofNat (97 + i)]) =
      first ++ [47] ++ [UInt8.ofNat (97 + i)] := by
    have hfits := h.fits
    rw [snprintf, List.take_of_length_le]
    · simp
    · rw [List.length_append, List.length_cons, List.length_cons, List.length_nil]
      omega
  have hcollapse : collapse (snprintf 256 (first ++ [47, UInt8.ofNat (97 + i)])) =
      last ++ [47, UInt8.ofNat (97 + i)] := by
    rw [htake, collapse_concat hslash, h.same]
    simp
  have hdir : collapse (last ++ [47, UInt8.ofNat (97 + i)]) = last ++ [47, UInt8.ofNat (97 + i)] := by
    rw [← hcollapse, collapse_collapse]
  refine ⟨⟨_, toUnix_drive hlast hdrive (by simp only [pathMax]; omega), ?_⟩, ?_, ?_⟩
  · rw [hlower, hdir, hcollapse]
  · intro cwd mixed
    rw [hcollapse, toWindows_drive h.absolute cwd halpha (Or.inl rfl) (by decide), hupper]
    rfl
  · intro cwd mixed rest hrest
    rw [hcollapse] at hrest ⊢
    have happ : last ++ [47, UInt8.ofNat (97 + i)] ++ 47 :: rest =
        last ++ 47 :: UInt8.ofNat (97 + i) :: 47 :: rest := by simp
    have hbound : (47 :: rest).tail.length + 3 < 2 * pathMax := by
      rw [happ] at hrest
      simp only [List.length_append, List.length_cons, List.tail_cons, pathMax] at hrest ⊢
      omega
    rw [happ, toWindows_drive h.absolute cwd halpha (Or.inr rfl) hbound, hupper]
    rfl

theorem sameRoot_of_driveAgrees (hlast : 92 ∉ last) (hne : last ≠ []) (hlen : last.length ≤ 1023)
    (h : ∀ i < 26, DriveAgrees last (UInt8.ofNat (65 + i))
      (snprintf 256 (first ++ [47, UInt8.ofNat (97 + i)]))) :
    SameRoot first last := by
  have hdir : ∀ i < 26, collapse (last ++ [47]) ++ [UInt8.ofNat (97 + i)] =
      collapse (snprintf 256 (first ++ [47, UInt8.ofNat (97 + i)])) := by
    intro i hi
    obtain ⟨-, -, hdrive, hlower, hslash⟩ := letter_spec hi
    obtain ⟨dir, hunix, hsame⟩ := (h i hi).unix
    rw [toUnix_drive hlast hdrive (by simp only [pathMax]; omega), hlower] at hunix
    rw [← hsame, ← Except.ok.inj hunix, ← collapse_concat hslash]
    simp
  have hfits : first.length ≤ 253 := by
    by_contra hlong
    -- the letter is cut off, so all drives have one directory
    have hcut : ∀ x : UInt8, snprintf 256 (first ++ [47, x]) = (first ++ [47]).take 255 := by
      intro x
      have happ : first ++ [47, x] = first ++ [47] ++ [x] := by simp
      rw [snprintf, happ, List.take_append_of_le_length]
      rw [List.length_append, List.length_singleton]
      omega
    have ha := hdir 0 (by decide)
    have hb := hdir 1 (by decide)
    rw [hcut] at ha hb
    have hletters := List.append_cancel_left (ha.trans hb.symm)
    exact absurd hletters (by decide)
  have htake : snprintf 256 (first ++ [47, UInt8.ofNat (97 + 0)]) = first ++ [47] ++ [97] := by
    rw [snprintf, List.take_of_length_le]
    · simp
    · rw [List.length_append, List.length_cons, List.length_cons, List.length_nil]
      omega
  have hsame : collapse (last ++ [47]) = collapse (first ++ [47]) := by
    have ha := hdir 0 (by decide)
    rw [htake, collapse_concat (x := 97) (by decide)] at ha
    exact List.append_cancel_right ha
  have hwindows := (h 0 (by decide)).windows none false
  rw [← hdir 0 (by decide)] at hwindows
  obtain ⟨hhead, hdrive⟩ := exists_drive_of_toWindows (by decide) hwindows
  have hself : collapse (last ++ [47]) = last ++ [47] := by
    apply collapse_eq_self_of_length
    have hle := length_collapse_le (last ++ [47])
    rw [List.length_append, List.length_singleton] at hdrive hle ⊢
    omega
  refine ⟨?_, ?_, hfits⟩
  · obtain ⟨c, r, rfl⟩ := List.exists_cons_of_ne_nil hne
    rw [hself] at hhead
    exact hhead
  · rw [← hsame, hself]

end

/-! ## Files -/

theorem not_mem_unquote {t : Bytes} (h : PlainText t) : 92 ∉ unquote t := by
  unfold unquote
  rcases h with ⟨hhead, hclose, hescape⟩ | ⟨hhead, -, hescape⟩
  · rw [if_pos ⟨hhead, hclose⟩]
    exact hescape
  · rw [if_neg fun hq => hhead hq.1]
    exact hescape

theorem rootOr_spec {file : Bytes} (h : PlainFile file) {value : Option Bytes}
    (hvalue : ∀ v ∈ value, v ∈ rootValues file) :
    92 ∉ rootOr value ∧ rootOr value ≠ [] ∧ (rootOr value).length ≤ 1023 := by
  unfold rootOr
  cases value with
  | none => decide
  | some v =>
    obtain ⟨t, ht, rfl⟩ := List.mem_map.mp (hvalue v rfl)
    dsimp only
    split
    · decide
    · next hne =>
      have hsub := (withoutTrailingSlash_isPrefix (unquote t)).sublist
      refine ⟨fun hc => not_mem_unquote (h.plain t ht) (hsub.subset hc),
        withoutTrailingSlash_ne_nil hne, ?_⟩
      have hlen := (hsub.trans (unquote_sublist t)).length_le
      have hshort := length_of_mem_rootTexts h.short ht
      omega

theorem lastRoot_spec {file : Bytes} (h : PlainFile file) :
    92 ∉ lastRoot file ∧ lastRoot file ≠ [] ∧ (lastRoot file).length ≤ 1023 :=
  rootOr_spec h fun _ hv => (List.mem_filter.mp (List.mem_of_getLast? hv)).1

theorem mem_drvfsMountVolumes {bitmap : BitVec 32} {root target : Bytes} {drive : UInt8}
    (hdrive : isAlpha drive = true)
    (h : ([drive, 58, 92], target) ∈ drvfsMountVolumes bitmap root) :
    ∃ i < 26, drive = UInt8.ofNat (65 + i) ∧ target = driveTarget root i := by
  obtain ⟨i, hi, heq⟩ := List.mem_map.mp h
  obtain ⟨hsource, rfl⟩ := Prod.mk.inj heq
  obtain rfl : UInt8.ofNat (65 + i) = drive := (List.cons.inj hsource).1
  have hrange : i < 32 := List.mem_range.mp (List.mem_filter.mp hi).1
  refine ⟨i, ?_, rfl, rfl⟩
  by_contra hge
  have hall : ∀ i : Fin 32, 26 ≤ i.val → isAlpha (UInt8.ofNat (65 + i)) = false := by decide
  rw [hall ⟨i, hrange⟩ (Nat.le_of_not_lt hge)] at hdrive
  cases hdrive

theorem driveTarget_eq {file : Bytes} (h : PlainFile file) (i : Nat) :
    driveTarget (driveRoot file) i =
      snprintf 256 (firstRoot file ++ [47, UInt8.ofNat (97 + i)]) := by
  have hmem : ∀ v ∈ (rootValues file).head?, v ∈ rootValues file := fun _ hv => List.mem_of_mem_head? hv
  have hlen := (rootOr_spec h hmem).2.2
  have hroot : withoutTrailingSlash (rootOrDefault (driveRoot file)) = firstRoot file := driveRoot_eq h
  rw [driveTarget_eq_of_length (by rw [hroot, firstRoot]; omega), hroot]

/-- A quoted root with a comment after it, and a section of another key. -/
def quotedRoot : Bytes := ascii "[automount]\nroot = \"/drives\" # all drives\n[boot]\nroot = /x\n"

theorem plainFile_quotedRoot : PlainFile quotedRoot where
  short := by decide
  noCarriage := by decide
  plain := by decide

def commentedRoot : Bytes := ascii "[automount]\nroot = /drives # all drives\n"

end WslFreeBSD.Paths
