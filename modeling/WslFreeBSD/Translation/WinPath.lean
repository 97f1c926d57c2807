import WslFreeBSD.Translation.Escape
import WslFreeBSD.Translation.FindMount

/-!
# Translation of paths

`UtilWinPathTranslate` and `UtilWinPathTranslateInternal` of `init/util.cpp`. A path on a mount with a Windows
source is translated with that mount, another one with the share of the distribution.

A Windows path belongs to the distribution if it starts with the prefix of its share. The code does not ask
that the name of the share ends where the prefix does: `namesShare_iff` says for which paths that makes no
difference.
-/

namespace WslFreeBSD.Translation

open Lib

/-- `PLAN9_RDR_PREFIX`. -/
def redirectorPrefix : Bytes := ascii "\\\\wsl.localhost\\"

/-- `PLAN9_RDR_COMPAT_PREFIX`. -/
def redirectorCompatPrefix : Bytes := ascii "\\\\wsl$\\"

/-- The length of the prefix that a Windows path has in common with the share of the distribution. -/
def sharePrefixLength (distributionName path : Bytes) : Option Nat :=
  if startsWith path (redirectorPrefix ++ distributionName) true then
    some (redirectorPrefix ++ distributionName).length
  else if startsWith path (redirectorCompatPrefix ++ distributionName) true then
    some (redirectorCompatPrefix ++ distributionName).length
  else none

/-- A path of the distribution, behind the prefix of the share, as a Linux path. -/
def linuxPathOfShare (path : Bytes) : Bytes :=
  if path.length = 0 then [47] else unescapePathInplace (canonicaliseInplace path 47)

/-- `UtilWinPathTranslateInternal`. -/
def winPathTranslateInternal (distributionName path : Bytes) (reverse : Bool) : Bytes :=
  if distributionName = [] then []
  else if reverse = false then redirectorPrefix ++ distributionName ++ escapePathForNt path
  else
    match sharePrefixLength distributionName path with
    | none => []
    | some prefixLength => linuxPathOfShare (path.drop prefixLength)

/-- The length that `UtilWinPathTranslate` provides for the translation of the suffix. A drive letter alone
gets a backslash. -/
def translatedSuffixLength (prefixReplacement suffix : Bytes) (reverse : Bool) : Nat :=
  if reverse = false then
    if suffix.length = 0 ∧ prefixReplacement.length = 2 ∧ prefixReplacement[1]? = some 58 then 1
    else escapePathForNtLength suffix
  else suffix.length

def translateSuffix (prefixReplacement suffix : Bytes) (reverse : Bool) : Bytes :=
  let length := translatedSuffixLength prefixReplacement suffix reverse
  if length ≠ suffix.length then
    if suffix.length = 0 ∧ length = 1 then [92] else escapePathForNt suffix
  else canonicaliseInplace suffix (separatorOf !reverse)

/-- `UtilWinPathTranslate`. -/
def winPathTranslate (table : List MountEntry) (distributionName path : Bytes) (reverse : Bool) : Bytes :=
  let found := findMount table path reverse
  if found.1 = [] then winPathTranslateInternal distributionName path reverse
  else found.1 ++ translateSuffix found.1 (path.drop (found.2.getD 0)) reverse

/-! ## The share of a path -/

/-- The name behind `\\wsl.localhost\` or `\\wsl$\`. -/
def shareComponent (path : Bytes) : Option Bytes :=
  if startsWith path redirectorPrefix true then
    some ((path.drop redirectorPrefix.length).takeWhile fun c => ¬ IsSeparator c)
  else if startsWith path redirectorCompatPrefix true then
    some ((path.drop redirectorCompatPrefix.length).takeWhile fun c => ¬ IsSeparator c)
  else none

/-- A path is translated only if its share is that of the distribution, and then to an absolute path. -/
def NamesShare (distributionName path : Bytes) : Prop :=
  winPathTranslateInternal distributionName path true ≠ [] →
    (∃ share, shareComponent path = some share ∧ eqIgnoringCase share distributionName = true) ∧
      (winPathTranslateInternal distributionName path true).head? = some 47

def EndsName (text : Bytes) : Prop := text = [] ∨ ∃ c ∈ text.head?, IsSeparator c

theorem toLower_eq_iff_of_isSeparator : ∀ c : UInt8, IsSeparator (toLower c) ↔ IsSeparator c :=
  forall_char (by decide +kernel)

theorem toLower_eq_separator : ∀ c : UInt8, toLower c = 92 ↔ c = 92 := forall_char (by decide +kernel)

theorem startsWith_true_iff_exists (string start : Bytes) :
    startsWith string start true = true ↔
      ∃ spelled rest, string = spelled ++ rest ∧ eqIgnoringCase spelled start = true := by
  rw [startsWith_true_iff]
  constructor
  · rintro ⟨rest, hrest⟩
    refine ⟨string.take start.length, string.drop start.length, (List.take_append_drop _ _).symm, ?_⟩
    refine decide_eq_true ?_
    have htake := congrArg (List.take start.length) hrest
    rw [List.take_left' (by simp)] at htake
    rw [List.map_take]
    exact htake.symm
  · rintro ⟨spelled, rest, rfl, hcase⟩
    rw [List.map_append, of_decide_eq_true hcase]
    exact List.prefix_append _ _

theorem isSeparator_of_eqIgnoringCase {s t : Bytes} (h : eqIgnoringCase s t = true) :
    (∃ c ∈ s, IsSeparator c) ↔ ∃ c ∈ t, IsSeparator c := by
  have hmap : s.map toLower = t.map toLower := of_decide_eq_true h
  have hlower : ∀ u : Bytes, (∃ c ∈ u, IsSeparator c) ↔ ∃ c ∈ u.map toLower, IsSeparator c := by
    intro u
    simp only [List.mem_map, exists_exists_and_eq_and, toLower_eq_iff_of_isSeparator]
  rw [hlower s, hmap, ← hlower t]

theorem length_takeWhile_share (share rest : Bytes) :
    ((share ++ rest).takeWhile fun c => ¬ IsSeparator c).length = share.length ↔
      (¬ ∃ c ∈ share, IsSeparator c) ∧ EndsName rest := by
  have hall : (share.takeWhile fun c => ¬ IsSeparator c).length = share.length ↔
      ¬ ∃ c ∈ share, IsSeparator c := by
    constructor
    · rintro hlen ⟨c, hc, hsep⟩
      have heq := (List.takeWhile_prefix fun c => decide (¬ IsSeparator c)).eq_of_length hlen
      exact of_decide_eq_true (List.takeWhile_eq_self_iff.mp heq c hc) hsep
    · intro hnone
      rw [List.takeWhile_eq_self_iff.mpr]
      exact fun c hc => decide_eq_true fun hsep => hnone ⟨c, hc, hsep⟩
  rw [List.takeWhile_append]
  split
  · rename_i hlen
    rw [List.length_append, and_iff_right (hall.mp hlen), Nat.add_eq_left, List.length_eq_zero_iff,
      List.takeWhile_eq_nil_iff]
    cases rest with
    | nil => simp [EndsName]
    | cons c rest => simp [EndsName, IsSeparator, or_iff_not_imp_left]
  · rename_i hlen
    exact iff_of_false hlen fun h => hlen (hall.mpr h.1)

theorem shareComponent_redirector {spelled text : Bytes} (h : eqIgnoringCase spelled redirectorPrefix = true) :
    shareComponent (spelled ++ text) = some (text.takeWhile fun c => ¬ IsSeparator c) := by
  have hstart : startsWith (spelled ++ text) redirectorPrefix true = true :=
    (startsWith_true_iff_exists _ _).mpr ⟨spelled, text, rfl, h⟩
  unfold shareComponent
  rw [if_pos hstart, ← length_of_eqIgnoringCase h, List.drop_left]

theorem shareComponent_compat {spelled text : Bytes}
    (h : eqIgnoringCase spelled redirectorCompatPrefix = true) :
    shareComponent (spelled ++ text) = some (text.takeWhile fun c => ¬ IsSeparator c) := by
  have hstart : startsWith (spelled ++ text) redirectorCompatPrefix true = true :=
    (startsWith_true_iff_exists _ _).mpr ⟨spelled, text, rfl, h⟩
  have hother : ¬ startsWith (spelled ++ text) redirectorPrefix true = true := by
    intro hboth
    -- the prefixes differ in the sixth character
    obtain ⟨rest, hrest⟩ := (startsWith_true_iff _ _).mp hboth
    obtain ⟨rest', hrest'⟩ := (startsWith_true_iff _ _).mp hstart
    have hsixth := congrArg (fun s : Bytes => s[5]?) (hrest.trans hrest'.symm)
    have hdot : (redirectorPrefix.map toLower)[5]? = some 46 := by decide
    have hdollar : (redirectorCompatPrefix.map toLower)[5]? = some 36 := by decide
    rw [List.getElem?_append_left (by decide), List.getElem?_append_left (by decide), hdot, hdollar] at hsixth
    cases hsixth
  unfold shareComponent
  rw [if_neg hother, if_pos hstart, ← length_of_eqIgnoringCase h, List.drop_left]

theorem exists_of_sharePrefixLength {distributionName path : Bytes} {n : Nat}
    (h : sharePrefixLength distributionName path = some n) :
    ∃ start name, path = start ++ (name ++ path.drop n) ∧ eqIgnoringCase name distributionName = true ∧
      ∀ text, shareComponent (start ++ text) = some (text.takeWhile fun c => ¬ IsSeparator c) := by
  have hsplit : ∀ pre : Bytes, startsWith path (pre ++ distributionName) true = true →
      ∃ start name, path = start ++ (name ++ path.drop (pre ++ distributionName).length) ∧
        eqIgnoringCase name distributionName = true ∧ eqIgnoringCase start pre = true := by
    intro pre hpre
    obtain ⟨spelled, rest, hpath, hcase⟩ := (startsWith_true_iff_exists _ _).mp hpre
    have hmap : spelled.map toLower = pre.map toLower ++ distributionName.map toLower := by
      rw [← List.map_append]
      exact of_decide_eq_true hcase
    have hdrop : path.drop (pre ++ distributionName).length = rest := by
      rw [hpath, ← length_of_eqIgnoringCase hcase, List.drop_left]
    refine ⟨spelled.take pre.length, spelled.drop pre.length, ?_, ?_, ?_⟩
    · rw [hdrop, ← List.append_assoc, List.take_append_drop]
      exact hpath
    · refine decide_eq_true ?_
      rw [List.map_drop, hmap, List.drop_left' (List.length_map ..)]
    · refine decide_eq_true ?_
      rw [List.map_take, hmap, List.take_left' (List.length_map ..)]
  unfold sharePrefixLength at h
  split at h
  · rename_i hstart
    obtain rfl := Option.some.inj h
    obtain ⟨start, name, hpath, hname, hcase⟩ := hsplit _ hstart
    exact ⟨start, name, hpath, hname, fun text => shareComponent_redirector hcase⟩
  · split at h
    · rename_i hstart
      obtain rfl := Option.some.inj h
      obtain ⟨start, name, hpath, hname, hcase⟩ := hsplit _ hstart
      exact ⟨start, name, hpath, hname, fun text => shareComponent_compat hcase⟩
    · cases h

/-! ## Linux paths of the distribution -/

theorem unescapeFrom_ne_nil {memory : Bytes} (h : memory ≠ []) (n : Nat) : unescapeFrom n memory ≠ [] := by
  obtain ⟨current, memory, rfl⟩ := List.exists_cons_of_ne_nil h
  cases n with
  | zero => exact List.cons_ne_nil _ _
  | succ n =>
    simp only [unescapeFrom]
    split
    · exact List.cons_ne_nil _ _
    · split <;> exact List.cons_ne_nil _ _

theorem length_canonicaliseInplace (string : Bytes) (separator : UInt8) :
    (canonicaliseInplace string separator).length = string.length := by
  unfold canonicaliseInplace overwrite
  rw [List.length_take, List.length_append, List.length_cons, List.length_drop]
  omega

theorem linuxPathOfShare_ne_nil (path : Bytes) : linuxPathOfShare path ≠ [] := by
  unfold linuxPathOfShare
  split
  · exact List.cons_ne_nil _ _
  · rename_i hlen
    unfold unescapePathInplace
    rw [length_canonicaliseInplace, Ne, List.take_eq_nil_iff, not_or]
    exact ⟨hlen, unescapeFrom_ne_nil (by simp) _⟩

theorem head?_linuxPathOfShare {path : Bytes} (h : EndsName path) :
    (linuxPathOfShare path).head? = some 47 := by
  rcases h with rfl | ⟨c, hc, hsep⟩
  · rfl
  · obtain ⟨rest, rfl⟩ := List.head?_eq_some_iff.mp hc
    have hzero : decide (c ≠ 0) = true := by rcases hsep with rfl | rfl <;> rfl
    have hfirst : canonicaliseStep 47 [] c = [47] := if_pos hsep
    have hcanonical : ∃ text, canonicalisePathSeparator ((c :: rest).takeWhile (· ≠ 0)) 47 = 47 :: text := by
      rw [List.takeWhile_cons, if_pos hzero, canonicalisePathSeparator, List.foldl_cons, hfirst]
      refine List.foldlRecOn _ (canonicaliseStep 47) (motive := fun written => ∃ text, written = 47 :: text)
        ⟨[], rfl⟩ ?_
      rintro written ⟨text, rfl⟩ d _
      unfold canonicaliseStep
      split
      · split
        · exact ⟨text, rfl⟩
        · exact ⟨text ++ [47], rfl⟩
      · exact ⟨text ++ [d], rfl⟩
    obtain ⟨text, htext⟩ := hcanonical
    have hinplace : ∃ text', canonicaliseInplace (c :: rest) 47 = 47 :: text' := by
      unfold canonicaliseInplace overwrite
      rw [htext]
      exact ⟨_, rfl⟩
    obtain ⟨text', htext'⟩ := hinplace
    unfold linuxPathOfShare
    rw [if_neg (by simp), htext', unescapePathInplace, List.length_cons, List.cons_append,
      unescapeFrom_plain (by decide) (by decide)]
    rfl

/-- When only paths of the distribution are translated. -/
theorem namesShare_iff (distributionName path : Bytes) :
    NamesShare distributionName path ↔ distributionName = [] ∨
      ∀ n, sharePrefixLength distributionName path = some n →
        (¬ ∃ c ∈ distributionName, IsSeparator c) ∧ EndsName (path.drop n) := by
  unfold NamesShare winPathTranslateInternal
  by_cases hname : distributionName = []
  · rw [if_pos hname]
    exact iff_of_true (fun hne => absurd rfl hne) (Or.inl hname)
  · rw [if_neg hname, if_neg (by decide), or_iff_right hname]
    cases hshare : sharePrefixLength distributionName path with
    | none => exact iff_of_true (fun hne => absurd rfl hne) fun n hn => by cases hn
    | some n =>
      obtain ⟨start, name, hpath, hcase, hcomponent⟩ := exists_of_sharePrefixLength hshare
      have hread : shareComponent path =
          some ((name ++ path.drop n).takeWhile fun c => ¬ IsSeparator c) := by
        rw [← hcomponent, ← hpath]
      have hends := length_takeWhile_share name (path.drop n)
      rw [isSeparator_of_eqIgnoringCase hcase] at hends
      constructor
      · intro hkept m hm
        obtain rfl := Option.some.inj hm
        obtain ⟨⟨share, hsome, hequal⟩, -⟩ := hkept (linuxPathOfShare_ne_nil _)
        rw [hread] at hsome
        obtain rfl := Option.some.inj hsome
        exact hends.mp ((length_of_eqIgnoringCase hequal).trans (length_of_eqIgnoringCase hcase).symm)
      · intro hwhole _
        have hboth := hwhole n rfl
        have hlen := hends.mpr hboth
        have htake : ((name ++ path.drop n).takeWhile fun c => ¬ IsSeparator c) = name := by
          rw [List.prefix_iff_eq_take.mp (List.takeWhile_prefix _), hlen, List.take_left]
        exact ⟨⟨name, hread.trans (congrArg some htake), hcase⟩, head?_linuxPathOfShare hboth.2⟩

/-- The file of another distribution is given for one of this distribution, with a relative path. -/
theorem not_namesShare_longer :
    ¬ NamesShare (ascii "Ubuntu") (ascii "\\\\wsl.localhost\\Ubuntu-20.04\\home") := by
  intro h
  obtain ⟨-, habsolute⟩ := h (by decide)
  exact absurd habsolute (by decide)

end WslFreeBSD.Translation
