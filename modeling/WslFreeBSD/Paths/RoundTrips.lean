import WslFreeBSD.Paths.Drives

/-!
# Converting a path there and back

`to_unix` undoes `to_windows` on the paths of drives, on the paths of shares and on the paths outside
the mount root (`toUnix_toWindows`), in both modes: the first characters of the result tell `to_unix`
which branch it comes from, and the long path prefix is the one exception.

In the other direction `to_unix` turns every backslash of its result into a slash, those of the mount
root too. `to_windows` then does not find its root in front of the path any more. So
`to_windows` undoes `to_unix` on the paths of drives if and only if the root has no backslash
(`roundTrips`).
-/

namespace WslFreeBSD.Paths

open Lib

/-! ## Paths -/

/-- A mount root below `/`, without a separator at its end. -/
structure MountRoot (root : Bytes) : Prop where
  absolute : root.head? = some 47
  notSlash : root.getLast? ≠ some 47
  notBackslash : root.getLast? ≠ some 92

def IsLower (x : UInt8) : Prop := 97 ≤ x ∧ x ≤ 122

instance : DecidablePred IsLower := fun _ => instDecidableAnd

def IsUpper (x : UInt8) : Prop := 65 ≤ x ∧ x ≤ 90

instance : DecidablePred IsUpper := fun _ => instDecidableAnd

/-- The POSIX paths of drives and shares and those that the mount root has nothing to do with. -/
inductive Convertible (root : Bytes) : Bytes → Prop
  | drive {x : UInt8} (hx : IsLower x) : Convertible root (root ++ [47, x])
  | onDrive {x : UInt8} (hx : IsLower x) {r : Bytes} (hr : r ≠ []) :
      Convertible root (root ++ 47 :: x :: 47 :: r)
  | share {s : Bytes} (hs : s ≠ []) (hlong : ¬ ascii "?/" <+: s) :
      Convertible root (root ++ 47 :: (ascii "wsl/" ++ s))
  | outside {p : Bytes} (hroot : ¬ root ++ [47] <+: p) (hshare : ¬ ascii "//" <+: p) :
      Convertible root p

/-- The path `X:\r`. -/
def drivePath (x : UInt8) (r : Bytes) : Bytes := x :: 58 :: 92 :: r

/-- What stands behind the root and the letter of a drive. -/
def belowDrive (r : Bytes) : Bytes := if r = [] then [] else 47 :: replaceSep r 92 47

/-! ## Separators -/

@[simp] theorem length_replaceSep (s : Bytes) (old new : UInt8) :
    (replaceSep s old new).length = s.length := List.length_map _

@[simp] theorem replaceSep_nil (old new : UInt8) : replaceSep [] old new = [] := rfl

theorem replaceSep_eq_nil {s : Bytes} {old new : UInt8} : replaceSep s old new = [] ↔ s = [] :=
  List.map_eq_nil_iff

theorem replaceSep_append (s t : Bytes) (old new : UInt8) :
    replaceSep (s ++ t) old new = replaceSep s old new ++ replaceSep t old new :=
  List.map_append

theorem replaceSep_cons (c : UInt8) (s : Bytes) (old new : UInt8) :
    replaceSep (c :: s) old new = (if c = old then new else c) :: replaceSep s old new := rfl

theorem old_not_mem_replaceSep {s : Bytes} {old new : UInt8} (h : new ≠ old) :
    old ∉ replaceSep s old new := by
  intro hmem
  obtain ⟨c, -, hc⟩ := List.mem_map.mp hmem
  by_cases heq : c = old
  · rw [if_pos heq] at hc
    exact h hc
  · rw [if_neg heq] at hc
    exact heq hc

theorem replaceSep_replaceSep {s : Bytes} {a b : UInt8} (h : b ∉ s) :
    replaceSep (replaceSep s a b) b a = s := by
  unfold replaceSep
  rw [List.map_map]
  conv_rhs => rw [← List.map_id s]
  apply List.map_congr_left
  intro c hc
  have hb : c ≠ b := fun heq => h (heq ▸ hc)
  by_cases ha : c = a
  · simp [ha]
  · simp [ha, hb]

theorem replaceSep_winSep {s : Bytes} (h : 92 ∉ s) (mixed : Bool) :
    replaceSep (replaceSep s 47 (winSep mixed)) 92 47 = s := by
  cases mixed with
  | true =>
    have hself : replaceSep s 47 47 = s := by
      unfold replaceSep
      conv_rhs => rw [← List.map_id s]
      exact List.map_congr_left fun c _ => ite_eq_right_iff.mpr Eq.symm
    exact (congrArg (replaceSep · 92 47) hself).trans (replaceSep_of_not_mem h)
  | false => exact replaceSep_replaceSep h

theorem isPrefix_of_replaceSep {s t : Bytes} (h : 92 ∉ s) {mixed : Bool}
    (hpre : t <+: replaceSep s 47 (winSep mixed)) : replaceSep t 92 47 <+: s := by
  rw [← replaceSep_winSep h mixed]
  exact hpre.map _

/-! ## Letters -/

theorem IsLower.spec {x : UInt8} (h : IsLower x) :
    isAlpha x = true ∧ isAlpha (toUpper x) = true ∧ toLower (toUpper x) = x := by
  have hall : ∀ x : UInt8, 97 ≤ x ∧ x ≤ 122 →
      isAlpha x = true ∧ isAlpha (toUpper x) = true ∧ toLower (toUpper x) = x :=
    forall_char (by decide +kernel)
  exact hall x h

theorem IsUpper.spec {x : UInt8} (h : IsUpper x) :
    isAlpha x = true ∧ isAlpha (toLower x) = true ∧ toUpper (toLower x) = x := by
  have hall : ∀ x : UInt8, 65 ≤ x ∧ x ≤ 90 →
      isAlpha x = true ∧ isAlpha (toLower x) = true ∧ toUpper (toLower x) = x :=
    forall_char (by decide +kernel)
  exact hall x h

theorem MountRoot.two_le {root : Bytes} (h : MountRoot root) : 2 ≤ root.length := by
  obtain ⟨r, rfl⟩ := List.head?_eq_some_iff.mp h.absolute
  cases r with
  | nil => exact absurd rfl h.notSlash
  | cons c r => simp

theorem belowDrive_spec (r : Bytes) :
    (belowDrive r = [] ∨ (belowDrive r).head? = some 47) ∧ (belowDrive r).tail = replaceSep r 92 47 := by
  unfold belowDrive
  by_cases hr : r = []
  · rw [if_pos hr, hr]
    exact ⟨Or.inl rfl, rfl⟩
  · rw [if_neg hr]
    exact ⟨Or.inr rfl, rfl⟩

/-! ## The branches of to_windows -/

theorem uncRest_wsl (s : Bytes) : uncRest (ascii "wsl/" ++ s) = some s := by
  unfold uncRest
  dsimp only
  rw [if_pos ⟨rfl, Or.inr rfl⟩]
  rfl

theorem toWindows_share {root : Bytes} (hroot : root.head? = some 47) (cwd : Option Bytes)
    {s : Bytes} {size : Nat} (hfits : s.length + 2 < size) (mixed : Bool) :
    toWindows root cwd (root ++ 47 :: (ascii "wsl/" ++ s)) size mixed =
      .ok (92 :: 92 :: replaceSep s 47 (winSep mixed)) := by
  obtain ⟨habs, hbelow, hrest⟩ := below_spec hroot cwd (ascii "wsl/" ++ s)
  unfold toWindows
  rw [habs]
  simp only [bind, Except.bind]
  rw [if_pos hbelow, hrest, uncRest_wsl]
  dsimp only
  rw [printInto_of_lt (by simpa using hfits)]
  rfl

theorem toWindows_outside {root p : Bytes} (habs : p.head? = some 47) (hroot : ¬ root ++ [47] <+: p)
    (cwd : Option Bytes) (size : Nat) (mixed : Bool) :
    toWindows root cwd p size mixed = (replaceSep · 47 (winSep mixed)) <$> printInto size p := by
  have hnot : ¬ (root ≠ [] ∧ root.isPrefixOf p = true ∧ (p.drop root.length).head? = some 47) := by
    rintro ⟨-, hpre, hslash⟩
    obtain ⟨t, rfl⟩ := List.isPrefixOf_iff_prefix.mp hpre
    rw [List.drop_left] at hslash
    obtain ⟨u, rfl⟩ := List.head?_eq_some_iff.mp hslash
    exact hroot ⟨u, by simp⟩
  unfold toWindows
  rw [show absolutePath cwd p = .ok p from if_pos habs]
  simp only [bind, Except.bind]
  rw [if_neg hnot]
  rfl

/-! ## The branches of to_unix -/

theorem isPrefixOf_backslashes {s : Bytes} (h : ¬ [92, 92] <+: s) :
    (ascii "\\\\").isPrefixOf s = false ∧ (ascii "\\\\?\\").isPrefixOf s = false := by
  constructor
  · rw [Bool.eq_false_iff]
    exact fun hpre => h (List.isPrefixOf_iff_prefix.mp hpre)
  · rw [Bool.eq_false_iff]
    intro hpre
    have hlong : [92, 92] <+: ascii "\\\\?\\" := ⟨[63, 92], rfl⟩
    exact h (hlong.trans (List.isPrefixOf_iff_prefix.mp hpre))

theorem toUnix_drivePath (root : Bytes) {x : UInt8} (hx : isAlpha x = true) (mixed : Bool) (r : Bytes)
    {size : Nat} (hfits : (root ++ 47 :: toLower x :: belowDrive r).length < size) :
    toUnix root (x :: 58 :: winSep mixed :: r) size =
      .ok (replaceSep root 92 47 ++ 47 :: toLower x :: belowDrive r) := by
  have hlower : toLower x ≠ 92 := ne_backslash_of_isAlpha ((isAlpha_toLower x).trans hx)
  have hstart : ¬ [92, 92] <+: x :: 58 :: winSep mixed :: r := by
    intro hpre
    exact ne_backslash_of_isAlpha hx (List.cons_prefix_cons.mp hpre).1.symm
  obtain ⟨hshare, hlong⟩ := isPrefixOf_backslashes hstart
  have hsep : (winSep mixed :: r).head? = some 92 ∨ (winSep mixed :: r).head? = some 47 := by
    cases mixed <;> simp [winSep]
  unfold toUnix
  rw [hlong, if_neg Bool.false_ne_true]
  simp only [hshare, Bool.false_eq_true, if_false, hx, if_true, hsep, List.tail_cons]
  unfold belowDrive at hfits ⊢
  by_cases hr : r = []
  · rw [if_pos hr] at hfits ⊢
    rw [if_pos hr, printInto_of_lt hfits]
    simp [Functor.map, Except.map, replaceSep_append, replaceSep_cons, hlower]
  · rw [if_neg hr] at hfits ⊢
    rw [if_neg hr, printInto_of_lt (by simpa using hfits)]
    simp [Functor.map, Except.map, replaceSep_append, replaceSep_cons, hlower]

theorem toUnix_share (root : Bytes) {s : Bytes} (hlong : ¬ ascii "?\\" <+: s) {size : Nat}
    (hfits : (root ++ 47 :: (ascii "wsl/" ++ s)).length < size) :
    toUnix root (92 :: 92 :: s) size =
      .ok (replaceSep root 92 47 ++ 47 :: (ascii "wsl/" ++ replaceSep s 92 47)) := by
  have hpre : (ascii "\\\\?\\").isPrefixOf (92 :: 92 :: s) = false := by
    rw [Bool.eq_false_iff]
    intro hpre
    have hsplit : ascii "\\\\?\\" = 92 :: 92 :: ascii "?\\" := rfl
    rw [List.isPrefixOf_iff_prefix, hsplit] at hpre
    exact hlong (List.cons_prefix_cons.mp (List.cons_prefix_cons.mp hpre).2).2
  have htext : root ++ ascii "/wsl/" ++ (92 :: 92 :: s).drop 2 = root ++ 47 :: (ascii "wsl/" ++ s) := by
    rw [List.append_assoc]
    rfl
  unfold toUnix
  rw [hpre, if_neg Bool.false_ne_true]
  have hshare : (ascii "\\\\").isPrefixOf (92 :: 92 :: s) = true := rfl
  dsimp only
  rw [if_pos hshare, htext, printInto_of_lt hfits]
  exact congrArg Except.ok ((replaceSep_append root _ 92 47).trans rfl)

theorem toUnix_plain (root : Bytes) {s : Bytes} (hstart : ¬ [92, 92] <+: s)
    (hletter : ∀ c ∈ s.head?, isAlpha c = false) {size : Nat} (hfits : s.length < size) :
    toUnix root s size = .ok (replaceSep s 92 47) := by
  obtain ⟨hshare, hlong⟩ := isPrefixOf_backslashes hstart
  unfold toUnix
  rw [hlong, if_neg Bool.false_ne_true]
  dsimp only
  rw [hshare, if_neg Bool.false_ne_true]
  split
  · next c after =>
    rw [hletter c rfl, if_neg Bool.false_ne_true, printInto_of_lt hfits]
    rfl
  · rw [printInto_of_lt hfits]
    rfl

/-! ## There and back -/

theorem toUnix_toWindows {root : Bytes} (h : MountRoot root) {p : Bytes} (hp : Convertible root p)
    (habs : p.head? = some 47) (hback : 92 ∉ p) (cwd : Option Bytes) (mixed : Bool) {n m : Nat}
    (hn : p.length < n) (hm : p.length < m) :
    (do let w ← toWindows root cwd p n mixed; toUnix root w m) = .ok p := by
  have htwo := h.two_le
  cases hp with
  | @drive x hx =>
    obtain ⟨hletter, hupper, hlower⟩ := hx.spec
    have hroot : 92 ∉ root := fun hmem => hback (List.mem_append_left _ hmem)
    have hfits : ([] : Bytes).tail.length + 3 < n := by
      simp only [List.length_append, List.length_cons, List.length_nil, List.tail_nil] at hn ⊢
      omega
    have hout := toWindows_drive h.absolute cwd hletter (Or.inl rfl) hfits mixed
    have hdir : (root ++ 47 :: toLower (toUpper x) :: belowDrive []).length < m := by rwa [hlower]
    have hunix := toUnix_drivePath root hupper mixed [] hdir
    rw [hlower, replaceSep_of_not_mem hroot] at hunix
    rw [hout]
    exact hunix
  | @onDrive x hx r hr =>
    obtain ⟨hletter, hupper, hlower⟩ := hx.spec
    have hroot : 92 ∉ root := fun hmem => hback (List.mem_append_left _ hmem)
    have hrest : 92 ∉ r := fun hmem => hback (by simp [hmem])
    have hbelow : belowDrive (replaceSep r 47 (winSep mixed)) = 47 :: r := by
      rw [belowDrive, if_neg (mt replaceSep_eq_nil.mp hr), replaceSep_winSep hrest]
    have hfits : (47 :: r).tail.length + 3 < n := by
      simp only [List.length_append, List.length_cons, List.tail_cons] at hn ⊢
      omega
    have hout := toWindows_drive h.absolute cwd hletter (Or.inr rfl) hfits mixed
    have hdir : (root ++ 47 :: toLower (toUpper x) ::
        belowDrive (replaceSep r 47 (winSep mixed))).length < m := by
      rwa [hlower, hbelow]
    have hunix := toUnix_drivePath root hupper mixed _ hdir
    rw [hlower, hbelow, replaceSep_of_not_mem hroot] at hunix
    rw [hout]
    exact hunix
  | @share s hs hlong =>
    have hroot : 92 ∉ root := fun hmem => hback (List.mem_append_left _ hmem)
    have hrest : 92 ∉ s := fun hmem => hback (by simp [hmem])
    have hshare : ¬ ascii "?\\" <+: replaceSep s 47 (winSep mixed) := fun hpre =>
      hlong (isPrefix_of_replaceSep hrest hpre)
    have hfits : s.length + 2 < n := by
      simp only [List.length_append, List.length_cons] at hn
      omega
    have hout := toWindows_share h.absolute cwd hfits mixed
    have hdir : (root ++ 47 :: (ascii "wsl/" ++ replaceSep s 47 (winSep mixed))).length < m := by
      simpa only [List.length_append, List.length_cons, length_replaceSep] using hm
    have hunix := toUnix_share root hshare hdir
    rw [replaceSep_of_not_mem hroot, replaceSep_winSep hrest] at hunix
    rw [hout]
    exact hunix
  | outside hroot hshare =>
    have hstart : ¬ [92, 92] <+: replaceSep p 47 (winSep mixed) := fun hpre =>
      hshare (isPrefix_of_replaceSep hback hpre)
    have hletter : ∀ c ∈ (replaceSep p 47 (winSep mixed)).head?, isAlpha c = false := by
      obtain ⟨r, rfl⟩ := List.head?_eq_some_iff.mp habs
      intro c hc
      obtain rfl := Option.some.inj hc
      cases mixed <;> rfl
    have hfits : (replaceSep p 47 (winSep mixed)).length < m := by rwa [length_replaceSep]
    have hunix := toUnix_plain root hstart hletter hfits
    rw [replaceSep_winSep hback] at hunix
    rw [toWindows_outside habs hroot, printInto_of_lt hn]
    exact hunix

/-- From the path of a drive and back: the root has to survive `to_unix`. -/
theorem toWindows_toUnix_iff {root : Bytes} (h : MountRoot root) {x : UInt8} (hx : IsUpper x)
    {r : Bytes} (hr : 47 ∉ r) (cwd : Option Bytes) {n m : Nat} (hn : (drivePath x r).length < n)
    (hm : (root ++ 47 :: toLower x :: belowDrive r).length < m) :
    (do let u ← toUnix root (drivePath x r) m; toWindows root cwd u n false) = .ok (drivePath x r) ↔
      92 ∉ root := by
  obtain ⟨hletter, hlower, hupper⟩ := hx.spec
  have hunix : toUnix root (drivePath x r) m =
      .ok (replaceSep root 92 47 ++ 47 :: toLower x :: belowDrive r) :=
    toUnix_drivePath root hletter false r hm
  rw [hunix]
  change toWindows root cwd (replaceSep root 92 47 ++ 47 :: toLower x :: belowDrive r) n false = _ ↔ _
  constructor
  · intro hok hback
    have hhead : (replaceSep root 92 47 ++ 47 :: toLower x :: belowDrive r).head? = some 47 := by
      obtain ⟨t, rfl⟩ := List.head?_eq_some_iff.mp h.absolute
      rfl
    -- the path starts with as many characters as the root has, and none of them is a backslash
    have houtside : ¬ root ++ [47] <+: replaceSep root 92 47 ++ 47 :: toLower x :: belowDrive r := by
      intro hpre
      obtain ⟨t, ht⟩ := (List.prefix_append root [47]).trans hpre
      have hsame : root = replaceSep root 92 47 := (List.append_inj ht (by simp)).1
      exact old_not_mem_replaceSep (by decide) (hsame ▸ hback)
    rw [toWindows_outside hhead houtside] at hok
    have hout := congrArg List.head? (eq_of_printInto hok)
    obtain ⟨t, ht⟩ := List.head?_eq_some_iff.mp hhead
    rw [ht] at hout
    exact ne_backslash_of_isAlpha hletter (Option.some.inj hout)
  · intro hback
    obtain ⟨hbelow, htail⟩ := belowDrive_spec r
    have hfits : (belowDrive r).tail.length + 3 < n := by
      rw [htail, length_replaceSep]
      simpa [drivePath] using hn
    have hwindows := toWindows_drive h.absolute cwd hlower hbelow hfits false
    rw [hupper, htail] at hwindows
    rw [replaceSep_of_not_mem hback, hwindows]
    exact congrArg (fun t => Except.ok (drivePath x t)) (replaceSep_replaceSep hr)

/-- What is converted there and back is the same again: every POSIX path of a known form, and the
paths of drives if and only if the mount root has no backslash. -/
theorem roundTrips {root : Bytes} (h : MountRoot root) :
    (∀ p cwd mixed n m, p.head? = some 47 → 92 ∉ p → Convertible root p → p.length < n →
      p.length < m → (do let w ← toWindows root cwd p n mixed; toUnix root w m) = .ok p) ∧
    ∀ x r cwd n m, IsUpper x → 47 ∉ r → (drivePath x r).length < n →
      (root ++ 47 :: toLower x :: belowDrive r).length < m →
      ((do let u ← toUnix root (drivePath x r) m; toWindows root cwd u n false) =
        .ok (drivePath x r) ↔ 92 ∉ root) := by
  refine ⟨?_, ?_⟩
  · intro p cwd mixed n m habs hback hp hn hm
    exact toUnix_toWindows h hp habs hback cwd mixed hn hm
  · intro x r cwd n m hx hr hn hm
    exact toWindows_toUnix_iff h hx hr cwd hn hm

theorem mountRoot_mnt : MountRoot (ascii "/mnt") where
  absolute := by decide
  notSlash := by decide
  notBackslash := by decide

/-- A share with a directory of one letter, and a path of a drive with two backslashes. -/
theorem roundTrips_mnt :
    (do let w ← toWindows (ascii "/mnt") none (ascii "/mnt/wsl/c/d") 64 true
        toUnix (ascii "/mnt") w 64) = .ok (ascii "/mnt/wsl/c/d") ∧
      (do let u ← toUnix (ascii "/mnt") (drivePath 67 (ascii "\\a")) 64
          toWindows (ascii "/mnt") none u 64 false) = .ok (drivePath 67 (ascii "\\a")) :=
  have hshare : Convertible (ascii "/mnt") (ascii "/mnt/wsl/c/d") :=
    .share (s := ascii "c/d") (by decide) (by decide)
  ⟨(roundTrips mountRoot_mnt).1 _ none true 64 64 rfl (by decide) hshare (by decide) (by decide),
    ((roundTrips mountRoot_mnt).2 67 _ none 64 64 (by decide) (by decide) (by decide)
      (by decide)).mpr (by decide)⟩

def backslashRoot : Bytes := ascii "[automount]\nroot = /a\\b\n"

/-- With this root, the path of a drive does not come back. -/
theorem drivePath_lost :
    MountRoot (readAutomountRoot pathMax (some backslashRoot)) ∧ IsUpper 67 ∧ 47 ∉ ascii "x" ∧
      (do let u ← toUnix (readAutomountRoot pathMax (some backslashRoot)) (drivePath 67 (ascii "x"))
            (2 * pathMax)
          toWindows (readAutomountRoot pathMax (some backslashRoot)) none u (2 * pathMax) false) =
        .ok (ascii "\\a\\b\\c\\x") ∧
      ascii "\\a\\b\\c\\x" ≠ drivePath 67 (ascii "x") := by
  have hroot : readAutomountRoot pathMax (some backslashRoot) = ascii "/a\\b" := by decide
  rw [hroot]
  exact ⟨⟨by decide, by decide, by decide⟩, by decide, by decide, by rfl, by decide⟩

end WslFreeBSD.Paths
