import Mathlib.Data.List.Nodup
import WslFreeBSD.Paths.Drvfs

/-!
# Volumes

The loop of `drvfs_mount_volumes` over the bitmap, by its lowest set bit. It mounts once for each
set bit (`mountVolumes_eq`), also for the six bits that are no drive letter, and the buffer for the
mount point has room for 255 characters. `mountVolumes_letters_iff` says for which bitmaps and
prefixes the drive letters are mounted below the prefix, and nothing else is.
-/

namespace WslFreeBSD.Paths

open Lib

/-! ## The loop -/

/-- `__builtin_ffs`: the number of the lowest set bit from 1 on, and 0 without one. -/
def builtinFfs (x : BitVec 32) : Nat :=
  match (List.range 32).find? (x.getLsbD ·) with
  | none => 0
  | some i => i + 1

def setBits (x : BitVec 32) : List Nat := (List.range 32).filter (x.getLsbD ·)

theorem setBits_eq_cons {x : BitVec 32} {i : Nat}
    (h : (List.range 32).find? (x.getLsbD ·) = some i) :
    setBits x = i :: setBits (x ^^^ 1#32 <<< i) := by
  obtain ⟨hset, before, after, hrange, hclear⟩ := List.find?_eq_some_iff_append.mp h
  have hi : i < 32 := by
    rw [← List.mem_range, hrange]
    simp
  have hnodup : (before ++ i :: after).Nodup := hrange ▸ List.nodup_range
  have hbefore : i ∉ before := fun hmem =>
    (List.nodup_append.mp hnodup).2.2 i hmem i (by simp) rfl
  have hafter : i ∉ after := (List.nodup_cons.mp (List.nodup_append.mp hnodup).2.1).1
  have hother : ∀ j < 32, j ≠ i → (x ^^^ 1#32 <<< i).getLsbD j = x.getLsbD j := by
    intro j hj hne
    rw [BitVec.getLsbD_xor, ← BitVec.twoPow_eq, BitVec.getLsbD_twoPow]
    simp [Ne.symm hne]
  have hself : (x ^^^ 1#32 <<< i).getLsbD i = false := by
    rw [BitVec.getLsbD_xor, ← BitVec.twoPow_eq, BitVec.getLsbD_twoPow, hset]
    simp [hi]
  have hmem : ∀ j ∈ before ++ after, j < 32 := by
    intro j hj
    rw [← List.mem_range, hrange]
    exact List.mem_append.mpr ((List.mem_append.mp hj).imp_right (List.mem_cons_of_mem i))
  have hnone : ∀ y : BitVec 32, (∀ j ∈ before, y.getLsbD j = false) →
      before.filter (y.getLsbD ·) = [] := fun y hy => List.filter_eq_nil_iff.mpr fun j hj => by simp [hy j hj]
  have hclear' : ∀ j ∈ before, x.getLsbD j = false := fun j hj => by simpa using hclear j hj
  have hclear'' : ∀ j ∈ before, (x ^^^ 1#32 <<< i).getLsbD j = false := fun j hj => by
    rw [hother j (hmem j (List.mem_append_left _ hj)) fun heq => hbefore (heq ▸ hj), hclear' j hj]
  have hrest : after.filter ((x ^^^ 1#32 <<< i).getLsbD ·) = after.filter (x.getLsbD ·) :=
    List.filter_congr fun j hj =>
      hother j (hmem j (List.mem_append_right _ hj)) fun heq => hafter (heq ▸ hj)
  rw [setBits, setBits, hrange, List.filter_append, List.filter_append, hnone x hclear',
    hnone _ hclear'', List.nil_append, List.nil_append, List.filter_cons_of_pos (by simpa using hset),
    List.filter_cons_of_neg (by simpa using hself), hrest]

theorem builtinFfs_eq_succ {x : BitVec 32} {i : Nat} (h : builtinFfs x = i + 1) :
    (List.range 32).find? (x.getLsbD ·) = some i := by
  unfold builtinFfs at h
  split at h
  · cases h
  · next hfind => rw [hfind, Nat.succ.inj h]

theorem builtinFfs_eq_zero {x : BitVec 32} (h : builtinFfs x = 0) : setBits x = [] := by
  unfold builtinFfs at h
  split at h
  · next hfind =>
    rw [setBits, List.filter_eq_nil_iff]
    exact List.find?_eq_none.mp hfind
  · cases h

/-- The loop of `drvfs_mount_volumes`: the sources and targets that it mounts. -/
def mountVolumes (root : Bytes) (remaining : BitVec 32) : List (Bytes × Bytes) :=
  if remaining = 0 then []
  else if builtinFfs remaining = 0 then []
  else
    let index := builtinFfs remaining - 1
    (driveSource index, driveTarget root index) :: mountVolumes root (remaining ^^^ 1#32 <<< index)
termination_by (setBits remaining).length
decreasing_by
  obtain ⟨i, hi⟩ := Nat.exists_eq_succ_of_ne_zero ‹builtinFfs remaining ≠ 0›
  rw [setBits_eq_cons (builtinFfs_eq_succ hi), hi, List.length_cons, Nat.succ_sub_one]
  exact Nat.lt_succ_self _

theorem setBits_zero : setBits 0 = [] := by decide

theorem mountVolumes_eq (root : Bytes) (bitmap : BitVec 32) :
    mountVolumes root bitmap = drvfsMountVolumes bitmap root := by
  change mountVolumes root bitmap =
    (setBits bitmap).map fun index => (driveSource index, driveTarget root index)
  fun_induction mountVolumes root bitmap with
  | case1 => rw [setBits_zero, List.map_nil]
  | case2 remaining _ hnone => rw [builtinFfs_eq_zero hnone, List.map_nil]
  | case3 remaining _ hsome index ih =>
    obtain ⟨i, hi⟩ := Nat.exists_eq_succ_of_ne_zero hsome
    have hindex : index = i := by rw [show index = builtinFfs remaining - 1 from rfl, hi, Nat.succ_sub_one]
    rw [ih, hindex, setBits_eq_cons (builtinFfs_eq_succ hi), List.map_cons]

/-! ## Drive letters -/

def stripped (root : Bytes) : Bytes := (rootOrDefault root).rdropWhile (· = 47)

/-- The source `X:\\` of a drive letter, and its mount point `prefix/x`. -/
def letterMount (root : Bytes) (index : Nat) : Bytes × Bytes :=
  ([UInt8.ofNat (65 + index), 58, 92], stripped root ++ [47, UInt8.ofNat (97 + index)])

/-- The drive letters of the bitmap are mounted below the prefix, each one once and on a mount point
of its own, and nothing else is mounted. -/
def MountsLetters (root : Bytes) (bitmap : BitVec 32) : Prop :=
  (mountVolumes root bitmap).Perm (((List.range 26).filter (bitmap.getLsbD ·)).map (letterMount root)) ∧
    ((mountVolumes root bitmap).map Prod.snd).Nodup

theorem letter_injective {i j : Nat} (hi : i < 32) (hj : j < 32)
    (h : UInt8.ofNat (65 + i) = UInt8.ofNat (65 + j)) : i = j := by
  have hall : ∀ i j : Fin 32, UInt8.ofNat (65 + i) = UInt8.ofNat (65 + j) → i = j := by decide
  exact Fin.mk.inj (hall ⟨i, hi⟩ ⟨j, hj⟩ h)

theorem lower_injective {i j : Nat} (hi : i < 26) (hj : j < 26)
    (h : UInt8.ofNat (97 + i) = UInt8.ofNat (97 + j)) : i = j := by
  have hall : ∀ i j : Fin 26, UInt8.ofNat (97 + i) = UInt8.ofNat (97 + j) → i = j := by decide
  exact Fin.mk.inj (hall ⟨i, hi⟩ ⟨j, hj⟩ h)

theorem length_driveTarget_le (root : Bytes) (index : Nat) : (driveTarget root index).length ≤ 255 :=
  List.length_take_le _ _

theorem driveTarget_eq_of_short {root : Bytes} (hne : stripped root ≠ []) (hlen : (stripped root).length < 254)
    (index : Nat) : driveTarget root index = stripped root ++ [47, UInt8.ofNat (97 + index)] := by
  have hstripped : withoutTrailingSlash (rootOrDefault root) = stripped root := if_neg hne
  rw [driveTarget_eq_of_length (by rw [hstripped]; omega), hstripped, snprintf]
  exact List.take_of_length_le (by simp; omega)

theorem driveTarget_ne {root : Bytes} (h : ¬ (stripped root ≠ [] ∧ (stripped root).length < 254))
    (index : Nat) : driveTarget root index ≠ stripped root ++ [47, UInt8.ofNat (97 + index)] := by
  intro heq
  have hlength := congrArg List.length heq
  simp only [List.length_append, List.length_cons, List.length_nil] at hlength
  have hle := length_driveTarget_le root index
  by_cases hnil : stripped root = []
  · -- the first slash is kept, and another one put behind it
    have hone : withoutTrailingSlash (rootOrDefault root) = (rootOrDefault root).take 1 := if_pos hnil
    have hshort : (withoutTrailingSlash (rootOrDefault root)).length ≤ 1 := by
      rw [hone]
      exact List.length_take_le _ _
    have hne : rootOrDefault root ≠ [] := by
      unfold rootOrDefault
      split
      · decide
      · assumption
    have hpos := List.length_pos_of_ne_nil (withoutTrailingSlash_ne_nil hne)
    rw [driveTarget_eq_of_length (by omega), snprintf, hnil, List.take_of_length_le (by simp; omega),
      List.length_append] at hlength
    simp only [List.length_cons, List.length_nil] at hlength
    omega
  · have hlong : 254 ≤ (stripped root).length := Nat.le_of_not_lt fun hlt => h ⟨hnil, hlt⟩
    omega

/-- No bit of the bitmap is set that names no drive letter; and if a bit is set, the prefix is not
made of slashes only, and has less than 254 characters without those at its end. -/
def LettersFit (root : Bytes) (bitmap : BitVec 32) : Prop :=
  (∀ i, 26 ≤ i → bitmap.getLsbD i = false) ∧
    (bitmap = 0 ∨ stripped root ≠ [] ∧ (stripped root).length < 254)

theorem mem_mountVolumes {root : Bytes} {bitmap : BitVec 32} {i : Nat} (h : bitmap.getLsbD i = true) :
    (driveSource i, driveTarget root i) ∈ mountVolumes root bitmap := by
  rw [mountVolumes_eq]
  have hi : i < 32 := by
    by_contra hge
    rw [BitVec.getLsbD_of_ge _ _ (by omega)] at h
    cases h
  exact List.mem_map.mpr ⟨i, List.mem_filter.mpr ⟨List.mem_range.mpr hi, h⟩, rfl⟩

theorem setBits_eq_letters {bitmap : BitVec 32} (h : ∀ i, 26 ≤ i → bitmap.getLsbD i = false) :
    setBits bitmap = (List.range 26).filter (bitmap.getLsbD ·) := by
  have hrange : List.range 32 = List.range 26 ++ List.range' 26 6 := by decide
  have hhigh : (List.range' 26 6).filter (bitmap.getLsbD ·) = [] := by
    refine List.filter_eq_nil_iff.mpr fun i hi => ?_
    rw [h i (List.mem_range'_1.mp hi).1]
    exact Bool.false_ne_true
  rw [setBits, hrange, List.filter_append, hhigh, List.append_nil]

theorem mountVolumes_letters_iff (root : Bytes) (bitmap : BitVec 32) :
    MountsLetters root bitmap ↔ LettersFit root bitmap := by
  constructor
  · rintro ⟨hperm, -⟩
    have hmount : ∀ i, bitmap.getLsbD i = true →
        i < 26 ∧ driveTarget root i = stripped root ++ [47, UInt8.ofNat (97 + i)] := by
      intro i hbit
      have hi : i < 32 := by
        by_contra hge
        rw [BitVec.getLsbD_of_ge _ _ (by omega)] at hbit
        cases hbit
      obtain ⟨j, hj, heq⟩ := List.mem_map.mp (hperm.mem_iff.mp (mem_mountVolumes hbit))
      have hj26 := List.mem_range.mp (List.mem_filter.mp hj).1
      obtain ⟨hsource, htarget⟩ := Prod.mk.inj heq
      obtain rfl := letter_injective (by omega) hi (List.cons.inj hsource).1
      exact ⟨hj26, htarget.symm⟩
    constructor
    · intro i hi
      rw [← Bool.not_eq_true]
      exact fun hbit => absurd (hmount i hbit).1 (by omega)
    · by_cases hzero : bitmap = 0
      · exact Or.inl hzero
      · right
        by_contra hfit
        obtain ⟨i, hbit⟩ : ∃ i, bitmap.getLsbD i = true := by
          by_contra hnone
          refine hzero (BitVec.eq_of_getLsbD_eq fun i _ => ?_)
          have hclear : (0 : BitVec 32).getLsbD i = false := BitVec.getLsbD_zero
          rw [hclear, ← Bool.not_eq_true]
          exact fun hbit => hnone ⟨i, hbit⟩
        exact driveTarget_ne hfit i (hmount i hbit).2
  · rintro ⟨hhigh, hfit⟩
    have hmounts : mountVolumes root bitmap =
        ((List.range 26).filter (bitmap.getLsbD ·)).map (letterMount root) := by
      rw [mountVolumes_eq]
      change (setBits bitmap).map _ = _
      rw [← setBits_eq_letters hhigh]
      refine List.map_congr_left fun i hi => ?_
      rcases hfit with rfl | ⟨hne, hlen⟩
      · rw [setBits_zero] at hi
        cases hi
      · rw [driveTarget_eq_of_short hne hlen]
        rfl
    refine ⟨hmounts ▸ List.Perm.refl _, ?_⟩
    rw [hmounts, List.map_map]
    refine List.Nodup.map_on (fun i hi j hj heq => ?_) (List.nodup_range.filter _)
    have hlast := List.append_cancel_left heq
    exact lower_injective (List.mem_range.mp (List.mem_filter.mp hi).1)
      (List.mem_range.mp (List.mem_filter.mp hj).1) (List.cons.inj (List.cons.inj hlast).2).1

/-- Bit 26 names no drive letter, and is mounted. -/
theorem mountVolumes_not_letters :
    ¬ ∀ (root : Bytes) (bitmap : BitVec 32), MountsLetters root bitmap := by
  intro h
  have hmem := (h (ascii "/mnt") (1#32 <<< 26)).1.length_eq
  rw [mountVolumes_eq] at hmem
  exact absurd hmem (by decide)

end WslFreeBSD.Paths
