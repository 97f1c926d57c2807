import Mathlib.Data.List.DropRight
import WslFreeBSD.Lib.Bytes

/-!
# Slashes in paths

A path may be spelled with repeated slashes; `collapse` is the spelling with single ones, which is
what the system reports. `withoutTrailingSlash` removes the slashes at the end of a path, but keeps
its first byte.
-/

namespace WslFreeBSD.Lib

/-- A path with every run of slashes replaced by one slash. -/
def collapse : Bytes → Bytes
  | 47 :: 47 :: s => collapse (47 :: s)
  | c :: s => c :: collapse s
  | [] => []

/-- A path without the slashes at its end, down to one byte. -/
def withoutTrailingSlash (path : Bytes) : Bytes :=
  let stripped := path.rdropWhile (· = 47)
  if stripped = [] then path.take 1 else stripped

theorem length_collapse_le (s : Bytes) : (collapse s).length ≤ s.length := by
  fun_induction collapse s with
  | case1 s ih => exact ih.trans (Nat.le_succ _)
  | case2 c s hne ih => exact Nat.succ_le_succ ih
  | case3 => exact le_rfl

theorem collapse_eq_self_of_length {s : Bytes} (h : (collapse s).length = s.length) :
    collapse s = s := by
  fun_induction collapse s with
  | case1 s ih =>
    have hle := length_collapse_le (47 :: s)
    rw [h, List.length_cons] at hle
    exact absurd hle (by simp)
  | case2 c s hne ih => rw [ih (Nat.succ.inj h)]
  | case3 => rfl

theorem collapse_concat {x : UInt8} (hx : x ≠ 47) (s : Bytes) : collapse (s ++ [x]) = collapse s ++ [x] := by
  fun_induction collapse s with
  | case1 s ih => exact ih
  | case2 c s hne ih =>
    have hcons : collapse (c :: (s ++ [x])) = c :: collapse (s ++ [x]) := by
      rw [collapse]
      rintro t rfl ht
      cases s with
      | nil => exact hx (List.cons.inj ht).1
      | cons d s => exact hne s rfl (by rw [(List.cons.inj ht).1])
    rw [List.cons_append, hcons, ih]
    rfl
  | case3 => simp [collapse]

theorem head?_collapse (s : Bytes) : (collapse s).head? = s.head? := by
  fun_induction collapse s with
  | case1 s ih => exact ih
  | case2 c s hne ih => rfl
  | case3 => rfl

theorem collapse_collapse (s : Bytes) : collapse (collapse s) = collapse s := by
  fun_induction collapse s with
  | case1 s ih => exact ih
  | case2 c s hne ih =>
    have hcons : collapse (c :: collapse s) = c :: collapse (collapse s) := by
      rw [collapse]
      rintro t rfl ht
      have hhead := head?_collapse s
      rw [ht] at hhead
      obtain ⟨t', rfl⟩ := List.head?_eq_some_iff.mp hhead.symm
      exact hne t' rfl rfl
    rw [hcons, ih]
  | case3 => rfl

theorem withoutTrailingSlash_ne_nil {path : Bytes} (h : path ≠ []) : withoutTrailingSlash path ≠ [] := by
  unfold withoutTrailingSlash
  dsimp only
  split
  · cases path with
    | nil => exact absurd rfl h
    | cons c path => exact List.cons_ne_nil _ _
  · assumption

theorem withoutTrailingSlash_concat {path : Bytes} (h : path ≠ []) :
    withoutTrailingSlash (path ++ [47]) = withoutTrailingSlash path := by
  unfold withoutTrailingSlash
  dsimp only
  rw [List.rdropWhile_concat_pos _ _ _ (by decide)]
  cases path with
  | nil => exact absurd rfl h
  | cons c path => rfl

theorem withoutTrailingSlash_isPrefix (path : Bytes) : withoutTrailingSlash path <+: path := by
  unfold withoutTrailingSlash
  dsimp only
  split
  · exact List.take_prefix 1 path
  · exact List.rdropWhile_prefix _ _

end WslFreeBSD.Lib
