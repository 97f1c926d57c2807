import Mathlib.Data.List.DropRight
import WslFreeBSD.Lib.CText
import WslFreeBSD.Lib.Separated

/-!
# Host names of the reference

`CleanHostname` of `stringshared.h`. What it keeps of the dots and hyphens between two letters or
digits is at most one character (`gapKept`), and depends on whether there is a dot already.
-/

namespace WslFreeBSD.Reference

open Lib

def c_defaultHostName : Bytes := ascii "localhost"

/-- The loop of `CleanHostname` on one character: `result` and `dot`. -/
def cleanStep (st : Bytes × Bool) (e : UInt8) : Bytes × Bool :=
  if e = 46 then
    if st.2 ∨ st.1 = [] ∨ st.1.getLast? = some 45 then st else (st.1 ++ [e], true)
  else if e = 45 then
    if st.1 = [] ∨ st.1.getLast? = some 45 ∨ st.1.getLast? = some 46 then st
    else (st.1 ++ [e], st.2)
  else if isAlnum e then (st.1 ++ [e], st.2)
  else st

/-- `CleanHostname`. -/
def cleanHostname (hostname : Bytes) : Bytes :=
  let result := (hostname.foldl cleanStep ([], false)).1.rdropWhile fun c => c = 46 || c = 45
  if result = [] then c_defaultHostName else result.take 64

/-! ## Steps -/

def isGap (c : UInt8) : Bool := c = 45 || c = 46

theorem isGap_iff {c : UInt8} : isGap c = true ↔ c = 45 ∨ c = 46 := by simp [isGap]

theorem isGap_of_isAlnum {c : UInt8} (h : isAlnum c = true) : isGap c = false := by
  have hall : ∀ c : UInt8, isAlnum c = true → isGap c = false := forall_char (by decide +kernel)
  exact hall c h

theorem cleanStep_skip (st : Bytes × Bool) {c : UInt8} (hword : isAlnum c = false)
    (hgap : isGap c = false) : cleanStep st c = st := by
  rw [isGap, Bool.or_eq_false_iff, decide_eq_false_iff_not, decide_eq_false_iff_not] at hgap
  rw [cleanStep, if_neg hgap.2, if_neg hgap.1, if_neg (by simp [hword])]

theorem cleanStep_word (st : Bytes × Bool) {c : UInt8} (h : isAlnum c = true) :
    cleanStep st c = (st.1 ++ [c], st.2) := by
  have hgap := isGap_of_isAlnum h
  rw [isGap, Bool.or_eq_false_iff, decide_eq_false_iff_not, decide_eq_false_iff_not] at hgap
  rw [cleanStep, if_neg hgap.2, if_neg hgap.1, if_pos h]

theorem foldl_cleanStep_front {gap : Bytes} (h : ∀ c ∈ gap, isGap c = true) (dot : Bool) :
    gap.foldl cleanStep ([], dot) = ([], dot) := by
  induction gap with
  | nil => rfl
  | cons c gap ih =>
    have hstep : cleanStep ([], dot) c = ([], dot) := by
      rcases isGap_iff.mp (h c (by simp)) with rfl | rfl
      · simp [cleanStep]
      · simp [cleanStep]
    rw [List.foldl_cons, hstep, ih fun d hd => h d (List.mem_cons_of_mem _ hd)]

theorem foldl_cleanStep_kept {gap name : Bytes} {c : UInt8} {dot : Bool}
    (h : ∀ d ∈ gap, isGap d = true) (hc : isGap c = true) (hdot : c = 46 → dot = true) :
    gap.foldl cleanStep (name ++ [c], dot) = (name ++ [c], dot) := by
  induction gap with
  | nil => rfl
  | cons d gap ih =>
    have hstep : cleanStep (name ++ [c], dot) d = (name ++ [c], dot) := by
      rcases isGap_iff.mp hc with rfl | rfl
      · rcases isGap_iff.mp (h d (by simp)) with rfl | rfl
        · simp [cleanStep]
        · simp [cleanStep]
      · obtain rfl := hdot rfl
        rcases isGap_iff.mp (h d (by simp)) with rfl | rfl
        · simp [cleanStep]
        · simp [cleanStep]
    rw [List.foldl_cons, hstep, ih fun e he => h e (List.mem_cons_of_mem _ he)]

/-- What is kept of the dots and hyphens behind a letter or digit. -/
def gapKept (dot : Bool) (gap : Bytes) : Bytes := (gap.dropWhile fun c => dot && c = 46).take 1

theorem length_gapKept_le (dot : Bool) (gap : Bytes) : (gapKept dot gap).length ≤ 1 :=
  List.length_take_le 1 _

theorem isGap_of_mem_gapKept {dot : Bool} {gap : Bytes} (h : ∀ c ∈ gap, isGap c = true) :
    ∀ c ∈ gapKept dot gap, isGap c = true := fun c hc =>
  h c ((List.dropWhile_suffix _).mem (List.mem_of_mem_take hc))

theorem foldl_cleanStep_gap {gap name : Bytes} {c : UInt8} (dot : Bool)
    (h : ∀ d ∈ gap, isGap d = true) (hc : isAlnum c = true) :
    gap.foldl cleanStep (name ++ [c], dot) =
      (name ++ [c] ++ gapKept dot gap, dot || decide (46 ∈ gapKept dot gap)) := by
  have hlast : isGap c = false := isGap_of_isAlnum hc
  rw [isGap, Bool.or_eq_false_iff, decide_eq_false_iff_not, decide_eq_false_iff_not] at hlast
  induction gap with
  | nil => simp [gapKept]
  | cons d gap ih =>
    have hgap : ∀ e ∈ gap, isGap e = true := fun e he => h e (List.mem_cons_of_mem _ he)
    rcases isGap_iff.mp (h d (by simp)) with rfl | rfl
    · have hstep : cleanStep (name ++ [c], dot) 45 = (name ++ [c] ++ [45], dot) := by
        simp [cleanStep, hlast]
      rw [List.foldl_cons, hstep, foldl_cleanStep_kept hgap rfl fun h => absurd h (by decide)]
      simp [gapKept]
    · cases dot with
      | true =>
        have hstep : cleanStep (name ++ [c], true) 46 = (name ++ [c], true) := by simp [cleanStep]
        rw [List.foldl_cons, hstep, ih hgap]
        simp [gapKept]
      | false =>
        have hstep : cleanStep (name ++ [c], false) 46 = (name ++ [c] ++ [46], true) := by
          simp [cleanStep, hlast]
        rw [List.foldl_cons, hstep, foldl_cleanStep_kept hgap rfl fun _ => rfl]
        simp [gapKept]

/-- What is kept of letters and digits with their gaps. -/
def partsKept : Bool → List (UInt8 × Bytes) → Bytes
  | _, [] => []
  | dot, (c, gap) :: parts =>
    c :: (gapKept dot gap ++ partsKept (dot || decide (46 ∈ gapKept dot gap)) parts)

theorem foldl_cleanStep_joined {parts : List (UInt8 × Bytes)} (name : Bytes) (dot : Bool)
    (h : ∀ part ∈ parts, isAlnum part.1 = true ∧ ∀ c ∈ part.2, isGap c = true) :
    ((joined parts).foldl cleanStep (name, dot)).1 = name ++ partsKept dot parts := by
  induction parts generalizing name dot with
  | nil => simp [partsKept]
  | cons part parts ih =>
    obtain ⟨c, gap⟩ := part
    obtain ⟨hc, hgap⟩ := h (c, gap) (by simp)
    rw [joined_cons, List.foldl_cons, cleanStep_word _ hc, List.foldl_append,
      foldl_cleanStep_gap dot hgap hc, ih _ _ fun part hpart => h part (List.mem_cons_of_mem _ hpart)]
    simp [partsKept]

/-- `CleanHostname` by letters and digits with their gaps. -/
theorem cleanHostname_eq (hostname : Bytes) :
    cleanHostname hostname =
      if (separated isAlnum isGap hostname).2 = [] then c_defaultHostName
      else ((partsKept false (separated isAlnum isGap hostname).2).rdropWhile isGap).take 64 := by
  have hparts := parts_separated isAlnum isGap hostname
  have hfront := gap_of_mem_separated isAlnum isGap hostname
  have hgap : (fun c : UInt8 => decide (c = 46) || decide (c = 45)) = isGap := by
    funext c
    exact Bool.or_comm _ _
  have hskip : ∀ (st : Bytes × Bool) (c : UInt8), isAlnum c = false → isGap c = false →
      cleanStep st c = st := fun st c hword hgap => cleanStep_skip st hword hgap
  rw [cleanHostname, foldl_separated hskip, List.foldl_append,
    foldl_cleanStep_front hfront, foldl_cleanStep_joined _ _ hparts, List.nil_append, hgap]
  cases hsplit : (separated isAlnum isGap hostname).2 with
  | nil => rfl
  | cons part parts =>
    have hword := (hparts part (by simp [hsplit])).1
    have hkept : (partsKept false (part :: parts)).rdropWhile isGap ≠ [] := by
      intro hnil
      have := List.rdropWhile_eq_nil_iff.mp hnil part.1 (by simp [partsKept])
      rw [isGap_of_isAlnum hword] at this
      cases this
    rw [if_neg (List.cons_ne_nil part parts)]
    exact if_neg hkept

end WslFreeBSD.Reference
