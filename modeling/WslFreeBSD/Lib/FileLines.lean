import Mathlib.Data.List.TakeWhile
import WslFreeBSD.Lib.CText
import WslFreeBSD.Lib.Lines

/-!
# Files made of lines

The lines of a file end with a line break each; the last one may lack it. What is written line by line is
read back as the same lines (`fileLines_unlines`). The tokens of a list with separators hold all of its
characters but the separators (`flatten_tokens`).
-/

namespace WslFreeBSD.Lib

def fileLines (text : Bytes) : List Bytes :=
  if (lines text).getLast? = some [] then (lines text).dropLast else lines text

def unlines (ls : List Bytes) : Bytes := ls.flatMap (· ++ [10])

theorem unlines_append (ls ls' : List Bytes) : unlines (ls ++ ls') = unlines ls ++ unlines ls' :=
  List.flatMap_append

theorem unlines_cons (l : Bytes) (ls : List Bytes) : unlines (l :: ls) = l ++ 10 :: unlines ls := by
  rw [unlines, List.flatMap_cons, List.append_assoc]
  rfl

theorem lines_ne_nil (text : Bytes) : lines text ≠ [] := List.splitOnP_ne_nil _ text

theorem fileLines_append_break {l : Bytes} (h : 10 ∉ l) (text : Bytes) :
    fileLines (l ++ 10 :: text) = l :: fileLines text := by
  obtain ⟨first, rest, hlines⟩ := List.exists_cons_of_ne_nil (lines_ne_nil text)
  unfold fileLines
  rw [lines_append_break h, hlines, List.getLast?_cons_cons, List.dropLast_cons_cons]
  split <;> rfl

theorem fileLines_nil : fileLines [] = [] := by simp [fileLines]

theorem fileLines_unlines {ls : List Bytes} (h : ∀ l ∈ ls, 10 ∉ l) : fileLines (unlines ls) = ls := by
  induction ls with
  | nil => exact fileLines_nil
  | cons l ls ih =>
    rw [unlines_cons, fileLines_append_break (h l List.mem_cons_self),
      ih fun l' hl' => h l' (List.mem_cons_of_mem _ hl')]

theorem lines_of_no_break {l : Bytes} (h : 10 ∉ l) : lines l = [l] := by
  induction l with
  | nil => exact lines_nil
  | cons c l ih =>
    obtain ⟨hc, hl⟩ := not_or.mp (mt List.mem_cons.mpr h)
    obtain ⟨first, rest, hfirst, hcons⟩ := lines_cons (Ne.symm hc) l
    rw [ih hl] at hfirst
    obtain ⟨rfl, rfl⟩ := List.cons.inj hfirst
    exact hcons

theorem fileLines_of_no_break {l : Bytes} (h : 10 ∉ l) (hne : l ≠ []) : fileLines l = [l] := by
  unfold fileLines
  rw [lines_of_no_break h]
  exact if_neg fun heq => hne (Option.some.inj heq)

theorem fileLines_eq_cons {text : Bytes} (h : text ≠ []) :
    ∃ rest, fileLines text = text.takeWhile (· ≠ 10) :: rest := by
  by_cases hbreak : 10 ∈ text
  · obtain ⟨behind, hbehind⟩ : ∃ behind, text.dropWhile (· ≠ 10) = 10 :: behind := by
      have hne : text.dropWhile (· ≠ 10) ≠ [] := by
        rw [ne_eq, List.dropWhile_eq_nil_iff]
        exact fun hall => absurd rfl (of_decide_eq_true (hall 10 hbreak))
      obtain ⟨c, behind, hc⟩ := List.exists_cons_of_ne_nil hne
      have hhead := List.head?_dropWhile_not (fun b : UInt8 => b ≠ 10) text
      rw [hc] at hhead
      obtain rfl : c = 10 := by simpa using hhead
      exact ⟨behind, hc⟩
    have hsplit : text = text.takeWhile (· ≠ 10) ++ 10 :: behind := by
      rw [← hbehind]
      exact List.takeWhile_append_dropWhile.symm
    have hfirst : 10 ∉ text.takeWhile (· ≠ 10) := by
      intro hmem
      have hne := List.mem_takeWhile_imp hmem
      exact absurd hne (by decide)
    refine ⟨fileLines behind, ?_⟩
    conv_lhs => rw [hsplit]
    exact fileLines_append_break hfirst behind
  · have hall : text.takeWhile (· ≠ 10) = text :=
      List.takeWhile_eq_self_iff.mpr fun c hc => decide_eq_true fun heq => hbreak (heq ▸ hc)
    exact ⟨[], by rw [hall, fileLines_of_no_break hbreak h]⟩

/-! ## Tokens -/

theorem flatten_filter_ne_nil (ls : List Bytes) : (ls.filter (· ≠ [])).flatten = ls.flatten := by
  induction ls with
  | nil => rfl
  | cons l ls ih =>
    by_cases hl : l = []
    · subst hl
      rw [List.filter_cons_of_neg (by simp), ih]
      rfl
    · rw [List.filter_cons_of_pos (by simpa using hl), List.flatten_cons, ih, List.flatten_cons]

theorem flatten_splitOnP (p : UInt8 → Bool) (s : Bytes) :
    (s.splitOnP p).flatten = s.filter (!p ·) := by
  induction s with
  | nil => simp
  | cons c s ih =>
    rw [List.splitOnP_cons_eq_if_modifyHead]
    split
    · rename_i hc
      rw [List.filter_cons_of_neg (by simp [hc]), ← ih]
      rfl
    · rename_i hc
      rw [List.filter_cons_of_pos (by simpa using hc), ← ih]
      obtain ⟨first, rest, hsplit⟩ := List.exists_cons_of_ne_nil (List.splitOnP_ne_nil p s)
      rw [hsplit]
      rfl

theorem mem_of_mem_splitOnP {p : UInt8 → Bool} {s piece : Bytes} (h : piece ∈ s.splitOnP p) {c : UInt8}
    (hc : c ∈ piece) : c ∈ s ∧ p c = false := by
  have hmem := List.mem_flatten_of_mem h hc
  rw [flatten_splitOnP] at hmem
  obtain ⟨hs, hp⟩ := List.mem_filter.mp hmem
  exact ⟨hs, by simpa using hp⟩

theorem flatten_tokens (isDelim : UInt8 → Bool) (s : Bytes) :
    (tokens isDelim s).flatten = s.filter (!isDelim ·) := by
  rw [tokens, flatten_filter_ne_nil, flatten_splitOnP]

theorem ne_nil_of_mem_tokens {isDelim : UInt8 → Bool} {s t : Bytes} (h : t ∈ tokens isDelim s) :
    t ≠ [] := of_decide_eq_true (List.mem_filter.mp h).2

theorem mem_of_mem_tokens {isDelim : UInt8 → Bool} {s t : Bytes} (h : t ∈ tokens isDelim s) {c : UInt8}
    (hc : c ∈ t) : c ∈ s := by
  have hmem : c ∈ (tokens isDelim s).flatten := List.mem_flatten_of_mem h hc
  rw [flatten_tokens] at hmem
  exact List.mem_of_mem_filter hmem

theorem tokens_eq_nil_iff {isDelim : UInt8 → Bool} {s : Bytes} :
    tokens isDelim s = [] ↔ ∀ c ∈ s, isDelim c = true := by
  have hflat := flatten_tokens isDelim s
  constructor
  · intro h c hc
    rw [h] at hflat
    by_contra hdelim
    have hmem : c ∈ s.filter (!isDelim ·) := List.mem_filter.mpr ⟨hc, by simpa using hdelim⟩
    rw [← hflat] at hmem
    exact absurd hmem List.not_mem_nil
  · intro h
    refine List.eq_nil_iff_forall_not_mem.mpr fun t ht => ?_
    obtain ⟨c, u, rfl⟩ := List.exists_cons_of_ne_nil (ne_nil_of_mem_tokens ht)
    have hmem : c ∈ s.filter (!isDelim ·) := hflat ▸ List.mem_flatten_of_mem ht List.mem_cons_self
    have hnot := (List.mem_filter.mp hmem).2
    rw [h c (List.mem_filter.mp hmem).1] at hnot
    cases hnot

end WslFreeBSD.Lib
