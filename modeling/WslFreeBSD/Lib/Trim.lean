import Mathlib.Data.List.DropRight

/-!
# Trimming lists

`trim p q` drops elements with `p` at the front and elements with `q` at the back of a list. What
stands behind the last element without `q` does not matter, and a cut at an element that neither
predicate drops can be made before or after.
-/

namespace WslFreeBSD.Lib

variable {α : Type*} {p q r : α → Bool} {s t : List α} {c : α}

def trim (p q : α → Bool) (s : List α) : List α := (s.dropWhile p).rdropWhile q

theorem rdropWhile_append_of_all (s : List α) (h : ∀ c ∈ t, q c = true) :
    (s ++ t).rdropWhile q = s.rdropWhile q := by
  induction t using List.reverseRecOn with
  | nil => rw [List.append_nil]
  | append_singleton t c ih =>
    rw [← List.append_assoc, List.rdropWhile_concat_pos _ _ _ (h c (by simp))]
    exact ih fun d hd => h d (List.mem_append_left _ hd)

theorem rdropWhile_append_cons (s t : List α) (h : q c = false) :
    (s ++ c :: t).rdropWhile q = s ++ c :: t.rdropWhile q := by
  induction t using List.reverseRecOn with
  | nil =>
    rw [List.rdropWhile_nil]
    exact List.rdropWhile_concat_neg _ _ _ (by simp [h])
  | append_singleton t d ih =>
    have hsplit : s ++ c :: (t ++ [d]) = (s ++ c :: t) ++ [d] := by simp
    rw [hsplit, List.rdropWhile_concat, List.rdropWhile_concat, ih]
    split
    · rfl
    · simp

theorem rdropWhile_eq_self_of_last (h : ∀ c ∈ s.getLast?, q c = false) : s.rdropWhile q = s := by
  rw [List.rdropWhile_eq_self_iff]
  intro hne
  rw [h _ (List.getLast?_eq_getLast_of_ne_nil hne)]
  exact Bool.false_ne_true

theorem rdropWhile_congr (h : ∀ c ∈ s, p c = q c) : s.rdropWhile p = s.rdropWhile q := by
  induction s using List.reverseRecOn with
  | nil => rfl
  | append_singleton s c ih =>
    rw [List.rdropWhile_concat, List.rdropWhile_concat, h c (by simp)]
    rw [ih fun d hd => h d (List.mem_append_left _ hd)]

theorem dropWhile_append_cons (s t : List α) (h : p c = false) :
    (s ++ c :: t).dropWhile p = s.dropWhile p ++ c :: t := by
  induction s with
  | nil => simp [h]
  | cons d s ih =>
    rw [List.cons_append, List.dropWhile_cons, List.dropWhile_cons, ih]
    split <;> rfl

theorem trim_append_left (h : ∀ c ∈ s, p c = true) (t : List α) : trim p q (s ++ t) = trim p q t := by
  rw [trim, List.dropWhile_append_of_pos h, trim]

theorem trim_append_right (s : List α) (h : ∀ c ∈ t, q c = true) :
    trim p q (s ++ t) = trim p q s := by
  rw [trim, List.dropWhile_append]
  split
  · next hall =>
    rw [trim, List.isEmpty_iff.mp hall, List.rdropWhile_nil, List.rdropWhile_eq_nil_iff]
    intro c hc
    exact h c ((List.dropWhile_suffix p).mem hc)
  · rw [rdropWhile_append_of_all _ h, trim]

theorem trim_append_cons (hs : ∀ c ∈ s, p c = true) (hp : p c = false) (hq : q c = false)
    (t : List α) : trim p q (s ++ c :: t) = c :: t.rdropWhile q := by
  have hcons : (c :: t).rdropWhile q = [] ++ c :: t.rdropWhile q := rdropWhile_append_cons [] t hq
  rw [trim_append_left hs, trim, List.dropWhile_cons_of_neg (by simp [hp]), hcons, List.nil_append]

theorem trim_rdropWhile (p q : α → Bool) (s : List α) :
    trim p q (s.rdropWhile q) = trim p q s := by
  have hrest : ∀ c ∈ s.rtakeWhile q, q c = true := fun c hc => List.mem_rtakeWhile_imp hc
  conv_rhs => rw [← List.rdropWhile_append_rtakeWhile (p := q) (l := s)]
  exact (trim_append_right _ hrest).symm

theorem takeWhile_dropWhile_comm (hpr : ∀ c, p c = true → r c = true) (s : List α) :
    (s.dropWhile p).takeWhile r = (s.takeWhile r).dropWhile p := by
  induction s with
  | nil => rfl
  | cons c s ih =>
    by_cases hp : p c = true
    · rw [List.dropWhile_cons_of_pos hp, List.takeWhile_cons_of_pos (hpr c hp),
        List.dropWhile_cons_of_pos hp, ih]
    · rw [List.dropWhile_cons_of_neg hp]
      by_cases hr : r c = true
      · rw [List.takeWhile_cons_of_pos hr, List.dropWhile_cons_of_neg hp]
      · rw [List.takeWhile_cons_of_neg hr]
        rfl

theorem takeWhile_rdropWhile (hqr : ∀ c, q c = true → r c = true) (s : List α) :
    (s.rdropWhile q).takeWhile r = s.takeWhile r ∨ (s.rdropWhile q).takeWhile r = s.rdropWhile q ∧
      s.takeWhile r = s := by
  by_cases hall : ∀ c ∈ s, r c = true
  · right
    exact ⟨List.takeWhile_eq_self_iff.mpr fun c hc => hall c ((List.rdropWhile_prefix q s).mem hc),
      List.takeWhile_eq_self_iff.mpr hall⟩
  · left
    push Not at hall
    obtain ⟨c, hc, hr⟩ := hall
    have hq : q c = false := by
      by_contra hq
      exact hr (hqr c (by simpa using hq))
    obtain ⟨a, b, rfl⟩ := List.append_of_mem hc
    rw [rdropWhile_append_cons a b hq, List.takeWhile_append, List.takeWhile_append,
      List.takeWhile_cons_of_neg hr, List.takeWhile_cons_of_neg hr]

theorem trim_takeWhile_trim (hpq : ∀ c, p c = true → q c = true)
    (hqr : ∀ c, q c = true → r c = true) (s : List α) :
    trim p q ((trim p q s).takeWhile r) = trim p q (s.takeWhile r) := by
  have hswap : (s.dropWhile p).takeWhile r = (s.takeWhile r).dropWhile p :=
    takeWhile_dropWhile_comm (fun c hc => hqr c (hpq c hc)) s
  have hidem : trim p q ((s.takeWhile r).dropWhile p) = trim p q (s.takeWhile r) := by
    rw [trim, List.dropWhile_idempotent, trim]
  rcases takeWhile_rdropWhile hqr (s.dropWhile p) with heq | ⟨heq, hself⟩
  · rw [trim.eq_def p q s, heq, hswap, hidem]
  · rw [trim.eq_def p q s, heq, trim_rdropWhile, ← hidem, ← hswap, hself]

theorem mem_of_mem_trim (h : c ∈ trim p q s) : c ∈ s :=
  (List.dropWhile_suffix p).mem ((List.rdropWhile_prefix q _).mem h)

end WslFreeBSD.Lib
