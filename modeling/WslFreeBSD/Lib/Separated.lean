import WslFreeBSD.Lib.Trim

/-!
# Words and gaps

A list is read as elements that are words and elements that are gaps, and everything else is
passed over. `separated` gives each word with the gap behind it, and `foldl_separated` reads a fold
that passes over everything else as a fold over them. What two texts with different gaps become is
different as well, also when both are cut (`rdropWhile_take_ne`).
-/

namespace WslFreeBSD.Lib

variable {α β : Type*}

/-- The gap in front, and each word with the gap behind it. -/
def separated (word gap : α → Bool) : List α → List α × List (α × List α)
  | [] => ([], [])
  | c :: s =>
    let rest := separated word gap s
    if word c then ([], (c, rest.1) :: rest.2)
    else if gap c then (c :: rest.1, rest.2)
    else rest

def joined (parts : List (α × List α)) : List α := parts.flatMap fun part => part.1 :: part.2

@[simp] theorem joined_nil : joined ([] : List (α × List α)) = [] := rfl

@[simp] theorem joined_cons (c : α) (gap : List α) (parts : List (α × List α)) :
    joined ((c, gap) :: parts) = c :: (gap ++ joined parts) := rfl

variable {word gap : α → Bool}

theorem foldl_separated {step : β → α → β}
    (hskip : ∀ st c, word c = false → gap c = false → step st c = st) (s : List α) (st : β) :
    s.foldl step st =
      ((separated word gap s).1 ++ joined (separated word gap s).2).foldl step st := by
  induction s generalizing st with
  | nil => rfl
  | cons c s ih =>
    rw [List.foldl_cons, ih, separated]
    split
    · rfl
    · next hword =>
      split
      · rfl
      · next hgap => rw [hskip st c (by simpa using hword) (by simpa using hgap)]

theorem gap_of_mem_separated (word gap : α → Bool) (s : List α) :
    ∀ c ∈ (separated word gap s).1, gap c = true := by
  induction s with
  | nil => exact List.forall_mem_nil _
  | cons c s ih =>
    rw [separated]
    split
    · exact List.forall_mem_nil _
    · split
      · next hgap => exact List.forall_mem_cons.mpr ⟨hgap, ih⟩
      · exact ih

theorem parts_separated (word gap : α → Bool) (s : List α) :
    ∀ part ∈ (separated word gap s).2, word part.1 = true ∧ ∀ c ∈ part.2, gap c = true := by
  induction s with
  | nil => exact List.forall_mem_nil _
  | cons c s ih =>
    rw [separated]
    split
    · next hword => exact List.forall_mem_cons.mpr ⟨⟨hword, gap_of_mem_separated word gap s⟩, ih⟩
    · split
      · exact ih
      · exact ih

/-- Two gaps before one word can be told apart, when the first text is cut before it is trimmed and
the second one trimmed before it is cut, and the second gap is one element at most. -/
theorem rdropWhile_take_ne {m : Nat} {c : α} {x y n r : List α} (hm : 0 < m) (hc : gap c = false)
    (hn : ∀ d ∈ n, gap d = true) (hr : ∀ d ∈ r, gap d = true) (hshort : r.length ≤ 1) (hne : n ≠ r) :
    ((n ++ c :: x).take m).rdropWhile gap ≠ (r ++ c :: y).take m := by
  intro heq
  have hlast : ∀ d, ((r ++ c :: y).take m).getLast? = some d → gap d = false := by
    intro d hd
    rw [← heq] at hd
    have hnil : ((n ++ c :: x).take m).rdropWhile gap ≠ [] := by
      intro hnil
      rw [hnil] at hd
      cases hd
    rw [List.getLast?_eq_getLast_of_ne_nil hnil, Option.some_inj] at hd
    rw [← hd]
    simpa using List.rdropWhile_last_not gap _ hnil
  have hget : ∀ (i : Nat) (d : α), ((r ++ c :: y).take m)[i]? = some d →
      ((n ++ c :: x).take m)[i]? = some d := by
    intro i d hd
    rw [← heq] at hd
    obtain ⟨rest, hrest⟩ := List.rdropWhile_prefix gap ((n ++ c :: x).take m)
    rw [← hrest]
    rw [List.getElem?_append_left (List.getElem?_eq_some_iff.mp hd).1, hd]
  rcases r with _ | ⟨z, r⟩
  · rcases n with _ | ⟨d, n⟩
    · exact hne rfl
    · have hhead := hget 0 c (by simp [hm])
      rw [List.getElem?_take_of_lt hm] at hhead
      simp only [List.cons_append, List.getElem?_cons_zero, Option.some_inj] at hhead
      have := hn d (by simp)
      rw [hhead, hc] at this
      cases this
  · obtain rfl : r = [] := List.length_eq_zero_iff.mp (by simpa using hshort)
    have hz := hr z (by simp)
    rcases Nat.lt_or_ge 1 m with hlong | hone
    · have h0 := hget 0 z (by simp [hm])
      have h1 := hget 1 c (by simp [hlong])
      rw [List.getElem?_take_of_lt hm] at h0
      rw [List.getElem?_take_of_lt hlong] at h1
      rcases n with _ | ⟨w, _ | ⟨v, n⟩⟩
      · simp only [List.nil_append, List.getElem?_cons_zero, Option.some_inj] at h0
        rw [h0, hz] at hc
        cases hc
      · simp only [List.cons_append, List.getElem?_cons_zero, Option.some_inj] at h0
        exact hne (by rw [h0])
      · simp only [List.cons_append, List.getElem?_cons_succ, List.getElem?_cons_zero,
          Option.some_inj] at h1
        have := hn v (by simp)
        rw [h1, hc] at this
        cases this
    · have hm1 : m = 1 := by omega
      have := hlast z (by simp [hm1])
      rw [hz] at this
      cases this

end WslFreeBSD.Lib
