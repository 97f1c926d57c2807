import Mathlib.Data.List.Nodup

/-!
# Bringing a list to a wanted one

Elements are told apart by a key. A list is brought to a wanted one in two passes: what is not wanted is taken
out (`retained`, `dropped`), and then what is not there yet is put behind it, each key once (`fresh`). The list
that results has every wanted key exactly once (`nodup_reconcile`, `mem_reconcile`), and an observer of what
was taken out and put in sees every difference exactly once (`countP_dropped`, `countP_fresh`).
-/

namespace WslFreeBSD.Lib

variable {α κ : Type*} [DecidableEq κ] (key : α → κ)

def retained (wanted : List κ) (l : List α) : List α := l.filter fun a => key a ∈ wanted

def dropped (wanted : List κ) (l : List α) : List α := l.filter fun a => key a ∉ wanted

/-- The elements whose key is not among those that are there already, the first one for each key. -/
def fresh : List κ → List α → List α
  | _, [] => []
  | present, a :: l =>
    if key a ∈ present then fresh present l else a :: fresh (present ++ [key a]) l

/-- The list `old` brought to `wanted`. -/
def reconcile (old wanted : List α) : List α :=
  retained key (wanted.map key) old ++ fresh key ((retained key (wanted.map key) old).map key) wanted

section Filter

variable {wanted : List κ} {a : α} (l : List α)

theorem retained_cons_of_mem (h : key a ∈ wanted) : retained key wanted (a :: l) = a :: retained key wanted l :=
  List.filter_cons_of_pos (decide_eq_true h)

theorem retained_cons_of_not_mem (h : key a ∉ wanted) : retained key wanted (a :: l) = retained key wanted l :=
  List.filter_cons_of_neg (by simpa using h)

theorem dropped_cons_of_mem (h : key a ∈ wanted) : dropped key wanted (a :: l) = dropped key wanted l :=
  List.filter_cons_of_neg (by simpa using h)

theorem dropped_cons_of_not_mem (h : key a ∉ wanted) :
    dropped key wanted (a :: l) = a :: dropped key wanted l :=
  List.filter_cons_of_pos (decide_eq_true h)

end Filter

theorem mem_map_fresh {k : κ} (present : List κ) (l : List α) :
    k ∈ (fresh key present l).map key ↔ k ∈ l.map key ∧ k ∉ present := by
  induction l generalizing present with
  | nil => simp [fresh]
  | cons a l ih =>
    rw [fresh, List.map_cons, List.mem_cons]
    by_cases ha : key a ∈ present
    · rw [if_pos ha, ih]
      constructor
      · rintro ⟨hk, hnew⟩
        exact ⟨Or.inr hk, hnew⟩
      · rintro ⟨rfl | hk, hnew⟩
        · exact absurd ha hnew
        · exact ⟨hk, hnew⟩
    · rw [if_neg ha, List.map_cons, List.mem_cons, ih, List.mem_append, List.mem_singleton]
      by_cases hk : k = key a
      · subst hk
        exact iff_of_true (Or.inl rfl) ⟨Or.inl rfl, ha⟩
      · simp [hk]

theorem nodup_append_fresh {present : List κ} (h : present.Nodup) (l : List α) :
    (present ++ (fresh key present l).map key).Nodup := by
  induction l generalizing present with
  | nil =>
    rw [fresh, List.map_nil, List.append_nil]
    exact h
  | cons a l ih =>
    rw [fresh]
    by_cases ha : key a ∈ present
    · rw [if_pos ha]
      exact ih h
    · rw [if_neg ha, List.map_cons, List.append_cons]
      refine ih (List.nodup_append.mpr ⟨h, List.nodup_singleton _, ?_⟩)
      intro k hk k' hk' heq
      rw [List.mem_singleton.mp hk'] at heq
      exact ha (heq ▸ hk)

theorem mem_map_retained {k : κ} (wanted : List κ) (l : List α) :
    k ∈ (retained key wanted l).map key ↔ k ∈ l.map key ∧ k ∈ wanted := by
  simp only [retained, List.mem_map, List.mem_filter, decide_eq_true_eq]
  constructor
  · rintro ⟨a, ⟨ha, hwanted⟩, rfl⟩
    exact ⟨⟨a, ha, rfl⟩, hwanted⟩
  · rintro ⟨⟨a, ha, rfl⟩, hwanted⟩
    exact ⟨a, ⟨ha, hwanted⟩, rfl⟩

theorem mem_map_dropped {k : κ} (wanted : List κ) (l : List α) :
    k ∈ (dropped key wanted l).map key ↔ k ∈ l.map key ∧ k ∉ wanted := by
  simp only [dropped, List.mem_map, List.mem_filter, decide_eq_true_eq]
  constructor
  · rintro ⟨a, ⟨ha, hwanted⟩, rfl⟩
    exact ⟨⟨a, ha, rfl⟩, hwanted⟩
  · rintro ⟨⟨a, ha, rfl⟩, hwanted⟩
    exact ⟨a, ⟨ha, hwanted⟩, rfl⟩

theorem nodup_retained {old : List α} (h : (old.map key).Nodup) (wanted : List κ) :
    ((retained key wanted old).map key).Nodup :=
  h.sublist (List.filter_sublist.map key)

theorem nodup_dropped {old : List α} (h : (old.map key).Nodup) (wanted : List κ) :
    ((dropped key wanted old).map key).Nodup :=
  h.sublist (List.filter_sublist.map key)

theorem nodup_reconcile {old : List α} (h : (old.map key).Nodup) (wanted : List α) :
    ((reconcile key old wanted).map key).Nodup := by
  rw [reconcile, List.map_append]
  exact nodup_append_fresh key (nodup_retained key h _) wanted

theorem mem_reconcile {k : κ} (old wanted : List α) :
    k ∈ (reconcile key old wanted).map key ↔ k ∈ wanted.map key := by
  rw [reconcile, List.map_append, List.mem_append, mem_map_fresh, mem_map_retained]
  constructor
  · rintro (⟨-, hwanted⟩ | ⟨hwanted, -⟩)
    · exact hwanted
    · exact hwanted
  · intro hwanted
    by_cases hold : k ∈ old.map key
    · exact Or.inl ⟨hold, hwanted⟩
    · exact Or.inr ⟨hwanted, fun h => hold h.1⟩

theorem countP_of_nodup {l : List α} (h : (l.map key).Nodup) (k : κ) :
    l.countP (fun a => key a = k) = if k ∈ l.map key then 1 else 0 := by
  rw [← h.count, List.count, List.countP_map]
  rfl

theorem countP_fresh {old : List α} (h : (old.map key).Nodup) (wanted : List α) (k : κ) :
    (fresh key ((retained key (wanted.map key) old).map key) wanted).countP (fun a => key a = k) =
      if k ∈ wanted.map key ∧ k ∉ old.map key then 1 else 0 := by
  have hnodup := nodup_append_fresh key (nodup_retained key h (wanted.map key)) wanted
  rw [countP_of_nodup key (List.nodup_append.mp hnodup).2.1]
  refine if_congr ?_ rfl rfl
  rw [mem_map_fresh, mem_map_retained]
  exact and_congr_right fun hwanted => not_congr (and_iff_left hwanted)

theorem countP_dropped {old : List α} (h : (old.map key).Nodup) (wanted : List κ) (k : κ) :
    (dropped key wanted old).countP (fun a => key a = k) =
      if k ∈ old.map key ∧ k ∉ wanted then 1 else 0 := by
  rw [countP_of_nodup key (nodup_dropped key h wanted)]
  exact if_congr (mem_map_dropped key wanted old) rfl rfl

end WslFreeBSD.Lib
