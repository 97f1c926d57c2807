import Mathlib.Data.List.Infix
import Mathlib.Tactic.Ring

/-!
# Scans by pages

A list is read page by page: each request drops as many items as its offset says and returns some of the
items behind them that are kept, in their order. The next offset is the old one and the number of items
that were returned, modulo `M`; an empty page ends the scan.

The offset counts items that are kept, but drops items of both kinds. What a scan returns is therefore
right exactly if no item that is kept stands behind one that is not, and their number is below `M`
(`Scan.settled`, `exists_scan`).
-/

namespace WslFreeBSD.Lib.Paging

variable {α : Type} {keep : α → Bool} {l : List α}

/-- A page has kept items of the list, from the first one on, and is empty only if there are none. -/
structure Pager (keep : α → Bool) (l : List α) (page : Nat → Nat → List α) : Prop where
  isPrefix : ∀ k o, page k o <+: (l.drop o).filter keep
  stops : ∀ k o, page k o = [] → (l.drop o).filter keep = []

/-- The pages from the `k`-th request on, which starts at an offset. -/
inductive Scan (M : Nat) (page : Nat → Nat → List α) : Nat → Nat → List (List α) → Prop where
  | done {k o : Nat} (h : page k o = []) : Scan M page k o []
  | page {k o : Nat} {pages : List (List α)} (h : page k o ≠ [])
      (rest : Scan M page (k + 1) ((o + (page k o).length) % M) pages) :
      Scan M page k o (page k o :: pages)

/-- No item that is kept stands behind one that is not. -/
def Settled (keep : α → Bool) (l : List α) : Prop := l.Pairwise fun a b => keep b = true → keep a = true

/-! ## Items behind an offset -/

theorem countP_drop_antitone (keep : α → Bool) (l : List α) {o o' : Nat} (h : o ≤ o') :
    (l.drop o').countP keep ≤ (l.drop o).countP keep := by
  rw [← Nat.sub_add_cancel h, Nat.add_comm, ← List.drop_drop]
  exact (List.drop_sublist _ _).countP_le

theorem countP_take_add_drop (keep : α → Bool) (l : List α) (n : Nat) :
    (l.take n).countP keep + (l.drop n).countP keep = l.countP keep := by
  rw [← List.countP_append, List.take_append_drop]

theorem countP_drop_le_add (keep : α → Bool) (l : List α) (o n : Nat) :
    (l.drop o).countP keep ≤ n + (l.drop (o + n)).countP keep := by
  have hsplit := countP_take_add_drop keep (l.drop o) n
  have hle : ((l.drop o).take n).countP keep ≤ n := List.countP_le_length.trans (List.length_take_le _ _)
  rw [List.drop_drop] at hsplit
  omega

theorem settled_of_countP_drop {n : Nat} (h : n + (l.drop n).countP keep ≤ l.countP keep)
    (hrest : Settled keep (l.drop n)) : Settled keep l := by
  have hsplit := countP_take_add_drop keep l n
  have hall : ∀ a ∈ l.take n, keep a = true := by
    refine List.countP_eq_length.mp (Nat.le_antisymm List.countP_le_length ?_)
    have := List.length_take_le n l
    omega
  rw [← List.take_append_drop n l]
  refine List.pairwise_append.mpr ⟨?_, hrest, fun a ha b _ _ => hall a ha⟩
  exact List.pairwise_of_forall_mem_list fun a ha b _ _ => hall a ha

theorem settled_of_filter_eq_nil (h : l.filter keep = []) : Settled keep l := by
  refine List.pairwise_of_forall_mem_list fun a _ b hb hkeep => ?_
  exact absurd hkeep (List.filter_eq_nil_iff.mp h b hb)

theorem filter_drop_of_settled {n : Nat} (h : Settled keep l) (hn : n ≤ (l.filter keep).length) :
    (l.drop n).filter keep = (l.filter keep).drop n := by
  induction l generalizing n with
  | nil => rw [List.drop_nil, List.filter_nil, List.drop_nil]
  | cons a l ih =>
    obtain ⟨hfirst, hrest⟩ := List.pairwise_cons.mp h
    cases n with
    | zero => rfl
    | succ n =>
      cases ha : keep a with
      | true =>
        rw [List.filter_cons_of_pos ha] at hn ⊢
        exact ih hrest (Nat.le_of_succ_le_succ hn)
      | false =>
        have hnone : l.filter keep = [] := by
          refine List.filter_eq_nil_iff.mpr fun b hb hkeep => ?_
          have := hfirst b hb hkeep
          rw [ha] at this
          cases this
        rw [List.filter_cons_of_neg (by rw [ha]; decide), hnone] at hn
        cases hn

theorem Settled.drop (h : Settled keep l) (n : Nat) : Settled keep (l.drop n) :=
  h.sublist (List.drop_sublist _ _)

/-! ## Scans -/

variable {M : Nat} {page : Nat → Nat → List α} {k o : Nat} {pages : List (List α)}

/-- A scan returns at least the kept items behind its offset. If it returns no more, these stand first
and the offset never wraps around. The induction is on the scan. -/
theorem Scan.bounds (hpager : Pager keep l page) (hM : 0 < M) (h : Scan M page k o pages) :
    (l.drop o).countP keep ≤ pages.flatten.length ∧
      (pages.flatten.length ≤ (l.drop o).countP keep →
        Settled keep (l.drop o) ∧ ((l.drop o).countP keep = 0 ∨ o + (l.drop o).countP keep < M)) := by
  induction h with
  | @done k o hempty =>
    have hnone := hpager.stops k o hempty
    have hzero : (l.drop o).countP keep = 0 := by rw [List.countP_eq_length_filter, hnone, List.length_nil]
    exact ⟨hzero.le, fun _ => ⟨settled_of_filter_eq_nil hnone, Or.inl hzero⟩⟩
  | @page k o pages hne _ ih =>
    obtain ⟨hleast, hexact⟩ := ih
    have hpos : 0 < (page k o).length := List.length_pos_iff.mpr hne
    have hnext : (o + (page k o).length) % M ≤ o + (page k o).length := Nat.mod_le _ _
    have hskip := countP_drop_le_add keep l o (page k o).length
    have hmono := countP_drop_antitone keep l hnext
    rw [List.flatten_cons, List.length_append]
    refine ⟨by omega, fun htotal => ?_⟩
    -- the offset cannot have wrapped: the last item of the page would be returned again
    have hlt : o + (page k o).length < M := by
      by_contra hwrap
      have hback : (o + (page k o).length) % M ≤ o + ((page k o).length - 1) := by
        have := Nat.mod_lt (o + (page k o).length) hM
        omega
      have hagain := countP_drop_antitone keep l hback
      have hlast := countP_drop_le_add keep l o ((page k o).length - 1)
      omega
    rw [Nat.mod_eq_of_lt hlt] at hleast hexact hmono
    obtain ⟨hsettled, hroom⟩ := hexact (by omega)
    refine ⟨settled_of_countP_drop ?_ (by rwa [List.drop_drop]), ?_⟩
    · rw [List.drop_drop]
      omega
    · omega

theorem Scan.settled (hpager : Pager keep l page) (hM : 0 < M) (h : Scan M page k 0 pages)
    (htotal : pages.flatten.length ≤ (l.filter keep).length) :
    Settled keep l ∧ (l.filter keep).length < M := by
  have hexact := (h.bounds hpager hM).2
  rw [List.drop_zero, List.countP_eq_length_filter] at hexact
  obtain ⟨hsettled, hroom⟩ := hexact htotal
  exact ⟨hsettled, by omega⟩

theorem exists_scan_from (hpager : Pager keep l page) (n : Nat) :
    ∀ k o, ((l.drop o).filter keep).length = n → Settled keep (l.drop o) → (n = 0 ∨ o + n < M) →
      ∃ pages, Scan M page k o pages ∧ pages.flatten = (l.drop o).filter keep := by
  induction n using Nat.strong_induction_on with
  | _ n ih =>
    intro k o hn hsettled hroom
    by_cases hempty : page k o = []
    · exact ⟨[], .done hempty, (hpager.stops k o hempty).symm⟩
    · have hpos : 0 < (page k o).length := List.length_pos_iff.mpr hempty
      obtain ⟨others, hothers⟩ := hpager.isPrefix k o
      have hlength : (page k o).length + others.length = n := by
        rw [← hn, ← hothers, List.length_append]
      have hmod : (o + (page k o).length) % M = o + (page k o).length := Nat.mod_eq_of_lt (by omega)
      have hrest : (l.drop (o + (page k o).length)).filter keep = others := by
        rw [← List.drop_drop, filter_drop_of_settled hsettled (by omega), ← hothers, List.drop_left]
      obtain ⟨pages, hscan, hpages⟩ := ih others.length (by omega) (k + 1) (o + (page k o).length)
        (by rw [hrest]) (by rw [← List.drop_drop]; exact hsettled.drop _) (by omega)
      refine ⟨page k o :: pages, .page hempty (by rwa [hmod]), ?_⟩
      rw [List.flatten_cons, hpages, hrest, hothers]

theorem exists_scan (hpager : Pager keep l page) (hsettled : Settled keep l)
    (hroom : (l.filter keep).length < M) (k : Nat) :
    ∃ pages, Scan M page k 0 pages ∧ pages.flatten = l.filter keep := by
  have hfrom := exists_scan_from (M := M) hpager (l.filter keep).length k 0
  rw [List.drop_zero] at hfrom
  exact hfrom rfl hsettled (Or.inr (by omega))

end WslFreeBSD.Lib.Paging
