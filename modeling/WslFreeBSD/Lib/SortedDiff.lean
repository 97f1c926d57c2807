import Mathlib.Data.List.Sort
import Mathlib.Data.Set.Insert
import Mathlib.Tactic.Linarith

/-!
# Sorted snapshots and their differences

A set is kept as a list that is strictly sorted by a C comparison function. `dedupSort` brings
any list into this form, `mergeDiff` walks two such lists side by side and reports what was added
and what was removed. For a lawful comparison the report consists of exactly the differences,
each of them once (`isDiff_mergeDiff`), so that whoever applies it to the old set is told nothing
it already knows and ends with the new set (`IsDiff.applyAll`).

`firstDiff` compares lists of numbers like `memcmp` compares bytes; it is lawful on lists of a
fixed length.
-/

namespace WslFreeBSD.Lib

variable {α : Type*}

/-! ## Comparison functions -/

/-- A comparison function that is a strict order compatible with equality. -/
structure LawfulCmp (cmp : α → α → Int) : Prop where
  eq_zero_iff : ∀ a b, cmp a b = 0 ↔ a = b
  swap : ∀ a b, cmp a b < 0 ↔ 0 < cmp b a
  trans : ∀ a b c, cmp a b < 0 → cmp b c < 0 → cmp a c < 0

/-- The difference at the first position where two lists differ. -/
def firstDiff : List Nat → List Nat → Int
  | x :: xs, y :: ys => if x ≠ y then (x : Int) - y else firstDiff xs ys
  | _, _ => 0

theorem firstDiff_eq_zero_iff {xs ys : List Nat} (h : xs.length = ys.length) :
    firstDiff xs ys = 0 ↔ xs = ys := by
  induction xs generalizing ys with
  | nil =>
    cases ys with
    | nil => simp [firstDiff]
    | cons y ys => cases h
  | cons x xs ih =>
    cases ys with
    | nil => cases h
    | cons y ys =>
      have hlen : xs.length = ys.length := Nat.succ.inj h
      by_cases hxy : x = y
      · subst hxy
        simpa [firstDiff] using ih hlen
      · simp only [firstDiff, if_pos hxy, List.cons.injEq, hxy, false_and, iff_false]
        omega

theorem firstDiff_swap (xs ys : List Nat) : firstDiff xs ys = -firstDiff ys xs := by
  induction xs generalizing ys with
  | nil => cases ys <;> rfl
  | cons x xs ih =>
    cases ys with
    | nil => rfl
    | cons y ys =>
      by_cases hxy : x = y
      · subst hxy
        simpa [firstDiff] using ih ys
      · simp only [firstDiff, if_pos hxy, if_pos (Ne.symm hxy)]
        omega

theorem firstDiff_trans {xs ys zs : List Nat} (hxy : xs.length = ys.length)
    (hyz : ys.length = zs.length) (h1 : firstDiff xs ys < 0) (h2 : firstDiff ys zs < 0) :
    firstDiff xs zs < 0 := by
  induction xs generalizing ys zs with
  | nil =>
    rw [List.length_eq_zero_iff.mp hxy.symm] at h1
    exact absurd h1 (lt_irrefl _)
  | cons x xs ih =>
    cases ys with
    | nil => cases hxy
    | cons y ys =>
      cases zs with
      | nil => cases hyz
      | cons z zs =>
        have ih' := @ih ys zs (Nat.succ.inj hxy) (Nat.succ.inj hyz)
        unfold firstDiff at h1 h2 ⊢
        split at h1
        · split at h2
          · rw [if_pos (by omega)]
            omega
          · rw [if_pos (by omega)]
            omega
        · split at h2
          · rw [if_pos (by omega)]
            omega
          · rw [if_neg (by omega)]
            exact ih' h1 h2

theorem lawfulCmp_of_key {cmp : α → α → Int} {key : α → List Nat} {n : Nat}
    (hcmp : ∀ a b, cmp a b = firstDiff (key a) (key b)) (hlen : ∀ a, (key a).length = n)
    (hinj : Function.Injective key) : LawfulCmp cmp where
  eq_zero_iff a b := by
    rw [hcmp, firstDiff_eq_zero_iff ((hlen a).trans (hlen b).symm)]
    exact hinj.eq_iff
  swap a b := by
    rw [hcmp, hcmp, firstDiff_swap]
    omega
  trans a b c h1 h2 := by
    rw [hcmp] at h1 h2 ⊢
    exact firstDiff_trans ((hlen a).trans (hlen b).symm) ((hlen b).trans (hlen c).symm) h1 h2

def StrictlySorted (cmp : α → α → Int) (l : List α) : Prop := l.Pairwise fun a b => cmp a b < 0

variable {cmp : α → α → Int}

/-! ## Sorting and removing duplicates -/

/-- Skip the elements equal to the last one kept. -/
def dedupFrom (cmp : α → α → Int) (last : α) : List α → List α
  | [] => [last]
  | x :: xs => if cmp last x ≠ 0 then last :: dedupFrom cmp x xs else dedupFrom cmp last xs

def dedupSort (cmp : α → α → Int) (l : List α) : List α :=
  match l.insertionSort fun a b => cmp a b ≤ 0 with
  | [] => []
  | x :: xs => dedupFrom cmp x xs

theorem mem_dedupFrom (hc : LawfulCmp cmp) (last : α) (xs : List α) (a : α) :
    a ∈ dedupFrom cmp last xs ↔ a = last ∨ a ∈ xs := by
  induction xs generalizing last with
  | nil => simp [dedupFrom]
  | cons x xs ih =>
    unfold dedupFrom
    split
    · rw [List.mem_cons, ih x, List.mem_cons]
    · rename_i heq
      have hx : last = x := (hc.eq_zero_iff last x).mp (by omega)
      rw [ih last, List.mem_cons, hx]
      exact ⟨fun h => h.imp_right .inr, fun h => h.elim .inl id⟩

theorem strictlySorted_dedupFrom (hc : LawfulCmp cmp) {last : α} {xs : List α}
    (h : (last :: xs).Pairwise fun a b => cmp a b ≤ 0) :
    StrictlySorted cmp (dedupFrom cmp last xs) := by
  induction xs generalizing last with
  | nil => exact List.pairwise_singleton _ _
  | cons x xs ih =>
    obtain ⟨hlast, hxs⟩ := List.pairwise_cons.mp h
    obtain ⟨hx, -⟩ := List.pairwise_cons.mp hxs
    have hle := hlast x List.mem_cons_self
    unfold dedupFrom
    split
    · rename_i hne
      refine List.pairwise_cons.mpr ⟨fun b hb => ?_, ih hxs⟩
      -- everything kept later is `x` or comes after it
      rcases (mem_dedupFrom hc x xs b).mp hb with rfl | hb
      · omega
      · rcases lt_or_eq_of_le (hx b hb) with hlt | heq
        · exact hc.trans _ _ _ (by omega) hlt
        · rw [← (hc.eq_zero_iff x b).mp heq]
          omega
    · refine ih (List.pairwise_cons.mpr ⟨fun b hb => hlast b (List.mem_cons_of_mem _ hb), ?_⟩)
      exact (List.pairwise_cons.mp hxs).2

theorem pairwise_sorted (hc : LawfulCmp cmp) (l : List α) :
    (l.insertionSort fun a b => cmp a b ≤ 0).Pairwise fun a b => cmp a b ≤ 0 := by
  have htotal : Std.Total fun a b => cmp a b ≤ 0 := by
    refine ⟨fun a b => ?_⟩
    have := hc.swap b a
    omega
  have htrans : IsTrans α fun a b => cmp a b ≤ 0 := by
    refine ⟨fun a b c hab hbc => ?_⟩
    rcases lt_or_eq_of_le hab with hlt | heq
    · rcases lt_or_eq_of_le hbc with hlt' | heq'
      · exact (hc.trans _ _ _ hlt hlt').le
      · rwa [← (hc.eq_zero_iff b c).mp heq']
    · rwa [(hc.eq_zero_iff a b).mp heq]
  exact List.pairwise_insertionSort _ l

theorem strictlySorted_dedupSort (hc : LawfulCmp cmp) (l : List α) :
    StrictlySorted cmp (dedupSort cmp l) := by
  have hs := pairwise_sorted hc l
  unfold dedupSort
  split
  · exact List.Pairwise.nil
  · rename_i x xs heq
    rw [heq] at hs
    exact strictlySorted_dedupFrom hc hs

theorem mem_dedupSort (hc : LawfulCmp cmp) (l : List α) (a : α) : a ∈ dedupSort cmp l ↔ a ∈ l := by
  refine Iff.trans ?_ (List.mem_insertionSort fun a b => cmp a b ≤ 0)
  unfold dedupSort
  split
  · rename_i heq
    rw [heq]
  · rename_i x xs heq
    rw [heq, mem_dedupFrom hc, List.mem_cons]

/-! ## The difference of two snapshots -/

inductive Change (α : Type*) where
  | added (a : α)
  | removed (a : α)
  deriving DecidableEq, Repr

/-- The side-by-side walk; every round uses up an element of one of the lists. -/
def mergeLoop (cmp : α → α → Int) : Nat → List α → List α → List (Change α)
  | 0, _, _ => []
  | _ + 1, [], [] => []
  | n + 1, [], o :: old => .removed o :: mergeLoop cmp n [] old
  | n + 1, c :: cur, [] => .added c :: mergeLoop cmp n cur []
  | n + 1, c :: cur, o :: old =>
    if cmp c o < 0 then .added c :: mergeLoop cmp n cur (o :: old)
    else if 0 < cmp c o then .removed o :: mergeLoop cmp n (c :: cur) old
    else mergeLoop cmp n cur old

def mergeDiff (cmp : α → α → Int) (cur old : List α) : List (Change α) :=
  mergeLoop cmp (cur.length + old.length) cur old

/-- A report is the difference of two snapshots: what is new was added, what is gone was
removed, and nothing is said twice. -/
structure IsDiff (cur old : List α) (out : List (Change α)) : Prop where
  added : ∀ a, .added a ∈ out ↔ a ∈ cur ∧ a ∉ old
  removed : ∀ a, .removed a ∈ out ↔ a ∈ old ∧ a ∉ cur
  nodup : out.Nodup

namespace IsDiff

variable {cur old : List α} {out : List (Change α)} {c o : α}

theorem cons_added (h : IsDiff cur old out) (hcur : c ∉ cur) (hold : c ∉ old) :
    IsDiff (c :: cur) old (.added c :: out) where
  added a := by
    rw [List.mem_cons, h.added, List.mem_cons, Change.added.injEq]
    constructor
    · rintro (rfl | ⟨ha, hno⟩)
      · exact ⟨.inl rfl, hold⟩
      · exact ⟨.inr ha, hno⟩
    · rintro ⟨rfl | ha, hno⟩
      · exact .inl rfl
      · exact .inr ⟨ha, hno⟩
  removed a := by
    have hne : Change.removed a ≠ .added c := by simp
    rw [List.mem_cons, or_iff_right hne, h.removed, List.mem_cons, not_or]
    refine and_congr_right fun ha => ⟨fun hno => ⟨?_, hno⟩, fun hno => hno.2⟩
    rintro rfl
    exact hold ha
  nodup := List.nodup_cons.mpr ⟨fun hmem => hcur ((h.added c).mp hmem).1, h.nodup⟩

theorem cons_removed (h : IsDiff cur old out) (hcur : o ∉ cur) (hold : o ∉ old) :
    IsDiff cur (o :: old) (.removed o :: out) where
  added a := by
    have hne : Change.added a ≠ .removed o := by simp
    rw [List.mem_cons, or_iff_right hne, h.added, List.mem_cons, not_or]
    refine and_congr_right fun ha => ⟨fun hno => ⟨?_, hno⟩, fun hno => hno.2⟩
    rintro rfl
    exact hcur ha
  removed a := by
    rw [List.mem_cons, h.removed, List.mem_cons, Change.removed.injEq]
    constructor
    · rintro (rfl | ⟨ha, hno⟩)
      · exact ⟨.inl rfl, hcur⟩
      · exact ⟨.inr ha, hno⟩
    · rintro ⟨rfl | ha, hno⟩
      · exact .inl rfl
      · exact .inr ⟨ha, hno⟩
  nodup := List.nodup_cons.mpr ⟨fun hmem => hold ((h.removed o).mp hmem).1, h.nodup⟩

theorem cons_both (h : IsDiff cur old out) (hcur : c ∉ cur) (hold : c ∉ old) :
    IsDiff (c :: cur) (c :: old) out where
  added a := by
    rw [h.added, List.mem_cons, List.mem_cons, not_or]
    constructor
    · rintro ⟨ha, hno⟩
      exact ⟨.inr ha, fun heq => hcur (heq ▸ ha), hno⟩
    · rintro ⟨ha, hne, hno⟩
      exact ⟨ha.resolve_left hne, hno⟩
  removed a := by
    rw [h.removed, List.mem_cons, List.mem_cons, not_or]
    constructor
    · rintro ⟨ha, hno⟩
      exact ⟨.inr ha, fun heq => hold (heq ▸ ha), hno⟩
    · rintro ⟨ha, hne, hno⟩
      exact ⟨ha.resolve_left hne, hno⟩
  nodup := h.nodup

end IsDiff

theorem notMem_of_lt (hc : LawfulCmp cmp) {a : α} {l : List α} (h : ∀ b ∈ l, cmp a b < 0) :
    a ∉ l := by
  intro hmem
  have hlt := h a hmem
  have heq := (hc.eq_zero_iff a a).mpr rfl
  omega

theorem isDiff_mergeLoop (hc : LawfulCmp cmp) (n : Nat) {cur old : List α}
    (hn : cur.length + old.length ≤ n) (hcur : StrictlySorted cmp cur)
    (hold : StrictlySorted cmp old) : IsDiff cur old (mergeLoop cmp n cur old) := by
  induction n generalizing cur old with
  | zero =>
    have h1 : cur = [] := List.length_eq_zero_iff.mp (by omega)
    have h2 : old = [] := List.length_eq_zero_iff.mp (by omega)
    subst h1 h2
    exact ⟨by simp [mergeLoop], by simp [mergeLoop], List.nodup_nil⟩
  | succ n ih =>
    cases cur with
    | nil =>
      cases old with
      | nil => exact ⟨by simp [mergeLoop], by simp [mergeLoop], List.nodup_nil⟩
      | cons o old =>
        obtain ⟨ho, hold'⟩ := List.pairwise_cons.mp hold
        simp only [List.length_cons] at hn
        exact (ih (by omega) hcur hold').cons_removed (by simp) (notMem_of_lt hc ho)
    | cons c cur =>
      obtain ⟨hlt, hcur'⟩ := List.pairwise_cons.mp hcur
      have hccur := notMem_of_lt hc hlt
      simp only [List.length_cons] at hn
      cases old with
      | nil => exact (ih (by omega) hcur' hold).cons_added hccur (by simp)
      | cons o old =>
        obtain ⟨ho, hold'⟩ := List.pairwise_cons.mp hold
        have hoold := notMem_of_lt hc ho
        simp only [List.length_cons] at hn
        unfold mergeLoop
        split
        · -- `c` comes before everything that is left of the old snapshot
          rename_i hco
          refine (ih (by simp only [List.length_cons]; omega) hcur' hold).cons_added hccur ?_
          refine notMem_of_lt hc fun b hb => ?_
          rcases List.mem_cons.mp hb with rfl | hb
          · exact hco
          · exact hc.trans _ _ _ hco (ho b hb)
        · split
          · rename_i hoc
            have hoc' : cmp o c < 0 := (hc.swap o c).mpr hoc
            refine (ih (by simp only [List.length_cons]; omega) hcur hold').cons_removed ?_ hoold
            refine notMem_of_lt hc fun b hb => ?_
            rcases List.mem_cons.mp hb with rfl | hb
            · exact hoc'
            · exact hc.trans _ _ _ hoc' (hlt b hb)
          · have heq : c = o := (hc.eq_zero_iff c o).mp (by omega)
            subst heq
            exact (ih (by omega) hcur' hold').cons_both hccur hoold

theorem isDiff_mergeDiff (hc : LawfulCmp cmp) {cur old : List α} (hcur : StrictlySorted cmp cur)
    (hold : StrictlySorted cmp old) : IsDiff cur old (mergeDiff cmp cur old) :=
  isDiff_mergeLoop hc _ le_rfl hcur hold

/-! ## Applying a report -/

def Change.apply (held : Set α) : Change α → Set α
  | .added a => insert a held
  | .removed a => held \ {a}

def applyAll (held : Set α) (out : List (Change α)) : Set α := out.foldl Change.apply held

/-- Nothing is added that is already held and nothing removed that is not. -/
def Consistent : Set α → List (Change α) → Prop
  | _, [] => True
  | held, .added a :: out => a ∉ held ∧ Consistent (insert a held) out
  | held, .removed a :: out => a ∈ held ∧ Consistent (held \ {a}) out

theorem consistent_applyAll {held : Set α} {out : List (Change α)} (hn : out.Nodup)
    (ha : ∀ a, .added a ∈ out → a ∉ held) (hr : ∀ a, .removed a ∈ out → a ∈ held) :
    Consistent held out ∧
      ∀ a, a ∈ applyAll held out ↔ (a ∈ held ∧ .removed a ∉ out) ∨ .added a ∈ out := by
  induction out generalizing held with
  | nil => exact ⟨trivial, fun a => by simp [applyAll]⟩
  | cons c out ih =>
    obtain ⟨hc, hn'⟩ := List.nodup_cons.mp hn
    cases c with
    | added b =>
      have hb : b ∉ held := ha b List.mem_cons_self
      have hrest := @ih (insert b held) hn'
        (fun a hmem => by
          rw [Set.mem_insert_iff, not_or]
          refine ⟨?_, ha a (List.mem_cons_of_mem _ hmem)⟩
          rintro rfl
          exact hc hmem)
        (fun a hmem => Set.mem_insert_of_mem _ (hr a (List.mem_cons_of_mem _ hmem)))
      refine ⟨⟨hb, hrest.1⟩, fun a => ?_⟩
      have happly : applyAll held (.added b :: out) = applyAll (insert b held) out := rfl
      rw [happly, hrest.2, Set.mem_insert_iff, List.mem_cons, List.mem_cons, Change.added.injEq]
      have hbr : .removed b ∉ out := fun hmem => hb (hr b (List.mem_cons_of_mem _ hmem))
      constructor
      · rintro (⟨rfl | hheld, hno⟩ | hadd)
        · exact .inr (.inl rfl)
        · exact .inl ⟨hheld, by simpa using hno⟩
        · exact .inr (.inr hadd)
      · rintro (⟨hheld, hno⟩ | rfl | hadd)
        · exact .inl ⟨.inr hheld, by simpa using hno⟩
        · exact .inl ⟨.inl rfl, hbr⟩
        · exact .inr hadd
    | removed b =>
      have hb : b ∈ held := hr b List.mem_cons_self
      have hrest := @ih (held \ {b}) hn'
        (fun a hmem hin => ha a (List.mem_cons_of_mem _ hmem) hin.1)
        (fun a hmem => by
          refine ⟨hr a (List.mem_cons_of_mem _ hmem), ?_⟩
          rintro rfl
          exact hc hmem)
      refine ⟨⟨hb, hrest.1⟩, fun a => ?_⟩
      have happly : applyAll held (.removed b :: out) = applyAll (held \ {b}) out := rfl
      rw [happly, hrest.2, Set.mem_sdiff, Set.mem_singleton_iff, List.mem_cons, List.mem_cons,
        Change.removed.injEq, not_or]
      constructor
      · rintro (⟨⟨hheld, hne⟩, hno⟩ | hadd)
        · exact .inl ⟨hheld, hne, hno⟩
        · exact .inr (.inr hadd)
      · rintro (⟨hheld, hne, hno⟩ | hadd)
        · exact .inl ⟨⟨hheld, hne⟩, hno⟩
        · exact .inr (hadd.resolve_left (by simp))

theorem IsDiff.applyAll {cur old : List α} {out : List (Change α)} (h : IsDiff cur old out) :
    Consistent { a | a ∈ old } out ∧ Lib.applyAll { a | a ∈ old } out = { a | a ∈ cur } := by
  obtain ⟨hcons, hmem⟩ := @consistent_applyAll _ { a | a ∈ old } _ h.nodup
    (fun a ha => ((h.added a).mp ha).2) (fun a ha => ((h.removed a).mp ha).1)
  refine ⟨hcons, Set.ext fun a => ?_⟩
  rw [hmem, h.added, h.removed]
  by_cases hold : a ∈ old <;> by_cases hcur : a ∈ cur <;> simp [hold, hcur]

end WslFreeBSD.Lib
