import Mathlib.Data.List.Chain
import WslFreeBSD.Reference.HostName

/-!
# The rules for host names of the reference

`CleanHostname` lists the rules of a valid host name (`IsLinuxHostname`). Every prefix of what is kept
of the characters obeys them, but for the last character: the name is cut to 64 characters after the
dots and hyphens at its end were taken off. `isLinuxHostname_cleanHostname_iff` says for which names
the cut leaves no dot or hyphen at the end.
-/

namespace WslFreeBSD.Reference

open Lib

/-- The rules in the comment of `CleanHostname`. -/
structure IsLinuxHostname (name : Bytes) : Prop where
  chars : ∀ c ∈ name, isAlnum c = true ∨ isGap c = true
  nonempty : name ≠ []
  length_le : name.length ≤ 64
  one_dot : name.count 46 ≤ 1
  head : ∀ c ∈ name.head?, isGap c = false
  last : ∀ c ∈ name.getLast?, isGap c = false
  neighbours : name.IsChain fun a b => b = 45 → isGap a = false

theorem isLinuxHostname_default : IsLinuxHostname c_defaultHostName where
  chars := by decide
  nonempty := by decide
  length_le := by decide
  one_dot := by decide
  head := by decide
  last := by decide
  neighbours := by decide

/-! ## What is kept -/

theorem gapKept_eq_or (dot : Bool) (gap : Bytes) :
    gapKept dot gap = [] ∨ ∃ c ∈ gap, gapKept dot gap = [c] := by
  have hmem : ∀ c ∈ gapKept dot gap, c ∈ gap := fun c hc =>
    (List.dropWhile_suffix _).mem (List.mem_of_mem_take hc)
  rcases Nat.le_one_iff_eq_zero_or_eq_one.mp (length_gapKept_le dot gap) with hzero | hone
  · exact Or.inl (List.length_eq_zero_iff.mp hzero)
  · obtain ⟨c, hc⟩ := List.length_eq_one_iff.mp hone
    exact Or.inr ⟨c, hmem c (by rw [hc]; exact List.mem_singleton_self c), hc⟩

theorem dot_not_mem_gapKept (gap : Bytes) : 46 ∉ gapKept true gap := by
  unfold gapKept
  intro hmem
  have hnot := List.head?_dropWhile_not (fun c : UInt8 => true && decide (c = 46)) gap
  cases hdrop : gap.dropWhile fun c => true && decide (c = 46) with
  | nil =>
    rw [hdrop] at hmem
    cases hmem
  | cons d rest =>
    rw [hdrop] at hmem hnot
    obtain rfl : 46 = d := by simpa using hmem
    simp at hnot

/-- Letters and digits with the gaps behind them. -/
def IsParts (parts : List (UInt8 × Bytes)) : Prop :=
  ∀ part ∈ parts, isAlnum part.1 = true ∧ ∀ c ∈ part.2, isGap c = true

theorem IsParts.tail {part : UInt8 × Bytes} {parts : List (UInt8 × Bytes)}
    (h : IsParts (part :: parts)) : IsParts parts := fun other hother =>
  h other (List.mem_cons_of_mem _ hother)

theorem chars_partsKept {parts : List (UInt8 × Bytes)} (h : IsParts parts) (dot : Bool) :
    ∀ c ∈ partsKept dot parts, isAlnum c = true ∨ isGap c = true := by
  induction parts generalizing dot with
  | nil => exact List.forall_mem_nil _
  | cons part parts ih =>
    obtain ⟨hc, hgap⟩ := h part (by simp)
    intro d hd
    rcases List.mem_cons.mp hd with rfl | hd
    · exact Or.inl hc
    · rcases List.mem_append.mp hd with hd | hd
      · exact Or.inr (isGap_of_mem_gapKept hgap d hd)
      · exact ih h.tail _ d hd

theorem count_partsKept_le {parts : List (UInt8 × Bytes)} (h : IsParts parts) (dot : Bool) :
    (partsKept dot parts).count 46 ≤ if dot then 0 else 1 := by
  induction parts generalizing dot with
  | nil => exact Nat.zero_le _
  | cons part parts ih =>
    obtain ⟨c, gap⟩ := part
    have hc : c ≠ 46 := by
      rintro rfl
      have hgap : isGap 46 = false := isGap_of_isAlnum (h (46, gap) (by simp)).1
      cases hgap
    rw [partsKept, List.count_cons_of_ne hc, List.count_append]
    have hrest := ih h.tail (dot || decide (46 ∈ gapKept dot gap))
    by_cases hmem : 46 ∈ gapKept dot gap
    · cases dot with
      | true => exact absurd hmem (dot_not_mem_gapKept gap)
      | false =>
        have hone := (List.count_le_length (a := (46 : UInt8)) (l := gapKept false gap)).trans
          (length_gapKept_le false gap)
        rw [decide_eq_true hmem, Bool.or_true, if_pos rfl] at hrest
        rw [decide_eq_true hmem, Bool.or_true, if_neg Bool.false_ne_true]
        omega
    · rw [decide_eq_false hmem, Bool.or_false] at hrest ⊢
      rw [List.count_eq_zero_of_not_mem hmem, Nat.zero_add]
      exact hrest

theorem head_partsKept {parts : List (UInt8 × Bytes)} (h : IsParts parts) (dot : Bool) :
    ∀ c ∈ (partsKept dot parts).head?, isGap c = false := by
  cases parts with
  | nil => simp [partsKept]
  | cons part parts =>
    intro c hc
    obtain rfl : part.1 = c := by simpa [partsKept] using hc
    exact isGap_of_isAlnum (h part (by simp)).1

theorem isChain_partsKept {parts : List (UInt8 × Bytes)} (h : IsParts parts) (dot : Bool) :
    (partsKept dot parts).IsChain fun a b => b = 45 → isGap a = false := by
  induction parts generalizing dot with
  | nil => exact List.isChain_nil
  | cons part parts ih =>
    obtain ⟨c, gap⟩ := part
    have hc := isGap_of_isAlnum (h (c, gap) (by simp)).1
    have hrest := ih h.tail (dot || decide (46 ∈ gapKept dot gap))
    have hhead := head_partsKept h.tail (dot || decide (46 ∈ gapKept dot gap))
    rw [partsKept]
    refine List.IsChain.cons ?_ fun b _ _ => hc
    rcases gapKept_eq_or dot gap with hnil | ⟨d, -, hd⟩
    · rw [hnil] at hrest ⊢
      exact hrest
    · rw [hd] at hrest hhead ⊢
      refine List.IsChain.cons hrest fun b hb hhyphen => ?_
      rw [hhyphen] at hb
      exact absurd (hhead 45 hb) (by decide)

/-! ## Where the name is cut -/

/-- Whether one of the dots and hyphens behind a letter or digit is kept. -/
def keepsGap (dot : Bool) (gap : Bytes) : Bool := decide (45 ∈ gap) || (!dot && decide (gap ≠ []))

/-- Letters and digits with the dots and hyphens behind them, when `used` characters are kept in front
of them and `dot` says whether there is a dot among these: no dot or hyphen between two of them is kept
as the 64th character. -/
def CutAtWord : Bool → Nat → List (UInt8 × Bytes) → Prop
  | _, _, [] => True
  | dot, used, (_, gap) :: parts =>
    parts = [] ∨ 63 ≤ used ∨
      (keepsGap dot gap = true → used ≠ 62) ∧
        CutAtWord (dot || decide (gap.head? = some 46))
          (used + 1 + if keepsGap dot gap then 1 else 0) parts

instance decidableCutAtWord : ∀ (dot : Bool) (used : Nat) (parts : List (UInt8 × Bytes)),
    Decidable (CutAtWord dot used parts)
  | _, _, [] => isTrue trivial
  | dot, used, (_, gap) :: parts =>
    have := decidableCutAtWord (dot || decide (gap.head? = some 46))
      (used + 1 + if keepsGap dot gap then 1 else 0) parts
    inferInstanceAs (Decidable (_ ∨ _ ∨ _ ∧ _))

theorem length_gapKept_eq {gap : Bytes} (h : ∀ c ∈ gap, isGap c = true) (dot : Bool) :
    (gapKept dot gap).length = if keepsGap dot gap then 1 else 0 := by
  cases dot with
  | false =>
    cases gap with
    | nil => rfl
    | cons c gap => simp [gapKept, keepsGap]
  | true =>
    induction gap with
    | nil => rfl
    | cons c gap ih =>
      have hrest := ih fun d hd => h d (List.mem_cons_of_mem _ hd)
      rcases isGap_iff.mp (h c (by simp)) with rfl | rfl
      · simp [gapKept, keepsGap]
      · simpa [gapKept, keepsGap] using hrest

theorem dot_mem_gapKept (dot : Bool) (gap : Bytes) :
    (dot || decide (46 ∈ gapKept dot gap)) = (dot || decide (gap.head? = some 46)) := by
  cases dot with
  | true => rfl
  | false =>
    cases gap with
    | nil => rfl
    | cons c gap => simp [gapKept, eq_comm]

theorem rdropWhile_append_partsKept {parts : List (UInt8 × Bytes)} (h : IsParts parts)
    (hne : parts ≠ []) (name : Bytes) (dot : Bool) :
    ∃ t, (name ++ partsKept dot parts).rdropWhile isGap = name ++ t := by
  obtain ⟨⟨c, gap⟩, parts, rfl⟩ := List.exists_cons_of_ne_nil hne
  have hc := isGap_of_isAlnum (h (c, gap) (by simp)).1
  rw [partsKept, rdropWhile_append_cons _ _ hc]
  exact ⟨_, rfl⟩

theorem not_cut_of_gap {gap : Bytes} (hgap : ∀ d ∈ gap, isGap d = true) {dot : Bool}
    (hkeep : keepsGap dot gap = true) (c : UInt8) {name : Bytes} (hlen : name.length = 62) (t : Bytes) :
    ¬ ∀ d ∈ ((name ++ c :: gapKept dot gap ++ t).take 64).getLast?, isGap d = false := by
  intro hall
  have hcount := length_gapKept_eq hgap dot
  rw [hkeep, if_pos rfl] at hcount
  have hlength : (name ++ c :: gapKept dot gap).length = 64 := by
    rw [List.length_append, List.length_cons]
    omega
  rw [List.take_left' hlength] at hall
  rcases gapKept_eq_or dot gap with hnil | ⟨d, hd, hkept⟩
  · rw [hnil] at hcount
    cases hcount
  · rw [hkept] at hall
    have hfalse := hall d (by simp)
    rw [hgap d hd] at hfalse
    cases hfalse

/-- The cut leaves a letter or digit at the end exactly where none of the dots and hyphens is the 64th
character. -/
theorem cutAtWord_iff {parts : List (UInt8 × Bytes)} (h : IsParts parts) (hne : parts ≠ [])
    (name : Bytes) (hlen : name.length ≤ 63) (dot : Bool) :
    (∀ c ∈ (((name ++ partsKept dot parts).rdropWhile isGap).take 64).getLast?, isGap c = false) ↔
      CutAtWord dot name.length parts := by
  induction parts generalizing name dot with
  | nil => exact absurd rfl hne
  | cons part parts ih =>
    obtain ⟨c, gap⟩ := part
    have hc : isGap c = false := isGap_of_isAlnum (h (c, gap) (by simp)).1
    have hgap : ∀ d ∈ gap, isGap d = true := (h (c, gap) (by simp)).2
    have hshort : (name ++ [c]).length ≤ 64 := by
      rw [List.length_append, List.length_singleton]
      omega
    have hlast : ∀ d ∈ (name ++ [c]).getLast?, isGap d = false := by
      intro d hd
      rw [List.getLast?_concat] at hd
      obtain rfl : c = d := Option.some.inj hd
      exact hc
    rw [CutAtWord, partsKept]
    by_cases hend : parts = []
    · subst hend
      refine iff_of_true ?_ (Or.inl rfl)
      have hstrip : (gapKept dot gap).rdropWhile isGap = [] :=
        List.rdropWhile_eq_nil_iff.mpr (isGap_of_mem_gapKept hgap)
      rw [partsKept, List.append_nil, rdropWhile_append_cons _ _ hc, hstrip,
        List.take_of_length_le hshort]
      exact hlast
    obtain ⟨t, ht⟩ := rdropWhile_append_partsKept h.tail hend (name ++ c :: gapKept dot gap)
      (dot || decide (46 ∈ gapKept dot gap))
    have hsplit : name ++ c :: (gapKept dot gap ++ partsKept (dot || decide (46 ∈ gapKept dot gap)) parts) =
        name ++ c :: gapKept dot gap ++ partsKept (dot || decide (46 ∈ gapKept dot gap)) parts := by simp
    have hlength : (name ++ c :: gapKept dot gap).length =
        name.length + 1 + if keepsGap dot gap then 1 else 0 := by
      rw [← length_gapKept_eq hgap dot, List.length_append, List.length_cons]
      omega
    simp only [hend, false_or]
    rw [hsplit]
    by_cases hfull : 63 ≤ name.length
    · refine iff_of_true ?_ (Or.inl hfull)
      have htake : (name ++ c :: gapKept dot gap ++ t).take 64 = name ++ [c] := by
        have happend : name ++ c :: gapKept dot gap ++ t = name ++ [c] ++ (gapKept dot gap ++ t) := by
          simp
        rw [happend, List.take_left' (by rw [List.length_append, List.length_singleton]; omega)]
      rw [ht, htake]
      exact hlast
    by_cases hcut : keepsGap dot gap = true ∧ name.length = 62
    · -- the 64th character is a dot or a hyphen
      refine iff_of_false (fun hall => ?_) fun hcond => ?_
      · rw [ht] at hall
        exact not_cut_of_gap hgap hcut.1 c hcut.2 t hall
      · rcases hcond with hover | ⟨hroom, -⟩
        · exact hfull hover
        · exact hroom hcut.1 hcut.2
    · have hroom : keepsGap dot gap = true → name.length ≠ 62 := fun hkeep h62 => hcut ⟨hkeep, h62⟩
      have hnext : (name ++ c :: gapKept dot gap).length ≤ 63 := by
        rw [hlength]
        split
        · next hkeep =>
          have := hroom hkeep
          omega
        · omega
      have hiff := ih h.tail hend (name ++ c :: gapKept dot gap) hnext
        (dot || decide (46 ∈ gapKept dot gap))
      rw [hiff, hlength, dot_mem_gapKept]
      exact ⟨fun hparts => Or.inr ⟨hroom, hparts⟩, fun hparts => (hparts.resolve_left hfull).2⟩

/-- The letters and digits of a name with their gaps, and no gap in the 64th place. -/
def IsCutAtWord (hostname : Bytes) : Prop := CutAtWord false 0 (separated isAlnum isGap hostname).2

instance (hostname : Bytes) : Decidable (IsCutAtWord hostname) := decidableCutAtWord _ _ _

/-- `CleanHostname` obeys its rules exactly for the names with no dot or hyphen in the 64th place. -/
theorem isLinuxHostname_cleanHostname_iff (hostname : Bytes) :
    IsLinuxHostname (cleanHostname hostname) ↔ IsCutAtWord hostname := by
  have hparts : IsParts (separated isAlnum isGap hostname).2 := parts_separated isAlnum isGap hostname
  rw [cleanHostname_eq, IsCutAtWord]
  by_cases hnone : (separated isAlnum isGap hostname).2 = []
  · rw [if_pos hnone, hnone]
    exact iff_of_true isLinuxHostname_default trivial
  · rw [if_neg hnone, ← @List.length_nil UInt8, ← cutAtWord_iff hparts hnone [] (Nat.zero_le _) false,
      List.nil_append]
    generalize (separated isAlnum isGap hostname).2 = parts at hparts hnone
    have hleft : ((partsKept false parts).rdropWhile isGap).take 64 <+: partsKept false parts :=
      (List.take_prefix _ _).trans (List.rdropWhile_prefix _ _)
    refine ⟨fun hname => hname.last, fun hlast => ⟨?_, ?_, ?_, ?_, ?_, hlast, ?_⟩⟩
    · exact fun c hc => chars_partsKept hparts false c (hleft.subset hc)
    · obtain ⟨⟨c, gap⟩, rest, rfl⟩ := List.exists_cons_of_ne_nil hnone
      intro hnil
      have hall := List.rdropWhile_eq_nil_iff.mp ((List.take_eq_nil_iff.mp hnil).resolve_left (by decide))
      have hc := hall c (by simp [partsKept])
      rw [isGap_of_isAlnum (hparts (c, gap) (by simp)).1] at hc
      cases hc
    · exact List.length_take_le _ _
    · exact (hleft.sublist.count_le 46).trans (count_partsKept_le hparts false)
    · intro c hc
      obtain ⟨rest, hrest⟩ := hleft
      refine head_partsKept hparts false c ?_
      rw [← hrest, List.head?_append, Option.mem_def.mp hc]
      rfl
    · obtain ⟨rest, hrest⟩ := hleft
      exact List.IsChain.left_of_append (hrest ▸ isChain_partsKept hparts false)

/-- A hyphen in the 64th place stays at the end. -/
theorem cleanHostname_cut : ¬ ∀ hostname : Bytes, IsLinuxHostname (cleanHostname hostname) := by
  intro hall
  have hlast := (hall (List.replicate 63 97 ++ ascii "-b")).last 45 (by decide)
  cases hlast

end WslFreeBSD.Reference
