import WslFreeBSD.Hvinit.Network
import WslFreeBSD.Reference.HostName

/-!
# Clean host names

`network_clean_hostname` gives a host name for every string, and keeps the host names as they are
(`networkCleanHostname_isHostName`, `networkCleanHostname_of_isHostName`). It is written after
`CleanHostname` of the reference, and `networkCleanHostname_eq_iff` says for which strings it gives
the same name: both keep all letters and digits, and what they keep of the dots and hyphens between
two of them has to be the same, as far as the first 64 characters.
-/

namespace WslFreeBSD.Hvinit

open Lib
open Reference (isGap isGap_iff isGap_of_isAlnum gapKept partsKept)

/-! ## Host names -/

/-- A name of 1 to 64 letters, digits, hyphens and at most one dot, with a letter or digit at both
ends. -/
structure IsHostName (name : Bytes) : Prop where
  chars : ∀ c ∈ name, isNameChar c = true
  length_le : name.length ≤ 64
  one_dot : name.count 46 ≤ 1
  head : ∃ c ∈ name.head?, isGap c = false
  last : ∃ c ∈ name.getLast?, isGap c = false

theorem isNameChar_eq (c : UInt8) : isNameChar c = (isAlnum c || isGap c) := by
  simp [isNameChar, isAlnum, isGap, Bool.or_assoc]

theorem isHostName_default : IsHostName NETC_DEFAULT_HOSTNAME where
  chars := by decide
  length_le := by decide
  one_dot := by decide
  head := ⟨108, by decide, by decide⟩
  last := ⟨116, by decide, by decide⟩

/-- The name in the buffer, before hyphens and dots at its end are stripped. -/
structure Cleaning (st : Bytes × Bool) : Prop where
  chars : ∀ c ∈ st.1, isNameChar c = true
  length_le : st.1.length ≤ 64
  dots : st.1.count 46 ≤ if st.2 then 1 else 0
  head : ∀ c ∈ st.1.head?, isGap c = false

theorem Cleaning.step {st : Bytes × Bool} (h : Cleaning st) (c : UInt8) : Cleaning (cleanStep st c) := by
  obtain ⟨name, saw⟩ := st
  unfold cleanStep
  split
  · exact h
  · next hroom =>
    rw [not_or, not_le, not_not] at hroom
    split
    · exact h
    · next hdot =>
      split
      · next hskip =>
        refine ⟨h.chars, h.length_le, ?_, h.head⟩
        simp only at hskip
        simp [hskip.1]
      · next hkeep =>
        refine ⟨?_, ?_, ?_, ?_⟩
        · intro d hd
          rcases List.mem_append.mp hd with hold | hnew
          · exact h.chars d hold
          · rw [List.mem_singleton.mp hnew]
            exact hroom.2
        · have := hroom.1
          simp only [List.length_append, List.length_singleton] at this ⊢
          omega
        · have hdots := h.dots
          by_cases hc : c = 46
          · subst hc
            simp only [true_and, Bool.not_eq_true] at hdot
            simp only at hdots
            rw [hdot] at hdots
            simpa using hdots
          · simpa [hc, List.count_singleton] using hdots
        · cases name with
          | nil =>
            intro d hd
            obtain rfl : c = d := by simpa using hd
            rw [← Bool.not_eq_true, isGap_iff]
            exact fun hgap => hkeep ⟨rfl, hgap⟩
          | cons e name => exact h.head

theorem cleaning_foldl (src : Bytes) {st : Bytes × Bool} (h : Cleaning st) :
    Cleaning (src.foldl cleanStep st) := by
  induction src generalizing st with
  | nil => exact h
  | cons c src ih => exact ih (h.step c)

theorem cleaning_nil : Cleaning ([], false) where
  chars := List.forall_mem_nil _
  length_le := by decide
  dots := by decide
  head := by simp

theorem Cleaning.isHostName {st : Bytes × Bool} (h : Cleaning st) (hne : st.1.rdropWhile isGap ≠ []) :
    IsHostName (st.1.rdropWhile isGap) := by
  have hpre := List.rdropWhile_prefix isGap st.1
  obtain ⟨c, name, hname⟩ := List.exists_cons_of_ne_nil hne
  refine ⟨fun c hc => h.chars c (hpre.subset hc), hpre.length_le.trans h.length_le, ?_, ?_, ?_⟩
  · have hdots := h.dots
    have hle := hpre.sublist.count_le (a := 46)
    split at hdots
    · omega
    · omega
  · refine ⟨c, by simp [hname], h.head c ?_⟩
    obtain ⟨rest, hrest⟩ := hpre
    rw [← hrest, hname]
    rfl
  · refine ⟨_, List.getLast?_eq_getLast_of_ne_nil hne, ?_⟩
    simpa using List.rdropWhile_last_not isGap st.1 hne

theorem networkCleanHostname_eq (src : Bytes) :
    networkCleanHostname (some src) =
      if (src.foldl cleanStep ([], false)).1.rdropWhile isGap = [] then NETC_DEFAULT_HOSTNAME
      else (src.foldl cleanStep ([], false)).1.rdropWhile isGap := by
  cases src with
  | nil => rfl
  | cons c src => rfl

theorem networkCleanHostname_isHostName (src : Option Bytes) :
    IsHostName (networkCleanHostname src) := by
  cases src with
  | none => exact isHostName_default
  | some src =>
    rw [networkCleanHostname_eq]
    split
    · exact isHostName_default
    · next hne => exact (cleaning_foldl src cleaning_nil).isHostName hne

theorem foldl_cleanStep_all {s name : Bytes} {saw : Bool} (hname : name ≠ [])
    (hlen : name.length + s.length ≤ 64) (hchars : ∀ c ∈ s, isNameChar c = true)
    (hdots : s.count 46 ≤ if saw then 0 else 1) :
    (s.foldl cleanStep (name, saw)).1 = name ++ s := by
  induction s generalizing name saw with
  | nil => simp
  | cons c s ih =>
    rw [List.length_cons] at hlen
    have hc := hchars c (by simp)
    have hsaw : ¬ (c = 46 ∧ saw = true) := by
      rintro ⟨rfl, rfl⟩
      simp at hdots
    have hstep : cleanStep (name, saw) c = (name ++ [c], saw || decide (c = 46)) := by
      rw [cleanStep, if_neg (by simp [hc]; omega), if_neg hsaw, if_neg (by simp [hname])]
    have hmore : s.count 46 ≤ if saw || decide (c = 46) then 0 else 1 := by
      by_cases h : c = 46
      · subst h
        have hfalse : saw = false := by simpa using hsaw
        rw [hfalse, List.count_cons_self] at hdots
        simp at hdots ⊢
        omega
      · rw [List.count_cons_of_ne h] at hdots
        simpa [h] using hdots
    rw [List.foldl_cons, hstep, ih (by simp) (by simp; omega)
      (fun d hd => hchars d (List.mem_cons_of_mem _ hd)) hmore]
    simp

theorem cleanStep_first {c : UInt8} (saw : Bool) (hc : isNameChar c = true) (hgap : isGap c = false) :
    cleanStep ([], saw) c = ([c], saw) := by
  have hne : ¬ (c = 45 ∨ c = 46) := by
    rw [← isGap_iff, hgap]
    exact Bool.false_ne_true
  have hdot : c ≠ 46 := fun h => hne (Or.inr h)
  rw [cleanStep, if_neg (by simp [hc]), if_neg (fun h => hdot h.1), if_neg (fun h => hne h.2)]
  simp [hdot]

theorem networkCleanHostname_of_isHostName {name : Bytes} (h : IsHostName name) :
    networkCleanHostname (some name) = name := by
  obtain ⟨c, hc, hgap⟩ := h.head
  cases name with
  | nil => cases hc
  | cons d s =>
    obtain rfl : d = c := by simpa using hc
    have hdot : d ≠ 46 := by
      rintro rfl
      cases hgap
    have hdots := h.one_dot
    have hlen := h.length_le
    rw [List.count_cons_of_ne hdot] at hdots
    rw [List.length_cons] at hlen
    have hfold : ((d :: s).foldl cleanStep ([], false)).1 = d :: s := by
      rw [List.foldl_cons, cleanStep_first false (h.chars d (by simp)) hgap]
      exact foldl_cleanStep_all (by simp) (by simp; omega)
        (fun e he => h.chars e (List.mem_cons_of_mem _ he)) (by simpa using hdots)
    have hstrip : (d :: s).rdropWhile isGap = d :: s := by
      refine rdropWhile_eq_self_of_last fun e he => ?_
      obtain ⟨e', he', hlast⟩ := h.last
      rw [Option.mem_unique he he']
      exact hlast
    rw [networkCleanHostname_eq, hfold, hstrip, if_neg (by simp)]

/-- Every string becomes a host name, which is kept when it is cleaned again. -/
theorem networkCleanHostname_clean (src : Option Bytes) :
    IsHostName (networkCleanHostname src) ∧
      networkCleanHostname (some (networkCleanHostname src)) = networkCleanHostname src :=
  ⟨networkCleanHostname_isHostName src,
    networkCleanHostname_of_isHostName (networkCleanHostname_isHostName src)⟩

/-! ## Dots and hyphens -/

/-- What is kept behind the first letter or digit, with room for all of it. -/
def filterKept : Bool → Bytes → Bytes
  | _, [] => []
  | saw, c :: s =>
    if c = 46 then
      if saw then filterKept saw s else c :: filterKept true s
    else c :: filterKept saw s

theorem filterKept_append (saw : Bool) (s t : Bytes) :
    filterKept saw (s ++ t) = filterKept saw s ++ filterKept (saw || decide (46 ∈ s)) t := by
  induction s generalizing saw with
  | nil => simp [filterKept]
  | cons c s ih =>
    simp only [List.cons_append, filterKept]
    split
    · next hc =>
      subst hc
      cases saw with
      | true => simp [ih]
      | false => simp [ih]
    · next hc => simp [ih, Ne.symm hc]

theorem mem_of_mem_filterKept {saw : Bool} {s : Bytes} {c : UInt8} (h : c ∈ filterKept saw s) :
    c ∈ s := by
  induction s generalizing saw with
  | nil => exact h
  | cons d s ih =>
    rw [filterKept] at h
    split at h
    · split at h
      · exact List.mem_cons_of_mem _ (ih h)
      · exact List.mem_cons.mpr ((List.mem_cons.mp h).imp_right ih)
    · exact List.mem_cons.mpr ((List.mem_cons.mp h).imp_right ih)

theorem filterKept_true (s : Bytes) : filterKept true s = s.filter fun c => ! decide (c = 46) := by
  induction s with
  | nil => rfl
  | cons c s ih =>
    rw [filterKept, List.filter_cons]
    split
    · next hc => simp [hc, ih]
    · next hc => simp [hc, ih]

theorem foldl_cleanStep_take {s name : Bytes} (saw : Bool) (hname : name ≠ []) (hlen : name.length ≤ 64)
    (hchars : ∀ c ∈ s, isNameChar c = true) :
    (s.foldl cleanStep (name, saw)).1 = (name ++ filterKept saw s).take 64 := by
  induction s generalizing name saw with
  | nil => simp [filterKept, List.take_of_length_le hlen]
  | cons c s ih =>
    have hc := hchars c (by simp)
    have hrest : ∀ d ∈ s, isNameChar d = true := fun d hd => hchars d (List.mem_cons_of_mem _ hd)
    rw [List.foldl_cons]
    by_cases hfull : 64 ≤ name.length
    · have htake : ∀ t, (name ++ t).take 64 = name := fun t => List.take_left' (by omega)
      rw [cleanStep, if_pos (Or.inl hfull), ih saw hname hlen hrest, htake, htake]
    · rw [cleanStep, if_neg (by simp [hc]; omega), filterKept]
      by_cases hdot : c = 46
      · subst hdot
        cases saw with
        | true => rw [if_pos ⟨rfl, rfl⟩, if_pos rfl, if_pos rfl, ih true hname hlen hrest]
        | false =>
          rw [if_neg (by simp), if_neg (by simp [hname]), if_pos rfl, if_neg (by simp)]
          rw [ih _ (by simp) (by simp; omega) hrest]
          simp
      · rw [if_neg (fun h => hdot h.1), if_neg (fun h => hname h.1), if_neg hdot]
        rw [ih _ (by simp) (by simp; omega) hrest]
        simp [hdot]

theorem foldl_cleanStep_front {gap : Bytes} (saw : Bool) (h : ∀ c ∈ gap, isGap c = true) :
    gap.foldl cleanStep ([], saw) = ([], saw || decide (46 ∈ gap)) := by
  induction gap generalizing saw with
  | nil => simp
  | cons c gap ih =>
    have hrest := fun d hd => h d (List.mem_cons_of_mem _ hd)
    rcases isGap_iff.mp (h c (by simp)) with rfl | rfl
    · have hstep : cleanStep ([], saw) 45 = ([], saw) := by simp [cleanStep, isNameChar]
      rw [List.foldl_cons, hstep, ih saw hrest]
      simp
    · have hstep : cleanStep ([], saw) 46 = ([], true) := by
        cases saw <;> simp [cleanStep, isNameChar]
      rw [List.foldl_cons, hstep, ih true hrest]
      simp

/-! ## The same name as in the reference -/

/-- Dots and hyphens between two letters or digits of which both filters keep the same. `early`
says that there is a dot in front of the name, and `dot` that there is one further in front. -/
def AgreeingGap (early dot : Bool) (gap : Bytes) : Prop :=
  if early then gap.head? ≠ some 46 ∧ gap.count 45 ≤ 1
  else if dot then gap.count 45 ≤ 1
  else gap = [45] ∨ 45 ∉ gap

instance (early dot : Bool) (gap : Bytes) : Decidable (AgreeingGap early dot gap) := by
  unfold AgreeingGap
  infer_instance

/-- How many characters are kept of dots and hyphens on which both filters agree. -/
def gapLength (spent : Bool) (gap : Bytes) : Nat :=
  if 45 ∈ gap ∨ (spent = false ∧ gap ≠ []) then 1 else 0

/-- Letters and digits with the dots and hyphens behind them, of which both filters keep the same,
when there are `used` characters of the name. What stands behind the last letter or digit, or
behind 64 characters, does not matter, and the last character must not be a dot or a hyphen. -/
def AgreeingParts (early : Bool) : Bool → Nat → List (UInt8 × Bytes) → Prop
  | _, _, [] => True
  | dot, used, (_, gap) :: parts =>
    parts = [] ∨ 63 ≤ used ∨
      AgreeingGap early dot gap ∧ (gapLength (early || dot) gap = 0 ∨ used ≠ 62) ∧
        AgreeingParts early (dot || decide (46 ∈ gap)) (used + 1 + gapLength (early || dot) gap) parts

instance decidableAgreeingParts (early : Bool) : ∀ (dot : Bool) (used : Nat)
    (parts : List (UInt8 × Bytes)), Decidable (AgreeingParts early dot used parts)
  | _, _, [] => isTrue trivial
  | dot, used, (_, gap) :: parts =>
    have := decidableAgreeingParts early (dot || decide (46 ∈ gap))
      (used + 1 + gapLength (early || dot) gap) parts
    inferInstanceAs (Decidable (_ ∨ _ ∨ _ ∧ _ ∧ _))

def AgreeingName (src : Bytes) : Prop :=
  AgreeingParts (decide (46 ∈ (separated isAlnum isGap src).1)) false 0 (separated isAlnum isGap src).2

instance (src : Bytes) : Decidable (AgreeingName src) :=
  decidableAgreeingParts _ _ _ _

theorem dropWhile_take_one (gap : Bytes) :
    (gap.dropWhile fun c => decide (c = 46)).take 1 =
      (gap.filter fun c => ! decide (c = 46)).take 1 := by
  induction gap with
  | nil => rfl
  | cons c gap ih =>
    rw [List.dropWhile_cons, List.filter_cons]
    split
    · next h => simpa [h] using ih
    · next h => simp [h]

theorem length_filter_gap {gap : Bytes} (h : ∀ c ∈ gap, isGap c = true) :
    (gap.filter fun c => ! decide (c = 46)).length = gap.count 45 := by
  rw [List.count_eq_length_filter]
  refine congrArg List.length (List.filter_congr fun c hc => ?_)
  rcases isGap_iff.mp (h c hc) with rfl | rfl
  · rfl
  · rfl

theorem agreeingGap_iff {early d : Bool} {gap : Bytes} (h : ∀ c ∈ gap, isGap c = true) :
    AgreeingGap early d gap ↔ filterKept (early || d) gap = gapKept (!early && d) gap := by
  have hcount : gap.count 45 ≤ 1 ↔
      filterKept true gap = (filterKept true gap).take 1 := by
    rw [← length_filter_gap h, ← filterKept_true, eq_comm, List.take_eq_self_iff]
  have htail : ∀ {t : Bytes}, (∀ c ∈ t, isGap c = true) → (45 ∉ t ↔ filterKept true t = []) := by
    intro t ht
    rw [← List.length_eq_zero_iff, filterKept_true, length_filter_gap ht, List.count_eq_zero]
  unfold AgreeingGap
  cases early with
  | true =>
    rw [if_pos rfl, hcount]
    change _ ↔ filterKept true gap = (gap.dropWhile fun _ => false).take 1
    cases gap with
    | nil => simp [filterKept]
    | cons c gap =>
      rcases isGap_iff.mp (h c (by simp)) with rfl | rfl
      · simp [filterKept]
      · have hno : filterKept true (46 :: gap) ≠ [46] := by
          rw [filterKept_true]
          intro heq
          have := List.mem_filter.mp (heq ▸ List.mem_singleton_self (46 : UInt8))
          simp at this
        simp [hno]
  | false =>
    rw [if_neg Bool.false_ne_true]
    cases d with
    | true =>
      rw [if_pos rfl, hcount]
      change _ ↔ filterKept true gap = (gap.dropWhile fun c => decide (c = 46)).take 1
      rw [dropWhile_take_one, filterKept_true]
    | false =>
      rw [if_neg Bool.false_ne_true]
      change _ ↔ filterKept false gap = (gap.dropWhile fun _ => false).take 1
      cases gap with
      | nil => simp [filterKept]
      | cons c gap =>
        have hgap := htail fun d hd => h d (List.mem_cons_of_mem _ hd)
        rcases isGap_iff.mp (h c (by simp)) with rfl | rfl
        · cases gap with
          | nil => simp [filterKept]
          | cons d gap => by_cases hd : d = 46 <;> simp [filterKept, hd]
        · simp [filterKept, hgap]

theorem filterKept_eq_nil_iff (spent : Bool) {gap : Bytes} (h : ∀ c ∈ gap, isGap c = true) :
    filterKept spent gap = [] ↔ gapLength spent gap = 0 := by
  have hlength : gapLength spent gap = 0 ↔ ¬ (45 ∈ gap ∨ (spent = false ∧ gap ≠ [])) := by
    unfold gapLength
    split <;> simp_all
  rw [hlength, not_or, not_and, not_not]
  cases spent with
  | true =>
    rw [← List.length_eq_zero_iff, filterKept_true, length_filter_gap h, List.count_eq_zero]
    simp
  | false =>
    cases gap with
    | nil => simp [filterKept]
    | cons c gap => by_cases hc : c = 46 <;> simp [filterKept, hc]

theorem length_gapKept {early d : Bool} {gap : Bytes} (h : ∀ c ∈ gap, isGap c = true)
    (hagree : filterKept (early || d) gap = gapKept (!early && d) gap) :
    (gapKept (!early && d) gap).length = gapLength (early || d) gap := by
  have hle := Reference.length_gapKept_le (!early && d) gap
  have hnil := filterKept_eq_nil_iff (early || d) h
  rw [hagree, ← List.length_eq_zero_iff] at hnil
  have hle' : gapLength (early || d) gap ≤ 1 := by
    unfold gapLength
    split <;> decide
  omega

theorem mem_filterKept_false {s : Bytes} : 46 ∈ filterKept false s ↔ 46 ∈ s := by
  refine ⟨mem_of_mem_filterKept, fun h => ?_⟩
  induction s with
  | nil => exact h
  | cons c s ih =>
    rw [filterKept]
    split
    · next hc => simp [hc]
    · next hc =>
      have hs : 46 ∈ s := (List.mem_cons.mp h).resolve_left (Ne.symm hc)
      exact List.mem_cons_of_mem _ (ih hs)

theorem dot_gapKept {early d : Bool} {gap : Bytes}
    (hagree : filterKept (early || d) gap = gapKept (!early && d) gap) :
    (!early && d || decide (46 ∈ gapKept (!early && d) gap)) =
      (!early && (d || decide (46 ∈ gap))) := by
  rw [← hagree]
  cases early with
  | true =>
    have hno : ¬ 46 ∈ filterKept true gap := by
      rw [filterKept_true]
      intro hmem
      simpa using (List.mem_filter.mp hmem).2
    simp [hno]
  | false =>
    cases d with
    | true => simp
    | false => simp [mem_filterKept_false]

theorem filterKept_joined_cons (saw : Bool) {c : UInt8} (hc : c ≠ 46) (gap : Bytes)
    (rest : List (UInt8 × Bytes)) : filterKept saw (joined ((c, gap) :: rest)) =
      [c] ++ (filterKept saw gap ++ filterKept (saw || decide (46 ∈ gap)) (joined rest)) := by
  rw [joined_cons, filterKept, if_neg hc, filterKept_append, List.singleton_append]

theorem partsKept_cons (d : Bool) (c : UInt8) (gap : Bytes) (rest : List (UInt8 × Bytes)) :
    partsKept d ((c, gap) :: rest) =
      [c] ++ (gapKept d gap ++ partsKept (d || decide (46 ∈ gapKept d gap)) rest) := by
  simp [partsKept]

theorem rdropWhile_append_word {c : UInt8} (hc : isGap c = false) (name t : Bytes) :
    (name ++ [c] ++ t).rdropWhile isGap = name ++ [c] ++ t.rdropWhile isGap := by
  rw [List.append_assoc, List.singleton_append, rdropWhile_append_cons _ _ hc]
  simp

theorem take_append_word {name : Bytes} (hlen : name.length ≤ 63) (c : UInt8) (t : Bytes) :
    (name ++ [c] ++ t).take 64 = name ++ [c] ++ t.take (63 - name.length) := by
  have hlen' : (name ++ [c]).length = name.length + 1 := by simp
  rw [List.take_append, List.take_of_length_le (by omega), hlen']
  congr 2
  omega

theorem agreeingParts_iff (early d : Bool) (name : Bytes) {parts : List (UInt8 × Bytes)}
    (hlen : name.length ≤ 63)
    (h : ∀ part ∈ parts, isAlnum part.1 = true ∧ ∀ c ∈ part.2, isGap c = true) :
    ((name ++ filterKept (early || d) (joined parts)).take 64).rdropWhile isGap =
        ((name ++ partsKept (!early && d) parts).rdropWhile isGap).take 64 ↔
      AgreeingParts early d name.length parts := by
  induction parts generalizing d name with
  | nil =>
    have hshort : (name.rdropWhile isGap).length ≤ 64 := by
      have := (List.rdropWhile_prefix isGap name).length_le
      omega
    simp only [AgreeingParts, joined_nil, filterKept, partsKept, List.append_nil, iff_true]
    rw [List.take_of_length_le (by omega), List.take_of_length_le hshort]
  | cons part rest ih =>
    obtain ⟨c, gap⟩ := part
    have hc : isAlnum c = true := (h (c, gap) (by simp)).1
    have hgap : ∀ e ∈ gap, isGap e = true := (h (c, gap) (by simp)).2
    have hrest : ∀ part ∈ rest, isAlnum part.1 = true ∧ ∀ c ∈ part.2, isGap c = true :=
      fun part hpart => h part (List.mem_cons_of_mem _ hpart)
    have hcgap := isGap_of_isAlnum hc
    have hdot : c ≠ 46 := by
      rintro rfl
      cases hcgap
    have htrim := rdropWhile_append_word hcgap name
    have htake := take_append_word hlen c
    rw [filterKept_joined_cons _ hdot, partsKept_cons, Bool.or_assoc, ← List.append_assoc name,
      ← List.append_assoc name, htrim, htake, htake, htrim, List.append_cancel_left_eq, AgreeingParts]
    by_cases hend : rest = []
    · subst hend
      have hall : ∀ t : Bytes, (∀ e ∈ t, isGap e = true) → t.rdropWhile isGap = [] :=
        fun t => List.rdropWhile_eq_nil_iff.mpr
      have hleft : ∀ e ∈ (filterKept (early || d) gap).take (63 - name.length), isGap e = true :=
        fun e he => hgap e (mem_of_mem_filterKept (List.mem_of_mem_take he))
      simp [filterKept, partsKept, hall _ hleft, hall _ (Reference.isGap_of_mem_gapKept hgap)]
    by_cases hfull : 63 ≤ name.length
    · simp [hfull, Nat.sub_eq_zero_of_le hfull]
    obtain ⟨⟨c', gap'⟩, rest', rfl⟩ := List.exists_cons_of_ne_nil hend
    have hc' := isGap_of_isAlnum (hrest (c', gap') (by simp)).1
    simp only [hend, hfull, false_or]
    rw [agreeingGap_iff hgap]
    by_cases hagree : filterKept (early || d) gap = gapKept (!early && d) gap
    · have hgapLength := length_gapKept hgap hagree
      rw [hagree, dot_gapKept hagree, ← hgapLength]
      by_cases hroom : (gapKept (!early && d) gap).length = 0 ∨ name.length ≠ 62
      · have hlong : (name ++ [c] ++ gapKept (!early && d) gap).length =
            name.length + 1 + (gapKept (!early && d) gap).length := by simp; omega
        have hle := Reference.length_gapKept_le (!early && d) gap
        have := ih (d || decide (46 ∈ gap)) (name ++ [c] ++ gapKept (!early && d) gap) (by omega) hrest
        rw [List.append_assoc (name ++ [c]), List.append_assoc (name ++ [c]), htake, htrim, htrim,
          htake, List.append_cancel_left_eq, hlong] at this
        rw [this]
        exact ⟨fun hparts => ⟨rfl, hroom, hparts⟩, fun hparts => hparts.2.2⟩
      · -- the 64th character is a dot or a hyphen: one filter strips it, the other one keeps it
        refine iff_of_false (fun heq => ?_) fun hparts => hroom hparts.2.1
        rw [not_or, not_not] at hroom
        obtain ⟨z, t, hz⟩ := List.exists_cons_of_ne_nil (List.length_eq_zero_iff.not.mp hroom.1)
        have hzgap : isGap z = true :=
          Reference.isGap_of_mem_gapKept hgap z (by rw [hz]; exact List.mem_cons_self)
        rw [hroom.2, hz, partsKept, rdropWhile_append_cons _ _ hc'] at heq
        have hstrip : [z].rdropWhile isGap = [] := by simp [List.rdropWhile, hzgap]
        simp [hstrip] at heq
    · refine iff_of_false (fun heq => ?_) fun hparts => hagree hparts.1
      have hdot' : c' ≠ 46 := by
        rintro rfl
        cases hc'
      rw [joined_cons, filterKept, if_neg hdot', partsKept, rdropWhile_append_cons _ _ hc'] at heq
      exact rdropWhile_take_ne (by omega) hc' (fun e he => hgap e (mem_of_mem_filterKept he))
        (Reference.isGap_of_mem_gapKept hgap) (Reference.length_gapKept_le _ _) hagree heq

/-- `network_clean_hostname` gives the name of the reference exactly for the names of which both
filters keep the same. -/
theorem networkCleanHostname_eq_iff (src : Bytes) :
    networkCleanHostname (some src) = Reference.cleanHostname src ↔ AgreeingName src := by
  have hparts := parts_separated isAlnum isGap src
  have hfront := gap_of_mem_separated isAlnum isGap src
  have hskip : ∀ (st : Bytes × Bool) (c : UInt8), isAlnum c = false → isGap c = false →
      cleanStep st c = st := by
    intro st c hword hgap
    rw [cleanStep, if_pos (Or.inr (by simp [isNameChar_eq, hword, hgap]))]
  rw [networkCleanHostname_eq, Reference.cleanHostname_eq, foldl_separated hskip,
    List.foldl_append, foldl_cleanStep_front false hfront, Bool.false_or, AgreeingName]
  cases hsplit : (separated isAlnum isGap src).2 with
  | nil => exact iff_of_true rfl trivial
  | cons part parts =>
    obtain ⟨c, gap⟩ := part
    rw [hsplit] at hparts
    have hword := (hparts (c, gap) (by simp)).1
    have hcgap := isGap_of_isAlnum hword
    have hdot : c ≠ 46 := by
      rintro rfl
      cases hcgap
    have hiff := agreeingParts_iff (decide (46 ∈ (separated isAlnum isGap src).1)) false []
      (by decide) hparts
    have hchars : ∀ e ∈ gap ++ joined parts, isNameChar e = true := by
      intro e he
      rw [isNameChar_eq]
      rcases List.mem_append.mp he with hin | hin
      · rw [(hparts (c, gap) (by simp)).2 e hin, Bool.or_true]
      · obtain ⟨part, hpart, hmem⟩ := List.mem_flatMap.mp hin
        have hof := hparts part (List.mem_cons_of_mem _ hpart)
        rcases List.mem_cons.mp hmem with rfl | hmem
        · rw [hof.1, Bool.true_or]
        · rw [hof.2 e hmem, Bool.or_true]
    have hfold := foldl_cleanStep_take (decide (46 ∈ (separated isAlnum isGap src).1))
      (List.cons_ne_nil c []) (by simp) hchars
    have hkept : (joined ((c, gap) :: parts)).foldl cleanStep
        ([], decide (46 ∈ (separated isAlnum isGap src).1)) =
        (gap ++ joined parts).foldl cleanStep
          ([c], decide (46 ∈ (separated isAlnum isGap src).1)) := by
      rw [joined_cons, List.foldl_cons, cleanStep_first _ (by simp [isNameChar_eq, hword]) hcgap]
    rw [hkept, hfold]
    rw [joined_cons, filterKept, if_neg hdot] at hiff
    have hne : (([c] ++ filterKept (decide (46 ∈ (separated isAlnum isGap src).1))
        (gap ++ joined parts)).take 64).rdropWhile isGap ≠ [] := by
      intro hnil
      have := List.rdropWhile_eq_nil_iff.mp hnil c (by simp)
      rw [hcgap] at this
      cases this
    rw [if_neg hne, if_neg (List.cons_ne_nil _ _)]
    simpa using hiff

/-- Repeated hyphens are kept, and dropped by the reference. -/
theorem networkCleanHostname_ne_reference :
    ¬ ∀ src : Bytes, (∀ c ∈ src, c ≠ 0 ∧ c < 128) →
      networkCleanHostname (some src) = Reference.cleanHostname src := by
  intro h
  exact absurd (h (ascii "a--b") (by decide)) (by decide)

/-- A dot in front of the name is dropped, and still counts as the only one. -/
example : ¬ AgreeingName (ascii ".wsl.local") := by decide

end WslFreeBSD.Hvinit
