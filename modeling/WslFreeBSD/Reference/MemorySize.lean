import WslFreeBSD.Lib.Strtoull

/-!
# Memory sizes of the reference

`ParseMemorySize` of `stringshared.h`. It reads a decimal number with a unit (`IsMemorySize`), but the
number goes through `strtoull`, which also skips blanks and a sign and bounds what is too large, and the
product with the unit wraps around. `parseMemorySize_eq_some_iff` says what is returned for every text,
and `parseMemorySize_correct_iff` for which texts that is right.
-/

namespace WslFreeBSD.Reference

open Lib
open CharType (code)

/-- The code of the character of a literal `T('K')`. -/
def codes (s : String) : List Nat := s.toList.map Char.toNat

/-- `Units` in `ParseMemorySize`. -/
def units : List (List Nat × Nat) :=
  [(codes "B", 1), (codes "KB", 2 ^ 10), (codes "MB", 2 ^ 20), (codes "GB", 2 ^ 30),
    (codes "TB", 2 ^ 40)]

variable {α : Type} [CharType α]

/-- `ParseMemorySize`. The pointers `End` and `String` are what is left of the text behind them. -/
def parseMemorySize : Option (List α) → Option Nat
  | none => none
  | some string =>
    let read := strtoull string
    let value := read.1
    let remainder := read.2.map code
    if value = 0 ∧ (string.head?.map code ≠ some 48 ∨ read.2.length + 1 ≠ string.length) then none
    else if remainder = [] then some value
    else if 2 < remainder.length then none
    else
      (units.find? fun unit => remainder = unit.1.take 1 ∨ remainder = unit.1).map fun unit =>
        value * unit.2 % 2 ^ 64

/-- The suffixes of a memory size with their factors. -/
def suffixes : List (List Nat × Nat) :=
  [(codes "", 1), (codes "B", 1), (codes "K", 2 ^ 10), (codes "KB", 2 ^ 10), (codes "M", 2 ^ 20),
    (codes "MB", 2 ^ 20), (codes "G", 2 ^ 30), (codes "GB", 2 ^ 30), (codes "T", 2 ^ 40),
    (codes "TB", 2 ^ 40)]

/-- A decimal number with a suffix, and its value in bytes. -/
def IsMemorySize (s : List α) (bytes : Nat) : Prop :=
  ∃ (digits suffix : List α) (factor : Nat), s = digits ++ suffix ∧ digits ≠ [] ∧
    (∀ c ∈ digits, isDigit c = true) ∧ (suffix.map code, factor) ∈ suffixes ∧
    bytes = digitsValue digits * factor ∧ bytes < 2 ^ 64

/-- A text that consists of a number with everything that `strtoull` skips, and a suffix. -/
structure SizedNumeral (s lead digits suffix : List α) (negative : Bool) (factor : Nat) : Prop where
  text : s = lead ++ (digits ++ suffix)
  lead : Lead lead negative
  nonempty : digits ≠ []
  digit : ∀ c ∈ digits, isDigit c = true
  suffix : (suffix.map code, factor) ∈ suffixes

/-! ## What is returned -/

theorem suffixes_not_digit : ∀ unit ∈ suffixes, ∀ c ∈ unit.1.head?, ¬ (48 ≤ c ∧ c ≤ 57) := by decide

theorem suffixes_length_le : ∀ unit ∈ suffixes, unit.1.length ≤ 2 := by decide

theorem suffixes_factor_pos : ∀ unit ∈ suffixes, 0 < unit.2 := by decide

theorem suffixes_unique : ∀ unit ∈ suffixes, ∀ other ∈ suffixes, unit.1 = other.1 → unit.2 = other.2 := by
  decide

theorem SizedNumeral.numeral {s lead digits suffix : List α} {negative : Bool} {factor : Nat}
    (h : SizedNumeral s lead digits suffix negative factor) :
    Numeral s lead digits suffix negative := by
  refine ⟨h.text, h.lead, h.nonempty, h.digit, fun c hc => ?_⟩
  have hnot := suffixes_not_digit _ h.suffix (code c)
    (by rw [List.head?_map, Option.mem_def.mp hc]; rfl)
  by_contra hdigit
  exact hnot (isDigit_iff.mp (by simpa using hdigit))

theorem SizedNumeral.unique {s lead digits suffix lead' digits' suffix' : List α}
    {negative negative' : Bool} {factor factor' : Nat}
    (h : SizedNumeral s lead digits suffix negative factor)
    (h' : SizedNumeral s lead' digits' suffix' negative' factor') :
    lead = lead' ∧ digits = digits' ∧ factor = factor' := by
  obtain ⟨hlead, hdigits, hsuffix, -⟩ := h.numeral.unique h'.numeral
  exact ⟨hlead, hdigits, suffixes_unique _ h.suffix _ h'.suffix (congrArg (List.map code) hsuffix)⟩

/-- The loop over `Units` finds the suffixes that are not empty. -/
theorem find_units {remainder : List Nat} (hne : remainder ≠ []) (factor : Nat) :
    ((units.find? fun unit => remainder = unit.1.take 1 ∨ remainder = unit.1).map Prod.snd = some factor) ↔
      (remainder, factor) ∈ suffixes := by
  constructor
  · intro h
    obtain ⟨unit, hunit, rfl⟩ := Option.map_eq_some_iff.mp h
    have hall : ∀ unit ∈ units, (unit.1.take 1, unit.2) ∈ suffixes ∧ unit ∈ suffixes := by decide
    obtain ⟨hshort, hlong⟩ := hall unit (List.mem_of_find?_eq_some hunit)
    have hfound := List.find?_some hunit
    rcases of_decide_eq_true hfound with heq | heq
    · rwa [heq]
    · rwa [heq]
  · intro h
    have hall : ∀ unit ∈ suffixes, unit.1 ≠ [] →
        (units.find? fun other => unit.1 = other.1.take 1 ∨ unit.1 = other.1).map Prod.snd =
          some unit.2 := by decide
    exact hall _ h hne

theorem zero_check {s lead digits rest : List α} {negative : Bool}
    (h : Numeral s lead digits rest negative) (hzero : digitsValue digits = 0) :
    (s.head?.map code ≠ some 48 ∨ rest.length + 1 ≠ s.length) ↔ ¬ (lead = [] ∧ digits.length = 1) := by
  have hlen : s.length = lead.length + digits.length + rest.length := by
    rw [h.text, List.length_append, List.length_append, Nat.add_assoc]
  have hpos : 0 < digits.length := List.length_pos_of_ne_nil h.nonempty
  rw [ne_eq, ne_eq, ← not_and_or, not_iff_not]
  constructor
  · rintro ⟨-, hend⟩
    refine ⟨List.length_eq_zero_iff.mp ?_, ?_⟩ <;> omega
  · rintro ⟨rfl, hone⟩
    obtain ⟨c, rfl⟩ := List.length_eq_one_iff.mp hone
    have hc := isDigit_iff.mp (h.digit c (by simp))
    rw [digitsValue_singleton] at hzero
    refine ⟨?_, by simp only [List.length_nil] at hlen; omega⟩
    rw [h.text]
    exact congrArg some (by omega : code c = 48)

theorem parseMemorySize_of_sizedNumeral {s lead digits suffix : List α} {negative : Bool}
    {factor : Nat} (h : SizedNumeral s lead digits suffix negative factor) :
    parseMemorySize (some s) =
      if digitsValue digits = 0 ∧ ¬ (lead = [] ∧ digits.length = 1) then none
      else some (toULL negative (digitsValue digits) * factor % 2 ^ 64) := by
  have hread := strtoull_numeral h.numeral
  have hlength := suffixes_length_le _ h.suffix
  simp only [parseMemorySize, hread, toULL_eq_zero_iff]
  by_cases hbad : digitsValue digits = 0 ∧ ¬ (lead = [] ∧ digits.length = 1)
  · rw [if_pos hbad, if_pos ⟨hbad.1, (zero_check h.numeral hbad.1).mpr hbad.2⟩]
  · rw [if_neg hbad, if_neg fun hcheck => hbad ⟨hcheck.1, (zero_check h.numeral hcheck.1).mp hcheck.2⟩]
    by_cases hsuffix : suffix.map code = []
    · have hone : factor = 1 := suffixes_unique _ h.suffix (codes "", 1) (by decide) hsuffix
      rw [if_pos hsuffix, hone, Nat.mul_one, Nat.mod_eq_of_lt (toULL_lt _ _)]
    · obtain ⟨unit, hunit, hfactor⟩ := Option.map_eq_some_iff.mp ((find_units hsuffix factor).mpr h.suffix)
      rw [if_neg hsuffix, if_neg (Nat.not_lt.mpr hlength), hunit, Option.map_some, hfactor]

theorem exists_sizedNumeral {s : List α} {v : Nat} (h : parseMemorySize (some s) = some v) :
    ∃ (lead digits suffix : List α) (negative : Bool) (factor : Nat),
      SizedNumeral s lead digits suffix negative factor := by
  by_contra hnot
  by_cases hnumeral : ∃ lead digits rest negative, Numeral s lead digits rest negative
  · obtain ⟨lead, digits, rest, negative, hn⟩ := hnumeral
    have hunknown : ∀ factor, (rest.map code, factor) ∉ suffixes := fun factor hmem =>
      hnot ⟨lead, digits, rest, negative, factor, hn.text, hn.lead, hn.nonempty, hn.digit, hmem⟩
    have hrest : rest.map code ≠ [] := fun hnil => hunknown 1 (by rw [hnil]; decide)
    simp only [parseMemorySize, strtoull_numeral hn] at h
    rw [if_neg hrest] at h
    split at h
    · cases h
    · split at h
      · cases h
      · obtain ⟨unit, hunit, -⟩ := Option.map_eq_some_iff.mp h
        exact hunknown unit.2 ((find_units hrest unit.2).mp (by rw [hunit]; rfl))
  · simp only [not_exists] at hnumeral
    simp only [parseMemorySize, strtoull_of_not_numeral hnumeral] at h
    rw [if_pos ⟨trivial, Or.inr (Nat.succ_ne_self _)⟩] at h
    cases h

/-- Every value that is returned, and for which texts: a number of several zeros is the only one that
is not read. -/
theorem parseMemorySize_eq_some_iff (s : List α) (v : Nat) :
    parseMemorySize (some s) = some v ↔
      ∃ (lead digits suffix : List α) (negative : Bool) (factor : Nat),
        SizedNumeral s lead digits suffix negative factor ∧
        (digitsValue digits = 0 → lead = [] ∧ digits.length = 1) ∧
        v = toULL negative (digitsValue digits) * factor % 2 ^ 64 := by
  constructor
  · intro h
    obtain ⟨lead, digits, suffix, negative, factor, hs⟩ := exists_sizedNumeral h
    rw [parseMemorySize_of_sizedNumeral hs] at h
    split at h
    · cases h
    · next hgood =>
      rw [not_and, not_not] at hgood
      exact ⟨lead, digits, suffix, negative, factor, hs, hgood, (Option.some.inj h).symm⟩
  · rintro ⟨lead, digits, suffix, negative, factor, hs, hgood, rfl⟩
    rw [parseMemorySize_of_sizedNumeral hs, if_neg fun hbad => hbad.2 (hgood hbad.1)]

/-! ## For which texts it is right -/

/-- A number is not 0, has nothing in front of it and fits with its unit; or it is 0 and one digit long
or has something in front of it. -/
def PlainSize (s : List α) : Prop :=
  ∀ (lead digits suffix : List α) (negative : Bool) (factor : Nat),
    SizedNumeral s lead digits suffix negative factor →
      if digitsValue digits = 0 then lead ≠ [] ∨ digits.length = 1
      else lead = [] ∧ digitsValue digits * factor < 2 ^ 64

theorem SizedNumeral.isMemorySize_iff {s lead digits suffix : List α} {negative : Bool} {factor : Nat}
    (h : SizedNumeral s lead digits suffix negative factor) (v : Nat) :
    IsMemorySize s v ↔ lead = [] ∧ v = digitsValue digits * factor ∧ v < 2 ^ 64 := by
  constructor
  · rintro ⟨digits', suffix', factor', rfl, hne, hdigit, hmem, hv, hfits⟩
    have hplain : SizedNumeral (digits' ++ suffix') [] digits' suffix' false factor' :=
      ⟨rfl, Lead.nil, hne, hdigit, hmem⟩
    obtain ⟨rfl, rfl, rfl⟩ := h.unique hplain
    exact ⟨rfl, hv, hfits⟩
  · rintro ⟨rfl, hv, hfits⟩
    exact ⟨digits, suffix, factor, h.text, h.nonempty, h.digit, h.suffix, hv, hfits⟩

theorem SizedNumeral.plainSize_iff {s lead digits suffix : List α} {negative : Bool} {factor : Nat}
    (h : SizedNumeral s lead digits suffix negative factor) :
    PlainSize s ↔
      if digitsValue digits = 0 then lead ≠ [] ∨ digits.length = 1
      else lead = [] ∧ digitsValue digits * factor < 2 ^ 64 := by
  constructor
  · intro hplain
    exact hplain lead digits suffix negative factor h
  · intro hcond lead' digits' suffix' negative' factor' h'
    obtain ⟨rfl, rfl, rfl⟩ := h.unique h'
    exact hcond

theorem toULL_mul_of_lt {n factor : Nat} (hfactor : 0 < factor) (hfits : n * factor < 2 ^ 64) :
    toULL false n * factor % 2 ^ 64 = n * factor := by
  have hn : n < 2 ^ 64 := lt_of_le_of_lt (Nat.le_mul_of_pos_right n hfactor) hfits
  rw [toULL_of_lt hn, Nat.mod_eq_of_lt hfits]

/-- `ParseMemorySize` reads exactly the memory sizes, for exactly the texts in which a number with a
suffix is plain. -/
theorem parseMemorySize_correct_iff (s : List α) :
    (∀ v, parseMemorySize (some s) = some v ↔ IsMemorySize s v) ↔ PlainSize s := by
  by_cases hsized : ∃ (lead digits suffix : List α) (negative : Bool) (factor : Nat),
      SizedNumeral s lead digits suffix negative factor
  · obtain ⟨lead, digits, suffix, negative, factor, h⟩ := hsized
    have hfactor := suffixes_factor_pos _ h.suffix
    simp only [h.plainSize_iff, h.isMemorySize_iff, parseMemorySize_of_sizedNumeral h]
    by_cases hzero : digitsValue digits = 0
    · rw [if_pos hzero, hzero, toULL_eq_zero_iff.mpr rfl, Nat.zero_mul, Nat.zero_mod]
      by_cases hlead : lead = []
      · by_cases hone : digits.length = 1
        · refine iff_of_true (fun v => ?_) (Or.inr hone)
          simp only [hlead, hone, not_true_eq_false, and_false, and_self, if_false, true_and]
          rw [Option.some_inj]
          omega
        · -- several zeros are a memory size, and are not read
          refine iff_of_false (fun hall => ?_) (by simp [hlead, hone])
          have hread := (hall 0).mpr ⟨hlead, rfl, by decide⟩
          simp [hone] at hread
      · refine iff_of_true (fun v => ?_) (Or.inl hlead)
        simp [hlead]
    · have hread : ¬ (digitsValue digits = 0 ∧ ¬ (lead = [] ∧ digits.length = 1)) :=
        fun hbad => hzero hbad.1
      simp only [if_neg hzero, if_neg hread, Option.some_inj]
      constructor
      · intro hall
        obtain ⟨hlead, hvalue, hfits⟩ := (hall _).mp rfl
        exact ⟨hlead, hvalue ▸ hfits⟩
      · rintro ⟨rfl, hfits⟩ v
        rw [h.lead.eq_false_of_nil, toULL_mul_of_lt hfactor hfits]
        exact ⟨fun hv => ⟨rfl, hv.symm, hv ▸ hfits⟩, fun hv => hv.2.1.symm⟩
  · refine iff_of_true (fun v => iff_of_false (fun h => hsized (exists_sizedNumeral h)) ?_) ?_
    · rintro ⟨digits, suffix, factor, htext, hne, hdigit, hmem, -⟩
      exact hsized ⟨[], digits, suffix, false, factor, htext, Lead.nil, hne, hdigit, hmem⟩
    · intro lead digits suffix negative factor h
      exact absurd ⟨lead, digits, suffix, negative, factor, h⟩ hsized

/-- 16777216 terabytes are 2^64 bytes, and become 0. -/
theorem parseMemorySize_wraps :
    ¬ ∀ (s : Bytes) (v : Nat), parseMemorySize (some s) = some v ↔ IsMemorySize s v := by
  intro hall
  have hsized : SizedNumeral (ascii "16777216TB") [] (ascii "16777216") (ascii "TB") false (2 ^ 40) :=
    ⟨by decide, Lead.nil, by decide, by decide, by decide⟩
  have hread : parseMemorySize (some (ascii "16777216TB")) = some 0 := by
    rw [parseMemorySize_of_sizedNumeral hsized]
    decide
  have hvalue := (hsized.isMemorySize_iff 0).mp ((hall _ 0).mp hread)
  exact absurd hvalue.2.1 (by decide)

end WslFreeBSD.Reference
