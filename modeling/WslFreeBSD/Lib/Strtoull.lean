import Mathlib.Data.List.TakeWhile
import WslFreeBSD.Lib.CText

/-!
# `strtoull` with base 10

`strtoull(s, &end, 10)` skips blanks and a sign in front of the digits. It is the same function for
`char` and `wchar_t`, so the text is a list over a character type. `Numeral` lists the parts of a text
in which a number is found; `strtoull_numeral` and `strtoull_of_not_numeral` say what is returned.
-/

namespace WslFreeBSD.Lib

/-- A character type of C: the codes of its characters, and which of them are blank. -/
class CharType (α : Type) where
  code : α → Nat
  code_injective : Function.Injective code
  isBlank : α → Bool
  not_blank : ∀ c, code c = 43 ∨ code c = 45 ∨ (48 ≤ code c ∧ code c ≤ 57) → isBlank c = false

open CharType (code isBlank)

theorem toNat_injective : Function.Injective UInt8.toNat := fun _ _ => UInt8.toNat_inj.mp

theorem isSpace_eq_false (c : UInt8)
    (h : c.toNat = 43 ∨ c.toNat = 45 ∨ (48 ≤ c.toNat ∧ c.toNat ≤ 57)) : isSpace c = false := by
  have h32 : ¬ c.toNat = 32 := by omega
  have hctl : ¬ (9 ≤ c.toNat ∧ c.toNat ≤ 13) := by omega
  rw [isSpace, Bool.or_eq_false_iff, decide_eq_false_iff_not, Bool.and_eq_false_iff,
    decide_eq_false_iff_not, decide_eq_false_iff_not, ← UInt8.toNat_inj, UInt8.le_iff_toNat_le,
    UInt8.le_iff_toNat_le, ← not_and_or]
  exact ⟨h32, hctl⟩

/-- `char` in the C locale. -/
instance : CharType UInt8 where
  code := UInt8.toNat
  code_injective := toNat_injective
  isBlank := isSpace
  not_blank := isSpace_eq_false

variable {α : Type} [CharType α]

def isDigit (c : α) : Bool := 48 ≤ code c && code c ≤ 57

def digitsValue (digits : List α) : Nat := digits.foldl (fun acc c => 10 * acc + (code c - 48)) 0

/-- Whether there is a minus, and the text behind the sign. -/
def dropSignChar : List α → Bool × List α
  | [] => (false, [])
  | c :: s => if code c = 43 then (false, s) else if code c = 45 then (true, s) else (false, c :: s)

/-- The 64-bit result for a number: one that is too large becomes the largest, whatever its sign. -/
def toULL (negative : Bool) (n : Nat) : Nat :=
  if 2 ^ 64 ≤ n then 2 ^ 64 - 1 else if negative then (2 ^ 64 - n) % 2 ^ 64 else n

/-- `strtoull(s, &end, 10)`: the number and the text at `end`, which is all of `s` if there are no
digits. -/
def strtoull (s : List α) : Nat × List α :=
  let signed := dropSignChar (s.dropWhile isBlank)
  let digits := signed.2.takeWhile isDigit
  if digits = [] then (0, s) else (toULL signed.1 (digitsValue digits), signed.2.dropWhile isDigit)

theorem toULL_eq_zero_iff {negative : Bool} {n : Nat} : toULL negative n = 0 ↔ n = 0 := by
  unfold toULL
  split
  · omega
  · split
    · omega
    · rfl

theorem toULL_of_lt {n : Nat} (h : n < 2 ^ 64) : toULL false n = n := by
  rw [toULL, if_neg (Nat.not_le.mpr h), if_neg Bool.false_ne_true]

/-! ## The parts of a text with a number -/

/-- What may stand in front of the digits, and whether it ends with a minus. -/
inductive Lead : List α → Bool → Prop where
  | blanks {s : List α} (h : ∀ c ∈ s, isBlank c = true) : Lead s false
  | sign {s : List α} {c : α} (h : ∀ c ∈ s, isBlank c = true) (hc : code c = 43 ∨ code c = 45) :
    Lead (s ++ [c]) (decide (code c = 45))

/-- A text in which a number is found. -/
structure Numeral (s lead digits rest : List α) (negative : Bool) : Prop where
  text : s = lead ++ (digits ++ rest)
  lead : Lead lead negative
  nonempty : digits ≠ []
  digit : ∀ c ∈ digits, isDigit c = true
  ends : ∀ c ∈ rest.head?, isDigit c = false

theorem isDigit_iff {c : α} : isDigit c = true ↔ 48 ≤ code c ∧ code c ≤ 57 := by simp [isDigit]

theorem isBlank_of_isDigit {c : α} (h : isDigit c = true) : isBlank c = false :=
  CharType.not_blank c (Or.inr (Or.inr (isDigit_iff.mp h)))

theorem dropSignChar_of_isDigit {c : α} (h : isDigit c = true) (s : List α) :
    dropSignChar (c :: s) = (false, c :: s) := by
  have hc := isDigit_iff.mp h
  rw [dropSignChar, if_neg (by omega), if_neg (by omega)]

theorem Lead.nil : Lead ([] : List α) false := .blanks (List.forall_mem_nil _)

theorem Lead.dropSignChar {lead : List α} {negative : Bool} (h : Lead lead negative) {c : α}
    (hc : isDigit c = true) (s : List α) :
    dropSignChar ((lead ++ c :: s).dropWhile isBlank) = (negative, c :: s) := by
  cases h with
  | blanks hblanks =>
    rw [List.dropWhile_append_of_pos hblanks,
      List.dropWhile_cons_of_neg (by rw [isBlank_of_isDigit hc]; decide), dropSignChar_of_isDigit hc]
  | @sign blanks d hblanks hd =>
    have hblank : isBlank d = false := by
      apply CharType.not_blank
      omega
    rw [List.append_assoc, List.dropWhile_append_of_pos hblanks, List.singleton_append,
      List.dropWhile_cons_of_neg (by rw [hblank]; decide), Lib.dropSignChar]
    rcases hd with hplus | hminus
    · simp [hplus]
    · simp [hminus]

theorem takeWhile_isDigit {digits rest : List α} (hdigit : ∀ c ∈ digits, isDigit c = true)
    (hends : ∀ c ∈ rest.head?, isDigit c = false) :
    (digits ++ rest).takeWhile isDigit = digits ∧ (digits ++ rest).dropWhile isDigit = rest := by
  rw [List.takeWhile_append_of_pos hdigit, List.dropWhile_append_of_pos hdigit]
  cases rest with
  | nil => exact ⟨by simp, rfl⟩
  | cons c rest =>
    have hc : ¬ isDigit c = true := by rw [hends c rfl]; decide
    rw [List.takeWhile_cons_of_neg hc, List.dropWhile_cons_of_neg hc, List.append_nil]
    exact ⟨rfl, rfl⟩

theorem strtoull_numeral {s lead digits rest : List α} {negative : Bool}
    (h : Numeral s lead digits rest negative) :
    strtoull s = (toULL negative (digitsValue digits), rest) := by
  obtain ⟨rfl, hlead, hne, hdigit, hends⟩ := h
  obtain ⟨c, cs, rfl⟩ := List.exists_cons_of_ne_nil hne
  obtain ⟨htake, hdrop⟩ := takeWhile_isDigit hdigit hends
  have hsign := hlead.dropSignChar (hdigit c List.mem_cons_self) (cs ++ rest)
  rw [← List.cons_append] at hsign
  unfold strtoull
  simp only [hsign, htake, hdrop]
  rw [if_neg hne]

theorem exists_lead (s : List α) :
    ∃ lead, Lead lead (dropSignChar (s.dropWhile isBlank)).1 ∧
      s = lead ++ (dropSignChar (s.dropWhile isBlank)).2 := by
  have hsplit : s = s.takeWhile isBlank ++ s.dropWhile isBlank := List.takeWhile_append_dropWhile.symm
  have hblanks : ∀ c ∈ s.takeWhile isBlank, isBlank c = true := fun c hc => List.mem_takeWhile_imp hc
  generalize s.dropWhile isBlank = body at hsplit
  generalize s.takeWhile isBlank = blanks at hsplit hblanks
  subst hsplit
  cases body with
  | nil => exact ⟨blanks, .blanks hblanks, rfl⟩
  | cons c body =>
    rw [dropSignChar]
    split
    · next hplus =>
      have hlead := Lead.sign hblanks (Or.inl hplus)
      rw [decide_eq_false (by omega)] at hlead
      exact ⟨blanks ++ [c], hlead, by simp⟩
    · split
      · next hminus =>
        have hlead := Lead.sign hblanks (Or.inr hminus)
        rw [decide_eq_true hminus] at hlead
        exact ⟨blanks ++ [c], hlead, by simp⟩
      · exact ⟨blanks, .blanks hblanks, rfl⟩

theorem Lead.not_isDigit {lead : List α} {negative : Bool} (h : Lead lead negative) :
    ∀ c ∈ lead, isDigit c = false := by
  have hblank : ∀ c : α, isBlank c = true → isDigit c = false := by
    intro c hc
    by_contra hdigit
    rw [isBlank_of_isDigit (by simpa using hdigit)] at hc
    cases hc
  cases h with
  | blanks hblanks => exact fun c hc => hblank c (hblanks c hc)
  | @sign blanks d hblanks hd =>
    intro c hc
    rcases List.mem_append.mp hc with hc | hc
    · exact hblank c (hblanks c hc)
    · obtain rfl := List.mem_singleton.mp hc
      by_contra hdigit
      have := isDigit_iff.mp (by simpa using hdigit : isDigit c = true)
      omega

theorem Numeral.unique {s lead digits rest lead' digits' rest' : List α} {negative negative' : Bool}
    (h : Numeral s lead digits rest negative) (h' : Numeral s lead' digits' rest' negative') :
    lead = lead' ∧ digits = digits' ∧ rest = rest' ∧ negative = negative' := by
  have hparts : ∀ {lead digits rest : List α} {negative : Bool}, Numeral s lead digits rest negative →
      lead = s.takeWhile (!isDigit ·) ∧ digits = (s.dropWhile (!isDigit ·)).takeWhile isDigit ∧
        rest = (s.dropWhile (!isDigit ·)).dropWhile isDigit ∧
        negative = (Lib.dropSignChar (s.dropWhile isBlank)).1 := by
    rintro lead digits rest negative ⟨rfl, hlead, hne, hdigit, hends⟩
    obtain ⟨c, cs, rfl⟩ := List.exists_cons_of_ne_nil hne
    have hc := hdigit c List.mem_cons_self
    have hskip : ∀ d ∈ lead, (!isDigit d) = true := fun d hd => by rw [hlead.not_isDigit d hd]; rfl
    have hnone : (c :: (cs ++ rest)).takeWhile (!isDigit ·) = [] := by simp [hc]
    have hall : (c :: (cs ++ rest)).dropWhile (!isDigit ·) = c :: (cs ++ rest) := by simp [hc]
    obtain ⟨htake, hdrop⟩ := takeWhile_isDigit hdigit hends
    have hsign := hlead.dropSignChar hc (cs ++ rest)
    rw [List.takeWhile_append_of_pos hskip, List.dropWhile_append_of_pos hskip, List.cons_append,
      hnone, hall, List.append_nil, hsign, ← List.cons_append, htake, hdrop]
    exact ⟨rfl, rfl, rfl, rfl⟩
  obtain ⟨h1, h2, h3, h4⟩ := hparts h
  obtain ⟨h1', h2', h3', h4'⟩ := hparts h'
  exact ⟨h1.trans h1'.symm, h2.trans h2'.symm, h3.trans h3'.symm, h4.trans h4'.symm⟩

theorem Lead.eq_false_of_nil {negative : Bool} (h : Lead ([] : List α) negative) : negative = false := by
  generalize hs : ([] : List α) = s at h
  cases h with
  | blanks => rfl
  | sign => exact absurd hs (by simp)

theorem toULL_lt (negative : Bool) (n : Nat) : toULL negative n < 2 ^ 64 := by
  unfold toULL
  split
  · omega
  · split
    · exact Nat.mod_lt _ (by decide)
    · omega

theorem digitsValue_singleton (c : α) : digitsValue [c] = code c - 48 := by
  rw [digitsValue, List.foldl_cons, List.foldl_nil, Nat.mul_zero, Nat.zero_add]

theorem strtoull_of_not_numeral {s : List α}
    (h : ∀ lead digits rest negative, ¬ Numeral s lead digits rest negative) : strtoull s = (0, s) := by
  obtain ⟨lead, hlead, hs⟩ := exists_lead s
  unfold strtoull
  dsimp only
  generalize dropSignChar (s.dropWhile isBlank) = signed at hlead hs
  split
  · rfl
  · next hne =>
    refine absurd (Numeral.mk ?_ hlead hne (fun c hc => List.mem_takeWhile_imp hc) ?_)
      (h lead _ (signed.2.dropWhile isDigit) _)
    · rw [List.takeWhile_append_dropWhile]
      exact hs
    · intro c hc
      have hnot := List.head?_dropWhile_not isDigit signed.2
      rw [Option.mem_def.mp hc] at hnot
      simpa using hnot

end WslFreeBSD.Lib
