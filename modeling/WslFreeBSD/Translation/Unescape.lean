import WslFreeBSD.Lib.Utf8
import WslFreeBSD.Translation.Escape

/-!
# What is unescaped

`UnescapePathInplace` on strings that were not made by `EscapePathForNt`. It tests single bits of the second and
of the third byte behind 0xEF, so that each character from U+F000 to U+FFFF is taken for an escape sequence if
its lower byte needs to be escaped: the full-width colon U+FF1A is replaced by the control character 0x1A.

On an escaped path it is the inverse of `EscapePathForNt` up to the separators (`escapePathForNt_spec`).
-/

namespace WslFreeBSD.Translation

open Lib

/-! ## Escaped paths -/

/-- A character that cannot be in the name of a file on NTFS. -/
def illegalInNtfs (c : UInt8) : Bool := c < 32 || c ∈ ascii "\"*/:<>?\\|"

def toNtSeparator (c : UInt8) : UInt8 := if c = 47 then 92 else c

theorem escapePathForNt_eq (path : Bytes) : escapePathForNt path = escapeWith toNtSeparator path := by
  refine List.flatMap_congr fun c _ => ?_
  unfold escapePathChar toNtSeparator
  by_cases hslash : c = 47
  · subst hslash
    rfl
  · rw [if_neg hslash, if_neg hslash]
    cases escapeCharNeedsEscape c <;> rfl

theorem toNtSeparator_of_needed : ∀ c : UInt8, escapeCharNeedsEscape c = true → toNtSeparator c = c :=
  forall_char (by decide +kernel)

theorem legal_escapePathChar :
    ∀ c : UInt8, ∀ d ∈ escapePathChar c, illegalInNtfs d = true → d = 92 :=
  forall_char (by decide +kernel)

/-- An escaped path has the length that is asked for, no character that is illegal but the separators, and
is the path again when it is unescaped. -/
theorem escapePathForNt_spec {path : Bytes} (hnul : 0 ∉ path) (hplain : 0xef ∉ path) :
    (escapePathForNt path).length = escapePathForNtLength path ∧
      (∀ c ∈ escapePathForNt path, illegalInNtfs c = true → c = 92) ∧
      (unescapePathInplace (escapePathForNt path)).takeWhile (· ≠ 0) = path.map toNtSeparator := by
  refine ⟨length_escapePathForNt path, fun c hc => ?_, ?_⟩
  · obtain ⟨d, -, hc⟩ := List.mem_flatMap.mp hc
    exact legal_escapePathChar d c hc
  · have hcopy : ∀ c ∈ path, toNtSeparator c ≠ 0 ∧ toNtSeparator c ≠ 0xef := by
      intro c hc
      unfold toNtSeparator
      split
      · exact ⟨by decide, by decide⟩
      · exact ⟨ne_of_mem_of_not_mem hc hnul, ne_of_mem_of_not_mem hc hplain⟩
    rw [escapePathForNt_eq]
    exact takeWhile_unescape_escapeWith hcopy toNtSeparator_of_needed

theorem escapePathForNt_spec_colon :
    (escapePathForNt (ascii "/a:b")).length = 6 ∧ (∀ c ∈ escapePathForNt (ascii "/a:b"),
      illegalInNtfs c = true → c = 92) ∧
      (unescapePathInplace (escapePathForNt (ascii "/a:b"))).takeWhile (· ≠ 0) = ascii "\\a:b" := by
  have h := @escapePathForNt_spec (ascii "/a:b") (by decide) (by decide)
  have hlength : escapePathForNtLength (ascii "/a:b") = 6 := by decide
  have hmap : (ascii "/a:b").map toNtSeparator = ascii "\\a:b" := by decide
  rwa [hlength, hmap] at h

/-! ## Strings that stay -/

theorem startsSequence_append_zero {c : UInt8} (text rest : Bytes) :
    StartsSequence c (text ++ 0 :: rest) ↔ StartsSequence c text := by
  have hzero : (0 : UInt8) &&& escapeCharBase = 0 := by decide
  unfold StartsSequence unescapedChar
  cases text with
  | nil => simp [hzero]
  | cons d text =>
    cases text with
    | nil => simp [hzero]
    | cons e text => rfl

theorem unescapeFrom_text {text : Bytes} (h : holdsEscape text = false) (n : Nat) (rest : Bytes) :
    unescapeFrom n (text ++ 0 :: rest) = text ++ 0 :: rest := by
  induction n generalizing text with
  | zero => cases text <;> rfl
  | succ n ih =>
    cases text with
    | nil => simp [unescapeFrom]
    | cons c text =>
      rw [holdsEscape, Bool.or_eq_false_iff, decide_eq_false_iff_not] at h
      rw [List.cons_append]
      by_cases hzero : c = 0
      · rw [unescapeFrom, if_pos hzero, hzero]
      · rw [unescapeFrom_cons hzero (mt (startsSequence_append_zero text rest).mp h.1), ih h.2]

theorem unescapeFrom_take_ne {text : Bytes} (hnul : 0 ∉ text) (h : holdsEscape text = true) {n : Nat}
    (hn : text.length ≤ n) (rest : Bytes) : (unescapeFrom n (text ++ 0 :: rest)).take text.length ≠ text := by
  induction text generalizing n with
  | nil => exact absurd h (by decide)
  | cons c text ih =>
    obtain ⟨n, rfl⟩ : ∃ k, n = k + 1 := ⟨n - 1, by rw [List.length_cons] at hn; omega⟩
    have hc : c ≠ 0 := fun heq => hnul (heq ▸ List.mem_cons_self)
    rw [List.cons_append, List.length_cons]
    by_cases hstart : StartsSequence c (text ++ 0 :: rest)
    · rw [unescapeFrom, if_neg hc, if_pos hstart, List.take_succ_cons]
      obtain ⟨rfl, -, -, hneeds⟩ := hstart
      intro heq
      rw [(List.cons.inj heq).1] at hneeds
      exact absurd hneeds (by decide)
    · rw [unescapeFrom_cons hc hstart, List.take_succ_cons]
      rw [holdsEscape, decide_eq_false (mt (startsSequence_append_zero text rest).mpr hstart),
        Bool.false_or] at h
      intro heq
      exact ih (fun hmem => hnul (List.mem_cons_of_mem c hmem)) h (Nat.le_of_succ_le_succ hn)
        (List.cons.inj heq).2

theorem exists_text (string : Bytes) :
    ∃ rest, string ++ [0] = string.takeWhile (· ≠ 0) ++ 0 :: rest := by
  have hsplit := List.takeWhile_append_dropWhile (p := fun c : UInt8 => decide (c ≠ 0)) (l := string)
  cases hdrop : string.dropWhile (· ≠ 0) with
  | nil =>
    refine ⟨[], ?_⟩
    rw [hdrop, List.append_nil] at hsplit
    rw [hsplit]
  | cons c rest =>
    have hc : c = 0 := by
      have hhead := List.head?_dropWhile_not (fun c : UInt8 => decide (c ≠ 0)) string
      rw [hdrop] at hhead
      simpa using hhead
    refine ⟨rest ++ [0], ?_⟩
    rw [hdrop, hc] at hsplit
    conv_lhs => rw [← hsplit]
    rw [List.append_assoc]
    rfl

theorem unescapePathInplace_eq_self_iff (string : Bytes) :
    unescapePathInplace string = string ↔ holdsEscape (string.takeWhile (· ≠ 0)) = false := by
  obtain ⟨rest, hrest⟩ := exists_text string
  have hprefix := List.takeWhile_prefix (fun c : UInt8 => decide (c ≠ 0)) (l := string)
  have hlength := hprefix.length_le
  constructor
  · intro hself
    by_contra hholds
    rw [Bool.not_eq_false] at hholds
    have hnul : 0 ∉ string.takeWhile (· ≠ 0) := by
      intro hmem
      exact absurd (List.mem_takeWhile_imp hmem) (by decide)
    refine unescapeFrom_take_ne hnul hholds hlength rest ?_
    have htake := congrArg (List.take (string.takeWhile (· ≠ 0)).length) hself
    rw [unescapePathInplace, hrest, List.take_take, Nat.min_eq_left hlength] at htake
    rw [htake]
    exact (List.prefix_iff_eq_take.mp hprefix).symm
  · intro hholds
    rw [unescapePathInplace, hrest, unescapeFrom_text hholds, ← hrest]
    exact List.take_left

/-! ## Characters that are taken for sequences -/

/-- A character of which the three bytes are unescaped. -/
def TakenForEscape (c : Char) : Prop :=
  0xf000 ≤ c.toNat ∧ c.toNat ≤ 0xffff ∧ escapeCharNeedsEscape (UInt8.ofNat c.toNat) = true

instance (c : Char) : Decidable (TakenForEscape c) := inferInstanceAs (Decidable (_ ∧ _ ∧ _))

theorem unescapedChar_of_bytes : ∀ x < 64, ∀ y < 64,
    (UInt8.ofNat (x + 0x80) <<< 6) ||| (UInt8.ofNat (y + 0x80) &&& 0x3f) = UInt8.ofNat (64 * x + y) := by
  decide +kernel

theorem and_escapeCharBase_of_continues : ∀ x < 64, UInt8.ofNat (x + 0x80) &&& escapeCharBase ≠ 0 := by
  decide

theorem startsSequence_three {c : Char} (hlow : 0x800 ≤ c.toNat) (hhigh : c.toNat < 0x10000) (rest : Bytes) :
    StartsSequence (UInt8.ofNat (c.toNat / 4096 % 16 + 0xe0))
      (UInt8.ofNat (c.toNat / 64 % 64 + 0x80) :: UInt8.ofNat (c.toNat % 64 + 0x80) :: rest) ↔
      TakenForEscape c := by
  have hfirst : ∀ x < 16, UInt8.ofNat (x + 0xe0) = 0xef ↔ x = 15 := by decide
  have hx : c.toNat / 64 % 64 < 64 := Nat.mod_lt _ (by decide)
  have hy : c.toNat % 64 < 64 := Nat.mod_lt _ (by decide)
  have hchar : unescapedChar
      (UInt8.ofNat (c.toNat / 64 % 64 + 0x80) :: UInt8.ofNat (c.toNat % 64 + 0x80) :: rest) =
      UInt8.ofNat c.toNat := by
    refine (unescapedChar_of_bytes _ hx _ hy).trans ?_
    rw [← UInt8.toNat_inj, UInt8.toNat_ofNat', UInt8.toNat_ofNat']
    omega
  unfold StartsSequence TakenForEscape
  rw [hchar, hfirst _ (Nat.mod_lt _ (by decide))]
  constructor
  · rintro ⟨hef, -, -, hneeds⟩
    exact ⟨by omega, by omega, hneeds⟩
  · rintro ⟨hf000, -, hneeds⟩
    exact ⟨by omega, and_escapeCharBase_of_continues _ hx, and_escapeCharBase_of_continues _ hy, hneeds⟩

theorem holdsEscape_continues {bytes : Bytes} (h : ∀ b ∈ bytes, Continues b) (rest : Bytes) :
    holdsEscape (bytes ++ rest) = holdsEscape rest := by
  induction bytes with
  | nil => rfl
  | cons b bytes ih =>
    have hne : b ≠ 0xef := (h b List.mem_cons_self).ne (Or.inr (by decide))
    rw [List.cons_append, holdsEscape, decide_eq_false fun hstart => hne hstart.1, Bool.false_or,
      ih fun d hd => h d (List.mem_cons_of_mem b hd)]

theorem holdsEscape_encoded {c : Char} {bytes : Bytes} (h : Encoded c bytes) (rest : Bytes) :
    holdsEscape (bytes ++ rest) = (decide (TakenForEscape c) || holdsEscape rest) := by
  obtain ⟨first, continued, rfl, hcontinues⟩ := h.shape
  rw [List.cons_append, holdsEscape, holdsEscape_continues hcontinues]
  congr 1
  refine decide_eq_decide.mpr ?_
  -- only a character of three bytes starts with 0xef
  have hnot {n : Nat} (hfirst : UInt8.ofNat n ≠ 0xef) (hc : ¬ TakenForEscape c) (memory : Bytes) :
      StartsSequence (UInt8.ofNat n) memory ↔ TakenForEscape c :=
    ⟨fun hstart => absurd hstart.1 hfirst, fun htaken => absurd htaken hc⟩
  cases h with
  | one h =>
    have hone : ∀ n < 0x80, UInt8.ofNat n ≠ 0xef := by decide
    exact hnot (hone _ h) (fun htaken => absurd htaken.1 (by omega)) _
  | two h hc =>
    have htwo : ∀ n < 32, UInt8.ofNat (n + 0xc0) ≠ 0xef := by decide
    exact hnot (htwo _ (Nat.mod_lt _ (by decide))) (fun htaken => absurd htaken.1 (by omega)) _
  | three h hc => exact startsSequence_three h hc rest
  | four h =>
    have hfour : ∀ n < 8, UInt8.ofNat (n + 0xf0) ≠ 0xef := by decide
    exact hnot (hfour _ (Nat.mod_lt _ (by decide))) (fun htaken => absurd htaken.2.1 (by omega)) _

theorem holdsEscape_utf8 (text : List Char) :
    holdsEscape (utf8 text) = false ↔ ∀ c ∈ text, ¬ TakenForEscape c := by
  induction text with
  | nil => simp [holdsEscape]
  | cons c text ih =>
    rw [utf8_cons, holdsEscape_encoded (encoded c), Bool.or_eq_false_iff, decide_eq_false_iff_not, ih,
      List.forall_mem_cons]

/-- A text in UTF-8 stays as it is exactly if none of its characters, up to the first NUL, is from U+F000 to
U+FFFF with a lower byte that needs to be escaped. -/
theorem unescapePathInplace_utf8_iff (text : List Char) :
    unescapePathInplace (utf8 text) = utf8 text ↔
      ∀ c ∈ text.takeWhile (·.toNat ≠ 0), ¬ TakenForEscape c := by
  rw [unescapePathInplace_eq_self_iff, utf8_takeWhile, holdsEscape_utf8]

/-- A full-width colon. -/
theorem unescapePathInplace_fullwidth :
    ¬ ∀ text : List Char, (∀ c ∈ text, ¬ (0xf000 ≤ c.toNat ∧ c.toNat ≤ 0xf07f)) →
      unescapePathInplace (utf8 text) = utf8 text := by
  intro h
  have hnumber : (Char.ofNat 0xff1a).toNat = 0xff1a := rfl
  have hcolon := h [Char.ofNat 0xff1a] (by
    intro c hc
    rw [List.mem_singleton.mp hc, hnumber]
    omega)
  revert hcolon
  decide

end WslFreeBSD.Translation
