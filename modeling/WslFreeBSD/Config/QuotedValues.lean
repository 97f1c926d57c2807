import WslFreeBSD.Config.CommonFile

/-!
# Quoted values

A string between quotes, with an escape for each of the five characters that have one. The scan for
the closing quote and `wsl_conf_unescape` both take the text of one character at a time
(`quotedText_escapedByte`, `wslConfUnescape_escapedByte`), so they agree on where an escape ends, and
`wsl_conf_extract_value` gives the string back (`wslConfExtractValue_quotedValue`). Every other
character stands for itself, a carriage return or a space in front of the closing quote as well.
-/

namespace WslFreeBSD.Config

open Lib

/-! ## Escapes -/

def Escape.of (c : UInt8) : Option Escape :=
  if c = 92 then some .backslash
  else if c = 34 then some .quote
  else if c = 10 then some .newline
  else if c = 9 then some .tab
  else if c = 8 then some .backspace
  else none

def escapedByte (c : UInt8) : Bytes :=
  match Escape.of c with
  | some e => [92, e.letter]
  | none => [c]

def quotedValue (v : Bytes) : Bytes := 34 :: (v.flatMap escapedByte ++ [34])

theorem Escape.of_eq_some {c : UInt8} {e : Escape} : Escape.of c = some e ↔ e.meaning = c := by
  unfold Escape.of
  constructor
  · intro h
    split_ifs at h <;> cases h <;> exact Eq.symm ‹_›
  · rintro rfl
    cases e <;> rfl

theorem Escape.of_eq_none {c : UInt8} (h : Escape.of c = none) : c ≠ 34 ∧ c ≠ 92 ∧ c ≠ 10 := by
  refine ⟨?_, ?_, ?_⟩
  all_goals
    rintro rfl
    cases h

/-! ## The two readings of a backslash -/

theorem wslConfUnescape_escapedByte (c : UInt8) (s : Bytes) :
    wslConfUnescape (escapedByte c ++ s) = c :: wslConfUnescape s := by
  unfold escapedByte
  cases he : Escape.of c with
  | none => exact wslConfUnescape_cons (Escape.of_eq_none he).2.1 s
  | some e =>
    obtain rfl := Escape.of_eq_some.mp he
    exact wslConfUnescape_item (.escape e) s

theorem quotedText_escapedByte (c : UInt8) (s : Bytes) :
    quotedText (escapedByte c ++ s) = escapedByte c ++ quotedText s := by
  unfold escapedByte
  cases he : Escape.of c with
  | none =>
    obtain ⟨hquote, hback, -⟩ := Escape.of_eq_none he
    exact quotedText_cons hquote hback s
  | some e => exact quotedText_item (.escape e) s

theorem wslConfUnescape_escaped (v : Bytes) : wslConfUnescape (v.flatMap escapedByte) = v := by
  induction v with
  | nil => rfl
  | cons c v ih => rw [List.flatMap_cons, wslConfUnescape_escapedByte, ih]

theorem quotedText_escaped (v after : Bytes) :
    quotedText (v.flatMap escapedByte ++ 34 :: after) = v.flatMap escapedByte := by
  induction v with
  | nil =>
    rw [List.flatMap_nil, List.nil_append, quotedText.eq_2 _ _ (by simp)]
    exact if_pos rfl
  | cons c v ih => rw [List.flatMap_cons, List.append_assoc, quotedText_escapedByte, ih]

/-! ## Lines -/

theorem quotedValue_append (v after : Bytes) :
    quotedValue v ++ after = 34 :: (v.flatMap escapedByte ++ 34 :: after) := by
  simp [quotedValue]

/-- The text behind `=`: what is stripped stands in front of the first quote or behind the last. -/
theorem valueOf_quotedValue (spaces : Blanks) (v after : Bytes) :
    valueOf (wslConfStrip (spaces.val ++ (quotedValue v ++ after))) = v := by
  rw [quotedValue_append, wslConfStrip_append_cons spaces rfl, rdropWhile_append_cons _ _ rfl,
    valueOf.eq_2, quotedText_escaped, wslConfUnescape_escaped]

theorem wslConfExtractValue_quotedValue {key : Bytes} (hkey : 61 ∉ key) (spaces : Blanks)
    (v after : Bytes) :
    wslConfExtractValue (key ++ 61 :: (spaces.val ++ (quotedValue v ++ after))) = some v := by
  have hname : ∀ c ∈ key, decide (c ≠ 61) = true := by
    intro c hc
    rw [decide_eq_true_iff]
    rintro rfl
    exact hkey hc
  rw [wslConfExtractValue, if_neg (by simp), List.dropWhile_append_of_pos hname,
    List.dropWhile_cons_of_neg (by simp), List.tail_cons, valueOf_quotedValue]

/-- Backslashes in front of a quote, and a quote and a `=` in the comment. -/
theorem wslConfExtractValue_quotedValue_backslashes :
    61 ∉ ascii "command " ∧
      wslConfExtractValue (ascii "command " ++ 61 ::
        (ascii " " ++ (quotedValue (ascii "a\\\\\"\t \r") ++ ascii " # \"x\" = 1"))) =
      some (ascii "a\\\\\"\t \r") :=
  have hkey : 61 ∉ ascii "command " := by decide
  ⟨hkey, wslConfExtractValue_quotedValue hkey ⟨ascii " ", by decide⟩ _ _⟩

theorem Escape.letter_ne (e : Escape) : e.letter ≠ 10 ∧ e.letter ≠ 0 := by
  cases e <;> decide

theorem mem_escapedByte {c d : UInt8} (h : c ∈ escapedByte d) : c ≠ 10 ∧ (c = 0 → d = 0) := by
  unfold escapedByte at h
  cases he : Escape.of d with
  | none =>
    rw [he] at h
    obtain rfl := List.mem_singleton.mp h
    exact ⟨(Escape.of_eq_none he).2.2, id⟩
  | some e =>
    rw [he] at h
    rcases List.mem_pair.mp h with rfl | rfl
    · exact ⟨by decide, fun hzero => absurd hzero (by decide)⟩
    · exact ⟨e.letter_ne.1, fun hzero => absurd hzero e.letter_ne.2⟩

theorem mem_quotedValue {v : Bytes} {c : UInt8} (h : c ∈ quotedValue v) :
    c ≠ 10 ∧ (c = 0 → 0 ∈ v) := by
  have hmem : c = 34 ∨ ∃ d ∈ v, c ∈ escapedByte d := by
    simpa [quotedValue, or_comm, or_assoc] using h
  rcases hmem with rfl | ⟨d, hd, hc⟩
  · exact ⟨by decide, fun hzero => absurd hzero (by decide)⟩
  · obtain ⟨hbreak, hnul⟩ := mem_escapedByte hc
    exact ⟨hbreak, fun hzero => hnul hzero ▸ hd⟩

def quotedLine (key : Word) (before spaces : Blanks) (v after : Bytes) : Bytes :=
  (key.val ++ before.val) ++ 61 :: (spaces.val ++ (quotedValue v ++ after))

/-- What the loop hands to `wsl_conf_extract_value` is stripped already. -/
theorem keyValue_quotedLine (key : Word) (before spaces : Blanks) {v after : Bytes} (hv : 0 ∉ v)
    (hafter : 0 ∉ after) : keyValue (quotedLine key before spaces v after) = some (key.val, v) := by
  have hvalue : 0 ∉ quotedValue v := fun hmem => hv ((mem_quotedValue hmem).2 rfl)
  have htext : lineText (quotedLine key before spaces v after) = (key.val ++ before.val) ++
      61 :: (spaces.val ++ (quotedValue v ++ after.rdropWhile isTrailing)) := by
    obtain ⟨c, s, hkey, hc⟩ := key.exists_cons
    have hfront := wslConfStrip_append_cons ⟨[], by simp⟩ (isAlnum_spec hc).2.1
      ((s ++ before.val ++ 61 :: (spaces.val ++ 34 :: v.flatMap escapedByte)) ++ 34 :: after)
    rw [rdropWhile_append_cons _ _ rfl] at hfront
    rw [lineText, cString_of_not_mem, quotedLine, hkey]
    · simpa [quotedValue] using hfront
    · have hspace := spaces.nul_not_mem
      have hblank := before.nul_not_mem
      have hname : 0 ∉ key.val := key.not_mem rfl
      simp [quotedLine, hspace, hblank, hname, hvalue, hafter]
  rw [keyValue_of_lineText key before _ htext, valueOf_quotedValue]

theorem assigns_quotedLine {f : Field} {ls : List Bytes} (hsection : InSection f ls) {key : Word}
    (hkey : eqIgnoringCase key.val (ascii f.entry.key) = true) (before spaces : Blanks) {v after : Bytes}
    (hv : 0 ∉ v) (hafter : 0 ∉ after) :
    Assigns f ls (quotedLine key before spaces v after) v :=
  ⟨hsection, key.val, keyValue_quotedLine key before spaces hv hafter, hkey⟩

theorem break_not_mem_quotedLine (key : Word) (before spaces : Blanks) (v : Bytes) {after : Bytes}
    (hafter : 10 ∉ after) : 10 ∉ quotedLine key before spaces v after := by
  have hname : 10 ∉ key.val := key.not_mem rfl
  have hbefore : 10 ∉ before.val := fun hmem => Blanks.ne hmem rfl rfl
  have hspaces : 10 ∉ spaces.val := fun hmem => Blanks.ne hmem rfl rfl
  have hvalue : 10 ∉ quotedValue v := fun hmem => (mem_quotedValue hmem).1 rfl
  simp [quotedLine, hname, hbefore, hspaces, hvalue, hafter]

end WslFreeBSD.Config
