import WslFreeBSD.Lib.Scanf

/-!
# `strtoul`

`strtoul(s, &end, 16)` skips blanks, a sign and a mark `0x` before the digits, and stops at the
first character that is no digit. So it finds a number in more texts than those that consist of
digits: `strtoulHex_parts` lists the parts of such a text, and `strtoulHex_of_parts` finds the
number again.
-/

namespace WslFreeBSD.Lib

/-- `strtoul(s, &end, 16)` with a 64-bit `unsigned long`: the number and the text at `end`, or nothing
if there are no digits. A number that is too large becomes the largest one, whatever its sign. -/
def strtoulHex (s : Bytes) : Option (Nat × Bytes) :=
  let signed := dropSign (s.dropWhile isSpace)
  let body := dropHexMark signed.2
  let digits := body.takeWhile isHexDigit
  let n := hexAcc 0 digits
  if digits = [] then none
  else
    some (if 2 ^ 64 ≤ n then 2 ^ 64 - 1 else if signed.1 then (2 ^ 64 - n) % 2 ^ 64 else n,
      body.dropWhile isHexDigit)

/-- The value that `strtoul` returns for a number without a sign. -/
def saturated (n : Nat) : Nat := if 2 ^ 64 ≤ n then 2 ^ 64 - 1 else n

theorem saturated_of_lt {n : Nat} (h : n < 2 ^ 64) : saturated n = n :=
  if_neg (Nat.not_le.mpr h)

/-! ## The parts of a number -/

/-- What may stand in front of the digits. -/
inductive NumberLead : Bytes → Prop where
  | parts {blanks sign mark : Bytes} (hblanks : ∀ c ∈ blanks, isSpace c = true)
    (hsign : sign = [] ∨ sign = [43] ∨ sign = [45])
    (hmark : mark = [] ∨ mark = [48, 120] ∨ mark = [48, 88]) : NumberLead (blanks ++ sign ++ mark)

/-- One or more hexadecimal digits. -/
structure HexNumber where
  digits : Bytes
  nonempty : digits ≠ []
  hex : ∀ c ∈ digits, isHexDigit c = true

def HexNumber.value (n : HexNumber) : Nat := hexAcc 0 n.digits

theorem hexVal_lt {c : UInt8} {d : Nat} (h : hexVal c = some d) : d < 16 := by
  have hall : ∀ c : UInt8, ∀ d ∈ hexVal c, d < 16 := forall_char (by decide +kernel)
  exact hall c d h

theorem hexAcc_lt (acc : Nat) (s : Bytes) : hexAcc acc s < (acc + 1) * 16 ^ s.length := by
  induction s generalizing acc with
  | nil => simp [hexAcc]
  | cons c cs ih =>
    have hgrow : (acc + 1) * 16 * 16 ^ cs.length = (acc + 1) * 16 ^ (c :: cs).length := by
      rw [List.length_cons, Nat.pow_succ', Nat.mul_assoc]
    unfold hexAcc
    split
    · rename_i d hd
      have hlt := hexVal_lt hd
      calc hexAcc (16 * acc + d) cs < (16 * acc + d + 1) * 16 ^ cs.length := ih _
        _ ≤ (acc + 1) * 16 * 16 ^ cs.length := Nat.mul_le_mul_right _ (by omega)
        _ = (acc + 1) * 16 ^ (c :: cs).length := hgrow
    · calc acc < acc + 1 := Nat.lt_succ_self acc
        _ ≤ (acc + 1) * 16 ^ (c :: cs).length := Nat.le_mul_of_pos_right _ (Nat.pow_pos (by decide))

theorem HexNumber.value_lt (n : HexNumber) : n.value < 16 ^ n.digits.length := by
  have h := hexAcc_lt 0 n.digits
  rwa [Nat.zero_add, Nat.one_mul] at h

theorem isHexDigit_spec {c : UInt8} (h : isHexDigit c = true) :
    isSpace c = false ∧ c ≠ 43 ∧ c ≠ 45 ∧ c ≠ 47 ∧ c ≠ 120 ∧ c ≠ 88 := by
  have hall : ∀ c : UInt8, isHexDigit c = true →
      isSpace c = false ∧ c ≠ 43 ∧ c ≠ 45 ∧ c ≠ 47 ∧ c ≠ 120 ∧ c ≠ 88 :=
    forall_char (by decide +kernel)
  exact hall c h

theorem NumberLead.slash_not_mem {lead : Bytes} (h : NumberLead lead) : 47 ∉ lead := by
  obtain ⟨hblanks, hsign, hmark⟩ := h
  intro hmem
  rcases List.mem_append.mp hmem with hmem | hmem
  · rcases List.mem_append.mp hmem with hmem | hmem
    · exact absurd (hblanks 47 hmem) (by decide)
    · rcases hsign with rfl | rfl | rfl <;> exact absurd hmem (by decide)
  · rcases hmark with rfl | rfl | rfl <;> exact absurd hmem (by decide)

theorem NumberLead.eq_nil {lead : Bytes} (h : NumberLead lead)
    (hex : ∀ c ∈ lead, isHexDigit c = true) : lead = [] := by
  obtain ⟨hblanks, hsign, hmark⟩ := h
  rename_i blanks sign mark
  have hb : blanks = [] := by
    refine List.eq_nil_iff_forall_not_mem.mpr fun c hc => ?_
    have hspace := (isHexDigit_spec (hex c (by simp [hc]))).1
    rw [hblanks c hc] at hspace
    cases hspace
  have hs : sign = [] := by
    rcases hsign with rfl | rfl | rfl
    · rfl
    · exact absurd (hex 43 (by simp)) (by decide)
    · exact absurd (hex 45 (by simp)) (by decide)
  have hm : mark = [] := by
    rcases hmark with rfl | rfl | rfl
    · rfl
    · exact absurd (hex 120 (by simp)) (by decide)
    · exact absurd (hex 88 (by simp)) (by decide)
  rw [hb, hs, hm]
  rfl

theorem dropSign_parts (s : Bytes) :
    ∃ sign, s = sign ++ (dropSign s).2 ∧ (sign = [] ∨ sign = [43] ∨ sign = [45]) ∧
      (sign = [] → (dropSign s).1 = false) := by
  unfold dropSign
  split
  · exact ⟨[43], rfl, Or.inr (Or.inl rfl), fun h => absurd h (List.cons_ne_nil _ _)⟩
  · exact ⟨[45], rfl, Or.inr (Or.inr rfl), fun h => absurd h (List.cons_ne_nil _ _)⟩
  · exact ⟨[], rfl, Or.inl rfl, fun _ => rfl⟩

theorem dropHexMark_parts (s : Bytes) :
    ∃ mark, s = mark ++ dropHexMark s ∧ (mark = [] ∨ mark = [48, 120] ∨ mark = [48, 88]) := by
  unfold dropHexMark
  split
  · rename_i x d s
    split
    · rename_i h
      rcases h.1 with rfl | rfl
      · exact ⟨[48, 120], rfl, Or.inr (Or.inl rfl)⟩
      · exact ⟨[48, 88], rfl, Or.inr (Or.inr rfl)⟩
    · exact ⟨[], rfl, Or.inl rfl⟩
  · exact ⟨[], rfl, Or.inl rfl⟩

theorem endsNumber_dropWhile (s : Bytes) : EndsNumber (s.dropWhile isHexDigit) := by
  intro c hc
  have hnot := List.head?_dropWhile_not isHexDigit s
  cases hrest : s.dropWhile isHexDigit with
  | nil =>
    rw [hrest] at hc
    cases hc
  | cons d rest =>
    rw [hrest] at hc hnot
    obtain rfl : d = c := by simpa using hc
    have hd : isHexDigit d = false := by simpa using hnot
    simpa [isHexDigit] using hd

/-- Where `strtoul` finds a number, it stands behind what may be skipped. -/
theorem strtoulHex_parts {s rest : Bytes} {v : Nat} (h : strtoulHex s = some (v, rest)) :
    ∃ (lead : Bytes) (n : HexNumber), s = lead ++ n.digits ++ rest ∧ NumberLead lead ∧
      EndsNumber rest ∧ (lead = [] → v = saturated n.value) := by
  obtain ⟨sign, hs, hsign, hplus⟩ := dropSign_parts (s.dropWhile isSpace)
  obtain ⟨mark, hm, hmark⟩ := dropHexMark_parts (dropSign (s.dropWhile isSpace)).2
  unfold strtoulHex at h
  dsimp only at h
  split at h
  · cases h
  · rename_i hne
    obtain ⟨hv, hrest⟩ := by simpa only [Option.some.injEq, Prod.mk.injEq] using h
    set body := dropHexMark (dropSign (s.dropWhile isSpace)).2 with hbody
    refine ⟨s.takeWhile isSpace ++ sign ++ mark,
      ⟨body.takeWhile isHexDigit, hne, fun c hc => List.mem_takeWhile_imp hc⟩, ?_, ?_, ?_, ?_⟩
    · calc s = s.takeWhile isSpace ++ s.dropWhile isSpace := List.takeWhile_append_dropWhile.symm
        _ = s.takeWhile isSpace ++ (sign ++ (mark ++ body)) := by rw [← hm, ← hs]
        _ = s.takeWhile isSpace ++ (sign ++ (mark ++ (body.takeWhile isHexDigit ++ rest))) := by
          rw [← hrest, List.takeWhile_append_dropWhile]
        _ = _ := by simp only [List.append_assoc]
    · exact .parts (fun c hc => List.mem_takeWhile_imp hc) hsign hmark
    · rw [← hrest]
      exact endsNumber_dropWhile body
    · intro hlead
      have hnil : sign = [] := (List.append_eq_nil_iff.mp (List.append_eq_nil_iff.mp hlead).1).2
      rw [← hv, hplus hnil]
      rfl

/-! ## Finding the number again -/

theorem HexNumber.exists_cons (n : HexNumber) (rest : Bytes) :
    ∃ c t, isHexDigit c = true ∧ n.digits ++ rest = c :: t := by
  obtain ⟨c, cs, hcs⟩ := List.exists_cons_of_ne_nil n.nonempty
  exact ⟨c, cs ++ rest, n.hex c (hcs ▸ List.mem_cons_self), by rw [hcs, List.cons_append]⟩

theorem dropSign_of_digit {c : UInt8} (hc : isHexDigit c = true) (s : Bytes) :
    dropSign (c :: s) = (false, c :: s) := by
  obtain ⟨-, hplus, hminus, -⟩ := isHexDigit_spec hc
  unfold dropSign
  split
  · rename_i heq
    exact absurd (List.cons.inj heq).1 hplus
  · rename_i heq
    exact absurd (List.cons.inj heq).1 hminus
  · rfl

theorem dropHexMark_of_mark {mark : Bytes} (hmark : mark = [48, 120] ∨ mark = [48, 88]) {c : UInt8}
    (hc : isHexDigit c = true) (s : Bytes) : dropHexMark (mark ++ c :: s) = c :: s := by
  rcases hmark with rfl | rfl
  · exact if_pos ⟨Or.inl rfl, hc⟩
  · exact if_pos ⟨Or.inr rfl, hc⟩

/-- Digits have no mark in front of them, unless an `x` comes after a single zero. -/
theorem dropHexMark_digits (n : HexNumber) {rest : Bytes}
    (hrest : ∀ c ∈ rest.head?, c ≠ 120 ∧ c ≠ 88) :
    dropHexMark (n.digits ++ rest) = n.digits ++ rest := by
  unfold dropHexMark
  split
  · rename_i x d s heq
    have hx : x ≠ 120 ∧ x ≠ 88 := by
      cases hd : n.digits with
      | nil => exact absurd hd n.nonempty
      | cons a as =>
        rw [hd, List.cons_append] at heq
        have htail := (List.cons.inj heq).2
        cases as with
        | nil => exact hrest x (by rw [show rest = x :: d :: s from htail]; rfl)
        | cons b bs =>
          obtain rfl : b = x := (List.cons.inj htail).1
          have hhex := isHexDigit_spec (n.hex b (by rw [hd]; simp))
          exact ⟨hhex.2.2.2.2.1, hhex.2.2.2.2.2⟩
    rw [if_neg (fun h => h.1.elim hx.1 hx.2), heq]
  · rfl

theorem dropWhile_lead {blanks sign mark : Bytes} (hblanks : ∀ c ∈ blanks, isSpace c = true)
    (hsign : sign = [] ∨ sign = [43] ∨ sign = [45])
    (hmark : mark = [] ∨ mark = [48, 120] ∨ mark = [48, 88]) {c : UInt8} (hc : isHexDigit c = true)
    (s : Bytes) :
    (blanks ++ sign ++ mark ++ c :: s).dropWhile isSpace = sign ++ (mark ++ c :: s) := by
  rw [List.append_assoc, List.append_assoc, List.dropWhile_append_of_pos hblanks]
  have hspace : isSpace c = false := (isHexDigit_spec hc).1
  rcases hsign with rfl | rfl | rfl <;> rcases hmark with rfl | rfl | rfl
  · rw [List.nil_append, List.nil_append, List.dropWhile_cons, hspace]
    rfl
  all_goals rfl

theorem dropSign_lead {sign mark : Bytes} (hsign : sign = [] ∨ sign = [43] ∨ sign = [45])
    (hmark : mark = [] ∨ mark = [48, 120] ∨ mark = [48, 88]) {c : UInt8} (hc : isHexDigit c = true)
    (s : Bytes) : (dropSign (sign ++ (mark ++ c :: s))).2 = mark ++ c :: s := by
  rcases hsign with rfl | rfl | rfl
  · rcases hmark with rfl | rfl | rfl
    · rw [List.nil_append, List.nil_append, dropSign_of_digit hc]
    · rfl
    · rfl
  · rfl
  · rfl

/-- `strtoul` gets as far as the digits. -/
theorem strtoulHex_eq_of_body {s : Bytes} {c : UInt8} {t : Bytes}
    (hbody : dropHexMark (dropSign (s.dropWhile isSpace)).2 = c :: t) (hc : isHexDigit c = true) :
    ∃ v, strtoulHex s = some (v, (c :: t).dropWhile isHexDigit) := by
  have hne : (c :: t).takeWhile isHexDigit ≠ [] := by
    rw [List.takeWhile_cons, hc]
    exact List.cons_ne_nil _ _
  unfold strtoulHex
  dsimp only
  rw [hbody, if_neg hne]
  exact ⟨_, rfl⟩

theorem dropWhile_digits (n : HexNumber) {rest : Bytes} (hrest : EndsNumber rest) :
    (n.digits ++ rest).dropWhile isHexDigit = rest := by
  rw [List.dropWhile_append_of_pos n.hex]
  cases rest with
  | nil => rfl
  | cons c rest =>
    have hc : hexVal c = none := hrest c rfl
    rw [List.dropWhile_cons, isHexDigit, hc]
    rfl

theorem takeWhile_digits (n : HexNumber) {rest : Bytes} (hrest : EndsNumber rest) :
    (n.digits ++ rest).takeWhile isHexDigit = n.digits := by
  rw [List.takeWhile_append_of_pos n.hex]
  cases rest with
  | nil => simp
  | cons c rest =>
    have hc : hexVal c = none := hrest c rfl
    simp [isHexDigit, hc]

theorem strtoulHex_isSome {lead : Bytes} (hlead : NumberLead lead) (n : HexNumber) (rest : Bytes) :
    ∃ v rest', strtoulHex (lead ++ n.digits ++ rest) = some (v, rest') := by
  obtain ⟨hblanks, hsign, hmark⟩ := hlead
  obtain ⟨c, t, hc, hct⟩ := n.exists_cons rest
  rename_i blanks sign mark
  have hbody : ∃ c' t', isHexDigit c' = true ∧ dropHexMark (mark ++ c :: t) = c' :: t' := by
    rcases hmark with rfl | hmark
    · -- a zero in front of `x` and a digit is itself a mark
      rw [List.nil_append]
      unfold dropHexMark
      split
      · rename_i x d s heq
        split
        · rename_i h
          exact ⟨d, s, h.2, rfl⟩
        · exact ⟨48, x :: d :: s, rfl, rfl⟩
      · exact ⟨c, t, hc, rfl⟩
    · exact ⟨c, t, hc, dropHexMark_of_mark hmark hc t⟩
  obtain ⟨c', t', hc', hbody⟩ := hbody
  rw [List.append_assoc, hct]
  have hdrop : dropHexMark (dropSign ((blanks ++ sign ++ mark ++ c :: t).dropWhile isSpace)).2 =
      c' :: t' := by
    rw [dropWhile_lead hblanks hsign hmark hc, dropSign_lead hsign hmark hc, hbody]
  obtain ⟨v, hv⟩ := strtoulHex_eq_of_body hdrop hc'
  exact ⟨v, _, hv⟩

theorem strtoulHex_of_parts {lead : Bytes} (hlead : NumberLead lead) (n : HexNumber) {rest : Bytes}
    (hends : EndsNumber rest) (hrest : ∀ c ∈ rest.head?, c ≠ 120 ∧ c ≠ 88) :
    ∃ v, strtoulHex (lead ++ n.digits ++ rest) = some (v, rest) := by
  obtain ⟨hblanks, hsign, hmark⟩ := hlead
  obtain ⟨c, t, hc, hct⟩ := n.exists_cons rest
  rename_i blanks sign mark
  have hbody : dropHexMark (mark ++ c :: t) = c :: t := by
    rcases hmark with rfl | hmark
    · rw [List.nil_append, ← hct]
      exact dropHexMark_digits n hrest
    · exact dropHexMark_of_mark hmark hc t
  rw [List.append_assoc, hct]
  have hdrop : dropHexMark (dropSign ((blanks ++ sign ++ mark ++ c :: t).dropWhile isSpace)).2 =
      c :: t := by
    rw [dropWhile_lead hblanks hsign hmark hc, dropSign_lead hsign hmark hc, hbody]
  obtain ⟨v, hv⟩ := strtoulHex_eq_of_body hdrop hc
  rw [← hct, dropWhile_digits n hends] at hv
  rw [hct] at hv
  exact ⟨v, hv⟩

theorem strtoulHex_digits (n : HexNumber) {rest : Bytes} (hends : EndsNumber rest)
    (hrest : ∀ c ∈ rest.head?, c ≠ 120 ∧ c ≠ 88) :
    strtoulHex (n.digits ++ rest) = some (saturated n.value, rest) := by
  obtain ⟨c, t, hc, hct⟩ := n.exists_cons rest
  have hspace : (n.digits ++ rest).dropWhile isSpace = n.digits ++ rest := by
    rw [hct, List.dropWhile_cons, (isHexDigit_spec hc).1]
    rfl
  have hsign : dropSign (n.digits ++ rest) = (false, n.digits ++ rest) := by
    rw [hct, dropSign_of_digit hc]
  unfold strtoulHex
  dsimp only
  rw [hspace, hsign]
  dsimp only
  rw [dropHexMark_digits n hrest, takeWhile_digits n hends, dropWhile_digits n hends,
    if_neg n.nonempty]
  rfl

end WslFreeBSD.Lib
