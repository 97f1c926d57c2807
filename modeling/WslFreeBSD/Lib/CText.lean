import WslFreeBSD.Lib.Bytes

/-!
# Text functions of the C library

`strtol`, `strtok`, `strstr` and conversions of `printf`, on byte strings. A C string ends at its
first NUL; since NUL is neither a digit nor a separator, the functions can be applied to a string
with or without it.

`strtolHex_hexFormat` reads back what `%0kX` has printed.
-/

namespace WslFreeBSD.Lib

/-! ## Hexadecimal numbers -/

def hexVal (c : UInt8) : Option Nat :=
  if 48 ≤ c ∧ c ≤ 57 then some (c.toNat - 48)
  else if 65 ≤ c ∧ c ≤ 70 then some (c.toNat - 55)
  else if 97 ≤ c ∧ c ≤ 102 then some (c.toNat - 87)
  else none

/-- The number written by the hexadecimal digits at the start of a string. -/
def hexAcc : Nat → Bytes → Nat
  | acc, [] => acc
  | acc, c :: cs =>
    match hexVal c with
    | some d => hexAcc (16 * acc + d) cs
    | none => acc

/-- `isspace` in the C locale. -/
def isSpace (c : UInt8) : Bool := c = 32 || (9 ≤ c && c ≤ 13)

def dropSign : Bytes → Bool × Bytes
  | 43 :: s => (false, s)
  | 45 :: s => (true, s)
  | s => (false, s)

/-- `0x` counts as a prefix only in front of a digit. -/
def dropHexMark : Bytes → Bytes
  | 48 :: x :: d :: s =>
    if (x = 120 ∨ x = 88) ∧ (hexVal d).isSome then d :: s else 48 :: x :: d :: s
  | s => s

/-- `strtol(s, NULL, 16)` with a 64-bit `long`. -/
def strtolHex (s : Bytes) : Int :=
  let signed := dropSign (s.dropWhile isSpace)
  let n : Int := hexAcc 0 (dropHexMark signed.2)
  if signed.1 then max (-n) (-2 ^ 63) else min n (2 ^ 63 - 1)

/-- The value of a `long` as an `int`. -/
def toInt32 (n : Int) : Int := (n + 2 ^ 31) % 2 ^ 32 - 2 ^ 31

def hexDigit (d : Nat) : UInt8 := UInt8.ofNat (if d < 10 then 48 + d else 55 + d)

/-- `%0kX` of a number with at most `k` digits. -/
def hexFormat : Nat → Nat → Bytes
  | 0, _ => []
  | k + 1, n => hexDigit (n / 16 ^ k % 16) :: hexFormat k n

def decDigit (d : Nat) : UInt8 := UInt8.ofNat (48 + d)

@[simp] theorem length_hexFormat (k n : Nat) : (hexFormat k n).length = k := by
  induction k with
  | zero => rfl
  | succ k ih => simp [hexFormat, ih]

theorem hexFormat_add (j k n : Nat) :
    hexFormat (j + k) n = hexFormat j (n / 16 ^ k) ++ hexFormat k n := by
  induction j with
  | zero => simp [hexFormat]
  | succ j ih =>
    have hdiv : n / 16 ^ (j + k) = n / 16 ^ k / 16 ^ j := by
      rw [Nat.div_div_eq_div_mul, pow_add, Nat.mul_comm]
    rw [Nat.succ_add, hexFormat, hexFormat, ih, hdiv, List.cons_append]

theorem hexDigit_spec {d : Nat} (h : d < 16) :
    hexVal (hexDigit d) = some d ∧ isSpace (hexDigit d) = false ∧ hexDigit d ≠ 43 ∧
      hexDigit d ≠ 45 ∧ hexDigit d ≠ 120 ∧ hexDigit d ≠ 88 ∧ hexDigit d ≠ 58 ∧ hexDigit d ≠ 10 := by
  have hall : ∀ d : Fin 16, hexVal (hexDigit d) = some d.val ∧ isSpace (hexDigit d) = false ∧
      hexDigit d ≠ 43 ∧ hexDigit d ≠ 45 ∧ hexDigit d ≠ 120 ∧ hexDigit d ≠ 88 ∧
      hexDigit d ≠ 58 ∧ hexDigit d ≠ 10 := by decide
  exact hall ⟨d, h⟩

theorem mem_hexFormat {k n : Nat} {c : UInt8} (h : c ∈ hexFormat k n) : ∃ d, d < 16 ∧ c = hexDigit d := by
  induction k with
  | zero => cases h
  | succ k ih =>
    rcases List.mem_cons.mp h with rfl | h
    · exact ⟨_, Nat.mod_lt _ (by decide), rfl⟩
    · exact ih h

def EndsNumber (rest : Bytes) : Prop := ∀ c ∈ rest.head?, hexVal c = none

theorem endsNumber_nil : EndsNumber [] := by simp [EndsNumber]

theorem endsNumber_colon (l : Bytes) : EndsNumber (58 :: l) := by
  intro c hc
  obtain rfl : 58 = c := by simpa using hc
  rfl

theorem hexAcc_hexFormat (acc k n : Nat) {rest : Bytes} (hr : EndsNumber rest) :
    hexAcc acc (hexFormat k n ++ rest) = acc * 16 ^ k + n % 16 ^ k := by
  induction k generalizing acc with
  | zero =>
    cases rest with
    | nil => simp [hexFormat, hexAcc, Nat.mod_one]
    | cons c rest =>
      have hc : hexVal c = none := hr c rfl
      simp [hexFormat, hexAcc, hc, Nat.mod_one]
  | succ k ih =>
    have hd : hexVal (hexDigit (n / 16 ^ k % 16)) = some (n / 16 ^ k % 16) :=
      (hexDigit_spec (Nat.mod_lt _ (by decide))).1
    simp only [hexFormat, List.cons_append, hexAcc, hd]
    rw [ih, Nat.mod_pow_succ, pow_succ]
    ring

/-- Two digits are neither blank nor a sign nor the mark `0x`. -/
theorem hexFormat_plain (k n : Nat) (rest : Bytes) :
    (hexFormat (k + 2) n ++ rest).dropWhile isSpace = hexFormat (k + 2) n ++ rest ∧
      dropSign (hexFormat (k + 2) n ++ rest) = (false, hexFormat (k + 2) n ++ rest) ∧
      dropHexMark (hexFormat (k + 2) n ++ rest) = hexFormat (k + 2) n ++ rest := by
  obtain ⟨-, hspace, hplus, hminus, -, -, -⟩ :=
    hexDigit_spec (d := n / 16 ^ (k + 1) % 16) (Nat.mod_lt _ (by decide))
  obtain ⟨-, -, -, -, hx, hX, -⟩ := hexDigit_spec (d := n / 16 ^ k % 16) (Nat.mod_lt _ (by decide))
  have hform : hexFormat (k + 2) n ++ rest = hexDigit (n / 16 ^ (k + 1) % 16) ::
      hexDigit (n / 16 ^ k % 16) :: (hexFormat k n ++ rest) := rfl
  rw [hform]
  refine ⟨?_, ?_, ?_⟩
  · rw [List.dropWhile_cons, hspace]
    rfl
  · unfold dropSign
    split
    · rename_i heq
      exact absurd (List.cons.inj heq).1 hplus
    · rename_i heq
      exact absurd (List.cons.inj heq).1 hminus
    · rfl
  · unfold dropHexMark
    split
    · rename_i x d s heq
      obtain ⟨-, hx', -⟩ := by simpa only [List.cons.injEq] using heq
      rw [if_neg, heq]
      rintro ⟨hmark | hmark, -⟩
      · exact hx (hx'.trans hmark)
      · exact hX (hx'.trans hmark)
    · rfl

theorem strtolHex_hexFormat {k n : Nat} (hk : k + 2 ≤ 15) {rest : Bytes} (hr : EndsNumber rest) :
    strtolHex (hexFormat (k + 2) n ++ rest) = (n % 16 ^ (k + 2) : Nat) := by
  obtain ⟨hskip, hsign, hmark⟩ := hexFormat_plain k n rest
  have hacc := hexAcc_hexFormat 0 (k + 2) n hr
  rw [Nat.zero_mul, Nat.zero_add] at hacc
  have hlt : n % 16 ^ (k + 2) < 16 ^ 15 :=
    lt_of_lt_of_le (Nat.mod_lt _ (Nat.pow_pos (by decide))) (Nat.pow_le_pow_right (by decide) hk)
  unfold strtolHex
  dsimp only
  rw [hskip, hsign]
  dsimp only
  rw [hmark, hacc, if_neg Bool.false_ne_true]
  omega

/-! ## Fields of a line -/

def isSep (c : UInt8) : Bool := c = 32 || c = 10

/-- `strtok(s, " \n")`: a field, and the memory after it, which starts with the NUL that
`strtok` has put in place of the separator. -/
def strtok (s : Bytes) : Option (Bytes × Bytes) :=
  let s := s.dropWhile isSep
  if s = [] then none
  else some (s.takeWhile (!isSep ·), 0 :: (s.dropWhile (!isSep ·)).drop 1)

/-- All fields of a line, each with the memory after it. -/
def fields : Nat → Bytes → List (Bytes × Bytes)
  | 0, _ => []
  | n + 1, s =>
    match strtok s with
    | none => []
    | some (field, after) => (field, after) :: fields n (after.drop 1)

theorem strtok_field {pad : Nat} {field : Bytes} (hne : field ≠ [])
    (hf : ∀ c ∈ field, isSep c = false) (rest : Bytes) :
    strtok (List.replicate pad 32 ++ field ++ 32 :: rest) = some (field, 0 :: rest) := by
  obtain ⟨c, cs, rfl⟩ := List.exists_cons_of_ne_nil hne
  have hf' : ∀ c' ∈ c :: cs, (!isSep c') = true := fun c' hc' => by rw [hf c' hc']; rfl
  have hskip : (List.replicate pad 32 ++ c :: cs ++ 32 :: rest).dropWhile isSep =
      c :: cs ++ 32 :: rest := by
    rw [List.append_assoc, List.dropWhile_append_of_pos, List.cons_append, List.dropWhile_cons,
      hf c List.mem_cons_self]
    · rfl
    · intro b hb
      rw [List.eq_of_mem_replicate hb]
      rfl
  have htake : (c :: cs ++ 32 :: rest).takeWhile (!isSep ·) = c :: cs := by
    rw [List.takeWhile_append_of_pos hf']
    simp [isSep]
  have hdrop : (c :: cs ++ 32 :: rest).dropWhile (!isSep ·) = 32 :: rest := by
    rw [List.dropWhile_append_of_pos hf']
    simp [isSep]
  unfold strtok
  dsimp only
  rw [hskip, if_neg (by simp), htake, hdrop]
  rfl

theorem fields_append {n pad : Nat} {field : Bytes} (hne : field ≠ [])
    (hf : ∀ c ∈ field, isSep c = false) (rest : Bytes) :
    fields (n + 1) (List.replicate pad 32 ++ field ++ 32 :: rest) =
      (field, 0 :: rest) :: fields n rest := by
  rw [fields, strtok_field hne hf]
  rfl

/-! ## Decimal numbers, searching and formatting -/

def isDecDigit (c : UInt8) : Bool := 48 ≤ c && c ≤ 57

/-- `strtol(s, NULL, 10)` with a 64-bit `long`. -/
def strtolDec (s : Bytes) : Int :=
  let signed := dropSign (s.dropWhile isSpace)
  let n : Int := (signed.2.takeWhile isDecDigit).foldl (fun acc c => 10 * acc + (c.toNat - 48)) 0
  if signed.1 then max (-n) (-2 ^ 63) else min n (2 ^ 63 - 1)

/-- `%d` and `%ld`. -/
def decimal (n : Int) : Bytes := ascii (toString n)

theorem decimal_natCast (n : Nat) :
    decimal n = (Nat.toDigits 10 n).map fun c => UInt8.ofNat c.toNat := by
  have hrepr : toString (n : Int) = n.repr := rfl
  rw [decimal, ascii, hrepr, Nat.toList_repr]

theorem ofNat_toNat_of_isDigit {c : Char} (h : c.isDigit = true) :
    Char.ofNat (UInt8.ofNat c.toNat).toNat = c := by
  have hc : c.toNat ≤ 57 := by
    simp only [Char.isDigit, Bool.and_eq_true, decide_eq_true_eq] at h
    exact h.2
  rw [UInt8.toNat_ofNat', Nat.mod_eq_of_lt (by omega), Char.ofNat_toNat]

theorem decimal_injective {m n : Nat} (h : decimal m = decimal n) : m = n := by
  have hback : ∀ k : Nat, (decimal k).map (fun b => Char.ofNat b.toNat) = Nat.toDigits 10 k := by
    intro k
    rw [decimal_natCast, List.map_map]
    conv_rhs => rw [← List.map_id (Nat.toDigits 10 k)]
    refine List.map_congr_left fun c hc => ?_
    exact ofNat_toNat_of_isDigit (Nat.isDigit_of_mem_toDigits (by decide) (by decide) hc)
  have hdigits : Nat.toDigits 10 m = Nat.toDigits 10 n := by rw [← hback m, h, hback n]
  rw [← Nat.ofDigitChars_ten_toDigits (n := m), hdigits, Nat.ofDigitChars_ten_toDigits]

theorem isDecDigit_of_mem_decimal {n : Nat} {b : UInt8} (h : b ∈ decimal n) : isDecDigit b = true := by
  rw [decimal_natCast] at h
  obtain ⟨c, hc, rfl⟩ := List.mem_map.mp h
  have hdigit := Nat.isDigit_of_mem_toDigits (by decide) (by decide) hc
  simp only [Char.isDigit, Bool.and_eq_true, decide_eq_true_eq] at hdigit
  have hlow : 48 ≤ c.toNat := hdigit.1
  have hhigh : c.toNat ≤ 57 := hdigit.2
  have hbyte : (UInt8.ofNat c.toNat).toNat = c.toNat := by
    rw [UInt8.toNat_ofNat', Nat.mod_eq_of_lt (by omega)]
  simp only [isDecDigit, Bool.and_eq_true, decide_eq_true_eq, UInt8.le_iff_toNat_le, hbyte]
  exact ⟨hlow, hhigh⟩

theorem length_decimal_le {n k : Nat} (hk : 0 < k) (h : n < 10 ^ k) : (decimal n).length ≤ k := by
  rw [decimal_natCast, List.length_map]
  exact (Nat.length_toDigits_le_iff (by decide) hk).mpr h

/-- What `snprintf` leaves in a buffer of the given size. -/
def snprintf (size : Nat) (text : Bytes) : Bytes := text.take (size - 1)

/-- `strstr`: the rest of the string from the first occurrence on. -/
def strstr (pat : Bytes) : Bytes → Option Bytes
  | [] => if pat = [] then some [] else none
  | c :: s => if pat.isPrefixOf (c :: s) then some (c :: s) else strstr pat s

/-- The tokens that repeated calls of `strtok_r` find. -/
def tokens (isDelim : UInt8 → Bool) (s : Bytes) : List Bytes :=
  (s.splitOnP isDelim).filter (· ≠ [])

/-! ## Letters -/

/-- `isalpha` in the C locale. -/
def isAlpha (c : UInt8) : Bool := (65 ≤ c && c ≤ 90) || (97 ≤ c && c ≤ 122)

/-- `isalnum` in the C locale. -/
def isAlnum (c : UInt8) : Bool := isAlpha c || isDecDigit c

/-- `tolower` in the C locale. -/
def toLower (c : UInt8) : UInt8 := if 65 ≤ c ∧ c ≤ 90 then c + 32 else c

/-- `toupper` in the C locale. -/
def toUpper (c : UInt8) : UInt8 := if 97 ≤ c ∧ c ≤ 122 then c - 32 else c

/-- `strcasecmp(s, t) == 0`. -/
def eqIgnoringCase (s t : Bytes) : Bool := s.map toLower = t.map toLower

theorem forall_char {P : UInt8 → Prop} (h : ∀ n : Fin 256, P (UInt8.ofNat n)) (c : UInt8) : P c := by
  have hc := h ⟨c.toNat, c.toNat_lt⟩
  rwa [UInt8.ofNat_toNat] at hc

theorem isAlpha_toLower : ∀ c : UInt8, isAlpha (toLower c) = isAlpha c :=
  forall_char (by decide +kernel)

theorem length_of_eqIgnoringCase {s t : Bytes} (h : eqIgnoringCase s t = true) :
    s.length = t.length := by
  have hlen := congrArg List.length (of_decide_eq_true h)
  rwa [List.length_map, List.length_map] at hlen

theorem eqIgnoringCase_swap (s t : Bytes) : eqIgnoringCase s t = eqIgnoringCase t s := by
  unfold eqIgnoringCase
  exact decide_eq_decide.mpr eq_comm

theorem eqIgnoringCase_trans {s t u : Bytes} (h : eqIgnoringCase s t = true)
    (h' : eqIgnoringCase t u = true) : eqIgnoringCase s u = true :=
  decide_eq_true ((of_decide_eq_true h).trans (of_decide_eq_true h'))

theorem any_isAlpha_of_eqIgnoringCase {s t : Bytes} (h : eqIgnoringCase s t = true) :
    s.head?.any isAlpha = t.head?.any isAlpha := by
  have hmap : s.map toLower = t.map toLower := of_decide_eq_true h
  have hlower : ∀ u : Bytes, (u.map toLower).head?.any isAlpha = u.head?.any isAlpha := by
    intro u
    cases u with
    | nil => rfl
    | cons c u => exact isAlpha_toLower c
  rw [← hlower s, hmap, hlower t]

/-! ## Numbers with a prefix for the base -/

def isDigitOf (base : Nat) (c : UInt8) : Bool := (hexVal c).any (· < base)

/-- The base that `strtol` detects, and the digits that follow the mark for it. -/
def detectBase : Bytes → Nat × Bytes
  | 48 :: x :: d :: s =>
    if (x = 120 ∨ x = 88) ∧ (hexVal d).isSome then (16, d :: s) else (8, 48 :: x :: d :: s)
  | 48 :: s => (8, 48 :: s)
  | s => (10, s)

/-- `strtol(s, &end, 0)`: the number and the text at `end`, or nothing if there are no digits. The
number is not cut to the range of a `long`. -/
def strtolAuto (s : Bytes) : Option (Int × Bytes) :=
  let signed := dropSign (s.dropWhile isSpace)
  let based := detectBase signed.2
  let digits := based.2.takeWhile (isDigitOf based.1)
  let n : Int := digits.foldl (fun acc c => based.1 * acc + (hexVal c).getD 0) 0
  if digits = [] then none
  else some (if signed.1 then -n else n, based.2.dropWhile (isDigitOf based.1))

end WslFreeBSD.Lib
