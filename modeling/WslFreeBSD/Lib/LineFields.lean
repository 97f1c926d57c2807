import WslFreeBSD.Lib.Stores

/-!
# Fields of a line in memory

`strtok_r` and `atoi` on the memory of a line. `strtok_r` ends a field with a NUL in place of the
delimiter and goes on behind it; so the memory is the part that is done, which only grows, and the part
that is still to be read. `atoi` reads back what `%d` has printed (`atoi_decimal`).
-/

namespace WslFreeBSD.Lib

/-- `strtok_r` from an offset on: the memory, where the next call goes on, and the field that was found. -/
def strtokR (isDelim : UInt8 → Bool) (memory : Bytes) (s : Nat) : Bytes × Nat × Option Nat :=
  let token := s + ((memory.drop s).takeWhile isDelim).length
  let stop := token + ((memory.drop token).takeWhile fun c => c ≠ 0 && !isDelim c).length
  if memory.getD token 0 = 0 then (memory, token, none)
  else if memory.getD stop 0 = 0 then (memory, stop, some token)
  else (memory.set stop 0, stop + 1, some token)

/-- `atoi`. -/
def atoi (memory : Bytes) (s : Nat) : Int := toInt32 (strtolDec (memory.drop s))

theorem getD_append_cons (before : Bytes) (c : UInt8) (rest : Bytes) :
    (before ++ c :: rest).getD before.length 0 = c := by
  simp [List.getD]

theorem set_append_cons (before : Bytes) (c d : UInt8) (rest : Bytes) :
    (before ++ c :: rest).set before.length d = before ++ d :: rest := by
  simp

theorem length_strtokR (isDelim : UInt8 → Bool) (memory : Bytes) (s : Nat) :
    (strtokR isDelim memory s).1.length = memory.length := by
  unfold strtokR
  dsimp only
  split
  · rfl
  · split
    · rfl
    · exact List.length_set

/-! ## Fields -/

section Fields

variable {isDelim : UInt8 → Bool} {before gap token rest : Bytes}

theorem takeWhile_token (htoken : ∀ c ∈ token, c ≠ 0 ∧ isDelim c = false) {d : UInt8}
    (hd : d = 0 ∨ isDelim d = true) :
    (token ++ d :: rest).takeWhile (fun c => c ≠ 0 && !isDelim c) = token := by
  have hall : ∀ c ∈ token, (decide (c ≠ 0) && !isDelim c) = true := by
    intro c hc
    obtain ⟨hnul, hdelim⟩ := htoken c hc
    rw [decide_eq_true hnul, hdelim]
    rfl
  rw [List.takeWhile_append_of_pos hall]
  rcases hd with rfl | hd
  · simp
  · simp [hd]

theorem takeWhile_gap (hgap : ∀ c ∈ gap, isDelim c = true) {d : UInt8} (hd : isDelim d = false) :
    (gap ++ d :: rest).takeWhile isDelim = gap := by
  rw [List.takeWhile_append_of_pos hgap]
  simp [hd]

theorem strtokR_eq (hgap : ∀ c ∈ gap, isDelim c = true) (hne : token ≠ [])
    (htoken : ∀ c ∈ token, c ≠ 0 ∧ isDelim c = false) {d : UInt8} (hd : d = 0 ∨ isDelim d = true) :
    strtokR isDelim (before ++ gap ++ token ++ d :: rest) before.length =
      if d = 0 then (before ++ gap ++ token ++ d :: rest, (before ++ gap ++ token).length,
        some (before ++ gap).length)
      else (before ++ gap ++ token ++ 0 :: rest, (before ++ gap ++ token).length + 1,
        some (before ++ gap).length) := by
  obtain ⟨c, cs, rfl⟩ := List.exists_cons_of_ne_nil hne
  obtain ⟨hcnul, hcdelim⟩ := htoken c List.mem_cons_self
  have hstart : before.length + (((before ++ gap ++ (c :: cs) ++ d :: rest).drop before.length).takeWhile
      isDelim).length = (before ++ gap).length := by
    have hdrop : (before ++ gap ++ (c :: cs) ++ d :: rest).drop before.length =
        gap ++ c :: (cs ++ d :: rest) := by simp
    rw [hdrop, takeWhile_gap hgap hcdelim, List.length_append]
  have hstop : (before ++ gap).length + (((before ++ gap ++ (c :: cs) ++ d :: rest).drop
      (before ++ gap).length).takeWhile fun c => c ≠ 0 && !isDelim c).length =
        (before ++ gap ++ (c :: cs)).length := by
    have hdrop : (before ++ gap ++ (c :: cs) ++ d :: rest).drop (before ++ gap).length =
        (c :: cs) ++ d :: rest := by
      rw [List.append_assoc (before ++ gap), List.drop_left]
    rw [hdrop, takeWhile_token htoken hd]
    exact List.length_append.symm
  have hfirst : (before ++ gap ++ (c :: cs) ++ d :: rest).getD (before ++ gap).length 0 = c := by
    rw [List.append_assoc (before ++ gap), List.cons_append, getD_append_cons]
  have hlast := getD_append_cons (before ++ gap ++ (c :: cs)) d rest
  have hset := set_append_cons (before ++ gap ++ (c :: cs)) d 0 rest
  unfold strtokR
  simp only [hstart, hstop, hfirst, hlast, hset, if_neg hcnul]

theorem strtokR_token (hdelim : isDelim 0 = false) (hgap : ∀ c ∈ gap, isDelim c = true) (hne : token ≠ [])
    (htoken : ∀ c ∈ token, c ≠ 0 ∧ isDelim c = false) {d : UInt8} (hd : isDelim d = true) :
    strtokR isDelim (before ++ gap ++ token ++ d :: rest) before.length =
      (before ++ gap ++ token ++ 0 :: rest, (before ++ gap ++ token).length + 1,
        some (before ++ gap).length) := by
  have hnul : d ≠ 0 := by
    rintro rfl
    rw [hdelim] at hd
    cases hd
  rw [strtokR_eq hgap hne htoken (Or.inr hd), if_neg hnul]

theorem strtokR_last (hne : token ≠ []) (htoken : ∀ c ∈ token, c ≠ 0 ∧ isDelim c = false) :
    strtokR isDelim (before ++ token ++ 0 :: rest) before.length =
      (before ++ token ++ 0 :: rest, (before ++ token).length, some before.length) := by
  have heq := @strtokR_eq isDelim before [] token rest (List.forall_mem_nil _) hne htoken 0 (Or.inl rfl)
  rw [List.append_nil, if_pos rfl] at heq
  exact heq

theorem strtokR_end (hdelim : isDelim 0 = false) (hgap : ∀ c ∈ gap, isDelim c = true) :
    strtokR isDelim (before ++ gap ++ 0 :: rest) before.length =
      (before ++ gap ++ 0 :: rest, (before ++ gap).length, none) := by
  have hdrop : (before ++ gap ++ 0 :: rest).drop before.length = gap ++ 0 :: rest := by simp
  have hstart : before.length + (((before ++ gap ++ 0 :: rest).drop before.length).takeWhile
      isDelim).length = (before ++ gap).length := by
    rw [hdrop, takeWhile_gap hgap hdelim, List.length_append]
  have hfirst := getD_append_cons (before ++ gap) 0 rest
  unfold strtokR
  simp only [hstart, hfirst, if_true]

end Fields

/-! ## Numbers -/

theorem foldl_decimal (n : Nat) :
    (decimal n).foldl (fun (acc : Int) c => 10 * acc + (c.toNat - 48)) 0 = n := by
  have hfold : ∀ (s : List Char) (acc : Nat), (∀ c ∈ s, c.isDigit = true) →
      (s.map fun c => UInt8.ofNat c.toNat).foldl (fun (a : Int) c => 10 * a + (c.toNat - 48)) acc =
        (Nat.ofDigitChars 10 s acc : Nat) := by
    intro s
    induction s with
    | nil => exact fun _ _ => rfl
    | cons c s ih =>
      intro acc hs
      have hdigit := hs c List.mem_cons_self
      simp only [Char.isDigit, Bool.and_eq_true, decide_eq_true_eq] at hdigit
      have hlow : 48 ≤ c.toNat := hdigit.1
      have hhigh : c.toNat ≤ 57 := hdigit.2
      have hbyte : (UInt8.ofNat c.toNat).toNat = c.toNat := by
        rw [UInt8.toNat_ofNat', Nat.mod_eq_of_lt (by omega)]
      have hnext : (10 * (acc : Int) + ((UInt8.ofNat c.toNat).toNat - 48)) =
          ((10 * acc + (c.toNat - '0'.toNat) : Nat) : Int) := by
        have hzero : '0'.toNat = 48 := rfl
        rw [hbyte, hzero]
        omega
      rw [List.map_cons, List.foldl_cons, hnext, ih _ fun d hd => hs d (List.mem_cons_of_mem _ hd),
        Nat.ofDigitChars_cons]
  rw [decimal_natCast]
  have hdigits := hfold (Nat.toDigits 10 n) 0 fun c hc =>
    Nat.isDigit_of_mem_toDigits (by decide) (by decide) hc
  rw [Nat.ofDigitChars_ten_toDigits] at hdigits
  exact hdigits

theorem decimal_ne_nil (n : Nat) : decimal n ≠ [] := by
  rw [decimal_natCast]
  intro hnil
  exact Nat.toDigits_ne_nil (List.map_eq_nil_iff.mp hnil)

theorem decimal_negSucc (n : Nat) : decimal (Int.negSucc n) = 45 :: decimal (n + 1 : Nat) := by
  have hrepr : toString (Int.negSucc n) = "-" ++ (n + 1).repr := rfl
  have hrepr' : toString ((n + 1 : Nat) : Int) = (n + 1).repr := rfl
  rw [decimal, decimal, ascii, ascii, hrepr, hrepr', String.toList_append, List.map_append]
  rfl

theorem isDecDigit_spec {c : UInt8} (h : isDecDigit c = true) :
    isSpace c = false ∧ c ≠ 43 ∧ c ≠ 45 ∧ c ≠ 0 ∧ c ≠ 32 ∧ c ≠ 58 := by
  have hall : ∀ c : UInt8, isDecDigit c = true →
      isSpace c = false ∧ c ≠ 43 ∧ c ≠ 45 ∧ c ≠ 0 ∧ c ≠ 32 ∧ c ≠ 58 := forall_char (by decide +kernel)
  exact hall c h

theorem takeWhile_decimal (n : Nat) {c : UInt8} (hc : isDecDigit c = false) (rest : Bytes) :
    (decimal n ++ c :: rest).takeWhile isDecDigit = decimal n := by
  rw [List.takeWhile_append_of_pos fun d hd => isDecDigit_of_mem_decimal hd]
  simp [hc]

/-- `strtol` reads back a number in front of a character that is no digit. -/
theorem strtolDec_decimal {n : Int} (hlow : -2 ^ 63 ≤ n) (hhigh : n < 2 ^ 63) {c : UInt8}
    (hc : isDecDigit c = false) (rest : Bytes) : strtolDec (decimal n ++ c :: rest) = n := by
  cases n with
  | ofNat n =>
    obtain ⟨d, ds, hds⟩ := List.exists_cons_of_ne_nil (decimal_ne_nil n)
    have hfirst := isDecDigit_of_mem_decimal (hds ▸ List.mem_cons_self : d ∈ decimal n)
    obtain ⟨hspace, hplus, hminus, -⟩ := isDecDigit_spec hfirst
    have hsign : dropSign ((decimal n ++ c :: rest).dropWhile isSpace) = (false, decimal n ++ c :: rest) := by
      rw [hds, List.cons_append, List.dropWhile_cons_of_neg (by rw [hspace]; decide)]
      unfold dropSign
      split
      · next heq => exact absurd (List.cons.inj heq).1 hplus
      · next heq => exact absurd (List.cons.inj heq).1 hminus
      · rfl
    have hvalue := foldl_decimal n
    rw [Int.ofNat_eq_natCast] at hlow hhigh ⊢
    unfold strtolDec
    simp only [hsign, takeWhile_decimal n hc rest, hvalue]
    rw [if_neg Bool.false_ne_true]
    omega
  | negSucc n =>
    have hsign : dropSign ((decimal (Int.negSucc n) ++ c :: rest).dropWhile isSpace) =
        (true, decimal (n + 1 : Nat) ++ c :: rest) := by
      rw [decimal_negSucc]
      rfl
    have hvalue := foldl_decimal (n + 1)
    unfold strtolDec
    simp only [hsign, takeWhile_decimal (n + 1) hc rest, hvalue]
    rw [if_pos trivial]
    omega

/-- `atoi` reads back an `int`. -/
theorem atoi_decimal {n : Int} (hlow : -2 ^ 31 ≤ n) (hhigh : n < 2 ^ 31) {c : UInt8}
    (hc : isDecDigit c = false) (before rest : Bytes) :
    atoi (before ++ decimal n ++ c :: rest) before.length = n := by
  have hdrop : (before ++ decimal n ++ c :: rest).drop before.length = decimal n ++ c :: rest := by simp
  rw [atoi, hdrop, strtolDec_decimal (by omega) (by omega) hc]
  unfold toInt32
  omega

theorem decimal_chars (n : Int) : decimal n ≠ [] ∧ ∀ c ∈ decimal n, c ≠ 0 ∧ c ≠ 32 ∧ c ≠ 58 := by
  have hnat : ∀ m : Nat, ∀ c ∈ decimal m, c ≠ 0 ∧ c ≠ 32 ∧ c ≠ 58 := by
    intro m c hc
    obtain ⟨-, -, -, hrest⟩ := isDecDigit_spec (isDecDigit_of_mem_decimal hc)
    exact hrest
  cases n with
  | ofNat m => exact ⟨decimal_ne_nil m, hnat m⟩
  | negSucc m =>
    rw [decimal_negSucc]
    refine ⟨List.cons_ne_nil _ _, fun c hc => ?_⟩
    rcases List.mem_cons.mp hc with rfl | hc
    · decide
    · exact hnat _ c hc

end WslFreeBSD.Lib
