import WslFreeBSD.Lib.Bytes

/-!
# Lines of a text

`lines` cuts a text at its line breaks. A program that reads the text with `fgets` sees other
strings: each ends with its line break, and a line that does not fit into the buffer comes in
several of them. `contents_fgetsAll` says exactly which: apart from line breaks and empty strings,
they are the blocks of the lines, in order. When every line fits, they are the lines.
-/

namespace WslFreeBSD.Lib

/-! ## Lines -/

/-- The lines of a text, without their line breaks. -/
def lines (text : Bytes) : List Bytes := text.splitOnP (· = 10)

@[simp] theorem lines_nil : lines [] = [[]] := by simp [lines]

@[simp] theorem lines_break (text : Bytes) : lines (10 :: text) = [] :: lines text := by
  simp [lines, List.splitOnP_cons_eq_if_modifyHead]

theorem lines_cons {c : UInt8} (hc : c ≠ 10) (text : Bytes) :
    ∃ line rest, lines text = line :: rest ∧ lines (c :: text) = (c :: line) :: rest := by
  obtain ⟨line, rest, h⟩ := List.exists_cons_of_ne_nil (List.splitOnP_ne_nil (· = 10) text)
  refine ⟨line, rest, h, ?_⟩
  rw [lines, List.splitOnP_cons_eq_if_modifyHead, h]
  simp [hc]

theorem lines_append_break {line : Bytes} (h : 10 ∉ line) (text : Bytes) :
    lines (line ++ 10 :: text) = line :: lines text := by
  induction line with
  | nil => exact lines_break text
  | cons c line ih =>
    obtain ⟨hc, hline⟩ := not_or.mp (mt List.mem_cons.mpr h)
    obtain ⟨first, rest, hfirst, hcons⟩ := lines_cons (Ne.symm hc) (line ++ 10 :: text)
    rw [ih hline] at hfirst
    obtain ⟨rfl, rfl⟩ := List.cons.inj hfirst
    exact hcons

theorem flatten_lines (text : Bytes) : (lines text).flatten = text.filter (· ≠ 10) := by
  induction text with
  | nil => simp
  | cons c text ih =>
    by_cases hc : c = 10
    · subst hc
      simpa using ih
    · obtain ⟨line, rest, h, hcons⟩ := lines_cons hc text
      rw [h] at ih
      rw [hcons, List.filter_cons_of_pos (by simpa using hc), ← ih]
      rfl

theorem not_mem_of_mem_lines {text line : Bytes} (h : line ∈ lines text) : 10 ∉ line := by
  induction text generalizing line with
  | nil =>
    obtain rfl : line = [] := by simpa using h
    exact List.not_mem_nil
  | cons c text ih =>
    by_cases hc : c = 10
    · subst hc
      rw [lines_break] at h
      rcases List.mem_cons.mp h with rfl | h
      · exact List.not_mem_nil
      · exact ih h
    · obtain ⟨first, rest, hlines, hcons⟩ := lines_cons hc text
      rw [hcons] at h
      rcases List.mem_cons.mp h with rfl | h
      · intro hmem
        rcases List.mem_cons.mp hmem with heq | hmem
        · exact hc heq.symm
        · exact ih (hlines ▸ List.mem_cons_self) hmem
      · exact ih (hlines ▸ List.mem_cons_of_mem _ h)

/-! ## Blocks -/

def glue (c : UInt8) : List Bytes → List Bytes
  | [] => [[c]]
  | piece :: pieces => (c :: piece) :: pieces

/-- Blocks of `n` bytes, the first one of `room` bytes. -/
def blocksFrom (n : Nat) : Nat → Bytes → List Bytes
  | _, [] => []
  | room, c :: s =>
    if room ≤ 1 then [c] :: blocksFrom n n s else glue c (blocksFrom n (room - 1) s)

/-- A string in blocks of `n` bytes; the last one may be shorter. -/
def blocks (n : Nat) (s : Bytes) : List Bytes := blocksFrom n n s

theorem flatten_glue (c : UInt8) (pieces : List Bytes) :
    (glue c pieces).flatten = c :: pieces.flatten := by
  cases pieces <;> rfl

theorem flatten_blocksFrom (n room : Nat) (s : Bytes) : (blocksFrom n room s).flatten = s := by
  induction s generalizing room with
  | nil => rfl
  | cons c s ih =>
    rw [blocksFrom]
    split
    · rw [List.flatten_cons, ih]
      rfl
    · rw [flatten_glue, ih]

theorem length_of_mem_blocksFrom {n room : Nat} {s : Bytes} (hn : 1 ≤ n) (hroom : 1 ≤ room) :
    (∀ b ∈ (blocksFrom n room s).head?, b.length ≤ room) ∧
      ∀ b ∈ (blocksFrom n room s).tail, b.length ≤ n := by
  induction s generalizing room with
  | nil => simp [blocksFrom]
  | cons c s ih =>
    rw [blocksFrom]
    split
    · constructor
      · intro b hb
        obtain rfl : [c] = b := by simpa using hb
        exact hroom
      · intro b hb
        obtain ⟨hhead, htail⟩ := ih hn
        cases hrest : blocksFrom n n s with
        | nil =>
          rw [hrest] at hb
          cases hb
        | cons first rest =>
          rw [hrest] at hb hhead htail
          rcases List.mem_cons.mp hb with rfl | hb
          · exact hhead b rfl
          · exact htail b hb
    · obtain ⟨hhead, htail⟩ := @ih (room - 1) (by omega)
      cases hrest : blocksFrom n (room - 1) s with
      | nil =>
        refine ⟨?_, fun b hb => by cases hb⟩
        intro b hb
        obtain rfl : [c] = b := by simpa [glue] using hb
        exact hroom
      | cons first rest =>
        rw [hrest] at hhead htail
        refine ⟨?_, htail⟩
        intro b hb
        obtain rfl : c :: first = b := by simpa [glue] using hb
        have hfirst := hhead first rfl
        rw [List.length_cons]
        omega

/-- No block is longer than `n`. -/
theorem length_of_mem_blocks {n : Nat} {s b : Bytes} (hn : 1 ≤ n) (hb : b ∈ blocks n s) :
    b.length ≤ n := by
  obtain ⟨hhead, htail⟩ := length_of_mem_blocksFrom (s := s) hn hn
  unfold blocks at hb
  cases hrest : blocksFrom n n s with
  | nil =>
    rw [hrest] at hb
    cases hb
  | cons first rest =>
    rw [hrest] at hb hhead htail
    rcases List.mem_cons.mp hb with rfl | hb
    · exact hhead b rfl
    · exact htail b hb

theorem blocksFrom_of_length_le {n room : Nat} {s : Bytes} (hne : s ≠ []) (h : s.length ≤ room) :
    blocksFrom n room s = [s] := by
  induction s generalizing room with
  | nil => exact absurd rfl hne
  | cons c s ih =>
    rw [List.length_cons] at h
    cases s with
    | nil =>
      rw [blocksFrom]
      split <;> rfl
    | cons d s =>
      rw [List.length_cons] at h
      rw [blocksFrom, if_neg (by omega), ih (List.cons_ne_nil d s) (by rw [List.length_cons]; omega)]
      rfl

theorem blocks_of_length_le {n : Nat} {s : Bytes} (h : s.length ≤ n) :
    blocks n s = if s = [] then [] else [s] := by
  split
  · next hnil =>
    subst hnil
    rfl
  · next hne => exact blocksFrom_of_length_le hne h

/-! ## Reading with `fgets` -/

/-- The strings that calls of `fgets` read one after the other, when a call has room for `n` bytes
and the current one for `room` more. A call ends after a line break, or when its room is used up. -/
def fgetsFrom (n : Nat) : Nat → Bytes → List Bytes
  | _, [] => []
  | room, c :: s =>
    if c = 10 ∨ room ≤ 1 then [c] :: fgetsFrom n n s else glue c (fgetsFrom n (room - 1) s)

/-- What a loop over `fgets(line, size, fp)` reads. -/
def fgetsAll (size : Nat) (text : Bytes) : List Bytes := fgetsFrom (size - 1) (size - 1) text

def chomp (piece : Bytes) : Bytes := piece.takeWhile (· ≠ 10)

/-- What was read, without line breaks and empty strings. -/
def contents (pieces : List Bytes) : List Bytes := (pieces.map chomp).filter (· ≠ [])

theorem contents_cons_break (pieces : List Bytes) : contents ([10] :: pieces) = contents pieces := rfl

theorem chomp_cons {c : UInt8} (hc : c ≠ 10) (piece : Bytes) : chomp (c :: piece) = c :: chomp piece := by
  simp [chomp, hc]

theorem contents_cons {c : UInt8} (hc : c ≠ 10) (piece : Bytes) (pieces : List Bytes) :
    contents ((c :: piece) :: pieces) = (c :: chomp piece) :: contents pieces := by
  simp [contents, chomp_cons hc]

theorem fgetsFrom_break (n room : Nat) (s : Bytes) :
    fgetsFrom n room (10 :: s) = [10] :: fgetsFrom n n s := by simp [fgetsFrom]

theorem exists_glue (c : UInt8) (pieces : List Bytes) :
    ∃ piece rest, glue c pieces = (c :: piece) :: rest := by
  cases pieces with
  | nil => exact ⟨[], [], rfl⟩
  | cons piece rest => exact ⟨piece, rest, rfl⟩

theorem exists_fgetsFrom_cons (n room : Nat) (c : UInt8) (s : Bytes) :
    ∃ piece rest, fgetsFrom n room (c :: s) = (c :: piece) :: rest := by
  rw [fgetsFrom]
  split
  · exact ⟨[], _, rfl⟩
  · exact exists_glue c _

theorem exists_blocksFrom_cons (n room : Nat) (c : UInt8) (s : Bytes) :
    ∃ b rest, blocksFrom n room (c :: s) = (c :: b) :: rest := by
  rw [blocksFrom]
  split
  · exact ⟨[], _, rfl⟩
  · exact exists_glue c _

theorem contents_glue {c : UInt8} (hc : c ≠ 10) {n room : Nat} {text line : Bytes} {rest : List Bytes}
    (hlines : lines text = line :: rest)
    (h : contents (fgetsFrom n room text) = blocksFrom n room line ++ rest.flatMap (blocks n)) :
    contents (glue c (fgetsFrom n room text)) =
      glue c (blocksFrom n room line) ++ rest.flatMap (blocks n) := by
  -- the string in front of which `c` stands is empty, a line break, or starts like `line`
  cases text with
  | nil =>
    obtain ⟨rfl, rfl⟩ : line = [] ∧ rest = [] := by simpa using hlines.symm
    simp [fgetsFrom, glue, blocksFrom, contents, chomp, hc]
  | cons d text =>
    by_cases hd : d = 10
    · subst hd
      rw [lines_break] at hlines
      obtain ⟨rfl, rfl⟩ : [] = line ∧ lines text = rest := List.cons.inj hlines
      rw [fgetsFrom_break] at h ⊢
      rw [contents_cons_break] at h
      rw [glue, contents_cons hc, h]
      rfl
    · obtain ⟨line', rest', -, hline⟩ := lines_cons hd text
      rw [hline] at hlines
      obtain ⟨rfl, rfl⟩ := List.cons.inj hlines
      obtain ⟨piece, pieces, hpieces⟩ := exists_fgetsFrom_cons n room d text
      obtain ⟨b, bs, hblocks⟩ := exists_blocksFrom_cons n room d line'
      rw [hpieces, hblocks, contents_cons hd] at h
      obtain ⟨hhead, hrest⟩ := List.cons.inj h
      rw [hpieces, hblocks, glue, contents_cons hc, chomp_cons hd, hhead, hrest]
      rfl

theorem contents_fgetsFrom (n room : Nat) (text line : Bytes) (rest : List Bytes)
    (h : lines text = line :: rest) :
    contents (fgetsFrom n room text) = blocksFrom n room line ++ rest.flatMap (blocks n) := by
  induction text generalizing room line rest with
  | nil =>
    obtain ⟨rfl, rfl⟩ : line = [] ∧ rest = [] := by simpa using h.symm
    rfl
  | cons c text ih =>
    by_cases hc : c = 10
    · subst hc
      rw [lines_break] at h
      obtain ⟨rfl, rfl⟩ : [] = line ∧ lines text = rest := List.cons.inj h
      obtain ⟨first, others, hlines⟩ := List.exists_cons_of_ne_nil (List.splitOnP_ne_nil (· = 10) text)
      rw [fgetsFrom_break, contents_cons_break, ih n first others hlines]
      show _ = [] ++ (lines text).flatMap (blocks n)
      rw [show lines text = first :: others from hlines]
      rfl
    · obtain ⟨first, others, hlines, hcons⟩ := lines_cons hc text
      rw [hcons] at h
      obtain ⟨rfl, rfl⟩ : c :: first = line ∧ others = rest := List.cons.inj h
      rw [fgetsFrom, blocksFrom]
      by_cases hroom : room ≤ 1
      · rw [if_pos (Or.inr hroom), if_pos hroom, contents_cons hc, ih n first others hlines]
        rfl
      · rw [if_neg (by simp [hc, hroom]), if_neg hroom]
        exact contents_glue hc hlines (ih (room - 1) first others hlines)

theorem contents_fgetsAll (size : Nat) (text : Bytes) :
    contents (fgetsAll size text) = (lines text).flatMap (blocks (size - 1)) := by
  obtain ⟨line, rest, h⟩ := List.exists_cons_of_ne_nil (List.splitOnP_ne_nil (· = 10) text)
  rw [fgetsAll, contents_fgetsFrom _ _ text line rest h, show lines text = line :: rest from h]
  rfl

theorem contents_fgetsAll_of_length_le {size : Nat} {text : Bytes}
    (h : ∀ line ∈ lines text, line.length ≤ size - 1) :
    contents (fgetsAll size text) = (lines text).filter (· ≠ []) := by
  rw [contents_fgetsAll]
  generalize lines text = ls at h
  induction ls with
  | nil => rfl
  | cons line rest ih =>
    rw [List.flatMap_cons, blocks_of_length_le (h line List.mem_cons_self),
      ih fun line hline => h line (List.mem_cons_of_mem _ hline)]
    by_cases hnil : line = []
    · rw [if_pos hnil, List.filter_cons_of_neg (by simpa using hnil)]
      rfl
    · rw [if_neg hnil, List.filter_cons_of_pos (by simpa using hnil)]
      rfl

theorem eq_chomp_of_mem_fgetsFrom {n room : Nat} {text piece : Bytes}
    (h : piece ∈ fgetsFrom n room text) : piece = chomp piece ∨ piece = chomp piece ++ [10] := by
  induction text generalizing room piece with
  | nil => cases h
  | cons c text ih =>
    rw [fgetsFrom] at h
    split at h
    · rcases List.mem_cons.mp h with rfl | h
      · by_cases hc : c = 10
        · subst hc
          exact Or.inr rfl
        · left
          rw [chomp_cons hc]
          rfl
      · exact ih h
    · next hcond =>
      have hc : c ≠ 10 := fun heq => hcond (Or.inl heq)
      cases hrest : fgetsFrom n (room - 1) text with
      | nil =>
        rw [hrest] at h
        obtain rfl : piece = [c] := by simpa [glue] using h
        left
        rw [chomp_cons hc]
        rfl
      | cons first rest =>
        rw [hrest] at h
        rcases List.mem_cons.mp h with rfl | h
        · rw [chomp_cons hc]
          rcases ih (hrest ▸ List.mem_cons_self) with heq | heq
          · exact Or.inl (congrArg (c :: ·) heq)
          · exact Or.inr (congrArg (c :: ·) heq)
        · exact ih (hrest ▸ List.mem_cons_of_mem _ h)

theorem flatten_fgetsFrom (n room : Nat) (text : Bytes) : (fgetsFrom n room text).flatten = text := by
  induction text generalizing room with
  | nil => rfl
  | cons c text ih =>
    rw [fgetsFrom]
    split
    · rw [List.flatten_cons, ih]
      rfl
    · rw [flatten_glue, ih]

theorem headD_glue (c : UInt8) (pieces : List Bytes) :
    (glue c pieces).headD [] = c :: pieces.headD [] := by
  cases pieces <;> rfl

/-- The first string is all of the text exactly if the text fits and has a line break at most at its
end. -/
theorem headD_fgetsFrom_eq_iff {n room : Nat} (hroom : 1 ≤ room) (text : Bytes) :
    (fgetsFrom n room text).headD [] = text ↔ text.length ≤ room ∧ 10 ∉ text.dropLast := by
  induction text generalizing room with
  | nil => simp [fgetsFrom]
  | cons c text ih =>
    rw [fgetsFrom]
    split
    · next hend =>
      -- nothing may follow a call that ends here
      rw [List.headD_cons, List.cons.injEq, List.length_cons]
      cases text with
      | nil => simpa using hroom
      | cons d text =>
        refine ⟨fun h => absurd h.2 (by simp), fun ⟨hlength, hbreak⟩ => ?_⟩
        rcases hend with rfl | hend
        · exact absurd List.mem_cons_self hbreak
        · rw [List.length_cons] at hlength
          omega
    · next hmore =>
      obtain ⟨hc, hroom'⟩ := not_or.mp hmore
      rw [headD_glue, List.cons.injEq, ih (by omega), List.length_cons]
      cases text with
      | nil => simpa using hroom
      | cons d text =>
        have hdrop : (c :: d :: text).dropLast = c :: (d :: text).dropLast := rfl
        rw [hdrop, List.mem_cons, not_or, List.length_cons]
        constructor
        · rintro ⟨-, hlength, hbreak⟩
          exact ⟨by omega, Ne.symm hc, hbreak⟩
        · rintro ⟨hlength, -, hbreak⟩
          exact ⟨rfl, by omega, hbreak⟩

theorem headD_fgetsFrom_line {n room : Nat} {line : Bytes} (hline : 10 ∉ line) (hlength : line.length < room)
    (text : Bytes) : (fgetsFrom n room (line ++ 10 :: text)).headD [] = line ++ [10] := by
  induction line generalizing room with
  | nil =>
    rw [List.nil_append, fgetsFrom_break]
    rfl
  | cons c line ih =>
    obtain ⟨hc, hline⟩ := not_or.mp (mt List.mem_cons.mpr hline)
    rw [List.length_cons] at hlength
    rw [List.cons_append, fgetsFrom, if_neg (by simp [Ne.symm hc]; omega), headD_glue,
      ih hline (by omega)]
    rfl

theorem foldl_filter_ne_nil {σ : Type*} {f : σ → Bytes → σ} (hempty : ∀ s, f s [] = s)
    (ls : List Bytes) (s : σ) : (ls.filter (· ≠ [])).foldl f s = ls.foldl f s := by
  induction ls generalizing s with
  | nil => rfl
  | cons line ls ih =>
    by_cases hnil : line = []
    · subst hnil
      rw [List.filter_cons_of_neg (by simp), List.foldl_cons, hempty, ih]
    · rw [List.filter_cons_of_pos (by simpa using hnil), List.foldl_cons, List.foldl_cons, ih]

theorem foldl_fgetsAll {σ : Type*} {f : σ → Bytes → σ} (hbreak : ∀ s line, f s (line ++ [10]) = f s line)
    (hempty : ∀ s, f s [] = s) (size : Nat) (text : Bytes) (s : σ) :
    (fgetsAll size text).foldl f s = (contents (fgetsAll size text)).foldl f s := by
  rw [contents, foldl_filter_ne_nil hempty, List.foldl_map]
  apply List.foldl_ext
  intro s piece hpiece
  rcases eq_chomp_of_mem_fgetsFrom hpiece with heq | heq
  · rw [← heq]
  · conv_lhs => rw [heq]
    exact hbreak s _

end WslFreeBSD.Lib
