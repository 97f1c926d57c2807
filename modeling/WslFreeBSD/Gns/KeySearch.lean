import WslFreeBSD.Gns.Json

/-!
# The search for a key

`gns_json_find_value` passes over the occurrences of its pattern that no colon follows. `search` is
the search from a position on; here are its steps. A text without quotes is passed over
(`search_plain`), and so is a string, whatever its contents, as long as no colon comes behind it
(`search_string`). At a member the search stops if the key is the one that is wanted (`search_key`).
-/

namespace WslFreeBSD.Gns

open Lib

def quoted (key : Bytes) : Bytes := 34 :: (key ++ [34])

def search (key p : Bytes) : Option Bytes := findValueLoop (quoted key) (p.length + 1) p

theorem gnsJsonFindValue_eq (json : Bytes) {key : String} (h : (ascii key).length ≤ 61) :
    gnsJsonFindValue json key = search (ascii key) json := by
  have hlen : ¬ 64 ≤ (quoted (ascii key)).length := by
    rw [quoted, List.length_cons, List.length_append, List.length_singleton]
    omega
  exact if_neg hlen

/-! ## One step -/

theorem strstr_found {pat p q : Bytes} (h : strstr pat p = some q) :
    pat <+: q ∧ q.length ≤ p.length := by
  induction p with
  | nil =>
    unfold strstr at h
    split at h
    · rename_i hpat
      cases h
      exact ⟨hpat ▸ List.prefix_refl _, Nat.le_refl _⟩
    · cases h
  | cons c p ih =>
    unfold strstr at h
    split at h
    · rename_i hpat
      cases h
      exact ⟨List.isPrefixOf_iff_prefix.mp hpat, Nat.le_refl _⟩
    · exact ⟨(ih h).1, Nat.le_succ_of_le (ih h).2⟩

theorem findValueLoop_fuel {pat : Bytes} (hpat : pat ≠ []) {fuel fuel' : Nat} {p : Bytes}
    (h : p.length < fuel) (h' : p.length < fuel') :
    findValueLoop pat fuel p = findValueLoop pat fuel' p := by
  induction fuel generalizing fuel' p with
  | zero => exact absurd h (Nat.not_lt_zero _)
  | succ fuel ih =>
    obtain ⟨fuel', rfl⟩ := Nat.exists_eq_succ_of_ne_zero (Nat.ne_zero_of_lt h')
    unfold findValueLoop
    cases hq : strstr pat p with
    | none => rfl
    | some q =>
      obtain ⟨hpre, hlen⟩ := strstr_found hq
      have hpos : 0 < pat.length := List.length_pos_iff.mpr hpat
      have hpat := hpre.length_le
      have hnext : ((q.drop pat.length).dropWhile isBlank).length ≤ q.length - pat.length := by
        calc ((q.drop pat.length).dropWhile isBlank).length ≤ (q.drop pat.length).length :=
              (List.dropWhile_sublist _).length_le
          _ = q.length - pat.length := List.length_drop
      have hshort : ((q.drop pat.length).dropWhile isBlank).length < fuel := by omega
      have hshort' : ((q.drop pat.length).dropWhile isBlank).length < fuel' := by omega
      dsimp only
      rw [ih hshort hshort']

theorem quoted_ne_nil (key : Bytes) : quoted key ≠ [] := List.cons_ne_nil _ _

theorem search_nil (key : Bytes) : search key [] = none := rfl

theorem search_cons {key : Bytes} {c : UInt8} {s : Bytes} (h : ¬ quoted key <+: c :: s) :
    search key (c :: s) = search key s := by
  have hstep : strstr (quoted key) (c :: s) = strstr (quoted key) s := by
    rw [strstr, if_neg fun hp => h (List.isPrefixOf_iff_prefix.mp hp)]
  have hfuel : findValueLoop (quoted key) (s.length + 1 + 1) (c :: s) =
      findValueLoop (quoted key) (s.length + 1 + 1) s := by
    rw [findValueLoop, findValueLoop, hstep]
  rw [search, List.length_cons, hfuel]
  exact findValueLoop_fuel (quoted_ne_nil key) (by omega) (by omega)

theorem strstr_of_prefix {pat s : Bytes} (h : pat <+: s) (hpat : pat ≠ []) : strstr pat s = some s := by
  cases s with
  | nil => exact absurd (List.prefix_nil.mp h) hpat
  | cons c s => exact if_pos (List.isPrefixOf_iff_prefix.mpr h)

theorem search_quoted (key s : Bytes) :
    search key (quoted key ++ s) =
      if (s.dropWhile isBlank).head? = some 58 then some ((s.dropWhile isBlank).tail.dropWhile isBlank)
      else search key (s.dropWhile isBlank) := by
  have hpos : 0 < (quoted key).length := Nat.succ_pos _
  have hlen : (s.dropWhile isBlank).length ≤ s.length := (List.dropWhile_sublist _).length_le
  rw [search, findValueLoop, strstr_of_prefix (List.prefix_append _ _) (quoted_ne_nil key)]
  dsimp only
  rw [List.drop_left]
  refine if_congr Iff.rfl rfl (findValueLoop_fuel (quoted_ne_nil key) ?_ (Nat.lt_succ_self _))
  rw [List.length_append]
  omega

theorem search_other {key : Bytes} {c : UInt8} (hc : c ≠ 34) (s : Bytes) :
    search key (c :: s) = search key s :=
  search_cons fun h => hc (List.cons_prefix_cons.mp h).1.symm

theorem search_plain {key u : Bytes} (hu : 34 ∉ u) (s : Bytes) : search key (u ++ s) = search key s := by
  induction u with
  | nil => rfl
  | cons c u ih =>
    have hc : c ≠ 34 := fun h => hu (h ▸ List.mem_cons_self)
    rw [List.cons_append, search_other hc]
    exact ih fun h => hu (List.mem_cons_of_mem _ h)

/-! ## Strings -/

def escape (s : Bytes) : Bytes := s.flatMap fun c => if c = 34 ∨ c = 92 then [92, c] else [c]

theorem escape_cons (c : UInt8) (s : Bytes) :
    escape (c :: s) = (if c = 34 ∨ c = 92 then [92, c] else [c]) ++ escape s := List.flatMap_cons

/-- Letters and digits, none of which has a meaning of its own. -/
def IsName (key : Bytes) : Prop := ∀ c ∈ key, isAlnum c = true

theorem isAlnum_spec {c : UInt8} (h : isAlnum c = true) :
    c ≠ 34 ∧ c ≠ 92 ∧ c ≠ 58 ∧ isBlank c = false ∧ c ≠ 44 ∧ c ≠ 93 ∧ c ≠ 125 := by
  have hall : ∀ c : UInt8, isAlnum c = true →
      c ≠ 34 ∧ c ≠ 92 ∧ c ≠ 58 ∧ isBlank c = false ∧ c ≠ 44 ∧ c ≠ 93 ∧ c ≠ 125 :=
    forall_char (by decide +kernel)
  exact hall c h

theorem IsName.tail {c : UInt8} {key : Bytes} (h : IsName (c :: key)) : IsName key := fun d hd =>
  h d (List.mem_cons_of_mem _ hd)

theorem IsName.quote_not_mem {key : Bytes} (h : IsName key) : 34 ∉ key := fun hmem =>
  (isAlnum_spec (h 34 hmem)).1 rfl

/-- What comes behind a value: the end of the text, a comma or a closing bracket. -/
def Follows (s : Bytes) : Prop := ∀ c ∈ s.head?, c = 44 ∨ c = 93 ∨ c = 125

theorem follows_nil : Follows [] := fun _ hc => absurd hc (Option.not_mem_none _)

theorem follows_cons {c : UInt8} (hc : c = 44 ∨ c = 93 ∨ c = 125) (s : Bytes) : Follows (c :: s) := by
  intro d hd
  obtain rfl : c = d := by simpa using hd
  exact hc

theorem Follows.dropWhile {s : Bytes} (h : Follows s) : s.dropWhile isBlank = s := by
  cases s with
  | nil => rfl
  | cons c s =>
    rcases h c rfl with rfl | rfl | rfl <;> rfl

theorem Follows.no_colon {s : Bytes} (h : Follows s) : s.head? ≠ some 58 := by
  intro hcolon
  rcases h 58 hcolon with h | h | h <;> exact absurd h (by decide)

theorem search_closing {key s : Bytes} (hkey : IsName key)
    (hs : ∀ c ∈ s.head?, c ≠ 34 ∧ isAlnum c = false) : search key (34 :: s) = search key s := by
  refine search_cons fun h => ?_
  have hrest : key ++ [34] <+: s := (List.cons_prefix_cons.mp h).2
  cases key with
  | nil =>
    obtain ⟨t, rfl⟩ := hrest
    exact (hs 34 rfl).1 rfl
  | cons c key =>
    obtain ⟨t, rfl⟩ := hrest
    have hc := (hs c rfl).2
    rw [hkey c List.mem_cons_self] at hc
    cases hc

theorem escape_eq_of_startsWith {key s after : Bytes} (hkey : IsName key)
    (h : key ++ [34] <+: escape s ++ 34 :: after) : escape s = key := by
  induction s generalizing key with
  | nil =>
    cases key with
    | nil => rfl
    | cons c key =>
      have hc : c = 34 := (List.cons_prefix_cons.mp h).1
      exact absurd hc (isAlnum_spec (hkey c List.mem_cons_self)).1
  | cons d s ih =>
    rw [escape_cons] at h ⊢
    split at h
    · cases key with
      | nil => exact absurd (List.cons_prefix_cons.mp h).1 (by decide)
      | cons c key =>
        have hc : c = 92 := (List.cons_prefix_cons.mp h).1
        exact absurd hc (isAlnum_spec (hkey c List.mem_cons_self)).2.1
    · rename_i hplain
      rw [if_neg hplain]
      cases key with
      | nil => exact absurd (List.cons_prefix_cons.mp h).1.symm fun hd => hplain (Or.inl hd)
      | cons c key =>
        obtain ⟨rfl, hrest⟩ := List.cons_prefix_cons.mp h
        rw [ih hkey.tail hrest]
        rfl

/-- A quote in front of the rest of a string: the string is the key, or the quote belongs to the
contents. In both cases the search goes on behind it. -/
theorem search_opening {key s after : Bytes} (hkey : IsName key) (hafter : Follows after)
    (hinside : search key (escape s ++ 34 :: after) = search key after) :
    search key (34 :: (escape s ++ 34 :: after)) = search key after := by
  by_cases hpat : quoted key <+: 34 :: (escape s ++ 34 :: after)
  · have heq := escape_eq_of_startsWith hkey (List.cons_prefix_cons.mp hpat).2
    have hform : 34 :: (escape s ++ 34 :: after) = quoted key ++ after := by
      rw [heq, quoted, List.cons_append, List.append_assoc]
      rfl
    rw [hform, search_quoted, hafter.dropWhile, if_neg hafter.no_colon]
  · rw [search_cons hpat, hinside]

theorem search_inside {key after : Bytes} (hkey : IsName key) (hafter : Follows after) (s : Bytes) :
    search key (escape s ++ 34 :: after) = search key after := by
  induction s with
  | nil =>
    refine search_closing hkey fun c hc => ?_
    rcases hafter c hc with rfl | rfl | rfl <;> decide
  | cons c s ih =>
    rw [escape_cons]
    split
    · rename_i hspecial
      rcases hspecial with rfl | rfl
      · -- an escaped quote is followed by the rest of the string
        exact (search_other (by decide) _).trans (search_opening hkey hafter ih)
      · exact (search_other (by decide) _).trans ((search_other (by decide) _).trans ih)
    · rename_i hplain
      exact (search_other (fun h => hplain (Or.inl h)) _).trans ih

theorem search_string {key after : Bytes} (hkey : IsName key) (hafter : Follows after) (s : Bytes) :
    search key (34 :: (escape s ++ 34 :: after)) = search key after :=
  search_opening hkey hafter (search_inside hkey hafter s)

/-! ## Members -/

theorem dropWhile_blanks {blanks : Bytes} (h : ∀ c ∈ blanks, isBlank c = true) (s : Bytes) :
    (blanks ++ s).dropWhile isBlank = s.dropWhile isBlank :=
  List.dropWhile_append_of_pos h

theorem blanks_noQuote {blanks : Bytes} (h : ∀ c ∈ blanks, isBlank c = true) : 34 ∉ blanks := fun hmem =>
  absurd (h 34 hmem) (by decide)

theorem search_key {key before behind s : Bytes} (hbefore : ∀ c ∈ before, isBlank c = true)
    (hbehind : ∀ c ∈ behind, isBlank c = true) (hs : s.dropWhile isBlank = s) :
    search key (34 :: (key ++ 34 :: (before ++ 58 :: (behind ++ s)))) = some s := by
  have hform : 34 :: (key ++ 34 :: (before ++ 58 :: (behind ++ s))) =
      quoted key ++ (before ++ 58 :: (behind ++ s)) := by
    rw [quoted, List.cons_append, List.append_assoc]
    rfl
  have hcolon : (before ++ 58 :: (behind ++ s)).dropWhile isBlank = 58 :: (behind ++ s) := by
    rw [dropWhile_blanks hbefore]
    rfl
  rw [hform, search_quoted, hcolon, List.head?_cons, if_pos rfl, List.tail_cons,
    dropWhile_blanks hbehind, hs]

theorem search_otherKey {key key' before behind s : Bytes} (hkey : IsName key) (hkey' : IsName key')
    (hne : key' ≠ key) (hbefore : ∀ c ∈ before, isBlank c = true)
    (hbehind : ∀ c ∈ behind, isBlank c = true) :
    search key (34 :: (key' ++ 34 :: (before ++ 58 :: (behind ++ s)))) = search key s := by
  have hopen : ¬ quoted key <+: 34 :: (key' ++ 34 :: (before ++ 58 :: (behind ++ s))) := by
    intro h
    have hplain : escape key' = key' := by
      have hmap : ∀ c ∈ key', (if c = 34 ∨ c = 92 then [92, c] else [c]) = [c] := by
        intro c hc
        have hspec := isAlnum_spec (hkey' c hc)
        exact if_neg fun h => h.elim hspec.1 hspec.2.1
      rw [escape, List.flatMap_congr hmap, List.flatMap_singleton']
    have hrest := (List.cons_prefix_cons.mp h).2
    rw [← hplain] at hrest
    exact hne (hplain.symm.trans (escape_eq_of_startsWith hkey hrest))
  have hclose : ∀ c ∈ (before ++ 58 :: (behind ++ s)).head?, c ≠ 34 ∧ isAlnum c = false := by
    intro c hc
    cases before with
    | nil =>
      obtain rfl : 58 = c := by simpa using hc
      decide
    | cons d before =>
      obtain rfl : d = c := by simpa using hc
      have hd : isBlank d = true := hbefore d List.mem_cons_self
      refine ⟨fun h => ?_, Bool.eq_false_iff.mpr fun h => ?_⟩
      · rw [h] at hd
        exact absurd hd (by decide)
      · rw [(isAlnum_spec h).2.2.2.1] at hd
        cases hd
  rw [search_cons hopen, search_plain hkey'.quote_not_mem, search_closing hkey hclose,
    search_plain (blanks_noQuote hbefore), search_other (by decide),
    search_plain (blanks_noQuote hbehind)]

end WslFreeBSD.Gns
