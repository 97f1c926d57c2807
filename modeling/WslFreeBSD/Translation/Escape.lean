import Mathlib.Data.List.Chain
import Mathlib.Data.List.TakeWhile
import WslFreeBSD.Lib.CBuffer
import WslFreeBSD.Translation.MountTable

/-!
# Escaped paths

`init/escape.cpp`: characters that NTFS does not allow are replaced by UTF-8 sequences of a private range.
Paths are changed in place, inside of a string whose size stays the same: where the text gets shorter, the
string goes on behind the text with a NUL and with bytes that are left over.

Unescaping an escaped path leaves the path as the text of the string, `takeWhile_unescapePathInplace`.
-/

namespace WslFreeBSD.Translation

open Lib

/-! ## Escaping -/

/-- `EscapeCharNeedsEscape`: the table of `escape.cpp`, in which the slash is legal and the colon is not. -/
def escapeCharNeedsEscape (character : UInt8) : Bool :=
  character < 32 || character ∈ ascii "\"*:<>?\\|"

/-- The second and the third byte of `UtilEscapeCharBase`. -/
def escapeCharBase : UInt8 := 0x80

/-- The sequence for a character: its two upper bits are in the second byte, the others in the third. -/
def escapeSequence (character : UInt8) : Bytes :=
  [0xef, escapeCharBase ||| (character >>> 6), escapeCharBase ||| (character &&& 0x3f)]

def escapePathChar (character : UInt8) : Bytes :=
  if character = 47 then [92]
  else if !escapeCharNeedsEscape character then [character]
  else escapeSequence character

/-- `EscapePathForNt`: what is stored in the buffer, which has this length. -/
def escapePathForNt (path : Bytes) : Bytes := path.flatMap escapePathChar

/-- `EscapePathForNtLength`. -/
def escapePathForNtLength (path : Bytes) : Nat :=
  (path.map fun character => if !escapeCharNeedsEscape character then 1 else 3).sum

/-! ## Changes in place -/

/-- What a string holds after a text and a NUL have been stored over its start. -/
def overwrite (string text : Bytes) : Bytes := (text ++ 0 :: string.drop (text.length + 1)).take string.length

/-- `UtilCanonicalisePathSeparator` on the memory of a string. -/
def canonicaliseInplace (string : Bytes) (separator : UInt8) : Bytes :=
  overwrite string (canonicalisePathSeparator (string.takeWhile (· ≠ 0)) separator)

/-- `memmove` of the text that starts at `remaining`, with its NUL, to the start of the memory. -/
def moveText (memory remaining : Bytes) : Bytes :=
  let length := (remaining.takeWhile (· ≠ 0)).length + 1
  remaining.take length ++ memory.drop length

/-- The character that a sequence stands for, from the memory behind its first byte. -/
def unescapedChar (memory : Bytes) : UInt8 := (memory.headD 0 <<< 6) ||| ((memory.drop 1).headD 0 &&& 0x3f)

/-- A sequence that can be unescaped starts here. -/
abbrev StartsSequence (current : UInt8) (memory : Bytes) : Prop :=
  current = 0xef ∧ memory.headD 0 &&& escapeCharBase ≠ 0 ∧ (memory.drop 1).headD 0 &&& escapeCharBase ≠ 0 ∧
    escapeCharNeedsEscape (unescapedChar memory) = true

/-- The loop of `UnescapePathInplace` on the memory from `Current` on. A sequence may stand for NUL; the loop
goes on behind it. -/
def unescapeFrom : Nat → Bytes → Bytes
  | n + 1, current :: memory =>
    if current = 0 then 0 :: memory
    else if StartsSequence current memory then
      unescapedChar memory :: unescapeFrom n (moveText memory (memory.drop 2))
    else current :: unescapeFrom n memory
  | _, memory => memory

/-- `UnescapePathInplace`; a NUL stands behind the string. -/
def unescapePathInplace (string : Bytes) : Bytes :=
  (unescapeFrom string.length (string ++ [0])).take string.length

/-! ## What escaping does -/

/-- A path of which the characters that are legal are copied in some way. -/
def escapeWith (copy : UInt8 → UInt8) (path : Bytes) : Bytes :=
  path.flatMap fun c => if escapeCharNeedsEscape c then escapeSequence c else [copy c]

def escapeText (path : Bytes) : Bytes :=
  path.flatMap fun c => if escapeCharNeedsEscape c then escapeSequence c else [c]

theorem escapeSequence_spec : ∀ c : UInt8, escapeCharNeedsEscape c = true →
    (escapeCharBase ||| (c >>> 6)) &&& escapeCharBase ≠ 0 ∧
      (escapeCharBase ||| (c &&& 0x3f)) &&& escapeCharBase ≠ 0 ∧
      ((escapeCharBase ||| (c >>> 6)) <<< 6) ||| ((escapeCharBase ||| (c &&& 0x3f)) &&& 0x3f) = c ∧
      (∀ d ∈ escapeSequence c, d ≠ 0 ∧ ¬ IsSeparator d) :=
  forall_char (by decide +kernel)

theorem length_escapePathForNt (path : Bytes) : (escapePathForNt path).length = escapePathForNtLength path := by
  unfold escapePathForNt escapePathForNtLength
  rw [List.length_flatMap]
  refine congrArg List.sum (List.map_congr_left fun c _ => ?_)
  unfold escapePathChar
  by_cases hslash : c = 47
  · subst hslash
    rfl
  · rw [if_neg hslash]
    split <;> rfl

theorem length_le_escapePathForNtLength (path : Bytes) : path.length ≤ escapePathForNtLength path := by
  induction path with
  | nil => exact le_rfl
  | cons c path ih =>
    simp only [escapePathForNtLength, List.map_cons, List.sum_cons, List.length_cons] at ih ⊢
    split <;> omega

theorem escapePathForNtLength_eq_iff (path : Bytes) :
    escapePathForNtLength path = path.length ↔ ∀ c ∈ path, escapeCharNeedsEscape c = false := by
  induction path with
  | nil => simp [escapePathForNtLength]
  | cons c path ih =>
    have hle := length_le_escapePathForNtLength path
    have hcons : escapePathForNtLength (c :: path) =
        (if !escapeCharNeedsEscape c then 1 else 3) + escapePathForNtLength path := by
      simp [escapePathForNtLength]
    rw [hcons, List.length_cons, List.forall_mem_cons, ← ih]
    cases escapeCharNeedsEscape c with
    | false => simp [Nat.add_comm 1]
    | true =>
      simp only [Bool.not_true, Bool.false_eq_true, if_false, Bool.true_eq_false, false_and, iff_false]
      omega

theorem escapeText_eq_self {path : Bytes} (h : ∀ c ∈ path, escapeCharNeedsEscape c = false) :
    escapeText path = path := by
  unfold escapeText
  induction path with
  | nil => rfl
  | cons c path ih =>
    rw [List.flatMap_cons, h c List.mem_cons_self, ih fun d hd => h d (List.mem_cons_of_mem c hd)]
    rfl

theorem zero_not_mem_escapeWith {copy : UInt8 → UInt8} {path : Bytes} (h : ∀ c ∈ path, copy c ≠ 0) :
    0 ∉ escapeWith copy path := by
  intro hzero
  obtain ⟨c, hc, hzero⟩ := List.mem_flatMap.mp hzero
  cases hneeds : escapeCharNeedsEscape c with
  | true =>
    rw [hneeds] at hzero
    exact ((escapeSequence_spec c hneeds).2.2.2 0 hzero).1 rfl
  | false =>
    rw [hneeds] at hzero
    exact h c hc (List.mem_singleton.mp hzero).symm

theorem length_escapeWith (copy : UInt8 → UInt8) (path : Bytes) :
    (escapeWith copy path).length = escapePathForNtLength path := by
  unfold escapeWith escapePathForNtLength
  rw [List.length_flatMap]
  refine congrArg List.sum (List.map_congr_left fun c _ => ?_)
  cases escapeCharNeedsEscape c <;> rfl

theorem length_escapeText (path : Bytes) : (escapeText path).length = escapePathForNtLength path :=
  length_escapeWith id path

/-! ## Separators -/

def SingleSlashes (path : Bytes) : Prop := ¬ [47, 47] <:+: path

theorem SingleSlashes.isChain {path : Bytes} (h : SingleSlashes path) :
    path.IsChain fun c d => ¬ (c = 47 ∧ d = 47) := by
  refine List.isChain_iff_forall_rel_of_append_cons_cons.mpr ?_
  rintro c d before after rfl ⟨rfl, rfl⟩
  exact h ⟨before, after, by simp⟩

abbrev Joins (separator : UInt8) (written : Bytes) : Prop :=
  ¬ (1 < written.length ∧ written.getLast? = some separator)

theorem foldl_canonicaliseStep {slash separator : UInt8} {f g : UInt8 → Bytes} {path : Bytes}
    (hstep : ∀ c ∈ path, ∀ written : Bytes, (c = slash → Joins separator written) →
      (f c).foldl (canonicaliseStep separator) written = written ++ g c)
    (hlast : ∀ c ∈ path, c ≠ slash → ∀ written : Bytes, (written ++ g c).getLast? ≠ some separator)
    (hchain : path.IsChain fun c d => ¬ (c = slash ∧ d = slash)) {written : Bytes}
    (hjoin : path.head? = some slash → Joins separator written) :
    (path.flatMap f).foldl (canonicaliseStep separator) written = written ++ path.flatMap g := by
  induction path generalizing written with
  | nil => simp
  | cons c path ih =>
    rw [List.flatMap_cons, List.flatMap_cons, List.foldl_append,
      hstep c List.mem_cons_self written fun hc => hjoin (congrArg some hc), ih, List.append_assoc]
    · exact fun d hd => hstep d (List.mem_cons_of_mem c hd)
    · exact fun d hd => hlast d (List.mem_cons_of_mem c hd)
    · exact hchain.of_cons
    · intro hhead hboth
      refine hlast c List.mem_cons_self ?_ written hboth.2
      rintro rfl
      obtain ⟨rest, rfl⟩ := List.head?_eq_some_iff.mp hhead
      exact (List.isChain_cons_cons.mp hchain).1 ⟨rfl, rfl⟩

theorem foldl_canonicaliseStep_plain {separator : UInt8} {text : Bytes} (h : ∀ c ∈ text, ¬ IsSeparator c)
    (written : Bytes) : text.foldl (canonicaliseStep separator) written = written ++ text := by
  induction text generalizing written with
  | nil => simp
  | cons c text ih =>
    have hc : canonicaliseStep separator written c = written ++ [c] := if_neg (h c List.mem_cons_self)
    rw [List.foldl_cons, hc, ih fun d hd => h d (List.mem_cons_of_mem c hd), List.append_assoc]
    rfl

theorem getLast?_append_ne {written text : Bytes} {separator : UInt8} (hne : text ≠ [])
    (h : separator ∉ text) : (written ++ text).getLast? ≠ some separator := by
  intro hlast
  rw [List.getLast?_append_of_ne_nil _ hne] at hlast
  exact h (List.mem_of_getLast? hlast)

theorem not_isSeparator_of_legal {c : UInt8} (hslash : c ≠ 47) (h : escapeCharNeedsEscape c = false) :
    ¬ IsSeparator c := by
  rintro (rfl | rfl)
  · exact hslash rfl
  · exact absurd h (by decide)

theorem canonicalise_escapePathForNt {path : Bytes} (h : SingleSlashes path) :
    canonicalisePathSeparator (escapePathForNt path) 47 = escapeText path := by
  refine foldl_canonicaliseStep ?_ ?_ h.isChain (fun _ => by simp)
  · intro c _ written hjoin
    unfold escapePathChar
    by_cases hslash : c = 47
    · subst hslash
      have hkeep : ¬ (1 < written.length ∧ written.getLast? = some 47) := hjoin rfl
      simp [canonicaliseStep, hkeep, escapeCharNeedsEscape, ascii]
    · rw [if_neg hslash]
      cases hneeds : escapeCharNeedsEscape c with
      | false =>
        refine foldl_canonicaliseStep_plain ?_ written
        intro d hd
        obtain rfl : d = c := List.mem_singleton.mp hd
        exact not_isSeparator_of_legal hslash hneeds
      | true =>
        refine foldl_canonicaliseStep_plain ?_ written
        exact fun d hd => ((escapeSequence_spec c hneeds).2.2.2 d hd).2
  · intro c _ hslash written
    cases hneeds : escapeCharNeedsEscape c with
    | false =>
      refine getLast?_append_ne (List.cons_ne_nil _ _) fun hmem => ?_
      exact hslash (List.mem_singleton.mp hmem).symm
    | true =>
      refine getLast?_append_ne (List.cons_ne_nil _ _) fun hmem => ?_
      exact ((escapeSequence_spec c hneeds).2.2.2 47 hmem).2 (Or.inl rfl)

theorem canonicalise_of_legal {path : Bytes} (h : SingleSlashes path)
    (hlegal : ∀ c ∈ path, escapeCharNeedsEscape c = false) :
    canonicalisePathSeparator path 92 = escapePathForNt path := by
  have hself : path.flatMap (fun c => [c]) = path := List.flatMap_singleton' path
  have hfold : (path.flatMap fun c => [c]).foldl (canonicaliseStep 92) [] =
      [] ++ path.flatMap escapePathChar := by
    refine foldl_canonicaliseStep ?_ ?_ h.isChain (fun _ => by simp)
    · intro c hc written hjoin
      by_cases hslash : c = 47
      · subst hslash
        have hkeep : ¬ (1 < written.length ∧ written.getLast? = some 92) := hjoin rfl
        simp [canonicaliseStep, hkeep, escapePathChar]
      · have hplain : ¬ IsSeparator c := not_isSeparator_of_legal hslash (hlegal c hc)
        simp [canonicaliseStep, hplain, escapePathChar, hslash, hlegal c hc]
    · intro c hc hslash written
      have hchar : escapePathChar c = [c] := by simp [escapePathChar, hslash, hlegal c hc]
      rw [hchar]
      refine getLast?_append_ne (List.cons_ne_nil _ _) fun hmem => ?_
      obtain rfl : 92 = c := List.mem_singleton.mp hmem
      exact absurd (hlegal 92 hc) (by decide)
  rw [hself] at hfold
  exact hfold

/-- Back to slashes, one for one, in a path that only has backslashes, and single ones behind its first two
characters. -/
theorem canonicalise_of_single {path : Bytes} (hslash : 47 ∉ path)
    (hchain : path.tail.IsChain fun c d => ¬ (c = 92 ∧ d = 92)) :
    canonicalisePathSeparator path 47 = path.map fun c => if c = 92 then 47 else c := by
  have hone : ∀ c, c ≠ 47 → ∀ written : Bytes, (c = 92 → Joins 47 written) →
      canonicaliseStep 47 written c = written ++ [if c = 92 then 47 else c] := by
    intro c hc written hjoin
    unfold canonicaliseStep
    by_cases hsep : c = 92
    · rw [if_pos (Or.inr hsep), if_neg (hjoin hsep), if_pos hsep]
    · have hplain : ¬ IsSeparator c := by
        rintro (h | h)
        · exact hc h
        · exact hsep h
      rw [if_neg hplain, if_neg hsep]
  cases path with
  | nil => rfl
  | cons c path =>
    have hc : c ≠ 47 := fun heq => hslash (heq ▸ List.mem_cons_self)
    have hfold : (path.flatMap fun c => [c]).foldl (canonicaliseStep 47) [if c = 92 then 47 else c] =
        [if c = 92 then 47 else c] ++ path.flatMap fun c => [if c = 92 then 47 else c] := by
      refine foldl_canonicaliseStep ?_ ?_ hchain fun _ hboth => absurd hboth.1 (by simp)
      · intro d hd written hjoin
        exact hone d (fun heq => hslash (heq ▸ List.mem_cons_of_mem c hd)) written hjoin
      · intro d hd hsep written
        refine getLast?_append_ne (List.cons_ne_nil _ _) fun hmem => ?_
        rw [if_neg hsep] at hmem
        obtain rfl : 47 = d := List.mem_singleton.mp hmem
        exact hslash (List.mem_cons_of_mem c hd)
    rw [canonicalisePathSeparator, List.foldl_cons, hone c hc [] fun _ hboth => absurd hboth.1 (by simp)]
    simpa [List.flatMap_singleton', List.map_eq_flatMap] using hfold

/-! ## Unescaping -/

theorem unescapeFrom_cons {current : UInt8} {memory : Bytes} (hzero : current ≠ 0)
    (hplain : ¬ StartsSequence current memory) (n : Nat) :
    unescapeFrom (n + 1) (current :: memory) = current :: unescapeFrom n memory := by
  rw [unescapeFrom, if_neg hzero, if_neg hplain]

theorem unescapeFrom_plain {current : UInt8} (hzero : current ≠ 0) (hplain : current ≠ 0xef) (n : Nat)
    (memory : Bytes) : unescapeFrom (n + 1) (current :: memory) = current :: unescapeFrom n memory :=
  unescapeFrom_cons hzero (fun hstart => hplain hstart.1) n

theorem unescapeFrom_escaped {c : UInt8} (h : escapeCharNeedsEscape c = true) (n : Nat) (remaining : Bytes) :
    ∃ memory, unescapeFrom (n + 1) (escapeSequence c ++ remaining) =
      c :: unescapeFrom n (moveText memory remaining) := by
  obtain ⟨hsecond, hthird, hback, -⟩ := escapeSequence_spec c h
  have hchar : unescapedChar
      ((escapeCharBase ||| (c >>> 6)) :: (escapeCharBase ||| (c &&& 0x3f)) :: remaining) = c := hback
  refine ⟨(escapeCharBase ||| (c >>> 6)) :: (escapeCharBase ||| (c &&& 0x3f)) :: remaining, ?_⟩
  rw [escapeSequence, List.cons_append, List.cons_append, List.singleton_append, unescapeFrom,
    if_neg (by decide), if_pos ⟨rfl, hsecond, hthird, hchar.symm ▸ h⟩, hchar]
  rfl

theorem takeWhile_zero {text : Bytes} (h : 0 ∉ text) (rest : Bytes) :
    (text ++ 0 :: rest).takeWhile (· ≠ 0) = text := HoldsText.takeWhile_eq ⟨h, rest, rfl⟩

theorem exists_moveText {text : Bytes} (h : 0 ∉ text) (memory rest : Bytes) :
    ∃ rest', moveText memory (text ++ 0 :: rest) = text ++ 0 :: rest' := by
  refine ⟨memory.drop (text.length + 1), ?_⟩
  unfold moveText
  rw [takeWhile_zero h]
  simp [List.take_append, List.take_of_length_le]

theorem exists_unescapeFrom {copy : UInt8 → UInt8} {path : Bytes}
    (hcopy : ∀ c ∈ path, copy c ≠ 0 ∧ copy c ≠ 0xef) (hneeded : ∀ c, escapeCharNeedsEscape c = true → copy c = c)
    {n : Nat} (hn : path.length ≤ n) (rest : Bytes) :
    ∃ rest', unescapeFrom n (escapeWith copy path ++ 0 :: rest) = path.map copy ++ 0 :: rest' := by
  induction path generalizing n rest with
  | nil =>
    refine ⟨rest, ?_⟩
    cases n with
    | zero => rfl
    | succ n => simp [escapeWith, unescapeFrom]
  | cons c path ih =>
    obtain ⟨n, rfl⟩ : ∃ k, n = k + 1 := ⟨n - 1, by rw [List.length_cons] at hn; omega⟩
    have hcopy' : ∀ d ∈ path, copy d ≠ 0 ∧ copy d ≠ 0xef := fun d hd => hcopy d (List.mem_cons_of_mem c hd)
    have hrest := fun rest => ih hcopy' (Nat.le_of_succ_le_succ hn) rest
    obtain ⟨hc0, hcef⟩ := hcopy c List.mem_cons_self
    cases hneeds : escapeCharNeedsEscape c with
    | false =>
      have hcons : escapeWith copy (c :: path) = copy c :: escapeWith copy path := by simp [escapeWith, hneeds]
      obtain ⟨rest', hrest'⟩ := hrest rest
      refine ⟨rest', ?_⟩
      rw [hcons, List.cons_append, unescapeFrom_plain hc0 hcef, hrest']
      rfl
    | true =>
      have hcons : escapeWith copy (c :: path) = escapeSequence c ++ escapeWith copy path := by
        simp [escapeWith, hneeds]
      obtain ⟨memory, hmemory⟩ := unescapeFrom_escaped hneeds n (escapeWith copy path ++ 0 :: rest)
      obtain ⟨moved, hmoved⟩ :=
        exists_moveText (zero_not_mem_escapeWith fun d hd => (hcopy' d hd).1) memory rest
      obtain ⟨rest', hrest'⟩ := hrest moved
      refine ⟨rest', ?_⟩
      rw [hcons, List.append_assoc, hmemory, hmoved, hrest', List.map_cons, hneeded c hneeds]
      rfl

theorem takeWhile_take_zero {text : Bytes} (h : 0 ∉ text) (rest : Bytes) {size : Nat}
    (hsize : text.length ≤ size) :
    ((text ++ 0 :: rest).take size).takeWhile (· ≠ 0) = text := by
  obtain ⟨extra, rfl⟩ := Nat.exists_eq_add_of_le hsize
  rw [List.take_length_add_append]
  cases extra with
  | zero =>
    rw [List.take_zero, List.append_nil, List.takeWhile_eq_self_iff]
    intro c hc
    rw [decide_eq_true_eq]
    rintro rfl
    exact h hc
  | succ extra => exact takeWhile_zero h _

theorem takeWhile_unescape_escapeWith {copy : UInt8 → UInt8} {path : Bytes}
    (hcopy : ∀ c ∈ path, copy c ≠ 0 ∧ copy c ≠ 0xef)
    (hneeded : ∀ c, escapeCharNeedsEscape c = true → copy c = c) :
    (unescapePathInplace (escapeWith copy path)).takeWhile (· ≠ 0) = path.map copy := by
  have hlen : path.length ≤ (escapeWith copy path).length := by
    rw [length_escapeWith]
    exact length_le_escapePathForNtLength path
  obtain ⟨rest, hrest⟩ := exists_unescapeFrom hcopy hneeded hlen []
  have hnul : 0 ∉ path.map copy := by
    intro hmem
    obtain ⟨c, hc, hzero⟩ := List.mem_map.mp hmem
    exact (hcopy c hc).1 hzero
  unfold unescapePathInplace
  rw [hrest]
  exact takeWhile_take_zero hnul rest (by rwa [List.length_map])

theorem takeWhile_unescapePathInplace {path : Bytes} (hnul : 0 ∉ path) (hplain : 0xef ∉ path) :
    (unescapePathInplace (escapeText path)).takeWhile (· ≠ 0) = path := by
  have h := @takeWhile_unescape_escapeWith id path (fun _ hc => ⟨ne_of_mem_of_not_mem hc hnul, ne_of_mem_of_not_mem hc hplain⟩) fun _ _ => rfl
  rw [List.map_id] at h
  exact h

theorem overwrite_of_length {string text : Bytes} (h : text.length = string.length) :
    overwrite string text = text := by
  unfold overwrite
  rw [← h]
  exact List.take_left

/-! ## Paths with escape sequences -/

def holdsEscape : Bytes → Bool
  | [] => false
  | current :: rest => StartsSequence current rest || holdsEscape rest

theorem holdsEscape_append_zero (string : Bytes) : holdsEscape (string ++ [0]) = holdsEscape string := by
  induction string with
  | nil => decide
  | cons c string ih =>
    have hstart : StartsSequence c (string ++ [0]) ↔ StartsSequence c string := by
      unfold StartsSequence unescapedChar
      cases string with
      | nil => rfl
      | cons d string => cases string <;> rfl
    rw [List.cons_append, holdsEscape, holdsEscape, ih, decide_eq_decide.mpr hstart]

theorem holdsEscape_of_not_mem {string : Bytes} (h : 0xef ∉ string) : holdsEscape string = false := by
  induction string with
  | nil => rfl
  | cons c string ih =>
    have hstart : ¬ StartsSequence c string := fun hstart => h (hstart.1 ▸ List.mem_cons_self)
    rw [holdsEscape, ih fun hmem => h (List.mem_cons_of_mem c hmem), decide_eq_false hstart]
    rfl

theorem unescapeFrom_of_not_holds {memory : Bytes} (h : holdsEscape memory = false) (n : Nat) :
    unescapeFrom n memory = memory := by
  induction n generalizing memory with
  | zero => cases memory <;> rfl
  | succ n ih =>
    cases memory with
    | nil => rfl
    | cons current memory =>
      rw [holdsEscape, Bool.or_eq_false_iff, decide_eq_false_iff_not] at h
      by_cases hzero : current = 0
      · rw [unescapeFrom, if_pos hzero, hzero]
      · rw [unescapeFrom_cons hzero h.1, ih h.2]

theorem unescapePathInplace_of_not_holds {string : Bytes} (h : holdsEscape string = false) :
    unescapePathInplace string = string := by
  unfold unescapePathInplace
  rw [unescapeFrom_of_not_holds]
  · exact List.take_left
  · rw [holdsEscape_append_zero, h]

theorem exists_unescapeFrom_sequence {c : UInt8} {text rest : Bytes} (hc : c ≠ 0) (h : 0 ∉ text)
    (hstart : StartsSequence c (text ++ 0 :: rest)) (n : Nat) :
    ∃ text' rest' unescaped, text.length = text'.length + 2 ∧ 0 ∉ text' ∧
      unescapeFrom (n + 1) (c :: (text ++ 0 :: rest)) = unescaped :: unescapeFrom n (text' ++ 0 :: rest') := by
  have hzero : (0 : UInt8) &&& escapeCharBase = 0 := by decide
  rw [unescapeFrom, if_neg hc, if_pos hstart]
  obtain ⟨-, hsecond, hthird, -⟩ := hstart
  -- neither of the two bytes behind the first one is the NUL
  cases text with
  | nil => exact absurd hzero hsecond
  | cons d text =>
    cases text with
    | nil => exact absurd hzero hthird
    | cons e text =>
      have htext : 0 ∉ text := fun hmem => h (List.mem_cons_of_mem d (List.mem_cons_of_mem e hmem))
      obtain ⟨rest', hmove⟩ := exists_moveText htext (d :: e :: text ++ 0 :: rest) rest
      have hdrop : (d :: e :: text ++ 0 :: rest).drop 2 = text ++ 0 :: rest := rfl
      rw [hdrop, hmove]
      exact ⟨text, rest', _, rfl, htext, rfl⟩

theorem zero_mem_unescapeFrom {text : Bytes} (h : 0 ∉ text) (n : Nat) (rest : Bytes) :
    0 ∈ (unescapeFrom n (text ++ 0 :: rest)).take (text.length + 1) := by
  induction n generalizing text rest with
  | zero =>
    have hself : unescapeFrom 0 (text ++ 0 :: rest) = text ++ 0 :: rest := by cases text <;> rfl
    rw [hself, List.take_length_add_append]
    exact List.mem_append_right _ List.mem_cons_self
  | succ n ih =>
    cases text with
    | nil => simp [unescapeFrom]
    | cons c text =>
      have hc : c ≠ 0 := fun heq => h (heq ▸ List.mem_cons_self)
      have htext : 0 ∉ text := fun hmem => h (List.mem_cons_of_mem c hmem)
      rw [List.cons_append, List.length_cons]
      by_cases hstart : StartsSequence c (text ++ 0 :: rest)
      · obtain ⟨text', rest', unescaped, hlen, htext', hstep⟩ := exists_unescapeFrom_sequence hc htext hstart n
        rw [hstep, List.take_succ_cons]
        exact List.mem_cons_of_mem _ (List.take_subset_take_left _ (by omega) (ih htext' rest'))
      · rw [unescapeFrom_cons hc hstart, List.take_succ_cons]
        exact List.mem_cons_of_mem c (ih htext rest)

theorem zero_mem_unescapePathInplace {string : Bytes} (hnul : 0 ∉ string) (h : holdsEscape string = true) :
    0 ∈ unescapePathInplace string := by
  unfold unescapePathInplace
  induction string with
  | nil => exact absurd h (by decide)
  | cons c string ih =>
    have hc : c ≠ 0 := fun heq => hnul (heq ▸ List.mem_cons_self)
    have hstring : 0 ∉ string := fun hmem => hnul (List.mem_cons_of_mem c hmem)
    rw [List.length_cons, List.cons_append]
    by_cases hstart : StartsSequence c (string ++ [0])
    · obtain ⟨text, rest, unescaped, hlen, htext, hstep⟩ :=
        exists_unescapeFrom_sequence hc hstring hstart string.length
      rw [hstep, List.take_succ_cons]
      have hzero := zero_mem_unescapeFrom htext string.length rest
      exact List.mem_cons_of_mem _ (List.take_subset_take_left _ (by omega) hzero)
    · rw [unescapeFrom_cons hc hstart, List.take_succ_cons]
      refine List.mem_cons_of_mem c (ih hstring ?_)
      rw [← holdsEscape_append_zero, List.cons_append, holdsEscape, decide_eq_false hstart, Bool.false_or,
        holdsEscape_append_zero] at h
      exact h

end WslFreeBSD.Translation
