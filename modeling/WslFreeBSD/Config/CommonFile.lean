import Mathlib.Data.List.Chain
import WslFreeBSD.Config.FirstValues
import WslFreeBSD.Lib.Trim

/-!
# Files that need no rule of their own

The lines that the parser of `wsl.conf` and its reference are meant to read alike: blank lines,
comments, headers, and values that are plain or quoted. A `CommonFile` is made of such lines, each of
which fits into the buffer of `fgets`. `assignments` says what the file means, without a parser.

`applyCalls` are the calls of `wsl_conf_apply` that `wsl_conf_parse_stream` makes
(`wslConfParseStream_eq_calls`). On a common file they are the assignments in its sections
(`applyCalls_commonFile`), unless a NUL stands directly after a space in a value: the line ends
there for the parser, and the space is trimmed.
-/

namespace WslFreeBSD.Config

open Lib

/-! ## The lines -/

abbrev Blanks := {s : Bytes // ∀ c ∈ s, isBlank c = true}

def oneSpace : Blanks := ⟨[32], by decide⟩

abbrev CommentText := {s : Bytes // ∀ c ∈ s, c < 128 ∧ c ≠ 10 ∧ c ≠ 13}

abbrev Word := {s : Bytes // s.head?.any isAlpha = true ∧ ∀ c ∈ s, isAlnum c = true}

/-- Text without quotes, backslashes and `#`. -/
abbrev PlainText :=
  {s : Bytes // ∀ c ∈ s, c < 128 ∧ c ≠ 10 ∧ c ≠ 13 ∧ c ≠ 34 ∧ c ≠ 92 ∧ c ≠ 35}

abbrev QuotedChar := {c : UInt8 // c < 128 ∧ c ≠ 10 ∧ c ≠ 13 ∧ c ≠ 34 ∧ c ≠ 92}

inductive Escape where
  | backslash | quote | newline | tab | backspace
  deriving DecidableEq, Repr

def Escape.letter : Escape → UInt8
  | .backslash => 92
  | .quote => 34
  | .newline => 110
  | .tab => 116
  | .backspace => 98

def Escape.meaning : Escape → UInt8
  | .backslash => 92
  | .quote => 34
  | .newline => 10
  | .tab => 9
  | .backspace => 8

inductive QuotedItem where
  | char (c : QuotedChar)
  | escape (e : Escape)

def QuotedItem.text : QuotedItem → Bytes
  | .char c => [c.val]
  | .escape e => [92, e.letter]

def QuotedItem.meaning : QuotedItem → UInt8
  | .char c => c.val
  | .escape e => e.meaning

inductive CommonValue where
  | plain (text : PlainText)
  | quoted (items : List QuotedItem)

def CommonValue.text : CommonValue → Bytes
  | .plain text => text.val
  | .quoted items => 34 :: (items.flatMap (·.text) ++ [34])

/-- The string that is meant: without the spaces around it, or without its quotes. -/
def CommonValue.meaning : CommonValue → Bytes
  | .plain text => cString (trim isBlank isBlank text.val) 0
  | .quoted items => cString (items.map (·.meaning)) 0

/-- A comment behind something else, if there is one. -/
def commentText : Option CommentText → Bytes
  | none => []
  | some text => 35 :: text.val

inductive CommonLine where
  | blank (spaces : Blanks)
  | comment (spaces : Blanks) (text : CommentText)
  | header (spaces : Blanks) (name : {w : Word // w.val.length ≤ 127}) (after : Blanks)
      (remark : Option CommentText)
  | keyValue (spaces : Blanks) (key : Word) (before after : Blanks) (value : CommonValue)
      (behind : Blanks) (remark : Option CommentText)

def CommonLine.text : CommonLine → Bytes
  | .blank spaces => spaces.val
  | .comment spaces text => spaces.val ++ 35 :: text.val
  | .header spaces name after remark =>
    spaces.val ++ 91 :: (name.val.val ++ 93 :: (after.val ++ commentText remark))
  | .keyValue spaces key before after value behind remark =>
    spaces.val ++ (key.val ++ (before.val ++ 61 ::
      (after.val ++ (value.text ++ (behind.val ++ commentText remark)))))

/-- A file of such lines, each shorter than 4095 bytes. -/
structure CommonFile where
  lines : List CommonLine
  short : ∀ line ∈ lines, line.text.length < 4095

def CommonFile.text (file : CommonFile) : Bytes := file.lines.flatMap fun line => line.text ++ [10]

/-- No NUL stands directly after a space or a tab. -/
def NoNulAfterBlank (s : Bytes) : Prop := s.IsChain fun b c => isBlank b = true → c ≠ 0

instance (s : Bytes) : Decidable (NoNulAfterBlank s) :=
  inferInstanceAs (Decidable (s.IsChain fun b c => isBlank b = true → c ≠ 0))

/-- This holds of the value of the line, if there is one. -/
def CommonLine.Clear : CommonLine → Prop
  | .keyValue _ _ _ _ value _ _ => NoNulAfterBlank value.text
  | _ => True

instance : DecidablePred CommonLine.Clear
  | .blank _ | .comment _ _ | .header _ _ _ _ => isTrue trivial
  | .keyValue _ _ _ _ value _ _ => inferInstanceAs (Decidable (NoNulAfterBlank value.text))

/-! ## What the lines mean -/

def CommonLine.nextSection (inSection : Bytes) : CommonLine → Bytes
  | .header _ name _ _ => name.val.val
  | _ => inSection

/-- The section, the key and the value of a line. -/
def CommonLine.assignment (inSection : Bytes) : CommonLine → List (Bytes × Bytes × Bytes)
  | .keyValue _ key _ _ value _ _ => [(inSection, key.val, value.meaning)]
  | _ => []

def assignments (inSection : Bytes) : List CommonLine → List (Bytes × Bytes × Bytes)
  | [] => []
  | line :: ls => line.assignment inSection ++ assignments (line.nextSection inSection) ls

/-! ## Calls of the parser -/

def sectionAfter (inSection line : Bytes) : Bytes :=
  match headerName line with
  | some name => openSection name
  | none => inSection

/-- The call of `wsl_conf_apply` for a line: the section, the key and the value. -/
def lineCalls (inSection line : Bytes) : List (Bytes × Bytes × Bytes) :=
  match headerName line, keyValue line with
  | none, some (key, value) => if inSection = [] then [] else [(inSection, key, value)]
  | _, _ => []

def recordCalls (st : Bytes × List (Bytes × Bytes × Bytes)) (line : Bytes) :
    Bytes × List (Bytes × Bytes × Bytes) :=
  (sectionAfter st.1 line, st.2 ++ lineCalls st.1 line)

/-- The calls of `wsl_conf_apply` that `wsl_conf_parse_stream` makes. -/
def applyCalls (stream : Bytes) : List (Bytes × Bytes × Bytes) :=
  ((fgetsAll 4096 stream).foldl recordCalls ([], [])).2

/-- A call, with its effect on the configuration. -/
def applyCall (conf : WslConf) (call : Bytes × Bytes × Bytes) : WslConf :=
  (wslConfApply conf call.1 call.2.1 call.2.2).1

theorem parseLine_eq_calls (st : ParseState) (line : Bytes) :
    parseLine st line = ⟨(lineCalls st.currentSection line).foldl applyCall st.conf,
      sectionAfter st.currentSection line⟩ := by
  rw [parseLine_eq, lineCalls, sectionAfter]
  cases headerName line with
  | some name => rfl
  | none =>
    cases keyValue line with
    | none => rfl
    | some pair =>
      dsimp only
      split <;> rfl

theorem foldl_parseLine_eq_calls (ls : List Bytes) (conf : WslConf) (inSection : Bytes)
    (calls : List (Bytes × Bytes × Bytes)) :
    ls.foldl parseLine ⟨calls.foldl applyCall conf, inSection⟩ =
      ⟨(ls.foldl recordCalls (inSection, calls)).2.foldl applyCall conf,
        (ls.foldl recordCalls (inSection, calls)).1⟩ := by
  induction ls generalizing inSection calls with
  | nil => rfl
  | cons line ls ih =>
    rw [List.foldl_cons, List.foldl_cons, parseLine_eq_calls, ← List.foldl_append]
    exact ih (sectionAfter inSection line) (calls ++ lineCalls inSection line)

theorem wslConfParseStream_eq_calls (conf : WslConf) (stream : Bytes) :
    wslConfParseStream conf stream =
      { (applyCalls stream).foldl applyCall conf with parsed := true } := by
  have hfold := foldl_parseLine_eq_calls (fgetsAll 4096 stream) conf [] []
  rw [List.foldl_nil] at hfold
  rw [wslConfParseStream, hfold, applyCalls]

/-! ## Characters -/

theorem isTrailing_of_isBlank {c : UInt8} (h : isBlank c = true) : isTrailing c = true := by
  unfold isBlank at h
  unfold isTrailing
  rw [h, Bool.true_or, Bool.true_or]

theorem isTrailing_eq_isBlank {c : UInt8} (hbreak : c ≠ 10) (hreturn : c ≠ 13) :
    isTrailing c = isBlank c := by
  unfold isTrailing isBlank
  rw [decide_eq_false hbreak, decide_eq_false hreturn, Bool.or_false, Bool.or_false]

theorem isBlank_iff {c : UInt8} : isBlank c = true ↔ c = 32 ∨ c = 9 := by
  simp [isBlank]

theorem isTrailing_iff {c : UInt8} : isTrailing c = true ↔ c = 32 ∨ c = 9 ∨ c = 13 ∨ c = 10 := by
  simp [isTrailing, or_assoc]

theorem isAlnum_spec {c : UInt8} (h : isAlnum c = true) :
    c ≠ 0 ∧ isTrailing c = false ∧ c ≠ 35 ∧ c ≠ 46 ∧ c ≠ 61 ∧ c ≠ 91 ∧ c ≠ 93 := by
  have hall : ∀ c : UInt8, isAlnum c = true →
      c ≠ 0 ∧ isTrailing c = false ∧ c ≠ 35 ∧ c ≠ 46 ∧ c ≠ 61 ∧ c ≠ 91 ∧ c ≠ 93 :=
    forall_char (by decide +kernel)
  exact hall c h

theorem Blanks.ne {spaces : Blanks} {c d : UInt8} (h : c ∈ spaces.val) (hd : isBlank d = false) :
    c ≠ d := by
  rintro rfl
  rw [spaces.property _ h] at hd
  cases hd

theorem Word.exists_cons (w : Word) : ∃ c s, w.val = c :: s ∧ isAlnum c = true := by
  obtain ⟨s, halpha, halnum⟩ := w
  cases s with
  | nil => cases halpha
  | cons c s => exact ⟨c, s, rfl, halnum c List.mem_cons_self⟩

/-! ## C strings -/

theorem cString_append_of_not_mem {s : Bytes} (h : 0 ∉ s) (t : Bytes) :
    cString (s ++ t) 0 = s ++ cString t 0 := by
  unfold cString
  rw [List.drop_zero, List.drop_zero]
  apply List.takeWhile_append_of_pos
  intro c hc
  rw [decide_eq_true_iff]
  rintro rfl
  exact h hc

theorem cString_of_not_mem {s : Bytes} (h : 0 ∉ s) : cString s 0 = s := by
  have happend := cString_append_of_not_mem h []
  rwa [List.append_nil, show cString [] 0 = [] from rfl, List.append_nil] at happend

theorem cString_cons {c : UInt8} (h : c ≠ 0) (t : Bytes) : cString (c :: t) 0 = c :: cString t 0 :=
  cString_append_of_not_mem (s := [c]) (by simpa using h.symm) t

theorem cString_append_nul {s : Bytes} (h : 0 ∉ s) (t : Bytes) : cString (s ++ 0 :: t) 0 = s := by
  rw [cString_append_of_not_mem h, show cString (0 :: t) 0 = [] from rfl, List.append_nil]

theorem cString_cases (s : Bytes) :
    0 ∉ s ∨ ∃ a b, s = a ++ 0 :: b ∧ 0 ∉ a := by
  by_cases h : (0 : UInt8) ∈ s
  · right
    obtain ⟨a, b, hsplit, ha⟩ := List.eq_append_cons_of_mem h
    exact ⟨a, b, hsplit, ha⟩
  · exact Or.inl h

theorem NoNulAfterBlank.last {a b : Bytes} (h : NoNulAfterBlank (a ++ 0 :: b)) :
    ∀ c ∈ a.getLast?, isBlank c = false := by
  intro c hc
  have hpair := (List.isChain_append.mp h).2.2 c hc 0 rfl
  by_contra hblank
  exact hpair (by simpa using hblank) rfl

/-! ## Values as the parser reads them -/

theorem wslConfStrip_append_cons (spaces : Blanks) {c : UInt8} (hc : isTrailing c = false)
    (s : Bytes) : wslConfStrip (spaces.val ++ c :: s) = c :: s.rdropWhile isTrailing := by
  have hblank : isBlank c = false := by
    by_contra hblank
    rw [isTrailing_of_isBlank (by simpa using hblank)] at hc
    cases hc
  exact trim_append_cons spaces.property hblank hc s

theorem wslConfUnescape_cons {c : UInt8} (h : c ≠ 92) (s : Bytes) :
    wslConfUnescape (c :: s) = c :: wslConfUnescape s := by
  rw [wslConfUnescape.eq_2]
  rintro d t rfl
  exact fun _ => h rfl

theorem wslConfUnescape_of_not_mem {s : Bytes} (h : 92 ∉ s) : wslConfUnescape s = s := by
  induction s with
  | nil => rfl
  | cons c s ih =>
    obtain ⟨hc, hs⟩ := not_or.mp (mt List.mem_cons.mpr h)
    rw [wslConfUnescape_cons (Ne.symm hc), ih hs]

theorem wslConfUnescape_item (i : QuotedItem) (s : Bytes) :
    wslConfUnescape (i.text ++ s) = i.meaning :: wslConfUnescape s := by
  cases i with
  | char c => exact wslConfUnescape_cons c.property.2.2.2.2 s
  | escape e => cases e <;> rfl

theorem quotedText_cons {c : UInt8} (hquote : c ≠ 34) (hback : c ≠ 92) (s : Bytes) :
    quotedText (c :: s) = c :: quotedText s := by
  rw [quotedText.eq_2, if_neg hquote]
  rintro d t heq
  exact fun _ => hback heq

theorem quotedText_item (i : QuotedItem) (s : Bytes) :
    quotedText (i.text ++ s) = i.text ++ quotedText s := by
  cases i with
  | char c => exact quotedText_cons c.property.2.2.2.1 c.property.2.2.2.2 s
  | escape e => rfl

theorem wslConfUnescape_items (items : List QuotedItem) :
    wslConfUnescape (items.flatMap (·.text)) = items.map (·.meaning) := by
  induction items with
  | nil => rfl
  | cons i items ih => rw [List.flatMap_cons, wslConfUnescape_item, ih, List.map_cons]

theorem quotedText_items (items : List QuotedItem) (s : Bytes) :
    quotedText (items.flatMap (·.text) ++ s) = items.flatMap (·.text) ++ quotedText s := by
  induction items with
  | nil => rfl
  | cons i items ih =>
    rw [List.flatMap_cons, List.append_assoc, quotedText_item, ih, List.append_assoc]

theorem valueOf_strip_of_plain {s : Bytes} (h : 34 ∉ s.takeWhile (· ≠ 35)) :
    valueOf (wslConfStrip s) = wslConfUnescape (wslConfStrip (s.takeWhile (· ≠ 35))) := by
  have htrim : wslConfStrip ((wslConfStrip s).takeWhile (· ≠ 35)) =
      wslConfStrip (s.takeWhile (· ≠ 35)) := by
    apply trim_takeWhile_trim
    · exact fun c => isTrailing_of_isBlank
    · intro c hc
      rcases isTrailing_iff.mp hc with rfl | rfl | rfl | rfl <;> rfl
  have hquote : 34 ∉ wslConfStrip ((wslConfStrip s).takeWhile (· ≠ 35)) := by
    rw [htrim]
    exact fun hmem => h (mem_of_mem_trim hmem)
  rw [← htrim]
  cases hs : wslConfStrip s with
  | nil => rfl
  | cons c t =>
    rw [valueOf.eq_3]
    · exact List.cons_ne_nil c t
    · rintro start hstart
      have hcut : (34 :: start).takeWhile (· ≠ 35) = [] ++ 34 :: start.takeWhile (· ≠ 35) := rfl
      rw [hs, hstart, hcut, wslConfStrip_append_cons ⟨[], by simp⟩ rfl] at hquote
      exact hquote List.mem_cons_self

theorem mem_item_text {i : QuotedItem} {c : UInt8} (h : c ∈ i.text) : c ≠ 10 ∧ c ≠ 13 := by
  cases i with
  | char d =>
    obtain rfl : c = d.val := by simpa [QuotedItem.text] using h
    exact ⟨d.property.2.1, d.property.2.2.1⟩
  | escape e =>
    cases e <;> (
      rcases List.mem_pair.mp h with rfl | rfl <;> decide)

theorem meaning_eq_zero {i : QuotedItem} : i.meaning = 0 ↔ 0 ∈ i.text := by
  cases i with
  | char d => simp [QuotedItem.text, QuotedItem.meaning, eq_comm]
  | escape e => cases e <;> decide

theorem not_mem_items {items : List QuotedItem} (h : 0 ∉ items.map (·.meaning)) :
    0 ∉ items.flatMap (·.text) := by
  intro hmem
  obtain ⟨i, hi, hzero⟩ := List.mem_flatMap.mp hmem
  exact h (List.mem_map.mpr ⟨i, hi, meaning_eq_zero.mpr hzero⟩)

theorem text_of_meaning_eq_zero {i : QuotedItem} (h : i.meaning = 0) : i.text = [0] := by
  cases i with
  | char d => exact congrArg (fun c => [c]) h
  | escape e => cases e <;> cases h

theorem valueOf_quoted (items : List QuotedItem)
    (hclear : NoNulAfterBlank (CommonValue.quoted items).text) (rest : Bytes) :
    valueOf (wslConfStrip (cString ((CommonValue.quoted items).text ++ rest) 0)) =
      (CommonValue.quoted items).meaning := by
  have hopen : cString ((CommonValue.quoted items).text ++ rest) 0 =
      [] ++ 34 :: cString (items.flatMap (·.text) ++ 34 :: rest) 0 := by
    have hassoc : (CommonValue.quoted items).text ++ rest =
        34 :: (items.flatMap (·.text) ++ 34 :: rest) := by simp [CommonValue.text]
    rw [hassoc, cString_cons (by decide), List.nil_append]
  rw [hopen, wslConfStrip_append_cons ⟨[], by simp⟩ rfl, valueOf.eq_2, CommonValue.meaning]
  rcases cString_cases (items.map (·.meaning)) with hnul | ⟨a, b, hsplit, hnul⟩
  · rw [cString_append_of_not_mem (not_mem_items hnul), cString_cons (by decide),
      rdropWhile_append_cons _ _ rfl, quotedText_items, quotedText.eq_2 _ _ (by simp), if_pos rfl,
      List.append_nil, wslConfUnescape_items, cString_of_not_mem hnul]
  · obtain ⟨first, rest', rfl, rfl, hrest⟩ := List.map_eq_append_iff.mp hsplit
    obtain ⟨i, last, rfl, hzero, -⟩ := List.map_eq_cons_iff.mp hrest
    have hbody : ∀ s, (first ++ i :: last).flatMap (·.text) ++ s =
        first.flatMap (·.text) ++ 0 :: (last.flatMap (·.text) ++ s) := by
      intro s
      rw [List.flatMap_append, List.flatMap_cons, text_of_meaning_eq_zero hzero]
      simp
    -- the spaces in front of the NUL would be trimmed
    have htrailing : ∀ c ∈ (first.flatMap (·.text)).getLast?, isTrailing c = false := by
      intro c hc
      have hmem : c ∈ first.flatMap (·.text) := List.mem_of_getLast? hc
      obtain ⟨j, -, hj⟩ := List.mem_flatMap.mp hmem
      rw [isTrailing_eq_isBlank (mem_item_text hj).1 (mem_item_text hj).2]
      have htext : (CommonValue.quoted (first ++ i :: last)).text =
          (34 :: first.flatMap (·.text)) ++ 0 :: (last.flatMap (·.text) ++ [34]) := by
        rw [CommonValue.text, hbody, List.cons_append]
      rw [htext] at hclear
      apply hclear.last c
      rw [List.getLast?_cons_of_ne_nil (List.ne_nil_of_mem hmem)]
      exact hc
    have hquoted : quotedText (first.flatMap (·.text)) = first.flatMap (·.text) := by
      have hitems := quotedText_items first []
      rwa [List.append_nil, show quotedText [] = [] from rfl, List.append_nil] at hitems
    rw [hbody, cString_append_nul (not_mem_items hnul), rdropWhile_eq_self_of_last htrailing,
      hquoted, wslConfUnescape_items, hsplit, cString_append_nul hnul]

theorem takeWhile_cString_comment {s : Bytes} (h : 35 ∉ s) (remark : Option CommentText) :
    (cString (s ++ commentText remark) 0).takeWhile (· ≠ 35) = cString s 0 := by
  have hall : ∀ c ∈ s, decide (c ≠ 35) = true := by
    intro c hc
    rw [decide_eq_true_iff]
    rintro rfl
    exact h hc
  have hcut : (s ++ commentText remark).takeWhile (· ≠ 35) = s := by
    rw [List.takeWhile_append_of_pos hall]
    cases remark with
    | none => exact List.append_nil s
    | some text => exact List.append_nil s
  have hcomm : ∀ t : Bytes, (t.takeWhile (· ≠ 0)).takeWhile (· ≠ 35) =
      (t.takeWhile (· ≠ 35)).takeWhile (· ≠ 0) := by
    intro t
    rw [List.takeWhile_takeWhile, List.takeWhile_takeWhile]
    congr 1
    funext c
    rw [Bool.eq_iff_iff]
    simp [and_comm]
  unfold cString
  rw [List.drop_zero, List.drop_zero, hcomm, hcut]

theorem wslConfStrip_eq_trim {s : Bytes} (h : ∀ c ∈ s, c ≠ 10 ∧ c ≠ 13) :
    wslConfStrip s = trim isBlank isBlank s := by
  apply rdropWhile_congr
  intro c hc
  have hmem := h c ((List.dropWhile_suffix _).mem hc)
  exact isTrailing_eq_isBlank hmem.1 hmem.2

theorem wslConfStrip_cString (text : PlainText) (hclear : NoNulAfterBlank text.val)
    (behind : Blanks) :
    wslConfStrip (cString (text.val ++ behind.val) 0) =
      cString (trim isBlank isBlank text.val) 0 := by
  have hbehind : ∀ c ∈ behind.val, isTrailing c = true :=
    fun c hc => isTrailing_of_isBlank (behind.property c hc)
  have hbreaks : ∀ c ∈ text.val, c ≠ 10 ∧ c ≠ 13 :=
    fun c hc => ⟨(text.property c hc).2.1, (text.property c hc).2.2.1⟩
  rcases cString_cases text.val with hnul | ⟨a, b, hsplit, hnul⟩
  · have hnone : 0 ∉ text.val ++ behind.val := by
      intro hmem
      rcases List.mem_append.mp hmem with hmem | hmem
      · exact hnul hmem
      · exact Blanks.ne hmem rfl rfl
    rw [cString_of_not_mem hnone, cString_of_not_mem fun hmem => hnul (mem_of_mem_trim hmem),
      ← wslConfStrip_eq_trim hbreaks]
    exact trim_append_right _ hbehind
  · rw [hsplit] at hclear hbreaks
    have hlast : ∀ c ∈ (a.dropWhile isBlank).getLast?, isBlank c = false := by
      intro c hc
      apply hclear.last c
      rw [← List.takeWhile_append_dropWhile (p := isBlank) (l := a),
        List.getLast?_append_of_ne_nil _ (List.ne_nil_of_mem (List.mem_of_getLast? hc))]
      exact hc
    have hfirst : 0 ∉ a.dropWhile isBlank := fun hmem => hnul ((List.dropWhile_suffix _).mem hmem)
    have hassoc : (a ++ 0 :: b) ++ behind.val = a ++ 0 :: (b ++ behind.val) := by simp
    rw [hsplit, hassoc, cString_append_nul hnul,
      wslConfStrip_eq_trim fun c hc => hbreaks c (List.mem_append_left _ hc), trim, trim,
      dropWhile_append_cons a b rfl, rdropWhile_append_cons _ _ rfl, cString_append_nul hfirst,
      rdropWhile_eq_self_of_last hlast]

theorem valueOf_plain (text : PlainText) (hclear : NoNulAfterBlank text.val) (behind : Blanks)
    (remark : Option CommentText) :
    valueOf (wslConfStrip (cString (text.val ++ (behind.val ++ commentText remark)) 0)) =
      (CommonValue.plain text).meaning := by
  have hnot : ∀ d : UInt8, isBlank d = false → d ∉ text.val → d ∉ text.val ++ behind.val := by
    intro d hd htext hmem
    rcases List.mem_append.mp hmem with hmem | hmem
    · exact htext hmem
    · exact Blanks.ne hmem hd rfl
  have hhash : 35 ∉ text.val ++ behind.val :=
    hnot 35 rfl fun hmem => (text.property _ hmem).2.2.2.2.2 rfl
  have hquote : 34 ∉ text.val ++ behind.val :=
    hnot 34 rfl fun hmem => (text.property _ hmem).2.2.2.1 rfl
  have hslash : 92 ∉ text.val ++ behind.val :=
    hnot 92 rfl fun hmem => (text.property _ hmem).2.2.2.2.1 rfl
  have hcut : (cString (text.val ++ (behind.val ++ commentText remark)) 0).takeWhile (· ≠ 35) =
      cString (text.val ++ behind.val) 0 := by
    rw [← List.append_assoc, takeWhile_cString_comment hhash]
  have hpart : ∀ d, d ∈ cString (text.val ++ behind.val) 0 → d ∈ text.val ++ behind.val :=
    fun d hd => (List.takeWhile_prefix _).mem hd
  rw [valueOf_strip_of_plain, hcut, wslConfUnescape_of_not_mem, wslConfStrip_cString text hclear,
    CommonValue.meaning]
  · exact fun hmem => hslash (hpart 92 (mem_of_mem_trim hmem))
  · rw [hcut]
    exact fun hmem => hquote (hpart 34 hmem)

theorem valueOf_common (value : CommonValue) (hclear : NoNulAfterBlank value.text)
    (behind : Blanks) (remark : Option CommentText) :
    valueOf (wslConfStrip (cString (value.text ++ (behind.val ++ commentText remark)) 0)) =
      value.meaning := by
  cases value with
  | plain text => exact valueOf_plain text hclear behind remark
  | quoted items => exact valueOf_quoted items hclear (behind.val ++ commentText remark)

/-! ## Lines as the parser reads them -/

theorem Blanks.nul_not_mem (spaces : Blanks) : 0 ∉ spaces.val := fun h => Blanks.ne h rfl rfl

theorem Word.not_mem (w : Word) {d : UInt8} (h : isAlnum d = false) : d ∉ w.val := by
  intro hmem
  rw [w.property.2 d hmem] at h
  cases h

theorem lineText_blank (spaces : Blanks) : lineText (CommonLine.blank spaces).text = [] := by
  rw [lineText, CommonLine.text, cString_of_not_mem spaces.nul_not_mem]
  have hall := trim_append_left (q := isTrailing) spaces.property []
  rwa [List.append_nil] at hall

theorem lineText_comment (spaces : Blanks) (text : CommentText) :
    (lineText (CommonLine.comment spaces text).text).head? = some 35 := by
  rw [lineText, CommonLine.text, cString_append_of_not_mem spaces.nul_not_mem,
    cString_cons (by decide), wslConfStrip_append_cons spaces rfl]
  rfl

theorem headerName_header (spaces : Blanks) (name : {w : Word // w.val.length ≤ 127})
    (after : Blanks) (remark : Option CommentText) :
    headerName (CommonLine.header spaces name after remark).text = some name.val.val := by
  have htext : lineText (CommonLine.header spaces name after remark).text =
      91 :: (name.val.val ++ 93 ::
        (cString (after.val ++ commentText remark) 0).rdropWhile isTrailing) := by
    rw [lineText, CommonLine.text, cString_append_of_not_mem spaces.nul_not_mem,
      cString_cons (by decide), cString_append_of_not_mem (name.val.not_mem rfl),
      cString_cons (by decide), wslConfStrip_append_cons spaces rfl, rdropWhile_append_cons _ _ rfl]
  have hname : ∀ c ∈ name.val.val, decide (c ≠ 93) = true := by
    intro c hc
    exact decide_eq_true (isAlnum_spec (name.val.property.2 c hc)).2.2.2.2.2.2
  rw [headerName_of_closed (by rw [htext]; rfl) (by rw [htext]; simp), htext, List.tail_cons,
    List.takeWhile_append_of_pos hname]
  simp

theorem wslConfStrip_word (w : Word) (spaces : Blanks) :
    wslConfStrip (w.val ++ spaces.val) = w.val := by
  obtain ⟨c, s, hw, hc⟩ := w.exists_cons
  have hstrip : wslConfStrip (w.val ++ spaces.val) = wslConfStrip w.val :=
    trim_append_right _ fun d hd => isTrailing_of_isBlank (spaces.property d hd)
  have hfront := wslConfStrip_append_cons ⟨[], by simp⟩ (isAlnum_spec hc).2.1 s
  have hback : (c :: s).rdropWhile isTrailing = c :: s := by
    apply rdropWhile_eq_self_of_last
    intro d hd
    exact (isAlnum_spec (w.property.2 d (hw ▸ List.mem_of_getLast? hd))).2.1
  have hcons : (c :: s).rdropWhile isTrailing = [] ++ c :: s.rdropWhile isTrailing :=
    rdropWhile_append_cons [] s (isAlnum_spec hc).2.1
  rw [hstrip, hw]
  exact hfront.trans (hcons.symm.trans hback)

theorem keyValue_of_lineText {line : Bytes} (key : Word) (before : Blanks) (rest : Bytes)
    (htext : lineText line = (key.val ++ before.val) ++ 61 :: rest) :
    keyValue line = some (key.val, valueOf (wslConfStrip rest)) := by
  obtain ⟨c, s, hkey, hc⟩ := key.exists_cons
  have hequals : ∀ d ∈ key.val ++ before.val, decide (d ≠ 61) = true := by
    intro d hd
    rcases List.mem_append.mp hd with hd | hd
    · exact decide_eq_true (isAlnum_spec (key.property.2 d hd)).2.2.2.2.1
    · exact decide_eq_true (Blanks.ne hd rfl)
  have hhead : (lineText line).head? = some c := by
    rw [htext, hkey]
    rfl
  have hnot : ¬ (lineText line = [] ∨ (lineText line).head? = some 35 ∨
      (lineText line).head? = some 91) := by
    rw [hhead]
    rintro (hnil | heq | heq)
    · rw [hnil] at hhead
      cases hhead
    · exact (isAlnum_spec hc).2.2.1 (Option.some.inj heq)
    · exact (isAlnum_spec hc).2.2.2.2.2.1 (Option.some.inj heq)
  have hextract : wslConfExtractValue (lineText line) = some (valueOf (wslConfStrip rest)) := by
    have hcut : (61 :: rest).dropWhile (· ≠ 61) = 61 :: rest := by simp
    rw [wslConfExtractValue, htext, if_neg (by simp), List.dropWhile_append_of_pos hequals, hcut,
      List.tail_cons]
  have hname : (lineText line).takeWhile (· ≠ 61) = key.val ++ before.val := by
    rw [htext, List.takeWhile_append_of_pos hequals]
    simp
  rw [keyValue, if_neg hnot, hextract, hname, wslConfStrip_word, Option.map_some]

theorem keyValue_keyValue (spaces : Blanks) (key : Word) (before after : Blanks)
    (value : CommonValue) (behind : Blanks) (remark : Option CommentText)
    (hclear : NoNulAfterBlank value.text) :
    keyValue (CommonLine.keyValue spaces key before after value behind remark).text =
        some (key.val, value.meaning) := by
  obtain ⟨c, s, hkey, hc⟩ := key.exists_cons
  let rest := value.text ++ (behind.val ++ commentText remark)
  have htext : lineText (CommonLine.keyValue spaces key before after value behind remark).text =
      (key.val ++ before.val) ++ 61 :: (after.val ++ cString rest 0).rdropWhile isTrailing := by
    rw [lineText, CommonLine.text, cString_append_of_not_mem spaces.nul_not_mem,
      cString_append_of_not_mem (key.not_mem rfl), cString_append_of_not_mem before.nul_not_mem,
      cString_cons (by decide), cString_append_of_not_mem after.nul_not_mem, hkey, List.cons_append,
      wslConfStrip_append_cons spaces (isAlnum_spec hc).2.1, ← List.append_assoc,
      rdropWhile_append_cons _ _ rfl, List.cons_append, List.cons_append]
  have hstrip : wslConfStrip ((after.val ++ cString rest 0).rdropWhile isTrailing) =
      wslConfStrip (cString rest 0) :=
    (trim_rdropWhile _ _ _).trans (trim_append_left after.property _)
  rw [keyValue_of_lineText key before _ htext, hstrip, valueOf_common value hclear behind remark]

theorem commonLine_spec (line : CommonLine) (hclear : line.Clear) (inSection : Bytes) :
    sectionAfter inSection line.text = line.nextSection inSection ∧
      lineCalls inSection line.text =
        (line.assignment inSection).filter fun call => call.1 ≠ [] := by
  cases line with
  | blank spaces =>
    have hheader : headerName (CommonLine.blank spaces).text = none :=
      headerName_of_head_ne (by rw [lineText_blank]; exact Option.some_ne_none 91 ∘ Eq.symm)
    have hpair : keyValue (CommonLine.blank spaces).text = none :=
      if_pos (Or.inl (lineText_blank spaces))
    rw [sectionAfter, lineCalls, hheader, hpair]
    exact ⟨rfl, rfl⟩
  | comment spaces text =>
    have hheader : headerName (CommonLine.comment spaces text).text = none :=
      headerName_of_head_ne (by rw [lineText_comment]; decide)
    have hpair : keyValue (CommonLine.comment spaces text).text = none :=
      if_pos (Or.inr (Or.inl (lineText_comment spaces text)))
    rw [sectionAfter, lineCalls, hheader, hpair]
    exact ⟨rfl, rfl⟩
  | header spaces name after remark =>
    rw [sectionAfter, lineCalls, headerName_header]
    exact ⟨openSection_eq_self name.property name.val.property.1, rfl⟩
  | keyValue spaces key before after value behind remark =>
    have hpair := keyValue_keyValue spaces key before after value behind remark hclear
    rw [sectionAfter, lineCalls, headerName_eq_none hpair, hpair]
    refine ⟨rfl, ?_⟩
    by_cases hopen : inSection = []
    · simp [hopen, CommonLine.assignment]
    · simp [hopen, CommonLine.assignment]

/-! ## Files -/

theorem recordCalls_break (st : Bytes × List (Bytes × Bytes × Bytes)) (line : Bytes) :
    recordCalls st (line ++ [10]) = recordCalls st line := by
  have hheader : headerName (line ++ [10]) = headerName line := by
    rw [headerName, lineText_break, headerName]
  have hpair : keyValue (line ++ [10]) = keyValue line := by
    rw [keyValue, lineText_break, keyValue]
  rw [recordCalls, sectionAfter, lineCalls, hheader, hpair, recordCalls, sectionAfter, lineCalls]

theorem recordCalls_nil (st : Bytes × List (Bytes × Bytes × Bytes)) : recordCalls st [] = st := by
  rw [recordCalls, show lineCalls st.1 [] = [] from rfl, List.append_nil,
    show sectionAfter st.1 [] = st.1 from rfl]

theorem commentText_ne_break {remark : Option CommentText} {c : UInt8} (h : c ∈ commentText remark) :
    c ≠ 10 ∧ c ≠ 13 := by
  cases remark with
  | none => cases h
  | some text =>
    rcases List.mem_cons.mp h with rfl | h
    · decide
    · exact (text.property c h).2

theorem Blanks.ne_break {spaces : Blanks} {c : UInt8} (h : c ∈ spaces.val) : c ≠ 10 ∧ c ≠ 13 :=
  ⟨Blanks.ne h rfl, Blanks.ne h rfl⟩

theorem Word.ne_break {w : Word} {c : UInt8} (h : c ∈ w.val) : c ≠ 10 ∧ c ≠ 13 := by
  constructor
  · rintro rfl
    exact w.not_mem rfl h
  · rintro rfl
    exact w.not_mem rfl h

theorem CommonValue.ne_break {value : CommonValue} {c : UInt8} (h : c ∈ value.text) :
    c ≠ 10 ∧ c ≠ 13 := by
  cases value with
  | plain text => exact ⟨(text.property c h).2.1, (text.property c h).2.2.1⟩
  | quoted items =>
    rcases List.mem_cons.mp h with rfl | h
    · decide
    · rcases List.mem_append.mp h with h | h
      · obtain ⟨i, -, hi⟩ := List.mem_flatMap.mp h
        exact mem_item_text hi
      · rw [List.mem_singleton.mp h]
        decide

theorem CommonLine.ne_break {line : CommonLine} {c : UInt8} (h : c ∈ line.text) :
    c ≠ 10 ∧ c ≠ 13 := by
  cases line with
  | blank spaces => exact Blanks.ne_break h
  | comment spaces text =>
    rcases List.mem_append.mp h with h | h
    · exact Blanks.ne_break h
    · have hremark : c ∈ commentText (some text) := h
      exact commentText_ne_break hremark
  | header spaces name after remark =>
    simp only [CommonLine.text, List.mem_append, List.mem_cons] at h
    rcases h with h | rfl | h | rfl | h | h
    · exact Blanks.ne_break h
    · decide
    · exact Word.ne_break h
    · decide
    · exact Blanks.ne_break h
    · exact commentText_ne_break h
  | keyValue spaces key before after value behind remark =>
    simp only [CommonLine.text, List.mem_append, List.mem_cons] at h
    rcases h with h | h | h | rfl | h | h | h | h
    · exact Blanks.ne_break h
    · exact Word.ne_break h
    · exact Blanks.ne_break h
    · decide
    · exact Blanks.ne_break h
    · exact CommonValue.ne_break h
    · exact Blanks.ne_break h
    · exact commentText_ne_break h

theorem lines_flatMap_text (ls : List CommonLine) :
    lines (ls.flatMap fun line => line.text ++ [10]) = ls.map (·.text) ++ [[]] := by
  induction ls with
  | nil => exact lines_nil
  | cons line ls ih =>
    have hbreak : 10 ∉ line.text := fun h => (CommonLine.ne_break h).1 rfl
    rw [List.flatMap_cons, List.append_assoc, List.singleton_append, lines_append_break hbreak, ih]
    rfl

theorem foldl_recordCalls (ls : List CommonLine) (hclear : ∀ line ∈ ls, line.Clear)
    (inSection : Bytes) (calls : List (Bytes × Bytes × Bytes)) :
    ((ls.map (·.text)).foldl recordCalls (inSection, calls)).2 =
      calls ++ (assignments inSection ls).filter fun call => call.1 ≠ [] := by
  induction ls generalizing inSection calls with
  | nil => simp [assignments]
  | cons line ls ih =>
    obtain ⟨hsection, hcalls⟩ := commonLine_spec line (hclear line List.mem_cons_self) inSection
    have hrest := ih fun l hl => hclear l (List.mem_cons_of_mem _ hl)
    rw [List.map_cons, List.foldl_cons, recordCalls, hsection, hcalls, hrest, assignments,
      List.filter_append, List.append_assoc]

theorem applyCalls_commonFile (file : CommonFile) (hclear : ∀ line ∈ file.lines, line.Clear) :
    applyCalls file.text = (assignments [] file.lines).filter fun call => call.1 ≠ [] := by
  have hlines : lines file.text = file.lines.map (·.text) ++ [[]] := lines_flatMap_text file.lines
  have hshort : ∀ line ∈ lines file.text, line.length ≤ 4096 - 1 := by
    intro line hline
    rw [hlines] at hline
    rcases List.mem_append.mp hline with hline | hline
    · obtain ⟨l, hl, rfl⟩ := List.mem_map.mp hline
      exact le_of_lt (file.short l hl)
    · rw [List.mem_singleton.mp hline]
      exact Nat.zero_le _
  rw [applyCalls, foldl_fgetsAll recordCalls_break recordCalls_nil,
    contents_fgetsAll_of_length_le hshort, foldl_filter_ne_nil recordCalls_nil, hlines,
    List.foldl_append, List.foldl_cons, List.foldl_nil, recordCalls_nil,
    foldl_recordCalls file.lines hclear, List.nil_append]

end WslFreeBSD.Config
