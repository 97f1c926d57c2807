import WslFreeBSD.Config.WslConf
import WslFreeBSD.Lib.FirstMatch

/-!
# The first value of a key wins

What a file says about a key: the lines that lie in its section and have its name, in the order of
the file. `Assigns` describes such a line by the lines before it, without a state of the parser, and
`FirstValue` is the first one. After `wsl_conf_parse_stream`, every member of the configuration
holds the first value of its key, converted to its type, or its default
(`wslConfParseStream_spec`).

The invariant of the loop is that the mask and the members tell, for each key, the first value in
the lines so far. A line changes the member and the bit of at most one key, because no two branches
of `wsl_conf_apply` have the same names (`named_unique`) or the same bit.
-/

namespace WslFreeBSD.Config

open Lib

/-! ## What a file says -/

def lineText (line : Bytes) : Bytes := wslConfStrip (cString line 0)

/-- The name in a section header with its closing bracket. -/
def headerName (line : Bytes) : Option Bytes :=
  let p := lineText line
  if p.head? = some 91 ∧ 93 ∈ p then some (p.tail.takeWhile (· ≠ 93)) else none

/-- The key and the value of a line that is neither empty nor a comment nor a header. -/
def keyValue (line : Bytes) : Option (Bytes × Bytes) :=
  let p := lineText line
  if p = [] ∨ p.head? = some 35 ∨ p.head? = some 91 then none
  else (wslConfExtractValue p).map fun value => (wslConfStrip (p.takeWhile (· ≠ 61)), value)

/-- After these lines, the section of the field is open. -/
def InSection (f : Field) (before : List Bytes) : Prop :=
  ∃ name ∈ (before.filterMap headerName).getLast?,
    eqIgnoringCase name (ascii f.entry.inSection) = true

/-- After the lines `before`, the line gives the field this value. -/
def Assigns (f : Field) (before : List Bytes) (line value : Bytes) : Prop :=
  InSection f before ∧
    ∃ key, keyValue line = some (key, value) ∧ eqIgnoringCase key (ascii f.entry.key) = true

/-- The first value that the lines give the field. -/
def FirstValue (f : Field) : List Bytes → Bytes → Prop := First (Assigns f)

def Unassigned (f : Field) : List Bytes → Prop := NoMatch (Assigns f)

theorem Assigns.unique {f : Field} {before : List Bytes} {line v w : Bytes}
    (hv : Assigns f before line v) (hw : Assigns f before line w) : v = w := by
  obtain ⟨-, key, hkey, -⟩ := hv
  obtain ⟨-, key', hkey', -⟩ := hw
  rw [hkey] at hkey'
  exact (Prod.mk.inj (Option.some.inj hkey')).2

/-! ## The mask and the members -/

theorem mem_fields (f : Field) : f ∈ fields := by
  cases f <;> decide

theorem eqIgnoringCase_comm {s t u : Bytes} (hs : eqIgnoringCase s t = true)
    (hu : eqIgnoringCase s u = true) : t.map toLower = u.map toLower :=
  (of_decide_eq_true hs).symm.trans (of_decide_eq_true hu)

theorem named_unique {f g : Field} {inSection key : Bytes} (hf : f.named inSection key = true)
    (hg : g.named inSection key = true) : f = g := by
  have htable : ∀ f ∈ fields, ∀ g ∈ fields,
      (ascii f.entry.inSection).map toLower = (ascii g.entry.inSection).map toLower →
      (ascii f.entry.key).map toLower = (ascii g.entry.key).map toLower → f = g := by
    decide +kernel
  obtain ⟨hf₁, hf₂⟩ := Bool.and_eq_true_iff.mp hf
  obtain ⟨hg₁, hg₂⟩ := Bool.and_eq_true_iff.mp hg
  exact htable f (mem_fields f) g (mem_fields g) (eqIgnoringCase_comm hf₁ hg₁)
    (eqIgnoringCase_comm hf₂ hg₂)

theorem and_shiftLeft_one_ne_zero (m : BitVec 32) {i : Nat} (hi : i < 32) :
    m &&& (1#32 <<< i) ≠ 0#32 ↔ m.getLsbD i = true := by
  have hpow : BitVec.twoPow 32 i ≠ 0#32 := by
    intro h
    have hbit := congrArg (·.getLsbD i) h
    simp [hi] at hbit
  change m &&& BitVec.twoPow 32 i ≠ 0#32 ↔ m.getLsbD i = true
  rw [BitVec.and_twoPow]
  cases m.getLsbD i with
  | true => simpa using hpow
  | false => simp

theorem bit_lt (f : Field) : f.entry.bit < 32 := by
  cases f <;> decide

theorem bit_injective {f g : Field} (h : f.entry.bit = g.entry.bit) : f = g := by
  have htable : ∀ f ∈ fields, ∀ g ∈ fields, f.entry.bit = g.entry.bit → f = g := by decide
  exact htable f (mem_fields f) g (mem_fields g) h

theorem seen_iff (conf : WslConf) (f : Field) :
    conf.seen f = true ↔ conf.seenMask.getLsbD f.entry.bit = true := by
  rw [WslConf.seen, decide_eq_true_iff]
  exact and_shiftLeft_one_ne_zero _ (bit_lt f)

theorem seen_applyField (conf : WslConf) (f g : Field) (value : Bytes) :
    (applyField conf f value).seen g = (conf.seen g || decide (g = f)) := by
  have hmask : (applyField conf f value).seenMask = conf.seenMask ||| (1#32 <<< f.entry.bit) := by
    unfold applyField
    dsimp only
    split <;> rfl
  have hbit : (1#32 <<< f.entry.bit).getLsbD g.entry.bit = decide (g = f) := by
    change (BitVec.twoPow 32 f.entry.bit).getLsbD g.entry.bit = decide (g = f)
    rw [BitVec.getLsbD_twoPow, decide_eq_true (bit_lt f), Bool.true_and]
    exact decide_eq_decide.mpr ⟨fun h => bit_injective h.symm, fun h => by rw [h]⟩
  rw [Bool.eq_iff_iff, seen_iff, hmask, BitVec.getLsbD_or, hbit, Bool.or_eq_true, Bool.or_eq_true,
    seen_iff]

theorem value_applyField_self (conf : WslConf) (f : Field) (value : Bytes) :
    (applyField conf f value).value f =
      (f.entry.conversion.convert value).getD (conf.value f) := by
  unfold applyField
  dsimp only
  cases f.entry.conversion.convert value with
  | none => rfl
  | some v => simp

theorem value_applyField_of_ne (conf : WslConf) {f g : Field} (h : g ≠ f) (value : Bytes) :
    (applyField conf f value).value g = conf.value g := by
  unfold applyField
  dsimp only
  split
  · rfl
  · exact Function.update_of_ne h _ _

theorem wslConfApply_of_named {conf : WslConf} {f : Field} {inSection key : Bytes} (value : Bytes)
    (hnamed : f.named inSection key = true) (hseen : conf.seen f = false) :
    wslConfApply conf inSection key value = (applyField conf f value, true) := by
  have hfind : fields.find? (fun g => g.named inSection key && !conf.seen g) = some f := by
    have hsome : (fields.find? fun g => g.named inSection key && !conf.seen g).isSome = true :=
      List.find?_isSome.mpr ⟨f, mem_fields f, by simp [hnamed, hseen]⟩
    obtain ⟨g, hg⟩ := Option.isSome_iff_exists.mp hsome
    have hmatch := List.find?_some hg
    simp only [Bool.and_eq_true] at hmatch
    rwa [named_unique hnamed hmatch.1]
  rw [wslConfApply, hfind]

theorem wslConfApply_of_not {conf : WslConf} {f : Field} {inSection key : Bytes} (value : Bytes)
    (h : ¬ (f.named inSection key = true ∧ conf.seen f = false)) :
    (wslConfApply conf inSection key value).1.seen f = conf.seen f ∧
      (wslConfApply conf inSection key value).1.value f = conf.value f := by
  unfold wslConfApply
  split
  · exact ⟨rfl, rfl⟩
  · next g hg =>
    have hmatch := List.find?_some hg
    simp only [Bool.and_eq_true, Bool.not_eq_true'] at hmatch
    have hne : f ≠ g := by
      rintro rfl
      exact h hmatch
    exact ⟨by rw [seen_applyField, decide_eq_false hne, Bool.or_false],
      value_applyField_of_ne conf hne value⟩

/-! ## Sections -/

theorem headerName_of_head_ne {line : Bytes} (h : (lineText line).head? ≠ some 91) :
    headerName line = none := if_neg fun hheader => h hheader.1

theorem headerName_of_not_mem {line : Bytes} (h : 93 ∉ lineText line) : headerName line = none :=
  if_neg fun hheader => h hheader.2

theorem headerName_of_closed {line : Bytes} (hhead : (lineText line).head? = some 91)
    (hclose : 93 ∈ lineText line) :
    headerName line = some ((lineText line).tail.takeWhile (· ≠ 93)) := if_pos ⟨hhead, hclose⟩

theorem head?_ne_of_skipped {p : Bytes} (h : p = [] ∨ p.head? = some 35) : p.head? ≠ some 91 := by
  rcases h with rfl | hhash
  · exact Option.some_ne_none 91 ∘ Eq.symm
  · rw [hhash]
    decide

theorem parseLine_eq (st : ParseState) (line : Bytes) :
    parseLine st line =
      match headerName line with
      | some name => { st with currentSection := openSection name }
      | none =>
        match keyValue line with
        | some (key, value) =>
          if st.currentSection = [] then st
          else { st with conf := (wslConfApply st.conf st.currentSection key value).1 }
        | none => st := by
  have htext : wslConfStrip (cString line 0) = lineText line := rfl
  unfold parseLine
  rw [htext]
  dsimp only
  by_cases hskip : lineText line = [] ∨ (lineText line).head? = some 35
  · have hpair : keyValue line = none := if_pos (hskip.imp_right Or.inl)
    rw [if_pos hskip, headerName_of_head_ne (head?_ne_of_skipped hskip), hpair]
  · rw [if_neg hskip]
    by_cases hhead : (lineText line).head? = some 91
    · have hpair : keyValue line = none := if_pos (Or.inr (Or.inr hhead))
      rw [if_pos hhead, hpair]
      by_cases hclose : 93 ∈ lineText line
      · rw [if_pos hclose, headerName_of_closed hhead hclose]
      · rw [if_neg hclose, headerName_of_not_mem hclose]
    · obtain ⟨hne, hhash⟩ := not_or.mp hskip
      have hpair : keyValue line = (wslConfExtractValue (lineText line)).map fun value =>
          (wslConfStrip ((lineText line).takeWhile (· ≠ 61)), value) :=
        if_neg (not_or.mpr ⟨hne, not_or.mpr ⟨hhash, hhead⟩⟩)
      rw [if_neg hhead, headerName_of_head_ne hhead, hpair]
      cases wslConfExtractValue (lineText line) with
      | none => exact ite_self st
      | some value => rfl

theorem openSection_eq_self {name : Bytes} (hlen : name.length ≤ 127)
    (halpha : name.head?.any isAlpha = true) : openSection name = name := by
  unfold openSection
  dsimp only
  rw [List.take_of_length_le hlen, if_pos halpha]

theorem openSection_of_ne_nil {name : Bytes} (h : openSection name ≠ []) :
    openSection name = name.take 127 := by
  unfold openSection at h ⊢
  dsimp only at h ⊢
  split at h
  · next halpha => rw [if_pos halpha]
  · exact absurd rfl h

/-- Cutting a name, and dropping it when it does not start with a letter, makes no difference to the
comparison with a known section. -/
theorem eqIgnoringCase_openSection (name : Bytes) (f : Field) :
    eqIgnoringCase (openSection name) (ascii f.entry.inSection) =
      eqIgnoringCase name (ascii f.entry.inSection) := by
  have hknown : ∀ f ∈ fields, (ascii f.entry.inSection).length < 127 ∧
      (ascii f.entry.inSection).head?.any isAlpha = true := by decide
  obtain ⟨hlen, halpha⟩ := hknown f (mem_fields f)
  rw [Bool.eq_iff_iff]
  constructor
  · intro heq
    have hshort := length_of_eqIgnoringCase heq
    have hletter := (any_isAlpha_of_eqIgnoringCase heq).trans halpha
    have hcut : openSection name = name.take 127 := by
      apply openSection_of_ne_nil
      intro hnil
      rw [hnil] at hletter
      cases hletter
    rw [hcut, List.length_take] at hshort
    rwa [hcut, List.take_of_length_le (by omega)] at heq
  · intro heq
    have hshort := length_of_eqIgnoringCase heq
    rwa [openSection_eq_self (by omega) ((any_isAlpha_of_eqIgnoringCase heq).trans halpha)]

/-! ## The invariant of the loop -/

/-- The state after some lines: the open section, and for each key its first value or the
default. -/
structure Recorded (ls : List Bytes) (st : ParseState) : Prop where
  openSection : ∀ f : Field,
    eqIgnoringCase st.currentSection (ascii f.entry.inSection) = true ↔ InSection f ls
  value : ∀ f : Field,
    (∃ v, FirstValue f ls v ∧ st.conf.seen f = true ∧
        st.conf.value f = (f.entry.conversion.convert v).getD (defaultValue f)) ∨
      (Unassigned f ls ∧ st.conf.seen f = false ∧ st.conf.value f = defaultValue f)

theorem headerName_eq_none {line : Bytes} {pair : Bytes × Bytes} (h : keyValue line = some pair) :
    headerName line = none := by
  unfold keyValue at h
  unfold headerName
  dsimp only at h ⊢
  split at h
  · cases h
  · next hnot => rw [if_neg fun hheader => hnot (Or.inr (Or.inr hheader.1))]

theorem not_named_nil (f : Field) (key : Bytes) : f.named [] key = false := by
  cases f <;> rfl

theorem Recorded.parseLine_of_assigns {ls : List Bytes} {st : ParseState} (h : Recorded ls st)
    {f : Field} {line v : Bytes} (hv : Assigns f ls line v) (hseen : st.conf.seen f = false) :
    (parseLine st line).conf = applyField st.conf f v := by
  obtain ⟨hsection, key, hpair, hkey⟩ := hv
  have hnamed : f.named st.currentSection key = true :=
    Bool.and_eq_true_iff.mpr ⟨(h.openSection f).mpr hsection, hkey⟩
  have hopen : st.currentSection ≠ [] := by
    intro hnil
    rw [hnil, not_named_nil] at hnamed
    cases hnamed
  rw [parseLine_eq, headerName_eq_none hpair, hpair]
  dsimp only
  rw [if_neg hopen, wslConfApply_of_named v hnamed hseen]

theorem Recorded.parseLine_of_not {ls : List Bytes} {st : ParseState} (h : Recorded ls st)
    {f : Field} {line : Bytes} (hnot : st.conf.seen f = false → ∀ v, ¬ Assigns f ls line v) :
    (parseLine st line).conf.seen f = st.conf.seen f ∧
      (parseLine st line).conf.value f = st.conf.value f := by
  rw [parseLine_eq]
  split
  · exact ⟨rfl, rfl⟩
  · split
    · next key v hpair =>
      split
      · exact ⟨rfl, rfl⟩
      · apply wslConfApply_of_not
        rintro ⟨hnamed, hseen⟩
        obtain ⟨hsection, hkey⟩ := Bool.and_eq_true_iff.mp hnamed
        exact hnot hseen v ⟨(h.openSection f).mp hsection, key, hpair, hkey⟩
    · exact ⟨rfl, rfl⟩

theorem Recorded.openSection_parseLine {ls : List Bytes} {st : ParseState} (h : Recorded ls st)
    (line : Bytes) (f : Field) :
    eqIgnoringCase (parseLine st line).currentSection (ascii f.entry.inSection) = true ↔
      InSection f (ls ++ [line]) := by
  rw [parseLine_eq, InSection, List.filterMap_append]
  cases hheader : headerName line with
  | some name =>
    have hlast : ([line].filterMap headerName) = [name] := by simp [hheader]
    rw [hlast, List.getLast?_concat]
    dsimp only
    rw [eqIgnoringCase_openSection]
    simp
  | none =>
    have hlast : ([line].filterMap headerName) = [] := by simp [hheader]
    rw [hlast, List.append_nil]
    dsimp only
    split
    · split
      · exact h.openSection f
      · exact h.openSection f
    · exact h.openSection f

theorem Recorded.concat {ls : List Bytes} {st : ParseState} (h : Recorded ls st) (line : Bytes) :
    Recorded (ls ++ [line]) (parseLine st line) := by
  refine ⟨h.openSection_parseLine line, fun f => ?_⟩
  rcases h.value f with ⟨v, hfirst, hseen, hvalue⟩ | ⟨hnone, hseen, hvalue⟩
  · have hnot : st.conf.seen f = false → ∀ w, ¬ Assigns f ls line w := by
      intro hfalse
      rw [hseen] at hfalse
      cases hfalse
    obtain ⟨hseen', hvalue'⟩ := h.parseLine_of_not hnot
    exact Or.inl ⟨v, hfirst.concat line, hseen'.trans hseen, hvalue'.trans hvalue⟩
  · by_cases hassigns : ∃ v, Assigns f ls line v
    · obtain ⟨v, hv⟩ := hassigns
      have hconf := h.parseLine_of_assigns hv hseen
      refine Or.inl ⟨v, hnone.first_concat hv, ?_, ?_⟩
      · rw [hconf, seen_applyField, decide_eq_true rfl, Bool.or_true]
      · rw [hconf, value_applyField_self, hvalue]
    · push Not at hassigns
      obtain ⟨hseen', hvalue'⟩ := h.parseLine_of_not fun _ => hassigns
      exact Or.inr ⟨hnone.concat hassigns, hseen'.trans hseen, hvalue'.trans hvalue⟩

theorem recorded_init : Recorded [] ⟨wslConfInit, []⟩ := by
  refine ⟨fun f => ?_, fun f => Or.inr ⟨noMatch_nil, ?_, rfl⟩⟩
  · have hclosed : ¬ InSection f [] := by
      rintro ⟨name, hname, -⟩
      cases hname
    refine iff_of_false ?_ hclosed
    cases f <;> decide
  · cases f <;> rfl

theorem recorded_foldl (ls : List Bytes) : Recorded ls (ls.foldl parseLine ⟨wslConfInit, []⟩) := by
  induction ls using List.reverseRecOn with
  | nil => exact recorded_init
  | append_singleton ls line ih =>
    rw [List.foldl_append]
    exact ih.concat line

/-! ## Streams -/

theorem wslConfStrip_break (s : Bytes) : wslConfStrip (s ++ [10]) = wslConfStrip s := by
  have hten : isTrailing 10 = true := rfl
  unfold wslConfStrip
  rw [List.dropWhile_append]
  split
  · next hall =>
    rw [List.isEmpty_iff.mp hall]
    rfl
  · rw [List.rdropWhile_concat_pos _ _ _ hten]

theorem lineText_break (line : Bytes) : lineText (line ++ [10]) = lineText line := by
  unfold lineText cString
  rw [List.drop_zero, List.drop_zero]
  by_cases hzero : ∀ c ∈ line, decide (c ≠ 0) = true
  · rw [List.takeWhile_append_of_pos hzero]
    rw [List.takeWhile_eq_self_iff.mpr hzero]
    exact wslConfStrip_break line
  · have hcut : (line ++ [10]).takeWhile (· ≠ 0) = line.takeWhile (· ≠ 0) := by
      rw [List.takeWhile_append, if_neg]
      intro hlen
      apply hzero
      rw [← List.takeWhile_eq_self_iff]
      exact (List.takeWhile_prefix _).eq_of_length hlen
    rw [hcut]

theorem parseLine_break (st : ParseState) (line : Bytes) :
    parseLine st (line ++ [10]) = parseLine st line := by
  have htext := lineText_break line
  unfold lineText at htext
  unfold parseLine
  rw [htext]

theorem parseLine_nil (st : ParseState) : parseLine st [] = st := rfl

theorem wslConfParseStream_eq (conf : WslConf) (stream : Bytes) :
    wslConfParseStream conf stream =
      { ((contents (fgetsAll 4096 stream)).foldl parseLine ⟨conf, []⟩).conf with parsed := true } := by
  rw [wslConfParseStream, foldl_fgetsAll parseLine_break parseLine_nil]

/-- The parser without a limit to the length of a line. -/
def parseLines (conf : WslConf) (ls : List Bytes) : WslConf :=
  { (ls.foldl parseLine ⟨conf, []⟩).conf with parsed := true }

theorem parseLines_filter (conf : WslConf) (ls : List Bytes) :
    parseLines conf (ls.filter (· ≠ [])) = parseLines conf ls := by
  rw [parseLines, foldl_filter_ne_nil parseLine_nil]
  rfl

theorem wslConfParseStream_of_length_le (conf : WslConf) {stream : Bytes}
    (h : ∀ line ∈ lines stream, line.length ≤ 4095) :
    wslConfParseStream conf stream = parseLines conf (lines stream) := by
  rw [wslConfParseStream_eq, contents_fgetsAll_of_length_le h]
  exact parseLines_filter conf (lines stream)

/-- Every key has the first value that the file gives it, converted to its type, or its default if
that value does not convert or there is none. -/
theorem wslConfParseStream_spec (stream : Bytes) (h : ∀ line ∈ lines stream, line.length < 4095)
    (f : Field) :
    (∀ v, FirstValue f (lines stream) v →
        (wslConfParseStream wslConfInit stream).value f =
          (f.entry.conversion.convert v).getD (defaultValue f)) ∧
      (Unassigned f (lines stream) →
        (wslConfParseStream wslConfInit stream).value f = defaultValue f) := by
  rw [wslConfParseStream_of_length_le wslConfInit fun line hline => le_of_lt (h line hline)]
  rcases (recorded_foldl (lines stream)).value f with ⟨v, hfirst, -, hvalue⟩ | ⟨hnone, -, hvalue⟩
  · constructor
    · intro w hw
      obtain rfl : v = w := First.unique (P := Assigns f) (fun h h' => h.unique h') hfirst hw
      exact hvalue
    · intro hnone
      exact absurd hfirst (hnone v)
  · constructor
    · intro w hw
      exact absurd hw (hnone w)
    · intro _
      exact hvalue

def twoRoots : Bytes := ascii "[AutoMount]\nRoot = /a # first\n[boot]\n[automount]\nroot=/b\n"

theorem wslConfParseStream_spec_twoRoots :
    FirstValue .automountRoot (lines twoRoots) (ascii "/a") ∧
      (wslConfParseStream wslConfInit twoRoots).value .automountRoot = .text (some (ascii "/a/")) := by
  have hfirst : FirstValue .automountRoot (lines twoRoots) (ascii "/a") := by
    refine ⟨[ascii "[AutoMount]"], ascii "Root = /a # first",
      [ascii "[boot]", ascii "[automount]", ascii "root=/b", []], by decide,
      ⟨⟨ascii "AutoMount", by decide, by decide⟩, ascii "Root", by decide,
        by decide⟩, ?_⟩
    rintro b l a hsplit w ⟨⟨name, hname, -⟩, -⟩
    obtain rfl : b = [] := by
      have hlen := congrArg List.length hsplit
      simp only [List.length_append, List.length_cons, List.length_nil] at hlen
      exact List.length_eq_zero_iff.mp (by omega)
    cases hname
  exact ⟨hfirst, (wslConfParseStream_spec twoRoots (by decide) .automountRoot).1 _ hfirst⟩

end WslFreeBSD.Config
