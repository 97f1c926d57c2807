import Mathlib.Data.List.Basic
import WslFreeBSD.Reference.ConfigLines

/-!
# Edits of a configuration file

What an update of a file with the new value of a key has to do (`Updates`), and the edits of the
lines of a file that do it: a line has a new value, or a line is added behind another one. `Edits` is
what both have in common. It compares all lines of the two files, with a line break behind the last
one.
-/

namespace WslFreeBSD.Reference.ConfigFile

open Lib Config

/-! ## Keys -/

/-- A key with one name, which is a section and a key as they stand in a file, and with a value that
needs no quotes. -/
structure PlainKey where
  inSection : Word
  name : Word
  value : Bytes
  plain : ∀ c ∈ value, c ≠ 0 ∧ IsPlainChar c
  noSpaceFront : ∀ c ∈ value.head?, isHSpace c = false
  noSpaceBack : ∀ c ∈ value.getLast?, isHSpace c = false

namespace PlainKey

def fullName (k : PlainKey) : Bytes := k.inSection.val ++ 46 :: k.name.val

def isNamed (k : PlainKey) (name : Bytes) : Bool := eqIgnoringCase name k.fullName

def names (k : PlainKey) (inSection key : Bytes) : Bool :=
  k.isNamed (cString (ConfigFile.fullName inSection key) 0)

theorem word_ne_nil (w : Word) : w.val ≠ [] := by
  obtain ⟨c, s, hw, -⟩ := w.exists_cons
  rw [hw]
  exact List.cons_ne_nil c s

def toConfigKey (k : PlainKey) : ConfigKey where
  inSection := k.inSection.val
  name := k.name.val
  otherNames := []
  value := k.value
  section_ne := word_ne_nil k.inSection
  name_ne := word_ne_nil k.name
  no_dot := k.inSection.not_mem rfl

end PlainKey

/-- What an update of a file has to do: the key has its value, the first values of other names stay,
and one piece of the text is replaced that has no line break. -/
structure Updates (k : PlainKey) (file output : Bytes) : Prop where
  written : firstSet true k.fullName output = some k.value
  others : ∀ name, eqIgnoringCase name k.fullName = false →
    firstSet true name output = firstSet true name file
  breaks : ∃ a old b new, file = a ++ (old ++ b) ∧ output = a ++ (new ++ b) ∧ 10 ∉ old ∧ 13 ∉ old

/-! ## Lists of lines -/

section Lists

variable {k : PlainKey}

def linesText (ls : List Line) : Bytes := ls.flatMap (·.text)

theorem linesText_append (s t : List Line) : linesText (s ++ t) = linesText s ++ linesText t :=
  List.flatMap_append

theorem linesText_cons (line : Line) (ls : List Line) :
    linesText (line :: ls) = line.text ++ linesText ls := List.flatMap_cons

theorem linesText_singleton (line : Line) : linesText [line] = line.text := List.append_nil _

theorem lineCalls_cons (inSection : Bytes) (line : Line) (ls : List Line) :
    lineCalls inSection (line :: ls) =
      line.body.calls inSection ++ lineCalls (line.body.nextSection inSection) ls := rfl

theorem lastSection_append (inSection : Bytes) (s t : List Line) :
    lastSection inSection (s ++ t) = lastSection (lastSection inSection s) t := List.foldl_append

theorem ending_ne_nil (line : Line) : line.ending ≠ [] := by
  unfold Line.ending
  split <;> exact List.cons_ne_nil _ _

/-- The line of a body without `\r`. -/
def Body.line (body : Body) : Line := ⟨body, false, nofun⟩

theorem Body.line_text (body : Body) : body.line.text = body.text ++ [10] := rfl

theorem lastSection_of_no_header {ls : List Line} (h : ∀ line ∈ ls, line.body.opensHeader = false)
    (inSection : Bytes) : lastSection inSection ls = inSection := by
  induction ls generalizing inSection with
  | nil => rfl
  | cons line ls ih =>
    have hnext : line.body.nextSection inSection = inSection := by
      have hline := h line List.mem_cons_self
      cases hbody : line.body with
      | header spaces name after remark =>
        rw [hbody] at hline
        cases hline
      | malformed spaces front c rest =>
        rw [hbody] at hline
        cases front with
        | start => rfl
        | key name blanks => rfl
        | _ => cases hline
      | _ => rfl
    change lastSection (line.body.nextSection inSection) ls = inSection
    rw [hnext]
    exact ih (fun l hl => h l (List.mem_cons_of_mem _ hl)) inSection

/-! ## Edits -/

/-- The lines of a file before and after an update. -/
structure Edits (k : PlainKey) (file output : List Line) : Prop where
  calls : ∃ before old after name,
    lineCalls [] file = before ++ (old ++ after) ∧
    lineCalls [] output = before ++ (name, k.value) :: after ∧
    (∀ call ∈ before, k.isNamed call.1 = false) ∧ (∀ call ∈ old, k.isNamed call.1 = true) ∧
    k.isNamed name = true
  breaks : ∃ a old b new,
    linesText file = a ++ (old ++ b) ∧ linesText output = a ++ (new ++ b) ∧ 10 ∉ old ∧ 13 ∉ old ∧
    b ≠ []
  fileShown : ∀ line ∈ file, line.body.Shown
  outputShown : ∀ line ∈ output, line.body.Shown
  ending : output.getLast?.map (·.hasReturn) = file.getLast?.map (·.hasReturn)

theorem Edits.append {file output : List Line} (h : Edits k file output)
    (hsection : lastSection [] output = lastSection [] file) {ls : List Line}
    (hls : ∀ line ∈ ls, line.body.Shown) : Edits k (file ++ ls) (output ++ ls) := by
  obtain ⟨before, old, after, name, hfile, houtput, hbefore, hold, hname⟩ := h.calls
  obtain ⟨a, piece, b, new, hfileText, houtputText, hbreak, hreturn, hne⟩ := h.breaks
  refine ⟨⟨before, old, after ++ lineCalls (lastSection [] file) ls, name, ?_, ?_, hbefore, hold, hname⟩,
    ⟨a, piece, b ++ linesText ls, new, ?_, ?_, hbreak, hreturn, ?_⟩, ?_, ?_, ?_⟩
  · rw [lineCalls_append, hfile]
    simp only [List.append_assoc]
  · rw [lineCalls_append, houtput, hsection, List.append_assoc]
    rfl
  · rw [linesText_append, hfileText]
    simp only [List.append_assoc]
  · rw [linesText_append, houtputText]
    simp only [List.append_assoc]
  · exact fun hnil => hne (List.append_eq_nil_iff.mp hnil).1
  · intro line hline
    exact (List.mem_append.mp hline).elim (h.fileShown line) (hls line)
  · intro line hline
    exact (List.mem_append.mp hline).elim (h.outputShown line) (hls line)
  · cases ls with
    | nil => rw [List.append_nil, List.append_nil, h.ending]
    | cons line ls =>
      rw [List.getLast?_append_of_ne_nil _ (List.cons_ne_nil line ls),
        List.getLast?_append_of_ne_nil _ (List.cons_ne_nil line ls)]

theorem find?_calls {before old : List (Bytes × Bytes)} {n : Bytes} (v : Bytes)
    (after : List (Bytes × Bytes)) (hbefore : ∀ call ∈ before, k.isNamed call.1 = false)
    (hold : ∀ call ∈ old, k.isNamed call.1 = true) (hn : k.isNamed n = true) :
    (before ++ (n, v) :: after).find? (fun call => eqIgnoringCase call.1 k.fullName) = some (n, v) ∧
      ∀ name, eqIgnoringCase name k.fullName = false →
        (before ++ (n, v) :: after).find? (fun call => eqIgnoringCase call.1 name) =
          (before ++ (old ++ after)).find? (fun call => eqIgnoringCase call.1 name) := by
  constructor
  · rw [List.find?_append, List.find?_eq_none.mpr fun call hcall => ?_]
    · rw [Option.none_or]
      exact List.find?_cons_of_pos hn
    · have hcall := hbefore call hcall
      unfold PlainKey.isNamed at hcall
      rw [hcall]
      exact Bool.false_ne_true
  · intro name hname
    -- what is named like the key is not named like this
    have hother : ∀ call : Bytes × Bytes, k.isNamed call.1 = true →
        ¬ eqIgnoringCase call.1 name = true := by
      intro call hcall hsame
      rw [eqIgnoringCase_swap] at hsame
      rw [eqIgnoringCase_trans hsame hcall] at hname
      cases hname
    have hskip : ((n, v) :: after).find? (fun call => eqIgnoringCase call.1 name) =
        after.find? fun call => eqIgnoringCase call.1 name :=
      List.find?_cons_of_neg (hother (n, v) hn)
    rw [List.find?_append, List.find?_append, List.find?_append, hskip,
      List.find?_eq_none.mpr fun call hcall => hother call (hold call hcall), Option.none_or]

/-! ### A new value -/

theorem exists_newItems (k : PlainKey) (after behind : Blanks) :
    ∃ (after' : Blanks) (items : Items),
      after'.val ++ items.text = after.val ++ (k.value ++ behind.val) ∧
      (∀ i ∈ items.list, i.Plain) ∧ items.last.inQuote = false ∧ items.last.stored = k.value := by
  by_cases hnil : k.value = []
  · -- all spaces stand in front of an empty value
    have hspaces : ∀ c ∈ after.val ++ behind.val, isBlank c = true := by
      intro c hc
      exact (List.mem_append.mp hc).elim (after.property c) (behind.property c)
    refine ⟨⟨after.val ++ behind.val, hspaces⟩, ⟨[], trivial, nofun⟩, ?_, nofun, rfl, ?_⟩
    · rw [hnil]
      exact List.append_nil _
    · rw [hnil]
      rfl
  · have hplain : ∀ c ∈ k.value ++ behind.val, IsPlainChar c := by
      intro c hc
      exact (List.mem_append.mp hc).elim (fun h => (k.plain c h).2)
        fun h => isPlainChar_of_isHSpace (behind.property c h)
    have hspace : ∀ c ∈ (((k.value ++ behind.val).map charItem).flatMap (·.text)).head?,
        isHSpace c = false := by
      rw [text_charItems hplain]
      intro c hc
      apply k.noSpaceFront c
      rwa [List.head?_append_of_ne_nil _ hnil] at hc
    have htrim : (k.value ++ behind.val).rdropWhile isHSpace = k.value := by
      have hbehind : ∀ c ∈ behind.val, isHSpace c = true := behind.property
      rw [rdropWhile_append_of_all _ hbehind, rdropWhile_eq_self_of_last k.noSpaceBack]
    have hnul : 0 ∉ k.value := fun h => (k.plain 0 h).1 rfl
    refine ⟨after, ⟨(k.value ++ behind.val).map charItem, placed_charItems hplain _, hspace⟩,
      ?_, fun i hi => plain_charItems hplain hi, ?_, ?_⟩
    · rw [Items.text, text_charItems hplain]
    · rw [Items.last, read_charItems hplain]
    · rw [Items.last, stored_charItems hplain, htrim, cString_of_not_mem hnul]

theorem unbroken_text {items : Items} (h : ∀ i ∈ items.list, i.Unbroken) :
    10 ∉ items.text ∧ 13 ∉ items.text := by
  constructor
  · intro hmem
    obtain ⟨i, hi, hc⟩ := List.mem_flatMap.mp hmem
    exact (h i hi).1 hc
  · intro hmem
    obtain ⟨i, hi, hc⟩ := List.mem_flatMap.mp hmem
    exact (h i hi).2 hc

/-- What is written in front of the value of a line. -/
def valueFront (spaces : Blanks) (key : Word) (before after : Blanks) : Bytes :=
  spaces.val ++ frontText key before after

theorem text_keyValue (spaces : Blanks) (key : Word) (before after : Blanks) (items : Items)
    (remark : Option Rest) (closed : remark.isSome = true → items.last.inQuote = false) :
    (Body.keyValue spaces key before after items remark closed).text =
      valueFront spaces key before after ++ (items.text ++ remarkText remark) := by
  simp [Body.text, valueFront, frontText]

theorem edits_replace {done : List Line} (hdone : ∀ line ∈ done, line.body.Shown)
    (hnamed : ∀ call ∈ lineCalls [] done, k.isNamed call.1 = false) (spaces : Blanks) (key : Word)
    (before after : Blanks) (items : Items) (remark : Option Rest)
    (closed : remark.isSome = true → items.last.inQuote = false)
    (hkey : k.names (lastSection [] done) key.val = true)
    (hunbroken : ∀ i ∈ items.list, i.Unbroken) (behind : Blanks) (hasReturn : Bool)
    (allowed : hasReturn = true →
      (Body.keyValue spaces key before after items remark closed).AllowsReturn) :
    ∃ line' : Line,
      Edits k (done ++ [⟨.keyValue spaces key before after items remark closed, hasReturn, allowed⟩])
        (done ++ [line']) ∧
      line'.body.nextSection (lastSection [] done) = lastSection [] done ∧
      line'.text = valueFront spaces key before after ++
        (k.value ++ (behind.val ++ (remarkText remark ++ line'.ending))) ∧
      line'.hasReturn = hasReturn := by
  obtain ⟨after', items', hitems, hplain, hquote, hstored⟩ := exists_newItems k after behind
  let body' : Body := .keyValue spaces key before after' items' remark fun _ => hquote
  let line' : Line := ⟨body', hasReturn, fun h => ⟨(allowed h).1, hquote⟩⟩
  let line : Line := ⟨.keyValue spaces key before after items remark closed, hasReturn, allowed⟩
  have htext' : line'.text = valueFront spaces key before after ++
      (k.value ++ (behind.val ++ (remarkText remark ++ line'.ending))) := by
    have hfront : valueFront spaces key before after' ++ items'.text =
        valueFront spaces key before after ++ (k.value ++ behind.val) := by
      simp only [valueFront, frontText, List.append_assoc, hitems]
    change body'.text ++ line'.ending = _
    rw [text_keyValue, ← List.append_assoc, hfront]
    simp only [List.append_assoc]
  have htext : line.text = valueFront spaces key before after ++
      (items.text ++ (remarkText remark ++ line'.ending)) := by
    change line.body.text ++ line'.ending = _
    rw [text_keyValue]
    simp only [List.append_assoc]
  have hcopied : CopiedItems (readOptions true) items' := copiedItems_of_plain hplain
  obtain ⟨hbreak, hcarriage⟩ := unbroken_text hunbroken
  refine ⟨line', ⟨⟨lineCalls [] done, line.body.calls (lastSection [] done), [],
    cString (fullName (lastSection [] done) key.val) 0, ?_, ?_, hnamed, ?_, hkey⟩,
    ⟨linesText done ++ valueFront spaces key before after, items.text,
      remarkText remark ++ line'.ending, k.value ++ behind.val, ?_, ?_, hbreak, hcarriage, ?_⟩,
    ?_, ?_, ?_⟩, rfl, htext', rfl⟩
  · rw [lineCalls_append]
    rfl
  · have hcalls : body'.calls (lastSection [] done) =
        [(cString (fullName (lastSection [] done) key.val) 0, k.value)] := by
      rw [calls_keyValue hcopied, if_neg (by rw [hquote]; decide), hstored]
    rw [lineCalls_append]
    exact congrArg (lineCalls [] done ++ ·) ((List.append_nil _).trans hcalls)
  · intro call hcall
    have hmem : call ∈ Body.calls (lastSection [] done)
        (.keyValue spaces key before after items remark closed) := hcall
    rw [Body.calls] at hmem
    split at hmem
    · cases hmem
    · rw [List.mem_singleton.mp hmem]
      exact hkey
  · rw [linesText_append, linesText_singleton, htext, List.append_assoc]
  · rw [linesText_append, linesText_singleton, htext']
    simp only [List.append_assoc]
  · exact fun hnil => ending_ne_nil line' (List.append_eq_nil_iff.mp hnil).2
  · intro l hl
    rcases List.mem_append.mp hl with hl | hl
    · exact hdone l hl
    · rw [List.mem_singleton.mp hl]
      exact Or.inr hunbroken
  · intro l hl
    rcases List.mem_append.mp hl with hl | hl
    · exact hdone l hl
    · rw [List.mem_singleton.mp hl]
      exact Or.inl fun i hi => isUnknown_of_plain (hplain i hi)
  · rw [List.getLast?_concat, List.getLast?_concat]
    rfl

/-! ### A new line -/

theorem edits_insert {before after header : List Line} {l : Line} {inSection : Bytes}
    (hshown : ∀ line ∈ before ++ l :: after, line.body.Shown)
    (hheader : ∀ line ∈ header, line.body.Shown)
    (hsection : lastSection [] (before ++ [l]) = inSection)
    (hcalls : lineCalls inSection header = [])
    (hnamed : ∀ call ∈ lineCalls [] (before ++ [l]), k.isNamed call.1 = false)
    (hname : k.names (lastSection inSection header) k.name.val = true)
    (hsame : header = [] ∨ after = []) :
    ∃ output, Edits k (before ++ l :: after) output ∧
      (header = [] → lastSection [] output = lastSection [] (before ++ l :: after)) ∧
      linesText output = linesText before ++ (l.body.text ++ 10 :: (linesText header ++
        (k.name.val ++ 61 :: (k.value ++ (l.ending ++ linesText after))))) := by
  obtain ⟨blanks, items, hitems, hplain, hquote, hstored⟩ :=
    exists_newItems k ⟨[], by simp⟩ ⟨[], by simp⟩
  have hcopied : CopiedItems (readOptions true) items := copiedItems_of_plain hplain
  let body : Body := .keyValue ⟨[], by simp⟩ k.name ⟨[], by simp⟩ blanks items none
    fun hnone => absurd hnone Bool.false_ne_true
  let line : Line := ⟨body, l.hasReturn, fun _ => ⟨rfl, hquote⟩⟩
  let output : List Line := (before ++ [l.body.line]) ++ (header ++ line :: after)
  have hline : line.text = k.name.val ++ 61 :: (k.value ++ l.ending) := by
    have htext : body.text = k.name.val ++ 61 :: (blanks.val ++ items.text) := by
      simp [body, Body.text, remarkText]
    change body.text ++ l.ending = _
    rw [htext, hitems]
    simp
  have hfront : lineCalls [] (before ++ [l.body.line]) = lineCalls [] (before ++ [l]) := by
    rw [lineCalls_append, lineCalls_append]
    rfl
  have hfrontSection : lastSection [] (before ++ [l.body.line]) = inSection := by
    rw [← hsection, lastSection_append, lastSection_append]
    rfl
  have hbody : body.calls (lastSection inSection header) =
      [(cString (fullName (lastSection inSection header) k.name.val) 0, k.value)] := by
    rw [calls_keyValue hcopied, if_neg (by rw [hquote]; decide), hstored]
  have hfile : before ++ l :: after = (before ++ [l]) ++ after := by simp
  have hafter : lineCalls (lastSection inSection header) after = lineCalls inSection after := by
    rcases hsame with rfl | rfl
    · rfl
    · rfl
  have houtput : linesText output = linesText before ++ (l.body.text ++ 10 :: (linesText header ++
      (k.name.val ++ 61 :: (k.value ++ (l.ending ++ linesText after))))) := by
    simp only [output, linesText_append, linesText_cons, Body.line_text, hline, List.append_assoc,
      List.cons_append, List.nil_append]
  refine ⟨output, ⟨⟨lineCalls [] (before ++ [l]), [], lineCalls inSection after,
    cString (fullName (lastSection inSection header) k.name.val) 0, ?_, ?_, hnamed,
    List.forall_mem_nil _, hname⟩,
    ⟨linesText before ++ l.body.text, [], l.ending ++ linesText after,
      10 :: (linesText header ++ (k.name.val ++ 61 :: k.value)), ?_, ?_, List.not_mem_nil,
      List.not_mem_nil, ?_⟩,
    hshown, ?_, ?_⟩, ?_, houtput⟩
  · rw [hfile, lineCalls_append, hsection, List.nil_append]
  · rw [lineCalls_append, hfront, hfrontSection, lineCalls_append inSection header, hcalls,
      List.nil_append, lineCalls_cons, hbody, ← hafter]
    rfl
  · rw [linesText_append, linesText_cons, Line.text]
    simp only [List.append_assoc, List.nil_append]
  · rw [houtput]
    simp only [List.append_assoc, List.cons_append]
  · exact fun hnil => ending_ne_nil l (List.append_eq_nil_iff.mp hnil).1
  · intro m hm
    rcases List.mem_append.mp hm with hm | hm
    · rcases List.mem_append.mp hm with hm | hm
      · exact hshown m (List.mem_append_left _ hm)
      · rw [List.mem_singleton.mp hm]
        exact hshown l (by simp)
    · rcases List.mem_append.mp hm with hm | hm
      · exact hheader m hm
      · rcases List.mem_cons.mp hm with rfl | hm
        · exact Or.inl fun i hi => isUnknown_of_plain (hplain i hi)
        · exact hshown m (by simp [hm])
  · have hreturn : (header ++ line :: after).getLast?.map (·.hasReturn) =
        (l :: after).getLast?.map (·.hasReturn) := by
      rw [List.getLast?_append_of_ne_nil _ (List.cons_ne_nil line after)]
      cases after with
      | nil => rfl
      | cons m after => rw [List.getLast?_cons_cons, List.getLast?_cons_cons]
    rw [List.getLast?_append_of_ne_nil _ (by simp), hreturn,
      List.getLast?_append_of_ne_nil _ (List.cons_ne_nil l after)]
  · rintro rfl
    rw [lastSection_append, hfrontSection, hfile, lastSection_append [] (before ++ [l]), hsection]
    rfl

theorem updates_of_edits {file : ConfigText} {output : Bytes} {ls : List Line}
    (h : Edits k (file.lines ++ [file.last.line]) ls) (houtput : output ++ [10] = linesText ls) :
    Updates k file.text output := by
  have hending := h.ending
  rw [List.getLast?_concat] at hending
  obtain rfl | ⟨front, last, rfl⟩ := List.eq_nil_or_concat ls
  · cases hending
  rw [List.concat_eq_append] at h houtput hending
  rw [List.getLast?_concat] at hending
  have hreturn : last.hasReturn = false := Option.some.inj hending
  have hending' : last.ending = [10] := by
    rw [Line.ending, hreturn]
    rfl
  have htext : output = ConfigText.text ⟨front, last.body⟩ := by
    rw [linesText_append, linesText_singleton, Line.text, hending', ← List.append_assoc] at houtput
    exact List.append_cancel_right houtput
  have hfileCalls : setCalls true file.text = lineCalls [] (file.lines ++ [file.last.line]) := by
    rw [setCalls_configText file (fun line hline => ⟨Or.inr rfl, h.fileShown line (by simp [hline])⟩)
      ⟨Or.inr rfl, h.fileShown file.last.line (by simp)⟩, lineCalls_append]
    exact congrArg _ (List.append_nil _).symm
  have houtputCalls : setCalls true output = lineCalls [] (front ++ [last]) := by
    rw [htext, setCalls_configText ⟨front, last.body⟩
      (fun line hline => ⟨Or.inr rfl, h.outputShown line (List.mem_append_left _ hline)⟩)
      ⟨Or.inr rfl, h.outputShown last (by simp)⟩, lineCalls_append]
    exact congrArg _ (List.append_nil _).symm
  obtain ⟨before, old, after, name, hfile, hnew, hbefore, hold, hname⟩ := h.calls
  obtain ⟨hfirst, hrest⟩ := find?_calls k.value after hbefore hold hname
  refine ⟨?_, ?_, ?_⟩
  · rw [firstSet, houtputCalls, hnew, hfirst]
    rfl
  · intro other hother
    rw [firstSet, firstSet, houtputCalls, hfileCalls, hnew, hfile, hrest other hother]
  · obtain ⟨a, piece, b, new, hfileText, houtputText, hbreak, hcarriage, hne⟩ := h.breaks
    obtain rfl | ⟨b, c, rfl⟩ := List.eq_nil_or_concat b
    · exact absurd rfl hne
    rw [List.concat_eq_append] at hfileText houtputText
    have hall : file.text ++ [10] = linesText (file.lines ++ [file.last.line]) := by
      rw [linesText_append, linesText_singleton, Body.line_text, ← List.append_assoc]
      rfl
    rw [← houtput, ← List.append_assoc, ← List.append_assoc] at houtputText
    rw [← hall, ← List.append_assoc, ← List.append_assoc] at hfileText
    refine ⟨a, piece, b, new, ?_, ?_, hbreak, hcarriage⟩
    · rw [← List.append_assoc]
      exact (List.append_inj' hfileText rfl).1
    · rw [← List.append_assoc]
      exact (List.append_inj' houtputText rfl).1

end Lists

end WslFreeBSD.Reference.ConfigFile
