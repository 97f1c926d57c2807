import WslFreeBSD.Reference.ConfigCuts

/-!
# The files that are accepted

A file without `\r` in which no line is invalid, and whose last line ends with a line break, is the
text of valid bodies (`PlainFile.exists_bodies`): what the parser has read of a line says what can
follow in it (`Part`), and a character ends the line, belongs to it or makes it invalid (`goes_step`).
-/

namespace WslFreeBSD.Reference.ConfigFile

open Lib Config

/-- The options for reading a file in which no line may be invalid. -/
abbrev strict : Options := readOptions false

/-- A file of valid lines that end with a line break, without `\r`. The last line break does not
continue a value. -/
structure PlainFile (file : Bytes) : Prop where
  noReturn : 13 ∉ file
  ended : ∀ c ∈ file.getLast?, c = 10
  valid : (run strict State.init file).mode = .lineStart

/-! ## Parts of values -/

theorem head_append_text {items : List Item} {i : Item} {c : UInt8}
    (h : c ∈ ((items ++ [i]).flatMap (·.text)).head?) :
    c ∈ (items.flatMap (·.text)).head? ∨ items = [] ∧ c ∈ i.text.head? := by
  cases items with
  | nil =>
    rw [List.nil_append, List.flatMap_singleton] at h
    exact Or.inr ⟨rfl, h⟩
  | cons j items =>
    rw [List.cons_append, List.flatMap_cons, List.head?_append_of_ne_nil _ j.text_ne_nil] at h
    rw [List.flatMap_cons, List.head?_append_of_ne_nil _ j.text_ne_nil]
    exact Or.inl h

theorem Items.exists_concat (items : Items) (i : Item)
    (hhash : i = .hash → items.last.inQuote = true)
    (hspace : items.list = [] → ∀ c ∈ i.text.head?, isHSpace c = false) :
    ∃ items' : Items, items'.list = items.list ++ [i] := by
  have hplaced : Placed ValueState.init (items.list ++ [i]) :=
    placed_append.mpr ⟨items.placed, placed_cons.mpr ⟨hhash, trivial⟩⟩
  refine ⟨⟨items.list ++ [i], hplaced, ?_⟩, rfl⟩
  intro c hc
  rcases head_append_text hc with hc | ⟨hnil, hc⟩
  · exact items.noSpace c hc
  · exact hspace hnil c hc

/-- The key, the `=` and a part of the value. -/
structure ValuePart (st : State) (items : Items) : Prop where
  read : st.valueState = items.last
  known : ∀ i ∈ items.list, i.isUnknown = false
  first : st.firstMatchedKey = false

/-- What was read of a line, by the place where the next character is read. -/
def Part (st : State) (part : Bytes) : Prop :=
  match st.mode with
  | .lineStart => ∃ spaces : Blanks, part = spaces.val
  | .comment =>
    ∃ front, (∀ text : Rest, ∃ body, Body.Valid body ∧ body.text = front ++ 35 :: text.val) ∧
      ∃ text : Rest, part = front ++ 35 :: text.val
  | .sectionStart => ∃ spaces : Blanks, part = spaces.val ++ [91]
  | .sectionName => ∃ (spaces : Blanks) (name : Word), part = spaces.val ++ 91 :: name.val
  | .afterBracket => ∃ spaces name after, part = headerFront spaces name after
  | .key => ∃ (spaces : Blanks) (key : Word), part = spaces.val ++ key.val
  | .beforeEquals =>
    ∃ (spaces : Blanks) (key : Word) (before : Blanks),
      part = spaces.val ++ (key.val ++ before.val)
  | .afterEquals => ∃ spaces key before after, part = valueFront spaces key before after
  | .value =>
    ∃ spaces key before after items, part = valueFront spaces key before after ++ items.text ∧
      items.list ≠ [] ∧ ValuePart st items
  | .escape =>
    ∃ spaces key before after items,
      part = valueFront spaces key before after ++ (items.text ++ [92]) ∧ ValuePart st items
  | _ => False

/-- A character has been read in a line: it is invalid now, goes on or has ended. -/
def Goes (st : State) (part : Bytes) (c : UInt8) : Prop :=
  st.mode = .failed ∨ Part st (part ++ [c]) ∨
    c = 10 ∧ st.mode = .lineStart ∧ ∃ body : Body, body.Valid ∧ body.text = part

section Accepted

variable {st : State} {part : Bytes} {c : UInt8}

theorem goes_of_malformed : Goes (malformed strict st c) part c := Or.inl rfl

theorem goes_break {st' : State} {body : Body} (hvalid : body.Valid) :
    Goes (newLine strict st' 10) body.text 10 :=
  Or.inr (Or.inr ⟨rfl, rfl, body, hvalid, rfl⟩)

theorem goes_hash {st' : State} {front : Bytes}
    (h : ∀ text : Rest, ∃ body, Body.Valid body ∧ body.text = front ++ 35 :: text.val) :
    Goes (newLine strict st' 35) front 35 :=
  Or.inr (Or.inl ⟨front, h, ⟨[], fun _ hd => absurd hd List.not_mem_nil⟩, rfl⟩)

theorem concat_blank {spaces : Blanks} (hc : isHSpace c = true) :
    ∀ d ∈ spaces.val ++ [c], isBlank d = true := by
  intro d hd
  rcases List.mem_append.mp hd with hd | hd
  · exact spaces.property d hd
  · rw [List.mem_singleton.mp hd]
    exact hc

theorem isAlnum_letter {c : UInt8} (h : isAlpha c = true) : ∀ d ∈ [c], isAlnum d = true := by
  intro d hd
  rw [List.mem_singleton.mp hd, isAlnum, h, Bool.true_or]

def startWord (c : UInt8) (h : isAlpha c = true) : Word := ⟨[c], h, isAlnum_letter h⟩

theorem word_concat (w : Word) {c : UInt8} (h : isAlnum c = true) :
    (w.val ++ [c]).head?.any isAlpha = true ∧ ∀ d ∈ w.val ++ [c], isAlnum d = true := by
  refine ⟨?_, ?_⟩
  · rw [List.head?_append_of_ne_nil _ (PlainKey.word_ne_nil w)]
    exact w.property.1
  · intro d hd
    rcases List.mem_append.mp hd with hd | hd
    · exact w.property.2 d hd
    · rw [List.mem_singleton.mp hd]
      exact h

theorem goes_lineStart (hmode : st.mode = .lineStart) (hpart : Part st part) (hc : c ≠ 13) :
    Goes (step strict st c) part c := by
  rw [Part, hmode] at hpart
  obtain ⟨spaces, rfl⟩ := hpart
  rw [step_lineStart hmode, atLineStart, if_neg hc]
  split
  · next hspace =>
    refine Or.inr (Or.inl ?_)
    have hmode' : (st.write strict [c]).mode = .lineStart := hmode
    rw [Part, hmode']
    exact ⟨⟨spaces.val ++ [c], concat_blank hspace⟩, rfl⟩
  split
  · next hends =>
    rcases hends with rfl | rfl
    · exact @goes_break st (.blank spaces) trivial
    · exact goes_hash fun text => ⟨.comment spaces text, trivial, rfl⟩
  split
  · next heq =>
    rw [heq]
    exact Or.inr (Or.inl ⟨spaces, rfl⟩)
  split
  · exact goes_of_malformed
  · next halpha =>
    have hletter : isAlpha c = true := by simpa using halpha
    exact Or.inr (Or.inl ⟨spaces, startWord c hletter, rfl⟩)

theorem goes_comment (hmode : st.mode = .comment) (hpart : Part st part) (hc : c ≠ 13) :
    Goes (step strict st c) part c := by
  rw [Part, hmode] at hpart
  obtain ⟨front, hbody, text, rfl⟩ := hpart
  rw [step_comment hmode, if_neg hc]
  split
  · next heq =>
    obtain ⟨body, hvalid, htext⟩ := hbody text
    have hend : (endComment (st.write strict [c])).mode = .lineStart := by
      rw [endComment]
      split
      · rfl
      · rfl
    exact Or.inr (Or.inr ⟨heq, hend, body, hvalid, htext⟩)
  · next hne =>
    have hrest : ∀ d ∈ text.val ++ [c], d ≠ 10 ∧ d ≠ 13 := by
      intro d hd
      rcases List.mem_append.mp hd with hd | hd
      · exact text.property d hd
      · rw [List.mem_singleton.mp hd]
        exact ⟨hne, hc⟩
    refine Or.inr (Or.inl ?_)
    have hmode' : (st.write strict [c]).mode = .comment := hmode
    rw [Part, hmode']
    exact ⟨front, hbody, ⟨text.val ++ [c], hrest⟩, List.append_assoc _ _ _⟩

/-! ### Headers -/

theorem goes_sectionStart (hmode : st.mode = .sectionStart) (hpart : Part st part) :
    Goes (step strict st c) part c := by
  rw [Part, hmode] at hpart
  obtain ⟨spaces, rfl⟩ := hpart
  rw [step_sectionStart hmode, atSectionStart]
  split
  · exact goes_of_malformed
  · next halpha =>
    have hletter : isAlpha c = true := by simpa using halpha
    exact Or.inr (Or.inl ⟨spaces, startWord c hletter, List.append_assoc _ _ _⟩)

theorem goes_sectionName (hmode : st.mode = .sectionName) (hpart : Part st part) :
    Goes (step strict st c) part c := by
  rw [Part, hmode] at hpart
  obtain ⟨spaces, name, rfl⟩ := hpart
  rw [step_sectionName hmode, atSectionName]
  split
  · next halnum =>
    refine Or.inr (Or.inl ?_)
    change Part { st with key := st.key ++ [c] } _
    have hmode' : ({ st with key := st.key ++ [c] } : State).mode = .sectionName := hmode
    rw [Part, hmode']
    exact ⟨spaces, ⟨name.val ++ [c], word_concat name halnum⟩, List.append_assoc _ _ _⟩
  split
  · exact goes_of_malformed
  · next hbracket =>
    have heq : c = 93 := not_not.mp hbracket
    refine Or.inr (Or.inl ⟨spaces, name, noBlanks, ?_⟩)
    rw [heq, headerFront, List.append_assoc]
    rfl

theorem goes_afterBracket (hmode : st.mode = .afterBracket) (hpart : Part st part) (hc : c ≠ 13) :
    Goes (step strict st c) part c := by
  rw [Part, hmode] at hpart
  obtain ⟨spaces, name, after, rfl⟩ := hpart
  rw [step_afterBracket hmode, atAfterBracket]
  split
  · next hspace =>
    refine Or.inr (Or.inl ?_)
    have hmode' : (st.write strict [c]).mode = .afterBracket := hmode
    rw [Part, hmode']
    refine ⟨spaces, name, ⟨after.val ++ [c], concat_blank hspace⟩, ?_⟩
    simp [headerFront]
  split
  · next hends =>
    obtain rfl := hends.resolve_right hc
    have htext : (Body.header spaces name after none).text = headerFront spaces name after := by
      rw [text_header, remarkText, List.append_nil]
    rw [← htext]
    exact @goes_break _ (.header spaces name after none) trivial
  split
  · next heq =>
    rw [heq]
    exact goes_hash fun text => ⟨.header spaces name after (some text), trivial, text_header _ _ _ _⟩
  · exact goes_of_malformed

/-! ### Keys and values -/

theorem goes_atBeforeEquals (spaces : Blanks) (key : Word) (before : Blanks) :
    Goes (atBeforeEquals strict st c) (spaces.val ++ (key.val ++ before.val)) c := by
  rw [atBeforeEquals]
  split
  · next hspace =>
    refine Or.inr (Or.inl ⟨spaces, key, ⟨before.val ++ [c], concat_blank hspace⟩, ?_⟩)
    simp
  split
  · exact goes_of_malformed
  · next hequals =>
    have heq : c = 61 := not_not.mp hequals
    refine Or.inr (Or.inl ⟨spaces, key, before, noBlanks, ?_⟩)
    simp [heq, valueFront, frontText, noBlanks]

theorem goes_key (hmode : st.mode = .key) (hpart : Part st part) :
    Goes (step strict st c) part c := by
  rw [Part, hmode] at hpart
  obtain ⟨spaces, key, rfl⟩ := hpart
  rw [step_key hmode, atKey]
  split
  · next halnum =>
    refine Or.inr (Or.inl ?_)
    have hmode' : ({ st with key := st.key ++ [c] } : State).mode = .key := hmode
    change Part { st with key := st.key ++ [c] } _
    rw [Part, hmode']
    exact ⟨spaces, ⟨key.val ++ [c], word_concat key halnum⟩, List.append_assoc _ _ _⟩
  · have hgoes : Goes (atBeforeEquals strict st c)
        (spaces.val ++ (key.val ++ noBlanks.val)) c := goes_atBeforeEquals spaces key noBlanks
    have hnone : key.val ++ noBlanks.val = key.val := List.append_nil _
    rwa [hnone] at hgoes

theorem goes_beforeEquals (hmode : st.mode = .beforeEquals) (hpart : Part st part) :
    Goes (step strict st c) part c := by
  rw [Part, hmode] at hpart
  obtain ⟨spaces, key, before, rfl⟩ := hpart
  rw [step_beforeEquals hmode]
  exact goes_atBeforeEquals spaces key before

theorem text_concat {items items' : Items} {i : Item} (h : items'.list = items.list ++ [i]) :
    items'.text = items.text ++ i.text := by
  rw [Items.text, h, List.flatMap_append, List.flatMap_singleton]
  rfl

theorem last_concat {items items' : Items} {i : Item} (h : items'.list = items.list ++ [i]) :
    items'.last = items.last.read i := by
  rw [Items.last, h, readItems_append]
  rfl

theorem known_concat {items items' : Items} {i : Item} (h : items'.list = items.list ++ [i])
    (hknown : ∀ j ∈ items.list, j.isUnknown = false) (hi : i.isUnknown = false) :
    ∀ j ∈ items'.list, j.isUnknown = false := by
  intro j hj
  rw [h] at hj
  rcases List.mem_append.mp hj with hj | hj
  · exact hknown j hj
  · rw [List.mem_singleton.mp hj]
    exact hi

variable {spaces : Blanks} {key : Word} {before after : Blanks} {items : Items}

theorem goes_item (hmode : st.mode = .value) (hvalue : ValuePart st items) (i : Item)
    (htext : i.text = [c]) (hhash : i = .hash → items.last.inQuote = true)
    (hspace : items.list = [] → isHSpace c = false) (hknown : i.isUnknown = false) :
    Goes (step strict st c) (valueFront spaces key before after ++ items.text) c := by
  have hspace' : items.list = [] → ∀ d ∈ i.text.head?, isHSpace d = false := by
    intro hnil d hd
    rw [htext] at hd
    obtain rfl := Option.some.inj hd
    exact hspace hnil
  obtain ⟨items', hitems⟩ := items.exists_concat i hhash hspace'
  have hquote : i = .hash → st.inQuote = true := by
    intro hi
    have hin := hhash hi
    rw [← hvalue.read] at hin
    exact hin
  have hread := read_item (o := strict) hmode i hquote
    fun hunknown => absurd hunknown (Bool.eq_false_iff.mp hknown)
  rw [htext, run_cons, run_nil] at hread
  rw [hread]
  refine Or.inr (Or.inl ?_)
  have hne : items'.list ≠ [] := by
    rw [hitems]
    exact List.concat_ne_nil _ _
  have hpart : valueFront spaces key before after ++ items.text ++ [c] =
      valueFront spaces key before after ++ items'.text := by
    rw [text_concat hitems, htext, List.append_assoc]
  have hlast : st.valueState.read i = items'.last := by
    rw [last_concat hitems, hvalue.read]
  have hmode' : ∀ output, ({ st.setValue (st.valueState.read i) with
      configFileOutput := output } : State).mode = .value := fun _ => hmode
  rw [Part, hmode', hpart]
  exact ⟨spaces, key, before, after, items', rfl, hne, hlast,
    known_concat hitems hvalue.known hknown, hvalue.first⟩

theorem goes_value (hmode : st.mode = .value) (hvalue : ValuePart st items)
    (hspace : items.list = [] → isHSpace c = false) (hc : c ≠ 13) :
    Goes (step strict st c) (valueFront spaces key before after ++ items.text) c := by
  have hquote : st.inQuote = items.last.inQuote := by
    rw [← hvalue.read]
    rfl
  by_cases hbreak : c = 10
  · subst hbreak
    cases hin : st.inQuote with
    | true =>
      left
      rw [step_value hmode, atValue, if_pos (by decide), valueDone, hin, hvalue.first]
      rfl
    | false =>
      rw [hquote] at hin
      have hclosed : (none : Option Rest).isSome = true → items.last.inQuote = false := fun _ => hin
      have htext := text_keyValue spaces key before after items none hclosed
      rw [remarkText, List.append_nil] at htext
      rw [step_value_break hmode (hquote.trans hin) (Or.inl rfl), ← htext]
      exact goes_break (by exact ⟨hin, hvalue.known⟩)
  by_cases hquoted : c = 34
  · exact goes_item hmode hvalue .quote (by rw [hquoted]; rfl) (fun heq => Item.noConfusion heq)
      hspace rfl
  by_cases hhash : c = 35
  · subst hhash
    cases hin : st.inQuote with
    | true => exact goes_item hmode hvalue .hash rfl (fun _ => hquote.symm.trans hin) hspace rfl
    | false =>
      rw [step_value_hash hmode hin]
      refine goes_hash fun text => ?_
      have hclosed : (some text).isSome = true → items.last.inQuote = false :=
        fun _ => hquote.symm.trans hin
      refine ⟨.keyValue spaces key before after items (some text) hclosed,
        ⟨hquote.symm.trans hin, hvalue.known⟩, ?_⟩
      rw [text_keyValue, List.append_assoc]
      rfl
  by_cases hslash : c = 92
  · subst hslash
    rw [read_backslash hmode]
    refine Or.inr (Or.inl ⟨spaces, key, before, after, items, List.append_assoc _ _ _, ?_⟩)
    exact ⟨hvalue.read, hvalue.known, hvalue.first⟩
  · exact goes_item hmode hvalue (.char ⟨c, hbreak, hc, hquoted, hhash, hslash⟩) rfl
      (fun heq => Item.noConfusion heq) hspace rfl

theorem goes_afterEquals (hmode : st.mode = .afterEquals) (hpart : Part st part) (hc : c ≠ 13) :
    Goes (step strict st c) part c := by
  rw [Part, hmode] at hpart
  obtain ⟨spaces, key, before, after, rfl⟩ := hpart
  rw [step_afterEquals hmode, atAfterEquals]
  split
  · next hspace =>
    refine Or.inr (Or.inl ?_)
    have hmode' : (st.write strict [c]).mode = .afterEquals := hmode
    rw [Part, hmode']
    refine ⟨spaces, key, before, ⟨after.val ++ [c], concat_blank hspace⟩, ?_⟩
    simp [valueFront, frontText]
  · next hspace =>
    have hvalue : ValuePart (startValue strict st) noItems :=
      ⟨rfl, fun i hi => absurd hi List.not_mem_nil, Bool.and_false _⟩
    have hmode' : (startValue strict st).mode = .value := rfl
    have hgoes : Goes (step strict (startValue strict st) c)
        (valueFront spaces key before after ++ noItems.text) c :=
      goes_value hmode' hvalue (fun _ => Bool.eq_false_iff.mpr hspace) hc
    have hnone : valueFront spaces key before after ++ noItems.text =
        valueFront spaces key before after := List.append_nil _
    rw [step_value hmode', hnone] at hgoes
    exact hgoes

theorem goes_escape (hmode : st.mode = .escape) (hpart : Part st part) :
    Goes (step strict st c) part c := by
  rw [Part, hmode] at hpart
  obtain ⟨spaces, key, before, after, items, rfl, hvalue⟩ := hpart
  rw [step_escape hmode, atEscape]
  cases hs : unescape c with
  | none =>
    left
    have hfirst : (st.writeValue strict [c]).firstMatchedKey = false := by
      rw [writeValue_eq]
      exact hvalue.first
    dsimp only
    rw [if_neg (Bool.eq_false_iff.mp hfirst)]
    rfl
  | some s =>
    let i : Item := .escape ⟨c, by rw [hs]; rfl⟩
    have hhash : i = .hash → items.last.inQuote = true := fun heq => Item.noConfusion heq
    obtain ⟨items', hitems⟩ := items.exists_concat i hhash
      fun _ d hd => by obtain rfl := Option.some.inj hd; rfl
    have hne : items'.list ≠ [] := by
      rw [hitems]
      exact List.concat_ne_nil _ _
    have hmeaning : items.last.read i = items.last.add s := by
      change items.last.add ((unescape c).getD []) = _
      rw [hs]
      rfl
    have hread : (endEscape (st.writeValue strict [c]) s).valueState = items'.last := by
      rw [last_concat hitems, hmeaning, ← hvalue.read, writeValue_eq]
      rfl
    have hfirst : (endEscape (st.writeValue strict [c]) s).firstMatchedKey = false := by
      rw [writeValue_eq]
      exact hvalue.first
    have hpart : valueFront spaces key before after ++ (items.text ++ [92]) ++ [c] =
        valueFront spaces key before after ++ items'.text := by
      rw [text_concat hitems, List.append_assoc, List.append_assoc]
      rfl
    refine Or.inr (Or.inl ⟨spaces, key, before, after, items', hpart, hne, hread, ?_, hfirst⟩)
    exact known_concat hitems hvalue.known rfl

/-! ### Files -/

theorem goes_step (hpart : Part st part) (hc : c ≠ 13) : Goes (step strict st c) part c := by
  cases hmode : st.mode with
  | lineStart => exact goes_lineStart hmode hpart hc
  | comment => exact goes_comment hmode hpart hc
  | sectionStart => exact goes_sectionStart hmode hpart
  | sectionName => exact goes_sectionName hmode hpart
  | afterBracket => exact goes_afterBracket hmode hpart hc
  | key => exact goes_key hmode hpart
  | beforeEquals => exact goes_beforeEquals hmode hpart
  | afterEquals => exact goes_afterEquals hmode hpart hc
  | value =>
    have hpart' := hpart
    rw [Part, hmode] at hpart'
    obtain ⟨spaces, key, before, after, items, rfl, hne, hvalue⟩ := hpart'
    exact goes_value hmode hvalue (fun hnil => absurd hnil hne) hc
  | escape => exact goes_escape hmode hpart
  | carriageReturn =>
    rw [Part, hmode] at hpart
    exact hpart.elim
  | commentReturn =>
    rw [Part, hmode] at hpart
    exact hpart.elim
  | invalid =>
    rw [Part, hmode] at hpart
    exact hpart.elim
  | failed =>
    rw [Part, hmode] at hpart
    exact hpart.elim

theorem part_nil (hmode : st.mode = .lineStart) : Part st [] := by
  rw [Part, hmode]
  exact ⟨noBlanks, rfl⟩

theorem exists_part {file : Bytes} (hreturn : 13 ∉ file)
    (hvalid : (run strict State.init file).mode ≠ .failed) :
    ∃ bodies part, (∀ body ∈ bodies, Body.Valid body) ∧ file = bodiesText bodies ++ part ∧
      Part (run strict State.init file) part := by
  induction file using List.reverseRecOn with
  | nil => exact ⟨[], [], fun body hb => absurd hb List.not_mem_nil, rfl, part_nil rfl⟩
  | append_singleton file c ih =>
    rw [run_concat] at hvalid ⊢
    have hbefore : (run strict State.init file).mode ≠ .failed := by
      intro hfailed
      apply hvalid
      rw [step, hfailed]
      exact hfailed
    obtain ⟨bodies, part, hbodies, hfile, hpart⟩ :=
      ih (fun hmem => hreturn (List.mem_append_left _ hmem)) hbefore
    have hc : c ≠ 13 := by
      rintro rfl
      exact hreturn (by simp)
    rcases goes_step hpart hc with hfailed | hnext | ⟨rfl, hmode, body, hbody, rfl⟩
    · exact absurd hfailed hvalid
    · exact ⟨bodies, part ++ [c], hbodies, by rw [hfile, List.append_assoc], hnext⟩
    · refine ⟨bodies ++ [body], [], ?_, ?_, part_nil hmode⟩
      · intro b hb
        rcases List.mem_append.mp hb with hb | hb
        · exact hbodies b hb
        · rw [List.mem_singleton.mp hb]
          exact hbody
      · rw [hfile, bodiesText_append, bodiesText_singleton, List.append_nil, List.append_assoc]

theorem PlainFile.exists_bodies {file : Bytes} (h : PlainFile file) :
    ∃ bodies, (∀ body ∈ bodies, Body.Valid body) ∧ file = bodiesText bodies := by
  have hvalid : (run strict State.init file).mode ≠ .failed := by
    rw [h.valid]
    exact Mode.noConfusion
  obtain ⟨bodies, part, hbodies, hfile, hpart⟩ := exists_part h.noReturn hvalid
  rw [Part, h.valid] at hpart
  obtain ⟨spaces, rfl⟩ := hpart
  refine ⟨bodies, hbodies, ?_⟩
  cases hspaces : spaces.val using List.reverseRecOn with
  | nil => rw [hfile, hspaces, List.append_nil]
  | append_singleton rest c =>
    have hc : c = 10 := by
      apply h.ended c
      rw [hfile, hspaces, ← List.append_assoc, List.getLast?_concat]
      rfl
    have hblank : isBlank c = true := spaces.property c (by rw [hspaces]; simp)
    rw [hc] at hblank
    cases hblank

end Accepted

end WslFreeBSD.Reference.ConfigFile
