import WslFreeBSD.Reference.ConfigEdits

/-!
# Removing a key from a configuration file

With `removeKey` the parser cuts its output back to the last line break when it has read a key and
its `=`, and it writes nothing of the value. Here is what is left of every line of a file without
`\r` and without invalid lines (`Body.left`), and that this is what the parser writes
(`removeKeyOutput_bodies`). What is left depends on the lines before: while the output has no line
break nothing can be cut, and `matchedKey` stays set until the next value, so that a comment behind a
header gets a line of its own.
-/

namespace WslFreeBSD.Reference.ConfigFile

open Lib Config

def removeOptions (skipInvalidLines : Bool) (k : ConfigKey) : Options :=
  ⟨skipInvalidLines, some k, true⟩

/-- The text that is written when a key is removed. -/
def removeKeyOutput (skipInvalidLines : Bool) (k : ConfigKey) (file : Bytes) : Bytes :=
  (parseConfigFile (removeOptions skipInvalidLines k) (some file)).configFileOutput

/-! ## Values as they are written -/

def Item.isHash : Item → Bool
  | .hash => true
  | _ => false

theorem placed_of_no_hash {items : List Item} (h : ∀ i ∈ items, i.isHash = false) (v : ValueState) :
    Placed v items := by
  induction items generalizing v with
  | nil => trivial
  | cons i items ih =>
    refine placed_cons.mpr ⟨?_, ih (fun j hj => h j (List.mem_cons_of_mem _ hj)) _⟩
    rintro rfl
    cases h .hash List.mem_cons_self

theorem isHash_head (items : Items) {i : Item} {rest : List Item} (h : items.list = i :: rest) :
    i.isHash = false := by
  have hplaced := items.placed
  rw [h] at hplaced
  cases i with
  | hash => cases (placed_cons.mp hplaced).1 rfl
  | _ => rfl

theorem noSpace_withoutHash (items : Items) :
    ∀ c ∈ ((items.list.filter (!·.isHash)).flatMap (·.text)).head?, isHSpace c = false := by
  intro c hc
  cases hlist : items.list with
  | nil =>
    rw [hlist] at hc
    cases hc
  | cons i rest =>
    have hkept : (i :: rest).filter (!·.isHash) = i :: rest.filter (!·.isHash) := by
      rw [List.filter_cons, isHash_head items hlist]
      rfl
    apply items.noSpace c
    rw [hlist, hkept, List.flatMap_cons, List.head?_append_of_ne_nil _ i.text_ne_nil] at hc
    rw [hlist, List.flatMap_cons, List.head?_append_of_ne_nil _ i.text_ne_nil]
    exact hc

theorem placed_withoutHash (items : Items) :
    Placed ValueState.init (items.list.filter (!·.isHash)) := by
  apply placed_of_no_hash
  intro i hi
  exact (Bool.not_eq_true' _).mp (List.mem_filter.mp hi).2

/-- The value without the `#`s between its quotes, which are not written. -/
def Items.withoutHash (items : Items) : Items where
  list := items.list.filter (!·.isHash)
  placed := placed_withoutHash items
  noSpace := noSpace_withoutHash items

theorem text_withoutHash (items : Items) :
    items.withoutHash.text = items.list.flatMap (·.written) := by
  change (items.list.filter (!·.isHash)).flatMap (·.text) = _
  induction items.list with
  | nil => rfl
  | cons i list ih =>
    cases i with
    | hash => exact ih
    | _ => exact congrArg _ ih

theorem inQuote_filter (items : List Item) {v w : ValueState} (h : v.inQuote = w.inQuote) :
    (readItems v (items.filter (!·.isHash))).inQuote = (readItems w items).inQuote := by
  induction items generalizing v w with
  | nil => exact h
  | cons i items ih =>
    cases i with
    | hash => exact ih h
    | char c =>
      apply ih
      unfold ValueState.read
      dsimp only
      split
      · exact h
      · exact h
    | quote => exact ih (congrArg Bool.not h)
    | escape c => exact ih h
    | unknown c => exact ih h

theorem inQuote_withoutHash (items : Items) :
    items.withoutHash.last.inQuote = items.last.inQuote := inQuote_filter items.list rfl

/-! ## What is left of a line -/

theorem noBlanks_blank : ∀ c ∈ ([] : Bytes), isBlank c = true :=
  fun _ hc => absurd hc List.not_mem_nil

def noBlanks : Blanks := ⟨[], noBlanks_blank⟩

theorem noItems_noSpace : ∀ c ∈ (([] : List Item).flatMap (·.text)).head?, isHSpace c = false := by
  intro c hc
  cases hc

def noItems : Items := ⟨[], trivial, noItems_noSpace⟩

/-- A comment behind something else gets a line of its own. -/
def remarkBodies : Option Rest → List Body
  | none => []
  | some text => [.comment noBlanks text]

/-- The key of the line in this section is `k`. -/
def ConfigKey.matchesIn (k : ConfigKey) (inSection key : Bytes) : Bool :=
  k.matchesName (cString (fullName inSection key) 0)

theorem closed_noItems {remark : Option Rest} :
    remark.isSome = true → noItems.last.inQuote = false := fun _ => rfl

theorem closed_withoutHash {items : Items} {remark : Option Rest}
    (closed : remark.isSome = true → items.last.inQuote = false) (h : remark.isSome = true) :
    items.withoutHash.last.inQuote = false := (inQuote_withoutHash items).trans (closed h)

/-- The lines that are left of a body. `first` says that nothing was written yet, `matched` is
`matchedKey`. -/
def Body.left (k : ConfigKey) (inSection : Bytes) (first matched : Bool) : Body → List Body
  | .header spaces name after remark =>
    if matched then .header spaces name after none :: remarkBodies remark
    else [.header spaces name after remark]
  | .keyValue spaces key before after items remark closed =>
    if k.matchesIn inSection key.val then
      (if first then [.keyValue spaces key before after noItems none closed_noItems] else []) ++
        remarkBodies remark
    else [.keyValue spaces key before after items.withoutHash remark (closed_withoutHash closed)]
  | body => [body]

/-- `matchedKey` behind the body. -/
def Body.nextMatched (k : ConfigKey) (inSection : Bytes) (matched : Bool) : Body → Bool
  | .keyValue _ key _ _ _ _ _ => k.matchesIn inSection key.val
  | _ => matched

def leftBodies (k : ConfigKey) (inSection : Bytes) (first matched : Bool) : List Body → List Body
  | [] => []
  | body :: bodies =>
    body.left k inSection first matched ++
      leftBodies k (body.nextSection inSection) false (body.nextMatched k inSection matched) bodies

/-- The text of lines that end with a line break. -/
def bodiesText (bodies : List Body) : Bytes := linesText (bodies.map Body.line)

theorem bodiesText_cons (body : Body) (bodies : List Body) :
    bodiesText (body :: bodies) = (body.text ++ [10]) ++ bodiesText bodies := rfl

theorem bodiesText_append (s t : List Body) : bodiesText (s ++ t) = bodiesText s ++ bodiesText t := by
  rw [bodiesText, List.map_append, linesText_append]
  rfl

theorem bodiesText_singleton (body : Body) : bodiesText [body] = body.text ++ [10] :=
  List.append_nil _

/-! ## Cutting the output -/

theorem dropLastLine_append (front : Bytes) {s : Bytes} (h : 10 ∉ s) :
    dropLastLine (front ++ ([10] ++ s)) = front := by
  have hdrop : (front ++ ([10] ++ s)).rdropWhile (· ≠ 10) = front ++ [10] := by
    induction s using List.reverseRecOn with
    | nil =>
      rw [List.append_nil]
      exact List.rdropWhile_concat_neg _ _ _ (by decide)
    | append_singleton s c ih =>
      have hc : c ≠ 10 := by
        rintro rfl
        exact h (by simp)
      rw [← List.append_assoc, ← List.append_assoc, List.rdropWhile_concat,
        if_pos (decide_eq_true hc), List.append_assoc]
      exact ih fun hmem => h (List.mem_append_left _ hmem)
  rw [dropLastLine, if_pos (by simp), hdrop, List.dropLast_concat]

def Cuttable (first : Bool) (output : Bytes) : Prop :=
  if first then output = [] else ∃ front, output = front ++ [10]

theorem Cuttable.dropLastLine {first : Bool} {output s : Bytes} (h : Cuttable first output)
    (hs : 10 ∉ s) :
    ConfigFile.dropLastLine (output ++ s) ++ [10] =
      output ++ (if first then s ++ [10] else []) := by
  cases first with
  | true =>
    have hnil : output = [] := h
    rw [hnil, List.nil_append, ConfigFile.dropLastLine, if_neg hs, if_pos rfl, List.nil_append]
  | false =>
    obtain ⟨front, rfl⟩ := h
    rw [List.append_assoc, dropLastLine_append front hs]
    exact (List.append_nil _).symm

theorem break_not_mem_valueFront (spaces : Blanks) (key : Word) (before after : Blanks) :
    10 ∉ valueFront spaces key before after := by
  intro h
  simp only [valueFront, frontText, List.mem_append, List.mem_singleton] at h
  rcases h with h | h | (h | h) | h
  · exact Blanks.ne h rfl rfl
  · exact key.not_mem rfl h
  · exact Blanks.ne h rfl rfl
  · cases h
  · exact Blanks.ne h rfl rfl

/-! ## Reading lines -/

section Removing

variable (skip : Bool) (k : ConfigKey) {st : State} {inSection output : Bytes} {matched : Bool}

/-- The part of the state that a line leaves behind for the next one. -/
structure Keeping (inSection : Bytes) (matched : Bool) (output : Bytes) (st : State) : Prop where
  length : st.sectionLength = inSection.length
  named : resize st.key st.sectionLength = inSection
  matched : st.matchedKey = matched
  output : st.configFileOutput = output

/-- In front of a line. -/
structure Removing (inSection : Bytes) (matched : Bool) (output : Bytes) (st : State) : Prop
    extends Keeping inSection matched output st where
  mode : st.mode = .lineStart
  noComment : st.trailingComment = false

theorem write_remove (s : Bytes) :
    st.write (removeOptions skip k) s = { st with configFileOutput := st.configFileOutput ++ s } :=
  write_eq _ st s

theorem endsQuietly_remove (st : State) : EndsQuietly (removeOptions skip k) st := by
  intro output
  have hkeep : (removeOptions skip k).removeKey = true := rfl
  have hkey : (removeOptions skip k).outputKey = some k := rfl
  rw [endSection, hkey]
  dsimp only
  rw [hkeep, Bool.not_true, Bool.and_false, Bool.false_and, Bool.false_and,
    if_neg Bool.false_ne_true]

theorem Keeping.read_break (h : Keeping inSection matched output st)
    (hcomment : st.trailingComment = false) :
    Removing inSection matched (output ++ [10]) (newLine (removeOptions skip k) st 10) := by
  have hnone : ¬ (st.trailingComment && st.matchedKey) = true := by
    rw [hcomment]
    exact Bool.false_ne_true
  rw [newLine, if_neg hnone, write_remove, if_neg (by decide)]
  exact ⟨⟨h.length, h.named, h.matched, by rw [h.output]⟩, rfl, hcomment⟩

/-- A comment up to the end of its line. A line break is written in front of it when it is behind
something else and the last key was removed. -/
theorem Keeping.read_comment (h : Keeping inSection matched output st) (text : Rest) :
    Removing inSection matched
      (output ++ ((if st.trailingComment && matched then [10] else []) ++
        ((35 :: text.val) ++ [10])))
      (run (removeOptions skip k) (newLine (removeOptions skip k) st 35) (text.val ++ [10])) := by
  have hextra : (if (st.trailingComment && matched) = true then
      st.write (removeOptions skip k) [10] else st) =
        { st with
          configFileOutput := output ++ (if st.trailingComment && matched then [10] else []) } := by
    rw [write_remove, h.output]
    split
    · rfl
    · rw [List.append_nil, ← h.output]
  have hstart : newLine (removeOptions skip k) st 35 =
      { st with
        mode := .comment
        configFileOutput :=
          output ++ ((if st.trailingComment && matched then [10] else []) ++ [35]) } := by
    have hsame : (st.trailingComment && st.matchedKey) = (st.trailingComment && matched) := by
      rw [h.matched]
    rw [newLine, hsame, hextra, write_remove, if_pos rfl]
    dsimp only
    rw [List.append_assoc]
  rw [hstart, run_append, copy_comment rfl, run_cons, run_nil, step_comment rfl, if_pos rfl,
    write_remove, endComment]
  dsimp only
  have houtput : output ++ ((if st.trailingComment && matched then [10] else []) ++ [35]) ++
      (removeOptions skip k).echo text.val ++ [10] =
        output ++ ((if st.trailingComment && matched then [10] else []) ++
          ((35 :: text.val) ++ [10])) := by
    simp [Options.echo, removeOptions, Options.updateConfigFile]
  by_cases hcomment : st.trailingComment = true
  · rw [if_pos hcomment]
    exact ⟨⟨h.length, h.named, h.matched, houtput⟩, rfl, rfl⟩
  · rw [if_neg hcomment]
    exact ⟨⟨h.length, h.named, h.matched, houtput⟩, rfl, Bool.eq_false_iff.mpr hcomment⟩

theorem Removing.spaces (h : Removing inSection matched output st) (spaces : Blanks) :
    Removing inSection matched (output ++ spaces.val)
      (run (removeOptions skip k) st spaces.val) := by
  rw [copy_spaces h.mode]
  exact ⟨⟨h.length, h.named, h.matched, congrArg (· ++ spaces.val) h.output⟩, h.mode, h.noComment⟩

/-- The key is read, up to the spaces behind its `=`. -/
theorem Removing.read_valueFront (h : Removing inSection matched output st) (spaces : Blanks)
    (key : Word) (before after : Blanks) :
    run (removeOptions skip k) st (valueFront spaces key before after) =
      { st with
        mode := .afterEquals
        key := fullName inSection key.val
        configFileOutput := output ++ valueFront spaces key before after } := by
  let mid : State := { st with configFileOutput := st.configFileOutput ++ spaces.val }
  have hmid : run (removeOptions skip k) st spaces.val = mid := copy_spaces h.mode spaces
  have hmode : mid.mode = .lineStart := h.mode
  have hnamed : resize mid.key mid.sectionLength = inSection := h.named
  have houtput : mid.configFileOutput ++ frontText key before after =
      output ++ valueFront spaces key before after := by
    change st.configFileOutput ++ spaces.val ++ frontText key before after = _
    rw [h.output, List.append_assoc]
    rfl
  rw [← houtput, valueFront, run_append, hmid, read_front hmode hnamed]
  rfl

def keyValueOutput (k : ConfigKey) (inSection output : Bytes) (key : Word) (front : Bytes)
    (items : Items) : Bytes :=
  if k.matchesIn inSection key.val then dropLastLine (output ++ front)
  else output ++ (front ++ items.withoutHash.text)

theorem Removing.read_keyValue (h : Removing inSection matched output st) (spaces : Blanks)
    (key : Word) (before after : Blanks) (items : Items)
    (hknown : ∀ i ∈ items.list, i.isUnknown = false) :
    ∃ value : State, enter (removeOptions skip k)
        (run (removeOptions skip k) st (valueFront spaces key before after ++ items.text)) = value ∧
      Keeping inSection (k.matchesIn inSection key.val)
        (keyValueOutput k inSection output key (valueFront spaces key before after) items) value ∧
      value.mode = .value ∧ value.inQuote = items.last.inQuote ∧ value.firstMatchedKey = false ∧
      value.trailingComment = false := by
  let front : State := { st with
    mode := .afterEquals
    key := fullName inSection key.val
    configFileOutput := output ++ valueFront spaces key before after }
  have hfront : run (removeOptions skip k) st (valueFront spaces key before after) = front :=
    h.read_valueFront skip k spaces key before after
  have hmode : front.mode = .afterEquals := rfl
  have hread := enter_items (o := removeOptions skip k) hmode items (Or.inr hknown)
  have hfirst : (startValue (removeOptions skip k) front).firstMatchedKey = false :=
    Bool.and_false _
  rw [run_append, hfront, hread]
  refine ⟨_, rfl, ⟨h.length, resize_fullName h.length.symm key.val, rfl, ?_⟩, rfl, rfl, hfirst,
    h.noComment⟩
  have houtput : (startValue (removeOptions skip k) front).configFileOutput =
      if k.matchesIn inSection key.val then
        dropLastLine (output ++ valueFront spaces key before after)
      else output ++ valueFront spaces key before after := rfl
  have hecho : (startValue (removeOptions skip k) front).valueEcho (removeOptions skip k)
      (items.list.flatMap (·.written)) =
        if k.matchesIn inSection key.val then [] else items.withoutHash.text := by
    rw [State.valueEcho, hfirst, text_withoutHash]
    rfl
  change (startValue (removeOptions skip k) front).configFileOutput ++ _ = _
  rw [houtput, hecho, keyValueOutput]
  split
  · rw [List.append_nil]
  · rw [List.append_assoc]

theorem Keeping.storeValue (h : Keeping inSection matched output st)
    (hfirst : st.firstMatchedKey = false) (b : Bool) :
    Keeping inSection matched output
      { storeValue (removeOptions skip k) st with trailingComment := b } := by
  rw [ConfigFile.storeValue, hfirst, if_neg Bool.false_ne_true]
  split
  · exact ⟨h.length, h.named, h.matched, h.output⟩
  · exact ⟨h.length, h.named, h.matched, h.output⟩

/-! ### One line -/

theorem Removing.read_blank (h : Removing inSection matched output st) (spaces : Blanks) :
    Removing inSection matched (output ++ (spaces.val ++ [10]))
      (run (removeOptions skip k) st (spaces.val ++ [10])) := by
  have hspaces := h.spaces skip k spaces
  rw [run_concat, step_lineStart hspaces.mode, atLineStart, if_neg (by decide), if_neg (by decide),
    if_pos (by decide), ← List.append_assoc]
  exact hspaces.read_break skip k hspaces.noComment

theorem Removing.read_commentLine (h : Removing inSection matched output st) (spaces : Blanks)
    (text : Rest) :
    Removing inSection matched (output ++ (spaces.val ++ ((35 :: text.val) ++ [10])))
      (run (removeOptions skip k) st (spaces.val ++ ((35 :: text.val) ++ [10]))) := by
  have hspaces := h.spaces skip k spaces
  have hcomment := hspaces.read_comment skip k text
  rw [hspaces.noComment, Bool.false_and, if_neg Bool.false_ne_true, List.nil_append,
    List.append_assoc] at hcomment
  rw [run_append, List.cons_append, run_cons, step_lineStart hspaces.mode, atLineStart,
    if_neg (by decide), if_neg (by decide), if_pos (by decide)]
  exact hcomment

/-- A header up to its `]` and the spaces there. -/
def headerFront (spaces : Blanks) (name : Word) (after : Blanks) : Bytes :=
  spaces.val ++ 91 :: (name.val ++ 93 :: after.val)

theorem Removing.read_headerFront (h : Removing inSection matched output st) (spaces : Blanks)
    (name : Word) (after : Blanks) :
    ∃ header : State,
      run (removeOptions skip k) st (headerFront spaces name after) = header ∧
      header.mode = .afterBracket ∧ header.trailingComment = false ∧
      ∀ b, Keeping name.val matched (output ++ headerFront spaces name after)
        { header with sectionLength := header.key.length, trailingComment := b } := by
  have hspaces := h.spaces skip k spaces
  have hnamed := resize_append (s := name.val) rfl []
  rw [List.append_nil] at hnamed
  rw [headerFront, run_append, read_brackets hspaces.mode (endsQuietly_remove skip k _)]
  refine ⟨_, rfl, rfl, hspaces.noComment, fun b => ⟨rfl, hnamed, hspaces.matched, ?_⟩⟩
  dsimp only
  rw [hspaces.output, List.append_assoc]
  rfl

theorem Removing.read_header (h : Removing inSection matched output st) (spaces : Blanks)
    (name : Word) (after : Blanks) :
    Removing name.val matched (output ++ (headerFront spaces name after ++ [10]))
      (run (removeOptions skip k) st (headerFront spaces name after ++ [10])) := by
  obtain ⟨header, hread, hmode, hcomment, hkeeping⟩ :=
    h.read_headerFront skip k spaces name after
  rw [run_concat, hread, step_afterBracket_break hmode (Or.inl rfl), ← List.append_assoc]
  exact (hkeeping header.trailingComment).read_break skip k hcomment

theorem Removing.read_headerRemark (h : Removing inSection matched output st) (spaces : Blanks)
    (name : Word) (after : Blanks) (text : Rest) :
    Removing name.val matched
      (output ++ (headerFront spaces name after ++
        ((if matched then [10] else []) ++ ((35 :: text.val) ++ [10]))))
      (run (removeOptions skip k) st
        (headerFront spaces name after ++ ((35 :: text.val) ++ [10]))) := by
  obtain ⟨header, hread, hmode, hcomment, hkeeping⟩ :=
    h.read_headerFront skip k spaces name after
  have hremark := (hkeeping true).read_comment skip k text
  rw [Bool.true_and, List.append_assoc] at hremark
  rw [run_append, hread, List.cons_append, run_cons, step_afterBracket_hash hmode]
  exact hremark

theorem Removing.read_line (h : Removing inSection matched output st) (spaces : Blanks) (key : Word)
    (before after : Blanks) (items : Items) (hknown : ∀ i ∈ items.list, i.isUnknown = false)
    (hquote : items.last.inQuote = false) :
    Removing inSection (k.matchesIn inSection key.val)
      (keyValueOutput k inSection output key (valueFront spaces key before after) items ++ [10])
      (run (removeOptions skip k) st
        ((valueFront spaces key before after ++ items.text) ++ [10])) := by
  obtain ⟨value, hread, hkeeping, hmode, hinQuote, hfirst, hcomment⟩ :=
    h.read_keyValue skip k spaces key before after items hknown
  rw [run_concat, step_enter (by rfl), hread, step_value_break hmode (hinQuote.trans hquote) (Or.inl rfl)]
  have hstored := hkeeping.storeValue skip k hfirst false
  have hsame : { ConfigFile.storeValue (removeOptions skip k) value with trailingComment := false } =
      ConfigFile.storeValue (removeOptions skip k) value := by
    rw [← storeValue_trailing, ← hcomment]
  rw [hsame] at hstored
  apply hstored.read_break skip k
  rw [← hsame]

theorem Removing.read_lineRemark (h : Removing inSection matched output st) (spaces : Blanks)
    (key : Word) (before after : Blanks) (items : Items)
    (hknown : ∀ i ∈ items.list, i.isUnknown = false) (hquote : items.last.inQuote = false)
    (text : Rest) :
    Removing inSection (k.matchesIn inSection key.val)
      (keyValueOutput k inSection output key (valueFront spaces key before after) items ++
        ((if k.matchesIn inSection key.val then [10] else []) ++ ((35 :: text.val) ++ [10])))
      (run (removeOptions skip k) st
        ((valueFront spaces key before after ++ items.text) ++ ((35 :: text.val) ++ [10]))) := by
  obtain ⟨value, hread, hkeeping, hmode, hinQuote, hfirst, hcomment⟩ :=
    h.read_keyValue skip k spaces key before after items hknown
  have hremark := (hkeeping.storeValue skip k hfirst true).read_comment skip k text
  rw [Bool.true_and] at hremark
  rw [run_append, List.cons_append, run_cons, step_enter (by rfl), hread,
    step_value_hash hmode (hinQuote.trans hquote)]
  exact hremark

theorem keyValueOutput_of_matches {first : Bool} (hcut : Cuttable first output) {key : Word}
    (hmatches : k.matchesIn inSection key.val = true) (spaces : Blanks) (before after : Blanks)
    (items : Items) :
    keyValueOutput k inSection output key (valueFront spaces key before after) items ++ [10] =
      output ++ bodiesText
        (if first then [.keyValue spaces key before after noItems none closed_noItems] else []) := by
  have hkey : (Body.keyValue spaces key before after noItems none closed_noItems).text =
      valueFront spaces key before after := by
    rw [text_keyValue]
    exact List.append_nil _
  rw [keyValueOutput, if_pos hmatches,
    hcut.dropLastLine (break_not_mem_valueFront spaces key before after)]
  cases first with
  | true => rw [if_pos rfl, if_pos rfl, bodiesText_singleton, hkey]
  | false => rfl

theorem text_header (spaces : Blanks) (name : Word) (after : Blanks) (remark : Option Rest) :
    (Body.header spaces name after remark).text =
      headerFront spaces name after ++ remarkText remark := by
  simp [Body.text, headerFront]

theorem remarkBodies_some (text : Rest) :
    bodiesText (remarkBodies (some text)) = (35 :: text.val) ++ [10] := bodiesText_singleton _

theorem Removing.read_headerBody (h : Removing inSection matched output st) {first : Bool}
    (spaces : Blanks) (name : Word) (after : Blanks) (remark : Option Rest) :
    Removing name.val matched
      (output ++ bodiesText ((Body.header spaces name after remark).left k inSection first matched))
      (run (removeOptions skip k) st ((Body.header spaces name after remark).text ++ [10])) := by
  have hnone : (Body.header spaces name after none).text = headerFront spaces name after := by
    rw [text_header, remarkText, List.append_nil]
  cases remark with
  | none =>
    have hleft : (Body.header spaces name after none).left k inSection first matched =
        [.header spaces name after none] := ite_self _
    rw [hleft, bodiesText_singleton, hnone]
    exact h.read_header skip k spaces name after
  | some text =>
    have hread := h.read_headerRemark skip k spaces name after text
    rw [Body.left, text_header, List.append_assoc]
    cases matched with
    | true =>
      rw [if_pos rfl, bodiesText_cons, hnone, remarkBodies_some, List.append_assoc]
      exact hread
    | false =>
      rw [if_neg Bool.false_ne_true, bodiesText_singleton, text_header, List.append_assoc]
      exact hread

theorem Removing.read_keyValueBody (h : Removing inSection matched output st) {first : Bool}
    (hcut : Cuttable first output) (spaces : Blanks) (key : Word) (before after : Blanks)
    (items : Items) (remark : Option Rest)
    (closed : remark.isSome = true → items.last.inQuote = false)
    (hvalid : (Body.keyValue spaces key before after items remark closed).Valid) :
    Removing inSection (k.matchesIn inSection key.val)
      (output ++ bodiesText
        ((Body.keyValue spaces key before after items remark closed).left k inSection first matched))
      (run (removeOptions skip k) st
        ((Body.keyValue spaces key before after items remark closed).text ++ [10])) := by
  obtain ⟨hquote, hknown⟩ := hvalid
  rw [text_keyValue, ← List.append_assoc, List.append_assoc, Body.left]
  cases hmatches : k.matchesIn inSection key.val with
  | true =>
    have hfront := keyValueOutput_of_matches k hcut hmatches spaces before after items
    rw [if_pos rfl, bodiesText_append, ← List.append_assoc, ← hfront, ← hmatches]
    cases remark with
    | none =>
      have hread := h.read_line skip k spaces key before after items hknown hquote
      have hnone : bodiesText (remarkBodies none) = [] := rfl
      rw [hnone, List.append_nil]
      exact hread
    | some text =>
      have hread := h.read_lineRemark skip k spaces key before after items hknown hquote text
      rw [if_pos hmatches, ← List.append_assoc] at hread
      rw [remarkBodies_some]
      exact hread
  | false =>
    have houtput : keyValueOutput k inSection output key (valueFront spaces key before after) items =
        output ++ (valueFront spaces key before after ++ items.withoutHash.text) := by
      rw [keyValueOutput, hmatches, if_neg Bool.false_ne_true]
    rw [if_neg Bool.false_ne_true, bodiesText_singleton, text_keyValue, ← hmatches]
    cases remark with
    | none =>
      have hread := h.read_line skip k spaces key before after items hknown hquote
      rw [houtput, List.append_assoc] at hread
      rw [remarkText, List.append_nil]
      exact hread
    | some text =>
      have hread := h.read_lineRemark skip k spaces key before after items hknown hquote text
      rw [houtput, hmatches, if_neg Bool.false_ne_true, List.nil_append, List.append_assoc,
        List.append_assoc] at hread
      rw [hmatches, List.append_assoc (valueFront _ _ _ _), List.append_assoc items.withoutHash.text]
      exact hread

theorem Removing.read_body (h : Removing inSection matched output st) {first : Bool}
    (hcut : Cuttable first output) (body : Body) (hvalid : body.Valid) :
    Removing (body.nextSection inSection) (body.nextMatched k inSection matched)
      (output ++ bodiesText (body.left k inSection first matched))
      (run (removeOptions skip k) st (body.text ++ [10])) := by
  cases body with
  | blank spaces =>
    have hleft : (Body.blank spaces).left k inSection first matched = [.blank spaces] := rfl
    rw [hleft, bodiesText_singleton]
    exact h.read_blank skip k spaces
  | comment spaces text =>
    have hleft : (Body.comment spaces text).left k inSection first matched =
        [.comment spaces text] := rfl
    have htext : (Body.comment spaces text).text ++ [10] =
        spaces.val ++ ((35 :: text.val) ++ [10]) := List.append_assoc _ _ _
    rw [hleft, bodiesText_singleton, htext]
    exact h.read_commentLine skip k spaces text
  | header spaces name after remark => exact h.read_headerBody skip k spaces name after remark
  | keyValue spaces key before after items remark closed =>
    exact h.read_keyValueBody skip k hcut spaces key before after items remark closed hvalid
  | malformed spaces front c rest => exact hvalid.elim
  | badEscape spaces key before after items c rest => exact hvalid.elim

/-! ### A whole file -/

theorem exists_bodiesText {bodies : List Body} (h : bodies ≠ []) :
    ∃ front, bodiesText bodies = front ++ [10] := by
  obtain ⟨init, body, rfl⟩ := (List.eq_nil_or_concat' bodies).resolve_left h
  refine ⟨bodiesText init ++ body.text, ?_⟩
  rw [bodiesText_append, bodiesText_singleton, List.append_assoc]

theorem left_first_ne_nil (body : Body) : body.left k inSection true matched ≠ [] := by
  cases body with
  | header spaces name after remark =>
    rw [Body.left]
    split
    · exact List.cons_ne_nil _ _
    · exact List.cons_ne_nil _ _
  | keyValue spaces key before after items remark closed =>
    rw [Body.left]
    split
    · exact List.cons_ne_nil _ _
    · exact List.cons_ne_nil _ _
  | _ => exact List.cons_ne_nil _ _

theorem Cuttable.left {first : Bool} (h : Cuttable first output) (body : Body) :
    Cuttable false (output ++ bodiesText (body.left k inSection first matched)) := by
  by_cases hnil : body.left k inSection first matched = []
  · cases first with
    | true => exact absurd hnil (left_first_ne_nil k body)
    | false =>
      rw [hnil]
      change Cuttable false (output ++ [])
      rw [List.append_nil]
      exact h
  · obtain ⟨front, hfront⟩ := exists_bodiesText hnil
    exact ⟨output ++ front, by rw [hfront, List.append_assoc]⟩

theorem Removing.read_bodies (h : Removing inSection matched output st) {first : Bool}
    (hcut : Cuttable first output) {bodies : List Body} (hvalid : ∀ body ∈ bodies, body.Valid) :
    ∃ inSection' matched', Removing inSection' matched'
      (output ++ bodiesText (leftBodies k inSection first matched bodies))
      (run (removeOptions skip k) st (bodiesText bodies)) := by
  induction bodies generalizing st inSection matched output first with
  | nil =>
    refine ⟨inSection, matched, ?_⟩
    change Removing inSection matched (output ++ []) st
    rw [List.append_nil]
    exact h
  | cons body bodies ih =>
    have hbody := h.read_body skip k hcut body (hvalid body List.mem_cons_self)
    obtain ⟨inSection', matched', hrest⟩ :=
      ih hbody (hcut.left k body) fun b hb => hvalid b (List.mem_cons_of_mem _ hb)
    refine ⟨inSection', matched', ?_⟩
    rw [bodiesText_cons, run_append, leftBodies, bodiesText_append, ← List.append_assoc]
    exact hrest

theorem removing_init : Removing [] false [] State.init := ⟨⟨rfl, rfl, rfl, rfl⟩, rfl, rfl⟩

theorem removeKeyOutput_bodies {bodies : List Body} (hvalid : ∀ body ∈ bodies, body.Valid) :
    removeKeyOutput skip k (bodiesText bodies) = bodiesText (leftBodies k [] true false bodies) := by
  have hcut : Cuttable true [] := rfl
  obtain ⟨inSection, matched, hread⟩ := removing_init.read_bodies skip k hcut hvalid
  have hkey : (removeOptions skip k).outputKey = some k := rfl
  have hkeep : (removeOptions skip k).removeKey = true := rfl
  rw [removeKeyOutput, parseConfigFile, finish, hread.mode]
  dsimp only
  rw [endOfFile, hkey]
  dsimp only
  rw [hkeep, Bool.not_true, Bool.and_false, if_neg Bool.false_ne_true]
  exact hread.output

end Removing

end WslFreeBSD.Reference.ConfigFile
