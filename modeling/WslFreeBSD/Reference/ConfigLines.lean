import WslFreeBSD.Reference.ConfigParts

/-!
# Lines of a configuration file

With or without an output, the parser reads a line from its start to the start of the next one, and
in update mode its characters are written as they are (`At.ends_body`, `Ends.line`); the end of the
file leaves the same behind as a line break (`Ends`). This asks that a value is not replaced, and
that no `#` stands between its quotes, which would not be written.

Reading a file makes the calls of `SetConfig` that its lines stand for (`setCalls_configText`).
-/

namespace WslFreeBSD.Reference.ConfigFile

open Lib Config

section Lines

variable {o : Options} {st : State}

/-! ## The end of a line -/

variable {inSection : Bytes} {calls : List (Bytes × Bytes)} {output : Bytes} {updated : Bool}
  {place : Nat}

/-- A body has been read: a line break and the end of the file leave the same behind. -/
structure Ends (o : Options) (inSection : Bytes) (calls : List (Bytes × Bytes)) (output : Bytes)
    (updated : Bool) (place : Nat) (st : State) : Prop where
  atEnd : ∃ last, AtEnd inSection calls output updated last ∧ finish o st = endOfFile o [10] last
  atBreak : At o inSection calls (output ++ o.echo [10]) updated place (step o st 10)

/-- The same with a `\r` in front of the line break. -/
def EndsReturn (o : Options) (inSection : Bytes) (calls : List (Bytes × Bytes)) (output : Bytes)
    (updated : Bool) (place : Nat) (st : State) : Prop :=
  At o inSection calls (output ++ o.echo [13, 10]) updated place (run o st [13, 10])

theorem newLine_copies (hmatched : st.matchedKey = false) (ch : UInt8) :
    newLine o st ch =
      { st with
        mode := if ch = 35 then .comment else .lineStart
        configFileOutput := st.configFileOutput ++ o.echo [ch] } := by
  have hnone : ¬ (st.trailingComment && st.matchedKey) = true := by
    rw [hmatched, Bool.and_false]
    exact Bool.false_ne_true
  rw [newLine, if_neg hnone, write_eq]

theorem AtEnd.newLine (h : AtEnd inSection calls output updated st)
    (hcomment : st.trailingComment = false) (hmatched : st.matchedKey = false)
    (hplace : o.updateConfigFile = true → st.newKeyValueInsertPos = place) {ch : UInt8}
    (hch : ch ≠ 35) :
    At o inSection calls (output ++ o.echo [ch]) updated place (newLine o st ch) := by
  rw [newLine_copies hmatched, if_neg hch]
  exact ⟨rfl, hcomment, hmatched, h.length, h.named, h.calls, by rw [h.output], h.updated, hplace⟩

theorem At.step_break (h : At o inSection calls output updated place st) :
    At o inSection calls (output ++ o.echo [10]) updated place (step o st 10) := by
  have hend : AtEnd inSection calls output updated st :=
    ⟨h.length, h.named, h.calls, h.output, h.updated⟩
  rw [step_lineStart h.mode, atLineStart, if_neg (by decide), if_neg (by decide), if_pos (by decide)]
  exact hend.newLine h.noComment h.unmatched h.place (by decide)

/-- When a `\r` ends a line like a line break does. -/
theorem endsReturn_of_step (h : At o inSection calls (output ++ o.echo [13]) updated place (step o st 13)) :
    EndsReturn o inSection calls output updated place st := by
  have hbreak := h.step_break
  rw [List.append_assoc, ← echo_append] at hbreak
  exact hbreak

theorem ends_lineStart (h : AtEnd inSection calls output updated st) (hmode : st.mode = .lineStart)
    (hcomment : st.trailingComment = false) (hmatched : st.matchedKey = false)
    (hplace : o.updateConfigFile = true → st.newKeyValueInsertPos = place) :
    Ends o inSection calls output updated place st := by
  refine ⟨⟨st, h, by rw [finish, hmode]⟩, ?_⟩
  rw [step_lineStart hmode, atLineStart, if_neg (by decide), if_neg (by decide), if_pos (by decide)]
  exact h.newLine hcomment hmatched hplace (by decide)

theorem ends_invalid (h : AtEnd inSection calls output updated st) (hmode : st.mode = .invalid)
    (hcomment : st.trailingComment = false) (hmatched : st.matchedKey = false)
    (hplace : o.updateConfigFile = true → st.newKeyValueInsertPos = place) :
    Ends o inSection calls output updated place st := by
  refine ⟨⟨st, h, by rw [finish, hmode]⟩, ?_⟩
  rw [step_invalid hmode, atInvalid, if_pos rfl]
  exact h.newLine hcomment hmatched hplace (by decide)

theorem ends_comment (h : AtEnd inSection calls output updated st) (hmode : st.mode = .comment)
    (hcomment : st.trailingComment = false) (hmatched : st.matchedKey = false)
    (hplace : o.updateConfigFile = true → st.newKeyValueInsertPos = place) :
    Ends o inSection calls output updated place st := by
  refine ⟨⟨endComment st, ?_, by rw [finish, hmode]⟩, ?_⟩
  · rw [endComment, if_neg (by rw [hcomment]; decide)]
    exact ⟨h.length, h.named, h.calls, h.output, h.updated⟩
  · rw [step_comment hmode, if_pos rfl, write_eq, endComment, if_neg (by rw [hcomment]; decide)]
    exact ⟨rfl, hcomment, hmatched, h.length, h.named, h.calls, by rw [h.output], h.updated, hplace⟩

theorem ends_remark (h : AtEnd inSection calls output updated st) (hmode : st.mode = .comment)
    (hcomment : st.trailingComment = true) (hmatched : st.matchedKey = false) :
    Ends o inSection calls output updated output.length st := by
  refine ⟨⟨endComment st, ?_, by rw [finish, hmode]⟩, ?_⟩
  · rw [endComment, if_pos hcomment]
    exact ⟨h.length, h.named, h.calls, h.output, h.updated⟩
  · rw [step_comment hmode, if_pos rfl, write_eq, endComment, if_pos hcomment]
    refine ⟨rfl, rfl, hmatched, h.length, h.named, h.calls, by rw [h.output], h.updated, ?_⟩
    intro hupdate
    change (st.configFileOutput ++ o.echo [10]).length - 1 = output.length
    rw [h.output, Options.echo, if_pos hupdate, List.length_append]
    rfl

theorem storeValue_trailing (b : Bool) :
    storeValue o { st with trailingComment := b } =
      { storeValue o st with trailingComment := b } := by
  unfold storeValue State.write
  dsimp only
  split
  · split
    · rfl
    · rfl
  · split
    · rfl
    · rfl

theorem step_afterBracket_break (hmode : st.mode = .afterBracket) {c : UInt8} (hc : c = 10 ∨ c = 13) :
    step o st c = newLine o { st with sectionLength := st.key.length } c := by
  have hspace : ¬ isHSpace c = true := by
    rcases hc with rfl | rfl <;> decide
  rw [step_afterBracket hmode, atAfterBracket, if_neg hspace, if_pos hc]

theorem step_afterBracket_hash (hmode : st.mode = .afterBracket) :
    step o st 35 =
      newLine o { st with sectionLength := st.key.length, trailingComment := true } 35 := by
  rw [step_afterBracket hmode, atAfterBracket, if_neg (by decide), if_neg (by decide), if_pos rfl]

theorem step_value_break (hmode : st.mode = .value) (hquote : st.inQuote = false) {c : UInt8}
    (hc : c = 10 ∨ c = 13) : step o st c = newLine o (storeValue o st) c := by
  have hclosed : ¬ (st.inQuote && (!st.firstMatchedKey || !st.matchedKey)) = true := by
    rw [hquote]
    exact Bool.false_ne_true
  rw [step_value hmode, atValue, if_pos hc, valueDone, if_neg hclosed]

theorem step_value_hash (hmode : st.mode = .value) (hquote : st.inQuote = false) :
    step o st 35 = newLine o { storeValue o st with trailingComment := true } 35 := by
  have hclosed : ¬ (st.inQuote && (!st.firstMatchedKey || !st.matchedKey)) = true := by
    rw [hquote]
    exact Bool.false_ne_true
  have houtside : (35 : UInt8) = 35 ∧ (!st.inQuote) = true := ⟨rfl, by rw [hquote]; rfl⟩
  rw [step_value hmode, atValue, if_neg (by decide), if_pos houtside, valueDone, if_neg hclosed,
    storeValue_trailing]

theorem ends_afterBracket (h : AtEnd inSection calls output updated { st with sectionLength := st.key.length })
    (hmode : st.mode = .afterBracket) (hcomment : st.trailingComment = false)
    (hmatched : st.matchedKey = false)
    (hplace : o.updateConfigFile = true → st.newKeyValueInsertPos = place) :
    Ends o inSection calls output updated place st ∧
      EndsReturn o inSection calls output updated place st := by
  refine ⟨⟨⟨_, h, by rw [finish, hmode]⟩, ?_⟩, endsReturn_of_step ?_⟩
  · rw [step_afterBracket_break hmode (Or.inl rfl)]
    exact h.newLine hcomment hmatched hplace (by decide)
  · rw [step_afterBracket_break hmode (Or.inr rfl)]
    exact h.newLine hcomment hmatched hplace (by decide)

theorem ends_value (h : AtEnd inSection calls output updated (storeValue o st))
    (hmode : st.mode = .value) (hquote : st.inQuote = false)
    (hcomment : (storeValue o st).trailingComment = false)
    (hmatched : (storeValue o st).matchedKey = false)
    (hplace : o.updateConfigFile = true → (storeValue o st).newKeyValueInsertPos = place) :
    Ends o inSection calls output updated place st ∧
      EndsReturn o inSection calls output updated place st := by
  have hclosed : ¬ (st.inQuote && (!st.firstMatchedKey || !st.matchedKey)) = true := by
    rw [hquote, Bool.false_and]
    decide
  refine ⟨⟨⟨_, h, ?_⟩, ?_⟩, endsReturn_of_step ?_⟩
  · rw [finish, hmode]
    dsimp only
    rw [valueEnd, if_neg hclosed]
  · rw [step_value_break hmode hquote (Or.inl rfl)]
    exact h.newLine hcomment hmatched hplace (by decide)
  · rw [step_value_break hmode hquote (Or.inr rfl)]
    exact h.newLine hcomment hmatched hplace (by decide)

theorem ends_valueRemark (h : AtEnd inSection calls output updated (storeValue o st))
    (hmode : st.mode = .value) (hquote : st.inQuote = false)
    (hmatched : (storeValue o st).matchedKey = false) (text : Rest) :
    Ends o inSection calls (output ++ o.echo (35 :: text.val)) updated
      (output ++ o.echo (35 :: text.val)).length (run o st (35 :: text.val)) := by
  have hhash : step o st 35 =
      { storeValue o st with
        mode := .comment
        trailingComment := true
        configFileOutput := (storeValue o st).configFileOutput ++ o.echo [35] } := by
    rw [step_value_hash hmode hquote, newLine_copies (by exact hmatched), if_pos rfl]
  rw [run_cons, hhash, copy_comment rfl]
  refine ends_remark ⟨h.length, h.named, h.calls, ?_, h.updated⟩ rfl rfl hmatched
  dsimp only
  rw [h.output, echo_cons o 35 text.val, List.append_assoc]

theorem ends_openQuote (hskip : o.skipInvalidLines = true)
    (h : AtEnd inSection calls output updated st) (hmode : st.mode = .value)
    (hquote : st.inQuote = true) (hcomment : st.trailingComment = false)
    (hmatched : st.matchedKey = false)
    (hplace : o.updateConfigFile = true → st.newKeyValueInsertPos = place) :
    Ends o inSection calls output updated place st := by
  have hopen : (st.inQuote && (!st.firstMatchedKey || !st.matchedKey)) = true := by
    rw [hquote, hmatched]
    simp
  refine ⟨⟨st, h, ?_⟩, ?_⟩
  · rw [finish, hmode]
    dsimp only
    rw [valueEnd, if_pos hopen, invalidEnd, if_pos hskip]
  · rw [step_value hmode, atValue, if_pos (by decide), valueDone, if_pos hopen, invalidLine, hskip,
      if_neg (by decide), if_pos rfl]
    exact h.newLine hcomment hmatched hplace (by decide)

/-! ## Bodies without a value -/

theorem At.atEnd (h : At o inSection calls output updated place st) :
    AtEnd inSection calls output updated st := ⟨h.length, h.named, h.calls, h.output, h.updated⟩

theorem At.spaces (h : At o inSection calls output updated place st) (spaces : Blanks) :
    At o inSection calls (output ++ o.echo spaces.val) updated place (run o st spaces.val) := by
  rw [copy_spaces h.mode]
  exact ⟨h.mode, h.noComment, h.unmatched, h.length, h.named, h.calls, by rw [h.output], h.updated,
    h.place⟩

theorem At.ends_blank (h : At o inSection calls output updated place st) :
    Ends o inSection calls output updated place st :=
  ends_lineStart h.atEnd h.mode h.noComment h.unmatched h.place

theorem At.ends_comment (h : At o inSection calls output updated place st) (text : Rest) :
    Ends o inSection calls (output ++ o.echo (35 :: text.val)) updated place
      (run o st (35 :: text.val)) := by
  have hhash : step o st 35 =
      { st with mode := .comment, configFileOutput := st.configFileOutput ++ o.echo [35] } := by
    rw [step_lineStart h.mode, atLineStart, if_neg (by decide), if_neg (by decide),
      if_pos (by decide), newLine_copies h.unmatched, if_pos rfl]
  rw [run_cons, hhash, copy_comment rfl]
  refine ConfigFile.ends_comment ⟨h.length, h.named, h.calls, ?_, h.updated⟩ rfl h.noComment
    h.unmatched h.place
  dsimp only
  rw [h.output, List.append_assoc, ← echo_append]
  rfl

theorem ends_malformed (hskip : o.skipInvalidLines = true) {c : UInt8} (hc : c ≠ 10) (rest : Rest)
    (hstep : step o st c = malformed o st c) (h : AtEnd inSection calls output updated st)
    (hcomment : st.trailingComment = false) (hmatched : st.matchedKey = false)
    (hplace : o.updateConfigFile = true → st.newKeyValueInsertPos = place) :
    Ends o inSection calls (output ++ o.echo (c :: rest.val)) updated place
      (run o st (c :: rest.val)) := by
  have hinvalid : malformed o st c =
      { st with mode := .invalid, configFileOutput := st.configFileOutput ++ o.echo [c] } := by
    have hzero : (if o.updateConfigFile then 0 else c) ≠ 10 := by
      split
      · decide
      · exact hc
    rw [malformed, invalidLine, hskip, if_neg (by decide), if_neg hzero, write_eq]
  rw [run_cons, hstep, hinvalid, copy_invalid rfl (skipped_rest o rest)]
  refine ends_invalid ⟨h.length, h.named, h.calls, ?_, h.updated⟩ rfl hcomment hmatched hplace
  dsimp only
  rw [h.output, List.append_assoc, ← echo_append]
  rfl

def EndsQuietly (o : Options) (st : State) : Prop :=
  ∀ output, endSection o { st with configFileOutput := output } =
    { st with configFileOutput := output }

theorem read_bracket (hmode : st.mode = .lineStart) (hquiet : EndsQuietly o st) :
    step o st 91 =
      { st with
        mode := .sectionStart
        configFileOutput := st.configFileOutput ++ o.echo [91] } := by
  have hnothing : endSection o st = st := hquiet st.configFileOutput
  rw [step_lineStart hmode, atLineStart, if_neg (by decide), if_neg (by decide), if_neg (by decide),
    if_pos rfl, hnothing, write_eq]

theorem read_header (hmode : st.mode = .lineStart) (hquiet : EndsQuietly o st) (name : Word) :
    run o st (91 :: name.val) =
      { st with
        mode := .sectionName
        key := name.val
        configFileOutput := st.configFileOutput ++ o.echo (91 :: name.val) } := by
  obtain ⟨w, halpha, halnum⟩ := name
  cases w with
  | nil => cases halpha
  | cons c w =>
    have hletter : isAlpha c = true := halpha
    have hfirst : ∀ output, step o
        { st with mode := .sectionStart, configFileOutput := output } c =
          { st with
            mode := .sectionName
            key := [c]
            configFileOutput := output ++ o.echo [c] } := by
      intro output
      rw [step_sectionStart rfl, atSectionStart, if_neg (by rw [hletter]; decide), write_eq]
    rw [run_cons, read_bracket hmode hquiet, run_cons, hfirst,
      read_sectionName rfl fun d hd => halnum d (List.mem_cons_of_mem _ hd)]
    dsimp only
    rw [List.append_assoc, List.append_assoc, ← echo_append, ← echo_append]
    rfl

theorem read_closeBracket (hmode : st.mode = .sectionName) :
    step o st 93 =
      { st with
        mode := .afterBracket
        configFileOutput := st.configFileOutput ++ o.echo [93] } := by
  rw [step_sectionName hmode, atSectionName, if_neg (by decide), if_neg (by decide), write_eq]

theorem read_brackets (hmode : st.mode = .lineStart) (hquiet : EndsQuietly o st) (name : Word)
    (after : Blanks) :
    run o st (91 :: (name.val ++ 93 :: after.val)) =
      { st with
        mode := .afterBracket
        key := name.val
        configFileOutput :=
          st.configFileOutput ++ o.echo (91 :: (name.val ++ 93 :: after.val)) } := by
  have hsplit : 91 :: (name.val ++ 93 :: after.val) = (91 :: name.val) ++ ([93] ++ after.val) := rfl
  rw [hsplit, run_append, read_header hmode hquiet, run_append, run_cons, run_nil,
    read_closeBracket rfl, copy_afterBracket rfl]
  dsimp only
  rw [echo_append, echo_append, List.append_assoc, List.append_assoc]

theorem At.ends_header (h : At o inSection calls output updated place st)
    (hquiet : EndsQuietly o st) (name : Word) (after : Blanks) :
    Ends o name.val calls (output ++ o.echo (91 :: (name.val ++ 93 :: after.val))) updated place
        (run o st (91 :: (name.val ++ 93 :: after.val))) ∧
      EndsReturn o name.val calls (output ++ o.echo (91 :: (name.val ++ 93 :: after.val))) updated
        place (run o st (91 :: (name.val ++ 93 :: after.val))) := by
  rw [read_brackets h.mode hquiet]
  refine ends_afterBracket ⟨rfl, ?_, h.calls, by rw [h.output], h.updated⟩ rfl h.noComment
    h.unmatched h.place
  have happend := resize_append (s := name.val) rfl []
  rwa [List.append_nil] at happend

theorem At.ends_headerRemark (h : At o inSection calls output updated place st)
    (hquiet : EndsQuietly o st) (name : Word) (after : Blanks) (text : Rest) :
    Ends o name.val calls
      (output ++ o.echo (91 :: (name.val ++ 93 :: (after.val ++ 35 :: text.val)))) updated
      (output ++ o.echo (91 :: (name.val ++ 93 :: (after.val ++ 35 :: text.val)))).length
      (run o st (91 :: (name.val ++ 93 :: (after.val ++ 35 :: text.val)))) := by
  have hsplit : 91 :: (name.val ++ 93 :: (after.val ++ 35 :: text.val)) =
      (91 :: (name.val ++ 93 :: after.val)) ++ 35 :: text.val := by simp
  have hhash : ∀ output, step o
      { st with mode := .afterBracket, key := name.val, configFileOutput := output } 35 =
        { st with
          mode := .comment
          key := name.val
          sectionLength := name.val.length
          trailingComment := true
          configFileOutput := output ++ o.echo [35] } := by
    intro output
    rw [step_afterBracket_hash rfl, newLine_copies (by exact h.unmatched), if_pos rfl]
  rw [hsplit, run_append, read_brackets h.mode hquiet, run_cons, hhash, copy_comment rfl]
  refine ends_remark ⟨rfl, ?_, h.calls, ?_, h.updated⟩ rfl rfl h.unmatched
  · have happend := resize_append (s := name.val) rfl []
    rwa [List.append_nil] at happend
  · dsimp only
    rw [h.output, List.append_assoc, List.append_assoc, ← echo_append, ← echo_append]
    rfl

/-! ## Bodies with a value -/

/-- The value starts, if it has not started yet. -/
def enter (o : Options) (st : State) : State :=
  if st.mode = .afterEquals then startValue o st else st

theorem step_enter {c : UInt8} (hc : isHSpace c = false) : step o st c = step o (enter o st) c := by
  unfold enter
  split
  · next hmode =>
    have hvalue : (startValue o st).mode = .value := rfl
    rw [step_afterEquals hmode, atAfterEquals, if_neg (by rw [hc]; decide), step_value hvalue]
  · rfl

theorem finish_enter : finish o st = finish o (enter o st) := by
  unfold enter
  split
  · next hmode =>
    have hvalue : (startValue o st).mode = .value := rfl
    rw [finish, hmode, finish, hvalue]
  · rfl

theorem ends_of_enter (h : Ends o inSection calls output updated place (enter o st)) :
    Ends o inSection calls output updated place st := by
  refine ⟨?_, ?_⟩
  · rw [finish_enter]
    exact h.atEnd
  · rw [step_enter (by rfl)]
    exact h.atBreak

theorem endsReturn_of_enter (h : EndsReturn o inSection calls output updated place (enter o st)) :
    EndsReturn o inSection calls output updated place st := by
  rw [EndsReturn, run_cons, step_enter (by rfl)]
  exact h

theorem startValue_eq (hkeep : o.removeKey = false) :
    startValue o st =
      { st with
        mode := .value
        firstMatchedKey := !st.outputKeyValueUpdated && o.sets (cString st.key 0)
        matchedKey := false
        value := []
        trimmedLength := 0
        inQuote := false } := by
  rw [startValue, Options.removes, hkeep, Bool.false_and, if_neg Bool.false_ne_true]

theorem Item.text_ne_nil (i : Item) : i.text ≠ [] := by
  cases i <;> exact List.cons_ne_nil _ _

theorem enter_items (hmode : st.mode = .afterEquals) (items : Items)
    (hknown : (startValue o st).firstMatchedKey = true ∨
      ∀ i ∈ items.list, i.isUnknown = false) :
    enter o (run o st items.text) =
      { (startValue o st).setValue items.last with
        configFileOutput := (startValue o st).configFileOutput ++
          (startValue o st).valueEcho o (items.list.flatMap (·.written)) } := by
  have hvalue : (startValue o st).mode = .value := rfl
  have hread := read_items (o := o) hvalue items.placed hknown
  cases htext : items.text with
  | nil =>
    have hnil : items.list = [] := by
      cases hlist : items.list with
      | nil => rfl
      | cons i rest =>
        rw [Items.text, hlist, List.flatMap_cons] at htext
        exact absurd (List.append_eq_nil_iff.mp htext).1 i.text_ne_nil
    rw [hnil, List.flatMap_nil, run_nil] at hread
    rw [run_nil, enter, if_pos hmode, Items.last, hnil]
    exact hread
  | cons c rest =>
    have hspace : isHSpace c = false := by
      apply items.noSpace c
      have htext' : items.list.flatMap (·.text) = c :: rest := htext
      rw [htext']
      rfl
    have hsame : run o st (c :: rest) = run o (startValue o st) (items.list.flatMap (·.text)) := by
      have htext' : items.list.flatMap (·.text) = c :: rest := htext
      rw [htext', run_cons, step_enter hspace, enter, if_pos hmode, run_cons]
    rw [hsame, hread, enter, if_neg (by exact Mode.noConfusion)]
    rfl

theorem read_value (hkeep : o.removeKey = false) (hmode : st.mode = .afterEquals) (items : Items)
    (hknown : (startValue o st).firstMatchedKey = true ∨
      ∀ i ∈ items.list, i.isUnknown = false) :
    enter o (run o st items.text) =
      { (startValue o st).setValue items.last with
        configFileOutput := st.configFileOutput ++
          (startValue o st).valueEcho o (items.list.flatMap (·.written)) } := by
  have houtput : (startValue o st).configFileOutput = st.configFileOutput := by
    rw [startValue_eq hkeep]
  rw [enter_items hmode items hknown, houtput]

/-- A key, the `=` and the spaces around it. -/
def frontText (key : Word) (before after : Blanks) : Bytes :=
  key.val ++ ((before.val ++ [61]) ++ after.val)

theorem read_front (hmode : st.mode = .lineStart) (hnamed : resize st.key st.sectionLength = inSection)
    (key : Word) (before after : Blanks) :
    run o st (frontText key before after) =
      { st with
        mode := .afterEquals
        key := fullName inSection key.val
        configFileOutput := st.configFileOutput ++ o.echo (frontText key before after) } := by
  rw [frontText, run_append, read_name hmode hnamed, run_append, read_equals rfl,
    copy_afterEquals rfl]
  dsimp only
  rw [List.append_assoc, List.append_assoc, ← echo_append, ← echo_append]

def Unmatched (o : Options) (inSection : Bytes) (updated : Bool) (key : Bytes) : Prop :=
  (!updated && o.sets (cString (fullName inSection key) 0)) = false

/-- The state in which the value of a key has been read that is not replaced. -/
def valueRead (st : State) (name : Bytes) (items : Items) (output : Bytes) : State :=
  { st with
    mode := .value
    key := name
    configFileOutput := output
    firstMatchedKey := false
    matchedKey := false
    value := items.last.value
    trimmedLength := items.last.trimmedLength
    inQuote := items.last.inQuote }

theorem written_of_plain {items : List Item} (h : ∀ i ∈ items, i.Plain) :
    items.flatMap (·.written) = items.flatMap (·.text) := by
  induction items with
  | nil => rfl
  | cons i items ih =>
    have hi : i.written = i.text := by
      cases i with
      | hash => exact absurd (h .hash List.mem_cons_self) id
      | _ => rfl
    rw [List.flatMap_cons, List.flatMap_cons, hi, ih fun j hj => h j (List.mem_cons_of_mem _ hj)]

theorem isUnknown_of_plain {i : Item} (h : i.Plain) : i.isUnknown = false := by
  cases i with
  | unknown c => exact absurd h id
  | _ => rfl

/-- What is written of the items. Reading a file writes nothing. -/
def CopiedItems (o : Options) (items : Items) : Prop :=
  o.echo (items.list.flatMap (·.written)) = o.echo items.text ∧
    ∀ i ∈ items.list, i.isUnknown = false

theorem copiedItems_of_plain {items : Items} (h : ∀ i ∈ items.list, i.Plain) :
    CopiedItems o items := by
  refine ⟨?_, fun i hi => isUnknown_of_plain (h i hi)⟩
  rw [written_of_plain h]
  rfl

theorem At.read_value (h : At o inSection calls output updated place st)
    (hkeep : o.removeKey = false) (key : Word) (before after : Blanks) (items : Items)
    (hunmatched : Unmatched o inSection updated key.val) (hcopied : CopiedItems o items) :
    enter o (run o st (frontText key before after ++ items.text)) =
      valueRead st (fullName inSection key.val) items
        (output ++ o.echo (frontText key before after ++ items.text)) := by
  let front : State := { st with
    mode := .afterEquals
    key := fullName inSection key.val
    configFileOutput := st.configFileOutput ++ o.echo (frontText key before after) }
  have hstart : startValue o front =
      { front with
        mode := .value
        firstMatchedKey := false
        matchedKey := false
        value := []
        trimmedLength := 0
        inQuote := false } := by
    have hfirst : (!st.outputKeyValueUpdated && o.sets (cString (fullName inSection key.val) 0)) =
        false := by
      rw [h.updated]
      exact hunmatched
    rw [startValue_eq hkeep, hfirst]
  have hfront : run o st (frontText key before after) = front := read_front h.mode h.named key before after
  have hecho : (startValue o front).valueEcho o (items.list.flatMap (·.written)) = o.echo items.text := by
    rw [hstart]
    exact hcopied.1
  rw [run_append, hfront, ConfigFile.read_value hkeep rfl items (Or.inr hcopied.2), hecho, hstart,
    echo_append, ← List.append_assoc, ← h.output]
  rfl

theorem storeValue_valueRead (name : Bytes) (items : Items) (output : Bytes) :
    storeValue o (valueRead st name items output) =
      { valueRead st name items output with
        value := resize items.last.value items.last.trimmedLength
        calls := st.calls ++ [(cString name 0, items.last.stored)]
        newKeyValueInsertPos := output.length } := rfl

theorem At.atEnd_valueRead (h : At o inSection calls output updated place st) (key : Word)
    (items : Items) (written : Bytes) :
    AtEnd inSection (calls ++ [(cString (fullName inSection key.val) 0, items.last.stored)]) written
      updated (storeValue o (valueRead st (fullName inSection key.val) items written)) := by
  rw [storeValue_valueRead, ← h.calls]
  exact ⟨h.length, resize_fullName h.length.symm key.val, rfl, rfl, h.updated⟩

theorem At.ends_keyValue (h : At o inSection calls output updated place st)
    (hkeep : o.removeKey = false) (key : Word) (before after : Blanks) (items : Items)
    (hunmatched : Unmatched o inSection updated key.val) (hcopied : CopiedItems o items)
    (hquote : items.last.inQuote = false) {s : Bytes}
    (hs : s = frontText key before after ++ items.text) :
    Ends o inSection (calls ++ [(cString (fullName inSection key.val) 0, items.last.stored)])
        (output ++ o.echo s) updated (output ++ o.echo s).length (run o st s) ∧
      EndsReturn o inSection
        (calls ++ [(cString (fullName inSection key.val) 0, items.last.stored)])
        (output ++ o.echo s) updated (output ++ o.echo s).length (run o st s) := by
  have hread := h.read_value hkeep key before after items hunmatched hcopied
  rw [← hs] at hread
  have hplace : o.updateConfigFile = true → (storeValue o (valueRead st (fullName inSection key.val)
      items (output ++ o.echo s))).newKeyValueInsertPos = (output ++ o.echo s).length := fun _ => rfl
  have hends := ends_value (h.atEnd_valueRead key items (output ++ o.echo s)) rfl hquote
    h.noComment rfl hplace
  rw [← hread] at hends
  exact ⟨ends_of_enter hends.1, endsReturn_of_enter hends.2⟩

theorem At.ends_keyValueRemark (h : At o inSection calls output updated place st)
    (hkeep : o.removeKey = false) (key : Word) (before after : Blanks) (items : Items)
    (hunmatched : Unmatched o inSection updated key.val) (hcopied : CopiedItems o items)
    (hquote : items.last.inQuote = false) (text : Rest) {s : Bytes}
    (hs : s = frontText key before after ++ items.text) :
    Ends o inSection (calls ++ [(cString (fullName inSection key.val) 0, items.last.stored)])
      (output ++ o.echo (s ++ 35 :: text.val)) updated
      (output ++ o.echo (s ++ 35 :: text.val)).length (run o st (s ++ 35 :: text.val)) := by
  have hread := h.read_value hkeep key before after items hunmatched hcopied
  rw [← hs] at hread
  have hends := ends_valueRemark (h.atEnd_valueRead (o := o) key items (output ++ o.echo s)) rfl
    hquote rfl text
  rw [← hread, List.append_assoc, ← echo_append, run_cons, ← step_enter (by rfl), ← run_cons,
    ← run_append] at hends
  exact hends

theorem At.ends_openQuote (h : At o inSection calls output updated place st)
    (hskip : o.skipInvalidLines = true) (hkeep : o.removeKey = false) (key : Word)
    (before after : Blanks) (items : Items) (hunmatched : Unmatched o inSection updated key.val)
    (hcopied : CopiedItems o items) (hquote : items.last.inQuote = true) {s : Bytes}
    (hs : s = frontText key before after ++ items.text) :
    Ends o inSection calls (output ++ o.echo s) updated place (run o st s) := by
  have hread := h.read_value hkeep key before after items hunmatched hcopied
  rw [← hs] at hread
  apply ends_of_enter
  rw [hread]
  exact ConfigFile.ends_openQuote hskip
    ⟨h.length, resize_fullName h.length.symm key.val, h.calls, rfl, h.updated⟩ rfl hquote
    h.noComment rfl h.place

theorem At.ends_badEscape (h : At o inSection calls output updated place st)
    (hskip : o.skipInvalidLines = true) (hkeep : o.removeKey = false) (key : Word)
    (before after : Blanks) (items : Items) (hunmatched : Unmatched o inSection updated key.val)
    (hcopied : CopiedItems o items) {c : UInt8} (hc : unescape c = none) {rest : Bytes}
    (hrest : Skipped o rest) {s : Bytes} (hs : s = frontText key before after ++ items.text) :
    Ends o inSection calls (output ++ o.echo (s ++ 92 :: c :: rest)) updated place
      (run o st (s ++ 92 :: c :: rest)) := by
  have hread := h.read_value hkeep key before after items hunmatched hcopied
  rw [← hs] at hread
  let start := valueRead st (fullName inSection key.val) items (output ++ o.echo s)
  have hslash : step o (run o st s) 92 =
      { start with
        mode := .escape
        configFileOutput := output ++ o.echo s ++ o.echo [92] } := by
    rw [step_enter (by rfl), hread, read_backslash rfl]
    rfl
  have hescape : step o
      { start with mode := .escape, configFileOutput := output ++ o.echo s ++ o.echo [92] } c =
        { start with
          mode := .invalid
          configFileOutput := output ++ o.echo s ++ o.echo [92] ++ o.echo [c] } := by
    have hmode : ({ start with
      mode := .escape
      configFileOutput := output ++ o.echo s ++ o.echo [92] } : State).mode = .escape := rfl
    rw [step_escape hmode, atEscape, hc, writeValue_eq]
    dsimp only
    rw [if_neg (by exact Bool.false_ne_true), invalidLine, hskip, if_neg (by decide),
      if_neg (by decide)]
    rfl
  rw [run_append, run_cons, hslash, run_cons, hescape, copy_invalid rfl hrest]
  refine ends_invalid ⟨h.length, resize_fullName h.length.symm key.val, h.calls, ?_, h.updated⟩ rfl
    h.noComment rfl h.place
  dsimp only
  rw [echo_append, echo_cons o 92 (c :: rest), echo_cons o c rest]
  simp only [List.append_assoc]

/-! ## Malformed lines -/

theorem At.read_broken (h : At o inSection calls output updated place st) (front : Broken)
    (hquiet : front.opensHeader = true → EndsQuietly o st) {c : UInt8} (hc : front.Offends c) :
    ∃ mid : State, run o st front.text = mid ∧ step o mid c = malformed o mid c ∧
      AtEnd (front.nextSection inSection) calls (output ++ o.echo front.text) updated mid ∧
      mid.trailingComment = false ∧ mid.matchedKey = false ∧
      (o.updateConfigFile = true → mid.newKeyValueInsertPos = place) := by
  cases front with
  | start =>
    obtain ⟨hspace, hbreak, hreturn, hhash, hbracket, halpha⟩ := hc
    refine ⟨st, rfl, ?_, ?_, h.noComment, h.unmatched, h.place⟩
    · rw [step_lineStart h.mode, atLineStart, if_neg (by rw [hspace]; decide), if_neg hreturn,
        if_neg (not_or.mpr ⟨hbreak, hhash⟩), if_neg hbracket, if_pos (by rw [halpha]; rfl)]
    · refine ⟨h.length, h.named, h.calls, ?_, h.updated⟩
      change _ = output ++ o.echo []
      rw [h.output, echo_nil, List.append_nil]
  | sectionStart =>
    refine ⟨_, read_bracket h.mode (hquiet rfl), ?_, ?_, h.noComment, h.unmatched, h.place⟩
    · rw [step_sectionStart rfl, atSectionStart, if_pos (by rw [hc.1]; rfl)]
    · exact ⟨h.length, h.named, h.calls, by rw [h.output]; rfl, h.updated⟩
  | sectionName name =>
    refine ⟨_, read_header h.mode (hquiet rfl) name, ?_, ?_, h.noComment, h.unmatched, h.place⟩
    · rw [step_sectionName rfl, atSectionName, if_neg (by rw [hc.1]; decide), if_pos hc.2.1]
    · refine ⟨?_, ?_, h.calls, by rw [h.output]; rfl, h.updated⟩
      · exact h.length.trans (length_resize name.val inSection.length).symm
      · change resize name.val st.sectionLength = resize name.val inSection.length
        rw [h.length]
  | afterBracket name spaces =>
    obtain ⟨hspace, hbreak, hreturn, hhash⟩ := hc
    refine ⟨_, read_brackets h.mode (hquiet rfl) name spaces, ?_, ?_, h.noComment, h.unmatched, h.place⟩
    · rw [step_afterBracket rfl, atAfterBracket, if_neg (by rw [hspace]; decide),
        if_neg (not_or.mpr ⟨hbreak, hreturn⟩), if_neg hhash]
    · refine ⟨?_, ?_, h.calls, by rw [h.output]; rfl, h.updated⟩
      · exact h.length.trans (length_resize name.val inSection.length).symm
      · change resize name.val st.sectionLength = resize name.val inSection.length
        rw [h.length]
  | key name spaces =>
    obtain ⟨hspace, hequals, hbreak, halnum⟩ := hc
    have hread : run o st (name.val ++ spaces.val) =
        { st with
          mode := if spaces.val = [] then .key else .beforeEquals
          key := fullName inSection name.val
          configFileOutput := st.configFileOutput ++ o.echo (name.val ++ spaces.val) } := by
      rw [run_append, read_name h.mode h.named, read_beforeEquals rfl spaces.property]
      dsimp only
      rw [List.append_assoc, ← echo_append]
    refine ⟨_, hread, ?_, ?_, h.noComment, h.unmatched, h.place⟩
    · by_cases hnil : spaces.val = []
      · rw [if_pos hnil, step_key rfl, atKey, if_neg (by rw [halnum hnil]; decide), atBeforeEquals,
          if_neg (by rw [hspace]; decide), if_pos hequals]
      · rw [if_neg hnil, step_beforeEquals rfl, atBeforeEquals, if_neg (by rw [hspace]; decide),
          if_pos hequals]
    · exact ⟨h.length, resize_fullName h.length.symm name.val, h.calls, by rw [h.output]; rfl,
        h.updated⟩

theorem At.ends_malformed (h : At o inSection calls output updated place st)
    (hskip : o.skipInvalidLines = true) (front : Broken)
    (hquiet : front.opensHeader = true → EndsQuietly o st) {c : UInt8} (hc : front.Offends c)
    (rest : Rest) :
    Ends o (front.nextSection inSection) calls
      (output ++ o.echo (front.text ++ c :: rest.val)) updated place
      (run o st (front.text ++ c :: rest.val)) := by
  obtain ⟨mid, hmid, hstep, hend, hcomment, hmatched, hplace⟩ := h.read_broken front hquiet hc
  have hbreak : c ≠ 10 := by
    cases front with
    | start => exact hc.2.1
    | sectionStart => exact hc.2
    | sectionName name => exact hc.2.2
    | afterBracket name spaces => exact hc.2.1
    | key name spaces => exact hc.2.2.1
  rw [run_append, hmid, echo_append, ← List.append_assoc]
  exact ConfigFile.ends_malformed hskip hbreak rest hstep hend hcomment hmatched hplace

/-! ## Lines -/

/-- The value of the body, if it has one, is neither replaced nor changed when it is written. -/
def Body.CopiedBy (o : Options) : Body → Prop
  | .keyValue _ _ _ _ items _ _ => CopiedItems o items
  | .badEscape _ _ _ _ items _ _ => CopiedItems o items
  | _ => True

theorem calls_keyValue {spaces : Blanks} {key : Word} {before after : Blanks} {items : Items}
    {remark : Option Rest} {closed : remark.isSome = true → items.last.inQuote = false}
    (hcopied : CopiedItems o items) :
    Body.calls inSection (.keyValue spaces key before after items remark closed) =
      if items.last.inQuote = true then []
      else [(cString (fullName inSection key.val) 0, items.last.stored)] := by
  have hknown : items.list.any (·.isUnknown) = false := by
    rw [List.any_eq_false]
    intro i hi
    rw [hcopied.2 i hi]
    exact Bool.false_ne_true
  rw [Body.calls, hknown, Bool.false_or]

def Body.Valid : Body → Prop
  | .malformed _ _ _ _ | .badEscape _ _ _ _ _ _ _ => False
  | .keyValue _ _ _ _ items _ _ =>
    items.last.inQuote = false ∧ ∀ i ∈ items.list, i.isUnknown = false
  | _ => True

theorem Ends.line {line : Line}
    (hends : Ends o inSection calls output updated place (run o st line.body.text))
    (hreturn : line.hasReturn = true →
      EndsReturn o inSection calls output updated place (run o st line.body.text)) :
    At o inSection calls (output ++ o.echo line.ending) updated place (run o st line.text) := by
  rw [Line.text, run_append, Line.ending]
  cases hr : line.hasReturn with
  | true => exact hreturn hr
  | false => exact hends.atBreak

theorem At.ends_body (h : At o inSection calls output updated place st) (body : Body)
    (hskip : body.Valid ∨ o.skipInvalidLines = true) (hkeep : o.removeKey = false)
    (hquiet : body.opensHeader = true → EndsQuietly o st)
    (hunmatched : ∀ key ∈ body.key, Unmatched o inSection updated key)
    (hcopied : body.CopiedBy o) :
    Ends o (body.nextSection inSection) (calls ++ body.calls inSection)
        (output ++ o.echo body.text) updated
        (if body.isPlace then (output ++ o.echo body.text).length else place)
        (run o st body.text) ∧
      (body.AllowsReturn →
        EndsReturn o (body.nextSection inSection) (calls ++ body.calls inSection)
          (output ++ o.echo body.text) updated
          (if body.isPlace then (output ++ o.echo body.text).length else place)
          (run o st body.text)) := by
  have hquiet' : ∀ spaces : Blanks, body.opensHeader = true →
      EndsQuietly o (run o st spaces.val) := by
    intro spaces hopens
    rw [copy_spaces h.mode]
    exact hquiet hopens
  cases body with
  | blank spaces =>
    have hends := (h.spaces spaces).ends_blank
    rw [← List.append_nil calls] at hends
    exact ⟨hends, False.elim⟩
  | comment spaces text =>
    have hends := (h.spaces spaces).ends_comment text
    rw [List.append_assoc, ← echo_append, ← run_append, ← List.append_nil calls] at hends
    exact ⟨hends, False.elim⟩
  | header spaces name after remark =>
    cases remark with
    | none =>
      have htext : (Body.header spaces name after none).text =
          spaces.val ++ 91 :: (name.val ++ 93 :: after.val) := by simp [Body.text, remarkText]
      have hends := (h.spaces spaces).ends_header (hquiet' spaces rfl) name after
      rw [List.append_assoc, ← echo_append, ← run_append, ← List.append_nil calls, ← htext] at hends
      exact ⟨hends.1, fun _ => hends.2⟩
    | some text =>
      have hends := (h.spaces spaces).ends_headerRemark (hquiet' spaces rfl) name after text
      rw [List.append_assoc, ← echo_append, ← run_append, ← List.append_nil calls] at hends
      exact ⟨hends, fun hallows => absurd hallows (Option.some_ne_none text)⟩
  | keyValue spaces key before after items remark closed =>
    have hunmatched' : Unmatched o inSection updated key.val := hunmatched key.val rfl
    have htext : (Body.keyValue spaces key before after items remark closed).text =
        spaces.val ++ ((frontText key before after ++ items.text) ++ remarkText remark) := by
      simp [Body.text, frontText]
    have hplace : Body.isPlace (.keyValue spaces key before after items remark closed) =
        !items.last.inQuote := rfl
    rw [calls_keyValue hcopied, hplace, htext]
    cases remark with
    | none =>
      rw [remarkText, List.append_nil]
      cases hquote : items.last.inQuote with
      | false =>
        have hends := (h.spaces spaces).ends_keyValue hkeep key before after items hunmatched' hcopied
          hquote rfl
        rw [List.append_assoc, ← echo_append, ← run_append] at hends
        exact ⟨hends.1, fun _ => hends.2⟩
      | true =>
        have hskip' : o.skipInvalidLines = true := by
          refine hskip.resolve_left fun hvalid => ?_
          have hclosed : items.last.inQuote = false := hvalid.1
          rw [hclosed] at hquote
          cases hquote
        have hends := (h.spaces spaces).ends_openQuote hskip' hkeep key before after items hunmatched'
          hcopied hquote rfl
        rw [List.append_assoc, ← echo_append, ← run_append, ← List.append_nil calls] at hends
        refine ⟨hends, fun hallows => ?_⟩
        rw [hallows.2] at hquote
        cases hquote
    | some text =>
      have hquote : items.last.inQuote = false := closed rfl
      have hends := (h.spaces spaces).ends_keyValueRemark hkeep key before after items hunmatched'
        hcopied hquote text rfl
      rw [List.append_assoc, ← echo_append, ← run_append] at hends
      rw [hquote]
      exact ⟨hends, fun hallows => absurd hallows.1 (Option.some_ne_none text)⟩
  | malformed spaces front c rest =>
    have hends := (h.spaces spaces).ends_malformed (hskip.resolve_left id) front (hquiet' spaces) c.property
      rest
    rw [List.append_assoc, ← echo_append, ← run_append, ← List.append_nil calls] at hends
    exact ⟨hends, False.elim⟩
  | badEscape spaces key before after items c rest =>
    have hunmatched' : Unmatched o inSection updated key.val := hunmatched key.val rfl
    have htext : (Body.badEscape spaces key before after items c rest).text =
        spaces.val ++ ((frontText key before after ++ items.text) ++ 92 :: c.val :: rest.val) := by
      simp [Body.text, frontText]
    have hends := (h.spaces spaces).ends_badEscape (hskip.resolve_left id) hkeep key before after items
      hunmatched' hcopied c.property (skipped_rest o rest) rfl
    rw [List.append_assoc, ← echo_append, ← run_append, ← List.append_nil calls, ← htext] at hends
    exact ⟨hends, False.elim⟩

end Lines

/-! ## Reading a file -/

def readOptions (skipInvalidLines : Bool) : Options := ⟨skipInvalidLines, none, false⟩

/-- The calls of `SetConfig` for a file. -/
def setCalls (skipInvalidLines : Bool) (file : Bytes) : List (Bytes × Bytes) :=
  (parseConfigFile (readOptions skipInvalidLines) (some file)).calls

/-- The first value that `SetConfig` is called with for a name. -/
def firstSet (skipInvalidLines : Bool) (name file : Bytes) : Option Bytes :=
  ((setCalls skipInvalidLines file).find? fun call => eqIgnoringCase call.1 name).map (·.2)

def Item.Unbroken (i : Item) : Prop := 10 ∉ i.text ∧ 13 ∉ i.text

/-- The body is shown as it is read when nothing is replaced: behind an unknown escape sequence
the line is skipped, and so nothing there may break the line. -/
def Body.Shown : Body → Prop
  | .keyValue _ _ _ _ items _ _ =>
    (∀ i ∈ items.list, i.isUnknown = false) ∨ ∀ i ∈ items.list, i.Unbroken
  | .badEscape _ _ _ _ items _ _ => ∀ i ∈ items.list, i.isUnknown = false
  | _ => True

section Reading

variable {skip : Bool} {st : State} {inSection : Bytes} {calls : List (Bytes × Bytes)}
  {updated : Bool} {place : Nat}

theorem unmatched_readOptions (skip : Bool) (inSection : Bytes) (updated : Bool) (key : Bytes) :
    Unmatched (readOptions skip) inSection updated key := by
  cases updated <;> rfl

theorem endsQuietly_readOptions (skip : Bool) (st : State) : EndsQuietly (readOptions skip) st :=
  fun _ => rfl

theorem exists_first_unknown {items : List Item} (h : items.any (·.isUnknown) = true) :
    ∃ before c after, items = before ++ .unknown c :: after ∧
      ∀ i ∈ before, i.isUnknown = false := by
  induction items with
  | nil => cases h
  | cons i items ih =>
    cases hi : i.isUnknown with
    | true =>
      cases i with
      | unknown c => exact ⟨[], c, items, rfl, fun _ hj => absurd hj List.not_mem_nil⟩
      | _ => cases hi
    | false =>
      rw [List.any_cons, hi, Bool.false_or] at h
      obtain ⟨before, c, after, rfl, hbefore⟩ := ih h
      refine ⟨i :: before, c, after, rfl, ?_⟩
      intro j hj
      rcases List.mem_cons.mp hj with rfl | hj
      · exact hi
      · exact hbefore j hj

theorem exists_front {items : Items} {s t : List Item} (h : items.list = s ++ t) :
    ∃ front : Items, front.list = s := by
  have hplaced := items.placed
  have hspace := items.noSpace
  rw [h] at hplaced hspace
  refine ⟨⟨s, (placed_append.mp hplaced).1, ?_⟩, rfl⟩
  intro c hc
  apply hspace c
  rw [List.flatMap_append]
  cases htext : s.flatMap (·.text) with
  | nil =>
    rw [htext] at hc
    cases hc
  | cons d rest =>
    rw [htext] at hc
    exact hc

theorem At.ends_unknown (h : At (readOptions true) inSection calls [] updated place st)
    (spaces : Blanks) (key : Word) (before after : Blanks) (items : Items) (remark : Option Rest)
    (hunknown : items.list.any (·.isUnknown) = true) (hbroken : ∀ i ∈ items.list, i.Unbroken)
    {s : Bytes} (hs : s = spaces.val ++ ((frontText key before after ++ items.text) ++
      remarkText remark)) :
    Ends (readOptions true) inSection calls [] updated place (run (readOptions true) st s) ∧
      EndsReturn (readOptions true) inSection calls [] updated place
        (run (readOptions true) st s) := by
  obtain ⟨first, c, last, hsplit, hfirst⟩ := exists_first_unknown hunknown
  obtain ⟨front, hfront⟩ := exists_front hsplit
  let rest := last.flatMap (·.text) ++ remarkText remark
  have htext : s = spaces.val ++ ((frontText key before after ++ front.text) ++ 92 :: c.val :: rest) := by
    rw [hs, Items.text, hsplit, Items.text, hfront]
    simp [rest, Item.text]
  have hcopied : CopiedItems (readOptions true) front := ⟨rfl, by rwa [hfront]⟩
  have hrest : Skipped (readOptions true) rest := by
    intro d hd
    refine ⟨?_, fun _ => rfl⟩
    rintro rfl
    rcases List.mem_append.mp hd with hd | hd
    · obtain ⟨i, hi, hmem⟩ := List.mem_flatMap.mp hd
      exact (hbroken i (by rw [hsplit]; simp [hi])).1 hmem
    · cases remark with
      | none => cases hd
      | some text =>
        rcases List.mem_cons.mp hd with heq | hd
        · cases heq
        · exact (text.property 10 hd).1 rfl
  have hreturn : Skipped (readOptions true) (rest ++ [13]) := by
    intro d hd
    rcases List.mem_append.mp hd with hd | hd
    · exact hrest d hd
    · rw [List.mem_singleton.mp hd]
      exact ⟨by decide, fun _ => rfl⟩
  have hspaces := h.spaces spaces
  have hends := hspaces.ends_badEscape rfl rfl key before after front
    (unmatched_readOptions _ _ _ _) hcopied c.property hrest rfl
  have hends' := hspaces.ends_badEscape rfl rfl key before after front
    (unmatched_readOptions _ _ _ _) hcopied c.property hreturn rfl
  rw [← run_append] at hends hends'
  constructor
  · rw [htext]
    exact hends
  · have hbreak := hends'.atBreak
    rw [← run_concat] at hbreak
    have hassoc : (spaces.val ++ ((frontText key before after ++ front.text) ++
        92 :: c.val :: (rest ++ [13]))) ++ [10] = s ++ [13, 10] := by
      rw [htext]
      simp
    rw [hassoc] at hbreak
    rw [EndsReturn, ← run_append]
    exact hbreak

theorem At.ends_shown (h : At (readOptions skip) inSection calls [] updated place st) (body : Body)
    (hskip : body.Valid ∨ skip = true) (hshown : body.Shown) :
    ∃ place', Ends (readOptions skip) (body.nextSection inSection) (calls ++ body.calls inSection)
        [] updated place' (run (readOptions skip) st body.text) ∧
      (body.AllowsReturn →
        EndsReturn (readOptions skip) (body.nextSection inSection) (calls ++ body.calls inSection)
          [] updated place' (run (readOptions skip) st body.text)) := by
  have hread : body.CopiedBy (readOptions skip) → ∃ place',
      Ends (readOptions skip) (body.nextSection inSection) (calls ++ body.calls inSection)
          [] updated place' (run (readOptions skip) st body.text) ∧
        (body.AllowsReturn →
          EndsReturn (readOptions skip) (body.nextSection inSection) (calls ++ body.calls inSection)
            [] updated place' (run (readOptions skip) st body.text)) := by
    intro hcopied
    exact ⟨_, h.ends_body body hskip rfl (fun _ => endsQuietly_readOptions skip st)
      (fun key _ => unmatched_readOptions skip inSection updated key) hcopied⟩
  cases body with
  | keyValue spaces key before after items remark closed =>
    by_cases hknown : ∀ i ∈ items.list, i.isUnknown = false
    · exact hread ⟨rfl, hknown⟩
    · have hbroken := hshown.resolve_left hknown
      obtain rfl : skip = true := hskip.resolve_left fun hvalid => hknown hvalid.2
      have hunknown : items.list.any (·.isUnknown) = true := by
        by_contra hnone
        apply hknown
        simpa using hnone
      have htext : (Body.keyValue spaces key before after items remark closed).text =
          spaces.val ++ ((frontText key before after ++ items.text) ++ remarkText remark) := by
        simp [Body.text, frontText]
      have hends := h.ends_unknown spaces key before after items remark hunknown hbroken htext
      have hcalls : Body.calls inSection (.keyValue spaces key before after items remark closed) =
          [] := by
        rw [Body.calls, hunknown, Bool.true_or, if_pos rfl]
      rw [hcalls, List.append_nil]
      exact ⟨place, hends.1, fun _ => hends.2⟩
  | badEscape spaces key before after items c rest => exact hread ⟨rfl, hshown⟩
  | _ => exact hread trivial

theorem lineCalls_append (inSection : Bytes) (s t : List Line) :
    lineCalls inSection (s ++ t) = lineCalls inSection s ++ lineCalls (lastSection inSection s) t := by
  induction s generalizing inSection with
  | nil => rfl
  | cons line s ih =>
    rw [List.cons_append, lineCalls, ih, lineCalls, List.append_assoc]
    rfl

theorem At.read_lines (h : At (readOptions skip) inSection calls [] updated place st)
    {ls : List Line} (hls : ∀ line ∈ ls, (line.body.Valid ∨ skip = true) ∧ line.body.Shown) :
    ∃ place', At (readOptions skip) (lastSection inSection ls) (calls ++ lineCalls inSection ls) []
      updated place' (run (readOptions skip) st (ls.flatMap (·.text))) := by
  induction ls generalizing st inSection calls place with
  | nil =>
    refine ⟨place, ?_⟩
    rw [lineCalls, List.append_nil]
    exact h
  | cons line ls ih =>
    obtain ⟨hskip, hshown⟩ := hls line List.mem_cons_self
    obtain ⟨next, hends, hreturn⟩ := h.ends_shown line.body hskip hshown
    have hline : At (readOptions skip) (line.body.nextSection inSection)
        (calls ++ line.body.calls inSection) [] updated next
        (run (readOptions skip) st line.text) := hends.line fun hr => hreturn (line.allowed hr)
    obtain ⟨place', hrest⟩ := ih hline fun l hl => hls l (List.mem_cons_of_mem _ hl)
    refine ⟨place', ?_⟩
    rw [List.flatMap_cons, run_append, lineCalls, ← List.append_assoc]
    exact hrest

theorem at_init (o : Options) : At o [] [] [] false 0 State.init :=
  ⟨rfl, rfl, rfl, rfl, rfl, rfl, rfl, rfl, fun _ => rfl⟩

theorem setCalls_configText (file : ConfigText)
    (hlines : ∀ line ∈ file.lines, (line.body.Valid ∨ skip = true) ∧ line.body.Shown)
    (hlast : (file.last.Valid ∨ skip = true) ∧ file.last.Shown) :
    setCalls skip file.text = file.calls := by
  obtain ⟨place, hread⟩ := (at_init (readOptions skip)).read_lines hlines
  obtain ⟨-, ⟨⟨last, hend, hfinish⟩, -⟩, -⟩ := hread.ends_shown file.last hlast.1 hlast.2
  rw [setCalls, parseConfigFile, ConfigText.text, run_append, hfinish]
  exact hend.calls

end Reading

end WslFreeBSD.Reference.ConfigFile
