import WslFreeBSD.Reference.ConfigText

/-!
# Parts of a line

What `ParseConfigFile` does with the parts of a line, from the spaces in front of it to the items of a
value, with and without an output: the part of the state that is read into, and the characters that
are written.
-/

namespace WslFreeBSD.Reference.ConfigFile

open Lib Config

/-! ## Parts of a line -/

def Options.echo (o : Options) (s : Bytes) : Bytes := if o.updateConfigFile then s else []

section Parts

variable {o : Options} {st : State}

theorem echo_nil (o : Options) : o.echo [] = [] := ite_self []

theorem echo_append (o : Options) (s t : Bytes) : o.echo (s ++ t) = o.echo s ++ o.echo t := by
  unfold Options.echo
  split <;> rfl

theorem echo_cons (o : Options) (c : UInt8) (s : Bytes) :
    o.echo (c :: s) = o.echo [c] ++ o.echo s := echo_append o [c] s

theorem write_eq (o : Options) (st : State) (s : Bytes) :
    st.write o s = { st with configFileOutput := st.configFileOutput ++ o.echo s } := by
  unfold State.write Options.echo
  split
  · rfl
  · rw [List.append_nil]

theorem run_copies {s : Bytes} (h : ∀ c ∈ s, ∀ output,
      step o { st with configFileOutput := output } c =
        { st with configFileOutput := output ++ o.echo [c] }) :
    run o st s = { st with configFileOutput := st.configFileOutput ++ o.echo s } := by
  induction s using List.reverseRecOn with
  | nil => rw [run_nil, echo_nil, List.append_nil]
  | append_singleton s c ih =>
    rw [run_concat, ih fun d hd => h d (List.mem_append_left _ hd), h c (by simp), echo_append,
      List.append_assoc]

theorem copy_spaces (hmode : st.mode = .lineStart) (spaces : Blanks) :
    run o st spaces.val =
      { st with configFileOutput := st.configFileOutput ++ o.echo spaces.val } := by
  apply run_copies
  intro c hc output
  have hspace : isHSpace c = true := spaces.property c hc
  have hmode' : ({ st with configFileOutput := output } : State).mode = .lineStart := hmode
  rw [step_lineStart hmode', atLineStart, if_pos hspace, write_eq]

theorem copy_comment (hmode : st.mode = .comment) (text : Rest) :
    run o st text.val = { st with configFileOutput := st.configFileOutput ++ o.echo text.val } := by
  apply run_copies
  intro c hc output
  obtain ⟨hbreak, hreturn⟩ := text.property c hc
  have hmode' : ({ st with configFileOutput := output } : State).mode = .comment := hmode
  rw [step_comment hmode', if_neg hbreak, if_neg hreturn, write_eq]

/-- Characters that are skipped and written. A `\r` is not written. -/
def Skipped (o : Options) (s : Bytes) : Prop :=
  ∀ c ∈ s, c ≠ 10 ∧ (c = 13 → o.updateConfigFile = false)

theorem skipped_rest (o : Options) (text : Rest) : Skipped o text.val := by
  intro c hc
  obtain ⟨hbreak, hreturn⟩ := text.property c hc
  exact ⟨hbreak, fun heq => absurd heq hreturn⟩

theorem copy_invalid (hmode : st.mode = .invalid) {s : Bytes} (hs : Skipped o s) :
    run o st s = { st with configFileOutput := st.configFileOutput ++ o.echo s } := by
  apply run_copies
  intro c hc output
  obtain ⟨hbreak, hreturn⟩ := hs c hc
  have hmode' : ({ st with configFileOutput := output } : State).mode = .invalid := hmode
  rw [step_invalid hmode', atInvalid, if_neg hbreak]
  split
  · next heq =>
    rw [Options.echo, hreturn heq, if_neg Bool.false_ne_true, List.append_nil]
  · rw [write_eq]

theorem copy_afterBracket (hmode : st.mode = .afterBracket) (spaces : Blanks) :
    run o st spaces.val =
      { st with configFileOutput := st.configFileOutput ++ o.echo spaces.val } := by
  apply run_copies
  intro c hc output
  have hspace : isHSpace c = true := spaces.property c hc
  have hmode' : ({ st with configFileOutput := output } : State).mode = .afterBracket := hmode
  rw [step_afterBracket hmode', atAfterBracket, if_pos hspace, write_eq]

theorem copy_afterEquals (hmode : st.mode = .afterEquals) (spaces : Blanks) :
    run o st spaces.val =
      { st with configFileOutput := st.configFileOutput ++ o.echo spaces.val } := by
  apply run_copies
  intro c hc output
  have hspace : isHSpace c = true := spaces.property c hc
  have hmode' : ({ st with configFileOutput := output } : State).mode = .afterEquals := hmode
  rw [step_afterEquals hmode', atAfterEquals, if_pos hspace, write_eq]

theorem read_sectionName (hmode : st.mode = .sectionName) {s : Bytes}
    (h : ∀ c ∈ s, isAlnum c = true) :
    run o st s =
      { st with
        key := st.key ++ s
        configFileOutput := st.configFileOutput ++ o.echo s } := by
  induction s using List.reverseRecOn with
  | nil => rw [run_nil, echo_nil, List.append_nil, List.append_nil]
  | append_singleton s c ih =>
    have hmode' : ({ st with
      key := st.key ++ s
      configFileOutput := st.configFileOutput ++ o.echo s } : State).mode = .sectionName := hmode
    rw [run_concat, ih fun d hd => h d (List.mem_append_left _ hd), step_sectionName hmode',
      atSectionName, if_pos (h c (by simp)), write_eq, echo_append, List.append_assoc,
      List.append_assoc]

theorem read_key (hmode : st.mode = .key) {s : Bytes} (h : ∀ c ∈ s, isAlnum c = true) :
    run o st s =
      { st with
        key := st.key ++ s
        configFileOutput := st.configFileOutput ++ o.echo s } := by
  induction s using List.reverseRecOn with
  | nil => rw [run_nil, echo_nil, List.append_nil, List.append_nil]
  | append_singleton s c ih =>
    have hmode' : ({ st with
      key := st.key ++ s
      configFileOutput := st.configFileOutput ++ o.echo s } : State).mode = .key := hmode
    rw [run_concat, ih fun d hd => h d (List.mem_append_left _ hd), step_key hmode', atKey,
      if_pos (h c (by simp)), write_eq, echo_append, List.append_assoc, List.append_assoc]

theorem isAlnum_of_isHSpace {c : UInt8} (h : isHSpace c = true) : isAlnum c = false := by
  rcases isBlank_iff.mp h with rfl | rfl <;> rfl

theorem read_beforeEquals (hmode : st.mode = .key) {s : Bytes} (h : ∀ c ∈ s, isBlank c = true) :
    run o st s =
      { st with
        mode := if s = [] then .key else .beforeEquals
        configFileOutput := st.configFileOutput ++ o.echo s } := by
  induction s using List.reverseRecOn with
  | nil => rw [run_nil, echo_nil, List.append_nil, if_pos rfl, ← hmode]
  | append_singleton s c ih =>
    have hspace : isHSpace c = true := h c (by simp)
    have hstep : ∀ st' : State, st'.mode = .key ∨ st'.mode = .beforeEquals →
        step o st' c =
          { st' with
            mode := .beforeEquals
            configFileOutput := st'.configFileOutput ++ o.echo [c] } := by
      rintro st' (hst | hst)
      · rw [step_key hst, atKey, if_neg (by rw [isAlnum_of_isHSpace hspace]; decide),
          atBeforeEquals, if_pos hspace, write_eq]
      · rw [step_beforeEquals hst, atBeforeEquals, if_pos hspace, write_eq]
    have hmode' : (if s = [] then Mode.key else .beforeEquals) = .key ∨
        (if s = [] then Mode.key else .beforeEquals) = .beforeEquals := by
      split
      · exact Or.inl rfl
      · exact Or.inr rfl
    have hne : s ++ [c] ≠ [] := by simp
    rw [run_concat, ih fun d hd => h d (List.mem_append_left _ hd), hstep _ hmode', if_neg hne,
      echo_append, List.append_assoc]

theorem read_equals (hmode : st.mode = .key) (spaces : Blanks) :
    run o st (spaces.val ++ [61]) =
      { st with
        mode := .afterEquals
        configFileOutput := st.configFileOutput ++ o.echo (spaces.val ++ [61]) } := by
  rw [run_concat, read_beforeEquals hmode spaces.property]
  have hstep : ∀ st' : State, st'.mode = .key ∨ st'.mode = .beforeEquals →
      step o st' 61 =
        { st' with
          mode := .afterEquals
          configFileOutput := st'.configFileOutput ++ o.echo [61] } := by
    rintro st' (hst | hst)
    · rw [step_key hst, atKey, if_neg (by decide), atBeforeEquals, if_neg (by decide),
        if_neg (by decide), write_eq]
    · rw [step_beforeEquals hst, atBeforeEquals, if_neg (by decide), if_neg (by decide), write_eq]
  by_cases hnil : spaces.val = []
  · rw [if_pos hnil, hstep _ (Or.inl rfl), echo_append, List.append_assoc]
  · rw [if_neg hnil, hstep _ (Or.inr rfl), echo_append, List.append_assoc]

/-! ## Values -/

def State.valueState (st : State) : ValueState := ⟨st.value, st.trimmedLength, st.inQuote⟩

def State.setValue (st : State) (v : ValueState) : State :=
  { st with value := v.value, trimmedLength := v.trimmedLength, inQuote := v.inQuote }

/-- A `#` is not written. -/
def Item.written : Item → Bytes
  | .hash => []
  | i => i.text

/-- What is written of a value, unless it is replaced. -/
def State.valueEcho (o : Options) (st : State) (s : Bytes) : Bytes :=
  if st.firstMatchedKey || st.matchedKey then [] else o.echo s

theorem writeValue_eq (o : Options) (st : State) (s : Bytes) :
    st.writeValue o s = { st with configFileOutput := st.configFileOutput ++ st.valueEcho o s } := by
  unfold State.writeValue State.valueEcho
  split
  · rw [List.append_nil]
  · exact write_eq o st s

theorem valueEcho_append (o : Options) (st : State) (s t : Bytes) :
    st.valueEcho o (s ++ t) = st.valueEcho o s ++ st.valueEcho o t := by
  unfold State.valueEcho
  split
  · rfl
  · exact echo_append o s t

theorem read_backslash (hmode : st.mode = .value) :
    step o st 92 =
      { st with
        mode := .escape
        configFileOutput := st.configFileOutput ++ st.valueEcho o [92] } := by
  have hne : (92 : UInt8) ≠ 35 := by decide
  rw [step_value hmode, atValue, if_neg (by decide), if_neg (by simp), if_neg hne, writeValue_eq,
    if_neg (by decide), if_pos rfl]

theorem read_item (hmode : st.mode = .value) (i : Item)
    (hquote : i = .hash → st.inQuote = true)
    (hknown : i.isUnknown = true → st.firstMatchedKey = true) :
    run o st i.text =
      { st.setValue (st.valueState.read i) with
        configFileOutput := st.configFileOutput ++ st.valueEcho o i.written } := by
  cases i with
  | char c =>
    obtain ⟨hbreak, hreturn, hne, hhash, hslash⟩ := c.property
    change step o st c.val = _
    rw [step_value hmode, atValue, if_neg (not_or.mpr ⟨hbreak, hreturn⟩), if_neg fun h => hhash h.1,
      if_neg hhash, writeValue_eq, if_neg hne, if_neg hslash, ValueState.read, State.setValue]
    split
    · rfl
    · simp [ValueState.add, State.valueState, Item.written, Item.text]
  | quote =>
    have hne : (34 : UInt8) ≠ 35 := by decide
    change step o st 34 = _
    rw [step_value hmode, atValue, if_neg (by decide), if_neg (by simp), if_neg hne, writeValue_eq,
      if_pos rfl]
    rfl
  | hash =>
    have hinside : ¬ ((35 : UInt8) = 35 ∧ (!st.inQuote) = true) := by
      rw [hquote rfl]
      simp
    have hnothing : st.valueEcho o [] = [] := by
      rw [State.valueEcho, echo_nil, ite_self]
    change step o st 35 = _
    rw [step_value hmode, atValue, if_neg (by decide), if_neg hinside, if_pos rfl,
      if_neg (by decide), if_neg (by decide), if_neg (by decide), Item.written, hnothing,
      List.append_nil]
    simp [ValueState.read, ValueState.add, State.valueState, State.setValue]
  | escape c =>
    change step o (step o st 92) c.val = _
    obtain ⟨s, hs⟩ := Option.isSome_iff_exists.mp c.property
    have hecho : st.valueEcho o (Item.escape c).written =
        st.valueEcho o [92] ++ st.valueEcho o [c.val] := valueEcho_append o st [92] [c.val]
    rw [read_backslash hmode, step_escape rfl, atEscape, hs, writeValue_eq, hecho, ValueState.read,
      hs, ← List.append_assoc]
    dsimp only
    rw [endEscape, ← hmode]
    rfl
  | unknown c =>
    change step o (step o st 92) c.val = _
    have hecho : st.valueEcho o (Item.unknown c).written =
        st.valueEcho o [92] ++ st.valueEcho o [c.val] := valueEcho_append o st [92] [c.val]
    have hfirst : st.firstMatchedKey = true := hknown rfl
    rw [read_backslash hmode, step_escape rfl, atEscape, c.property, writeValue_eq]
    dsimp only
    rw [if_pos hfirst, hecho, ← List.append_assoc, endEscape, ← hmode]
    rfl

theorem read_items (hmode : st.mode = .value) {items : List Item}
    (hplaced : Placed st.valueState items)
    (hknown : st.firstMatchedKey = true ∨ ∀ i ∈ items, i.isUnknown = false) :
    run o st (items.flatMap (·.text)) =
      { st.setValue (readItems st.valueState items) with
        configFileOutput :=
          st.configFileOutput ++ st.valueEcho o (items.flatMap (·.written)) } := by
  induction items generalizing st with
  | nil =>
    have hnothing : st.valueEcho o [] = [] := by
      rw [State.valueEcho, echo_nil, ite_self]
    rw [List.flatMap_nil, run_nil, List.flatMap_nil, hnothing, List.append_nil]
    rfl
  | cons i items ih =>
    obtain ⟨hquote, hrest⟩ := placed_cons.mp hplaced
    have hfirst : i.isUnknown = true → st.firstMatchedKey = true := by
      intro hunknown
      refine hknown.resolve_right fun hall => ?_
      rw [hall i List.mem_cons_self] at hunknown
      cases hunknown
    have hlater : st.firstMatchedKey = true ∨ ∀ i ∈ items, i.isUnknown = false :=
      hknown.imp_right fun hall j hj => hall j (List.mem_cons_of_mem _ hj)
    have hstep := read_item (o := o) hmode i hquote hfirst
    let next : State := { st.setValue (st.valueState.read i) with
      configFileOutput := st.configFileOutput ++ st.valueEcho o i.written }
    have htail : run o next (items.flatMap (·.text)) = _ := ih hmode hrest hlater
    rw [List.flatMap_cons, run_append, hstep, htail, List.flatMap_cons, valueEcho_append,
      ← List.append_assoc]
    rfl

/-! ## The start of a line -/

/-- In front of a line: what is open, what was set and written, and the place for a new key. -/
structure At (o : Options) (inSection : Bytes) (calls : List (Bytes × Bytes)) (output : Bytes)
    (updated : Bool) (place : Nat) (st : State) : Prop where
  mode : st.mode = .lineStart
  noComment : st.trailingComment = false
  unmatched : st.matchedKey = false
  length : st.sectionLength = inSection.length
  named : resize st.key st.sectionLength = inSection
  calls : st.calls = calls
  output : st.configFileOutput = output
  updated : st.outputKeyValueUpdated = updated
  place : o.updateConfigFile = true → st.newKeyValueInsertPos = place

/-- The end of the last line: the same without a place in the text. -/
structure AtEnd (inSection : Bytes) (calls : List (Bytes × Bytes)) (output : Bytes) (updated : Bool)
    (st : State) : Prop where
  length : st.sectionLength = inSection.length
  named : resize st.key st.sectionLength = inSection
  calls : st.calls = calls
  output : st.configFileOutput = output
  updated : st.outputKeyValueUpdated = updated

theorem length_resize (s : Bytes) (n : Nat) : (resize s n).length = n := by
  rw [resize, List.length_append, List.length_take, List.length_replicate]
  omega

theorem resize_append {s : Bytes} {n : Nat} (h : s.length = n) (t : Bytes) :
    resize (s ++ t) n = s := by
  rw [resize_of_le (by rw [List.length_append]; omega), ← h, List.take_left]

theorem resize_fullName {s : Bytes} {n : Nat} (h : s.length = n) (key : Bytes) :
    resize (fullName s key) n = s := by
  unfold fullName
  split
  · next hnil =>
    have hzero : n = 0 := by rw [← h, hnil, List.length_nil]
    rw [hnil, hzero, resize_of_le (Nat.zero_le _), List.take_zero]
  · exact resize_append h _

theorem read_name {inSection : Bytes} (hmode : st.mode = .lineStart)
    (hnamed : resize st.key st.sectionLength = inSection) (key : Word) :
    run o st key.val =
      { st with
        mode := .key
        key := fullName inSection key.val
        configFileOutput := st.configFileOutput ++ o.echo key.val } := by
  obtain ⟨w, halpha, halnum⟩ := key
  cases w with
  | nil => cases halpha
  | cons c w =>
    have hletter : isAlpha c = true := halpha
    obtain ⟨-, htrailing, hhash, -, -, hbracket, -⟩ := isAlnum_spec (halnum c List.mem_cons_self)
    have hspace : ¬ isHSpace c = true := by
      intro hspace
      rw [isTrailing_of_isBlank hspace] at htrailing
      cases htrailing
    have hbreaks := Word.ne_break (w := ⟨c :: w, halpha, halnum⟩) List.mem_cons_self
    have hname : (if inSection = [] then [] else inSection ++ [46]) ++ [c] =
        fullName inSection [c] := by
      unfold fullName
      split
      · rfl
      · rw [List.append_assoc, List.singleton_append]
    have hfirst : step o st c =
        { st with
          mode := .key
          key := fullName inSection [c]
          configFileOutput := st.configFileOutput ++ o.echo [c] } := by
      rw [step_lineStart hmode, atLineStart, if_neg hspace, if_neg hbreaks.2,
        if_neg (not_or.mpr ⟨hbreaks.1, hhash⟩), if_neg hbracket, if_neg (by rw [hletter]; decide),
        write_eq, hnamed]
      dsimp only
      rw [hname]
    have hrest : fullName inSection [c] ++ w = fullName inSection (c :: w) := by
      unfold fullName
      split
      · rfl
      · rw [List.append_assoc, List.cons_append, List.singleton_append]
    rw [run_cons, hfirst, read_key rfl fun d hd => halnum d (List.mem_cons_of_mem _ hd)]
    dsimp only
    rw [hrest, List.append_assoc, ← echo_append]
    rfl

end Parts

end WslFreeBSD.Reference.ConfigFile
