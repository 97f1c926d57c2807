import WslFreeBSD.Reference.ConfigEdits

/-!
# Updates of a configuration file

`ParseConfigFile` with an output key writes the file with the new value of the key. `Harmless` says
which files it updates as it should (`update_spec`): the first line with the key has a value on one
line with its closing quotes; or a header is found behind the section of the key, and a line of that
section can be followed by a new one; or the key is written at the end of the file. All other lines
are written as they are.
-/

namespace WslFreeBSD.Reference.ConfigFile

open Lib Config

/-! ## The condition -/

def updateOptions (k : PlainKey) : Options := ⟨true, some k.toConfigKey, false⟩

def updateFile (k : PlainKey) (file : Bytes) : Bytes :=
  (parseConfigFile (updateOptions k) (some file)).configFileOutput

/-- The test of the section is passed: the key starts with it. -/
def PlainKey.startsAs (k : PlainKey) (inSection : Bytes) : Bool :=
  0 < inSection.length &&
    eqIgnoringCase (k.fullName.take inSection.length) (cString inSection 0)

def PlainKey.isSection (k : PlainKey) (inSection : Bytes) : Bool :=
  eqIgnoringCase inSection k.inSection.val

def Body.matchesKey (k : PlainKey) (inSection : Bytes) (body : Body) : Bool :=
  body.key.any (k.names inSection)

/-- A value on one line, with its closing quotes. -/
def Body.Replaceable : Body → Prop
  | .keyValue _ _ _ _ items _ _ => (∀ i ∈ items.list, i.Unbroken) ∧ items.last.inQuote = false
  | _ => False

/-- The rest of a file can be updated. A line of the section can be followed by a new one if `place`
is true. -/
def Harmless (k : PlainKey) : Bytes → Bool → List Body → Prop
  | inSection, _, [] => k.startsAs inSection = true → k.isSection inSection = true
  | inSection, place, body :: bodies =>
    if body.matchesKey k inSection then body.Replaceable ∧ ∀ b ∈ bodies, b.Copied
    else if body.opensHeader && k.startsAs inSection then
      k.isSection inSection = true ∧ place = true ∧ ∀ b ∈ body :: bodies, b.Copied
    else
      body.Copied ∧
        Harmless k (body.nextSection inSection) (body.isPlace || (place && !body.opensHeader)) bodies

def ConfigText.bodies (file : ConfigText) : List Body := file.lines.map (·.body) ++ [file.last]

section Update

variable {k : PlainKey} {st : State} {inSection output : Bytes} {calls : List (Bytes × Bytes)}
  {updated : Bool} {place : Nat}

/-! ## Keys and sections -/

theorem sets_updateOptions (name : Bytes) : (updateOptions k).sets name = k.isNamed name := by
  change (eqIgnoringCase k.fullName name || false) = _
  rw [Bool.or_false, eqIgnoringCase_swap]
  rfl

theorem unmatched_update {key : Bytes} (h : updated = true ∨ k.names inSection key = false) :
    Unmatched (updateOptions k) inSection updated key := by
  rw [Unmatched, sets_updateOptions]
  rcases h with rfl | hnone
  · rfl
  · have hname : k.isNamed (cString (fullName inSection key) 0) = false := hnone
    rw [hname, Bool.and_false]

theorem cString_resize (s : Bytes) (n : Nat) : cString (resize s n) 0 = (cString s 0).take n := by
  unfold cString resize
  rw [List.drop_zero, List.drop_zero]
  induction s generalizing n with
  | nil => cases n <;> simp [List.replicate_succ]
  | cons c s ih =>
    cases n with
    | zero => simp
    | succ n =>
      by_cases hc : c = 0
      · simp [hc]
      · have hrest := ih n
        simpa [hc] using hrest

theorem startsAs_eq (hnamed : resize st.key st.sectionLength = inSection) :
    (decide (0 < st.sectionLength) &&
      k.toConfigKey.matchesStart (cString st.key 0) st.sectionLength) = k.startsAs inSection := by
  have hlength : inSection.length = st.sectionLength := by rw [← hnamed, length_resize]
  have hstring : (cString st.key 0).take st.sectionLength = cString inSection 0 := by
    rw [← cString_resize, hnamed]
  rw [ConfigKey.matchesStart, hstring, PlainKey.startsAs, hlength]
  exact congrArg _ (Bool.or_false _)

theorem endSection_update (hnamed : resize st.key st.sectionLength = inSection) :
    endSection (updateOptions k) st =
      if !st.outputKeyValueUpdated && k.startsAs inSection then
        { st with
          configFileOutput :=
            st.configFileOutput.take st.newKeyValueInsertPos ++
              10 :: (k.name.val ++ 61 :: k.value) ++
              st.configFileOutput.drop st.newKeyValueInsertPos
          outputKeyValueUpdated := true }
      else st := by
  rw [← startsAs_eq hnamed]
  unfold endSection updateOptions
  simp only [Bool.and_assoc, Bool.not_false, Bool.true_and]
  rfl

theorem endsQuietly_update (h : At (updateOptions k) inSection calls output updated place st)
    (hquiet : updated = true ∨ k.startsAs inSection = false) : EndsQuietly (updateOptions k) st := by
  intro text
  rw [endSection_update (by exact h.named)]
  apply if_neg
  rcases hquiet with hdone | hother
  · have hupdated : st.outputKeyValueUpdated = true := h.updated.trans hdone
    simp [hupdated]
  · simp [hother]

/-! ## A header behind the section -/

theorem text_of_opensHeader {body : Body} (h : body.opensHeader = true) :
    ∃ (spaces : Blanks) (rest : Bytes), body.text = spaces.val ++ 91 :: rest := by
  cases body with
  | header spaces name after remark => exact ⟨spaces, _, rfl⟩
  | malformed spaces front c rest =>
    cases front with
    | start => cases h
    | key name blanks => cases h
    | sectionStart => exact ⟨spaces, c.val :: rest.val, rfl⟩
    | sectionName name => exact ⟨spaces, name.val ++ c.val :: rest.val, by simp [Body.text, Broken.text]⟩
    | afterBracket name blanks =>
      exact ⟨spaces, name.val ++ 93 :: (blanks.val ++ c.val :: rest.val), by
        simp [Body.text, Broken.text]⟩
  | _ => cases h

def insertLine (k : PlainKey) (output : Bytes) (place : Nat) : Bytes :=
  output.take place ++ 10 :: (k.name.val ++ 61 :: k.value) ++ output.drop place

theorem insertLine_append (k : PlainKey) {output : Bytes} {place : Nat} (h : place ≤ output.length)
    (s : Bytes) : insertLine k (output ++ s) place = insertLine k output place ++ s := by
  rw [insertLine, insertLine, List.take_append_of_le_length h, List.drop_append_of_le_length h,
    List.append_assoc _ _ s]

theorem At.insert (h : At (updateOptions k) inSection calls output false place st)
    (hplace : place ≤ output.length) (hstarts : k.startsAs inSection = true) {body : Body}
    (hopens : body.opensHeader = true) :
    ∃ next, At (updateOptions k) inSection calls (insertLine k output place) true place next ∧
      run (updateOptions k) st body.text = run (updateOptions k) next body.text := by
  obtain ⟨spaces, rest, htext⟩ := text_of_opensHeader hopens
  let next : State := { st with
    configFileOutput := insertLine k output place
    outputKeyValueUpdated := true }
  have hnext : At (updateOptions k) inSection calls (insertLine k output place) true place next :=
    ⟨h.mode, h.noComment, h.unmatched, h.length, h.named, h.calls, rfl, rfl, h.place⟩
  refine ⟨next, hnext, ?_⟩
  have hspaces := h.spaces spaces
  have hspaces' := hnext.spaces spaces
  have hbracket : step (updateOptions k) (run (updateOptions k) st spaces.val) 91 =
      step (updateOptions k) (run (updateOptions k) next spaces.val) 91 := by
    have hpos : st.newKeyValueInsertPos = place := h.place rfl
    have hinsert : endSection (updateOptions k) (run (updateOptions k) st spaces.val) =
        run (updateOptions k) next spaces.val := by
      have hupdated : (!(run (updateOptions k) st spaces.val).outputKeyValueUpdated &&
          k.startsAs inSection) = true := by
        rw [hspaces.updated, hstarts]
        rfl
      have hinserted := insertLine_append k hplace spaces.val
      rw [endSection_update hspaces.named, if_pos hupdated, copy_spaces h.mode,
        copy_spaces hnext.mode]
      dsimp only
      rw [hpos, h.output]
      change { st with
        configFileOutput := insertLine k (output ++ spaces.val) place
        newKeyValueInsertPos := place
        outputKeyValueUpdated := true } = _
      rw [hinserted]
      rfl
    have hdone : endSection (updateOptions k) (run (updateOptions k) next spaces.val) =
        run (updateOptions k) next spaces.val := by
      rw [endSection_update hspaces'.named, hspaces'.updated]
      exact if_neg Bool.false_ne_true
    rw [step_lineStart hspaces.mode, step_lineStart hspaces'.mode, atLineStart, atLineStart,
      if_neg (by decide), if_neg (by decide), if_neg (by decide), if_pos rfl,
      if_neg (by decide), if_neg (by decide), if_neg (by decide), if_pos rfl, hinsert, hdone]
  rw [htext, run_append, run_append, run_cons, run_cons, hbracket]

/-! ## The value of the key -/

/-- What is behind the trimmed value are spaces. -/
def ValueState.Trimmed (v : ValueState) : Prop :=
  v.trimmedLength ≤ v.value.length ∧ ∀ c ∈ v.value.drop v.trimmedLength, isHSpace c = true

theorem ValueState.trimmed_add (v : ValueState) (s : Bytes) : (v.add s).Trimmed := by
  refine ⟨le_rfl, ?_⟩
  intro c hc
  have hnil : (v.add s).value.drop (v.add s).trimmedLength = [] := List.drop_length
  rw [hnil] at hc
  cases hc

theorem ValueState.Trimmed.read {v : ValueState} (h : v.Trimmed) (i : Item) : (v.read i).Trimmed := by
  cases i with
  | char c =>
    rw [ValueState.read]
    split
    · next hspace =>
      obtain ⟨hle, hall⟩ := h
      refine ⟨hle.trans (by simp), ?_⟩
      intro d hd
      have hd' : d ∈ (v.value ++ [c.val]).drop v.trimmedLength := hd
      rw [List.drop_append_of_le_length hle] at hd'
      rcases List.mem_append.mp hd' with hd | hd
      · exact hall d hd
      · rw [List.mem_singleton.mp hd]
        exact hspace
    · exact v.trimmed_add _
  | quote =>
    refine ⟨le_rfl, ?_⟩
    intro c hc
    have hnil : (v.read .quote).value.drop (v.read .quote).trimmedLength = [] := List.drop_length
    rw [hnil] at hc
    cases hc
  | hash => exact v.trimmed_add _
  | escape c => exact v.trimmed_add _
  | unknown c => exact v.trimmed_add _

theorem trimmed_last (items : Items) : items.last.Trimmed := by
  have hall : ∀ (list : List Item) (v : ValueState), v.Trimmed → (readItems v list).Trimmed := by
    intro list
    induction list with
    | nil => exact fun v h => h
    | cons i list ih => exact fun v h => ih (v.read i) (h.read i)
  exact hall items.list ValueState.init ⟨le_rfl, nofun⟩

def Items.behind (items : Items) : Blanks :=
  ⟨items.last.value.drop items.last.trimmedLength, (trimmed_last items).2⟩

theorem At.read_replaced (h : At (updateOptions k) inSection calls output false place st)
    (key : Word) (before after : Blanks) (items : Items) (hkey : k.names inSection key.val = true) :
    enter (updateOptions k) (run (updateOptions k) st (frontText key before after ++ items.text)) =
      { valueRead st (fullName inSection key.val) items (output ++ frontText key before after) with
        firstMatchedKey := true } := by
  let front : State := { st with
    mode := .afterEquals
    key := fullName inSection key.val
    configFileOutput := st.configFileOutput ++ (updateOptions k).echo (frontText key before after) }
  have hfront : run (updateOptions k) st (frontText key before after) = front :=
    read_front h.mode h.named key before after
  have hfirst : (!st.outputKeyValueUpdated &&
      (updateOptions k).sets (cString (fullName inSection key.val) 0)) = true := by
    have hname : k.isNamed (cString (fullName inSection key.val) 0) = true := hkey
    rw [h.updated, sets_updateOptions, hname]
    rfl
  have hstart : startValue (updateOptions k) front =
      { front with
        mode := .value
        firstMatchedKey := true
        matchedKey := false
        value := []
        trimmedLength := 0
        inQuote := false } := by
    rw [startValue_eq rfl, hfirst]
  have hmatched : (startValue (updateOptions k) front).firstMatchedKey = true := by rw [hstart]
  have hnothing : (startValue (updateOptions k) front).valueEcho (updateOptions k)
      (items.list.flatMap (·.written)) = [] := by
    rw [State.valueEcho, hmatched, Bool.true_or, if_pos rfl]
  rw [run_append, hfront, ConfigFile.read_value rfl rfl items (Or.inl hmatched), hnothing, hstart,
    List.append_nil, ← h.output]
  rfl

theorem storeValue_replaced (name : Bytes) (items : Items) (text : Bytes) :
    storeValue (updateOptions k)
        { valueRead st name items text with firstMatchedKey := true } =
      { valueRead st name items text with
        firstMatchedKey := true
        configFileOutput := text ++ (k.value ++ items.behind.val)
        outputKeyValueUpdated := true } := rfl

theorem At.ends_replaced (h : At (updateOptions k) inSection calls output false place st)
    (spaces : Blanks) (key : Word) (before after : Blanks) (items : Items) (remark : Option Rest)
    (closed : remark.isSome = true → items.last.inQuote = false)
    (hkey : k.names inSection key.val = true) (hquote : items.last.inQuote = false) {written : Bytes}
    (hwritten : written = output ++ (valueFront spaces key before after ++
      (k.value ++ (items.behind.val ++ remarkText remark)))) :
    ∃ place', Ends (updateOptions k) inSection calls written true place'
        (run (updateOptions k) st
          (Body.keyValue spaces key before after items remark closed).text) ∧
      (remark = none → EndsReturn (updateOptions k) inSection calls written true place'
        (run (updateOptions k) st
          (Body.keyValue spaces key before after items remark closed).text)) := by
  have hspaces := h.spaces spaces
  let start := run (updateOptions k) st spaces.val
  have hread := hspaces.read_replaced key before after items hkey
  let text := output ++ spaces.val ++ frontText key before after
  let read := { valueRead start (fullName inSection key.val) items text with firstMatchedKey := true }
  have hend : AtEnd inSection calls (text ++ (k.value ++ items.behind.val)) true
      (storeValue (updateOptions k) read) := by
    rw [storeValue_replaced]
    exact ⟨hspaces.length, resize_fullName hspaces.length.symm key.val, hspaces.calls, rfl, rfl⟩
  have hsplit : (Body.keyValue spaces key before after items remark closed).text =
      spaces.val ++ ((frontText key before after ++ items.text) ++ remarkText remark) := by
    rw [text_keyValue, valueFront]
    simp only [List.append_assoc]
  have htext : written = text ++ (k.value ++ items.behind.val) ++ remarkText remark := by
    rw [hwritten, valueFront]
    simp only [text, List.append_assoc]
  rw [hsplit, run_append, run_append]
  cases remark with
  | none =>
    have hends := ends_value hend rfl hquote hspaces.noComment rfl fun _ => hspaces.place rfl
    change Ends _ _ _ _ _ _ read ∧ EndsReturn _ _ _ _ _ _ read at hends
    have hread' : enter (updateOptions k) (run (updateOptions k) start
        (frontText key before after ++ items.text)) = read := hread
    rw [← hread'] at hends
    rw [htext, remarkText, List.append_nil, run_nil]
    exact ⟨place, ends_of_enter hends.1, fun _ => endsReturn_of_enter hends.2⟩
  | some comment =>
    have hends := ends_valueRemark hend rfl hquote rfl comment
    have hread' : enter (updateOptions k) (run (updateOptions k) start
        (frontText key before after ++ items.text)) = read := hread
    change Ends _ _ _ _ _ _ (run (updateOptions k) read (35 :: comment.val)) at hends
    rw [← hread', run_cons, ← step_enter (by rfl), ← run_cons] at hends
    have hends' : ∃ place', Ends (updateOptions k) inSection calls written true place'
        (run (updateOptions k) (run (updateOptions k) start (frontText key before after ++ items.text))
          (35 :: comment.val)) := by
      rw [htext]
      exact ⟨_, hends⟩
    obtain ⟨place', hends'⟩ := hends'
    exact ⟨place', hends', fun hnone => absurd hnone (Option.some_ne_none comment)⟩

/-! ## Lines of an update -/

theorem shown_of_copied {body : Body} (h : body.Copied) : body.Shown := by
  cases body with
  | keyValue spaces key before after items remark closed =>
    exact Or.inl fun i hi => isUnknown_of_plain (h i hi)
  | badEscape spaces key before after items c rest =>
    exact fun i hi => isUnknown_of_plain (h i hi)
  | _ => trivial

theorem copiedBy_of_copied {o : Options} {body : Body} (h : body.Copied) : body.CopiedBy o := by
  cases body with
  | keyValue spaces key before after items remark closed => exact copiedItems_of_plain h
  | badEscape spaces key before after items c rest => exact copiedItems_of_plain h
  | _ => trivial

/-- Only lines were copied so far. `place` is behind a line of the section, if there is one. -/
structure Copying (k : PlainKey) (done : List Line) (hasPlace : Bool) (st : State) : Prop where
  reads : ∃ calls place, At (updateOptions k) (lastSection [] done) calls (linesText done) false
    place st ∧ (hasPlace = true → ∃ before l after, done = before ++ l :: after ∧
      place = (linesText before ++ l.body.text).length ∧
      ∀ line ∈ after, line.body.opensHeader = false)
  shown : ∀ line ∈ done, line.body.Shown
  unnamed : ∀ call ∈ lineCalls [] done, k.isNamed call.1 = false

def Updated (k : PlainKey) (done : List Line) (st : State) : Prop :=
  ∃ ls inSection calls place, Edits k done ls ∧ lastSection [] ls = lastSection [] done ∧
    At (updateOptions k) inSection calls (linesText ls) true place st

/-- The same in front of the end of the last line. -/
structure Wrote (k : PlainKey) (done : List Line) (line : Line) (st : State) : Prop where
  edited : ∃ ls inSection calls output place, Edits k done ls ∧
    lastSection [] ls = lastSection [] done ∧ output ++ line.ending = linesText ls ∧
    Ends (updateOptions k) inSection calls output true place st ∧
    (line.hasReturn = true → EndsReturn (updateOptions k) inSection calls output true place st)

theorem updated_of_wrote {done : List Line} {line : Line}
    (h : Wrote k done line (run (updateOptions k) st line.body.text)) :
    Updated k done (run (updateOptions k) st line.text) := by
  obtain ⟨ls, inSection, calls, output, place, hedits, hsection, htext, hends, hreturn⟩ := h.edited
  refine ⟨ls, inSection, calls, place, hedits, hsection, ?_⟩
  rw [← htext]
  exact hends.line hreturn

theorem Wrote.updates {file : ConfigText}
    (h : Wrote k (file.lines ++ [file.last.line]) file.last.line st) :
    Updates k file.text (finish (updateOptions k) st).configFileOutput := by
  obtain ⟨ls, inSection, calls, output, place, hedits, -, htext, hends, -⟩ := h.edited
  obtain ⟨last, hlast, hfinish⟩ := hends.atEnd
  have houtput : (finish (updateOptions k) st).configFileOutput = output := by
    have hsame : endOfFile (updateOptions k) [10] last = last := by
      change (if !last.outputKeyValueUpdated && true then _ else last) = last
      rw [hlast.updated]
      rfl
    rw [hfinish, hsame, hlast.output]
  rw [houtput]
  exact updates_of_edits hedits htext

theorem Updated.wrote {done : List Line} (h : Updated k done st) (line : Line)
    (hline : line.body.Copied) :
    Wrote k (done ++ [line]) line (run (updateOptions k) st line.body.text) := by
  obtain ⟨ls, inSection, calls, place, hedits, hsection, hat⟩ := h
  obtain ⟨hends, hreturn⟩ := hat.ends_body line.body (Or.inr rfl) rfl
    (fun _ => endsQuietly_update hat (Or.inl rfl)) (fun _ _ => unmatched_update (Or.inl rfl))
    (copiedBy_of_copied hline)
  refine ⟨ls ++ [line], _, _, _, _, hedits.append hsection fun l hl => ?_, ?_, ?_, hends,
    fun hr => hreturn (line.allowed hr)⟩
  · rw [List.mem_singleton.mp hl]
    exact shown_of_copied hline
  · rw [lastSection_append, hsection, lastSection_append]
  · rw [linesText_append, linesText_singleton, Line.text, ← List.append_assoc]
    rfl

theorem Updated.run_lines {done : List Line} (h : Updated k done st) {ls : List Line}
    (hls : ∀ line ∈ ls, line.body.Copied) :
    Updated k (done ++ ls) (run (updateOptions k) st (linesText ls)) := by
  induction ls generalizing done st with
  | nil =>
    rw [List.append_nil]
    exact h
  | cons line ls ih =>
    have hline := updated_of_wrote (h.wrote line (hls line List.mem_cons_self))
    have hrest := ih hline fun l hl => hls l (List.mem_cons_of_mem _ hl)
    rw [List.append_assoc] at hrest
    rw [linesText_cons, run_append]
    exact hrest

theorem Copying.wrote_replaced {done : List Line} {hasPlace : Bool}
    (h : Copying k done hasPlace st) (line : Line)
    (hkey : line.body.matchesKey k (lastSection [] done) = true) (hline : line.body.Replaceable) :
    Wrote k (done ++ [line]) line (run (updateOptions k) st line.body.text) := by
  obtain ⟨calls, place, hat, -⟩ := h.reads
  obtain ⟨body, hasReturn, allowed⟩ := line
  cases body with
  | keyValue spaces key before after items remark closed =>
    obtain ⟨hunbroken, hquote⟩ := hline
    obtain ⟨line', hedits, hsection, htext, hreturn'⟩ := edits_replace h.shown h.unnamed spaces key
      before after items remark closed hkey hunbroken items.behind hasReturn allowed
    obtain ⟨place', hends, hreturn⟩ := hat.ends_replaced spaces key before after items remark closed
      hkey hquote rfl
    refine ⟨done ++ [line'], _, _, _, _, hedits, ?_, ?_, hends, fun hr => hreturn (allowed hr).1⟩
    · rw [lastSection_append, lastSection_append]
      exact hsection
    · have hending : line'.ending = Line.ending
          ⟨.keyValue spaces key before after items remark closed, hasReturn, allowed⟩ := by
        rw [Line.ending, Line.ending, hreturn']
      rw [linesText_append, linesText_singleton, htext, hending]
      simp only [List.append_assoc]
  | _ => exact absurd hline id

theorem Copying.wrote_inserted {done : List Line} (h : Copying k done true st) (line : Line)
    (hopens : line.body.opensHeader = true) (hstarts : k.startsAs (lastSection [] done) = true)
    (hname : k.names (lastSection [] done) k.name.val = true) (hline : line.body.Copied) :
    Wrote k (done ++ [line]) line (run (updateOptions k) st line.body.text) := by
  obtain ⟨calls, place, hat, hplace⟩ := h.reads
  obtain ⟨before, l, after, rfl, rfl, hafter⟩ := hplace rfl
  have hsplit : linesText (before ++ l :: after) =
      (linesText before ++ l.body.text) ++ (l.ending ++ linesText after) := by
    rw [linesText_append, linesText_cons, Line.text]
    simp only [List.append_assoc]
  have hle : (linesText before ++ l.body.text).length ≤ (linesText (before ++ l :: after)).length := by
    rw [hsplit]
    exact (List.prefix_append _ _).length_le
  have hfile : before ++ l :: after = (before ++ [l]) ++ after := by simp
  have hsection : lastSection [] (before ++ [l]) = lastSection [] (before ++ l :: after) := by
    rw [hfile, lastSection_append [] (before ++ [l]) after, lastSection_of_no_header hafter]
  have hunnamed : ∀ call ∈ lineCalls [] (before ++ [l]), k.isNamed call.1 = false := by
    intro call hcall
    apply h.unnamed call
    rw [hfile, lineCalls_append]
    exact List.mem_append_left _ hcall
  have hnone : ∀ m ∈ ([] : List Line), m.body.Shown := fun _ hm => absurd hm List.not_mem_nil
  obtain ⟨ls, hedits, hlast, htext⟩ := edits_insert h.shown hnone hsection rfl hunnamed hname
    (Or.inl rfl)
  obtain ⟨next, hnext, hrun⟩ := hat.insert hle hstarts hopens
  have hinserted : insertLine k (linesText (before ++ l :: after))
      (linesText before ++ l.body.text).length = linesText ls := by
    rw [insertLine, hsplit, List.take_left, List.drop_left, htext]
    simp [linesText]
  rw [hinserted] at hnext
  rw [hrun]
  exact Updated.wrote ⟨ls, _, _, _, hedits, hlast rfl, hnext⟩ line hline

theorem Copying.ends_body {done : List Line} {hasPlace : Bool} (h : Copying k done hasPlace st)
    {body : Body} (hkey : body.matchesKey k (lastSection [] done) = false)
    (hheader : (body.opensHeader && k.startsAs (lastSection [] done)) = false) (hbody : body.Copied) :
    ∃ calls place, Ends (updateOptions k) (body.nextSection (lastSection [] done)) calls
        (linesText done ++ body.text) false place (run (updateOptions k) st body.text) ∧
      (body.AllowsReturn → EndsReturn (updateOptions k) (body.nextSection (lastSection [] done)) calls
        (linesText done ++ body.text) false place (run (updateOptions k) st body.text)) ∧
      ((body.isPlace || (hasPlace && !body.opensHeader)) = true → ∀ line : Line, line.body = body →
        ∃ before l after, done ++ [line] = before ++ l :: after ∧
          place = (linesText before ++ l.body.text).length ∧
          ∀ line ∈ after, line.body.opensHeader = false) := by
  obtain ⟨calls, place, hat, hplace⟩ := h.reads
  have hquiet : body.opensHeader = true → EndsQuietly (updateOptions k) st := by
    intro hopens
    rw [hopens, Bool.true_and] at hheader
    exact endsQuietly_update hat (Or.inr hheader)
  have hunmatched : ∀ key ∈ body.key,
      Unmatched (updateOptions k) (lastSection [] done) false key := by
    intro key hmem
    apply unmatched_update (Or.inr _)
    rw [Body.matchesKey, hmem] at hkey
    exact hkey
  obtain ⟨hends, hreturn⟩ := hat.ends_body body (Or.inr rfl) rfl hquiet hunmatched
    (copiedBy_of_copied hbody)
  refine ⟨_, _, hends, hreturn, ?_⟩
  rintro hnext line rfl
  cases hhere : line.body.isPlace with
  | true => exact ⟨done, line, [], rfl, rfl, nofun⟩
  | false =>
    rw [hhere, Bool.false_or, Bool.and_eq_true] at hnext
    obtain ⟨before, l, after, rfl, hpos, hafter⟩ := hplace hnext.1
    refine ⟨before, l, after ++ [line], by simp, hpos, ?_⟩
    intro m hm
    rcases List.mem_append.mp hm with hm | hm
    · exact hafter m hm
    · rw [List.mem_singleton.mp hm]
      exact Bool.not_eq_true' _ |>.mp hnext.2

theorem unnamed_of_not_matches {body : Body} {call : Bytes × Bytes}
    (hkey : body.matchesKey k inSection = false) (hcall : call ∈ body.calls inSection) :
    k.isNamed call.1 = false := by
  cases body with
  | keyValue spaces key before after items remark closed =>
    rw [Body.calls] at hcall
    split at hcall
    · cases hcall
    · rw [List.mem_singleton.mp hcall]
      exact hkey
  | _ => cases hcall

theorem Copying.append {done : List Line} {hasPlace : Bool} (h : Copying k done hasPlace st)
    (line : Line) (hkey : line.body.matchesKey k (lastSection [] done) = false)
    (hheader : (line.body.opensHeader && k.startsAs (lastSection [] done)) = false)
    (hline : line.body.Copied) :
    Copying k (done ++ [line]) (line.body.isPlace || (hasPlace && !line.body.opensHeader))
      (run (updateOptions k) st line.text) := by
  obtain ⟨calls, place, hends, hreturn, hplace⟩ := h.ends_body hkey hheader hline
  have hsection : lastSection [] (done ++ [line]) = line.body.nextSection (lastSection [] done) :=
    lastSection_append [] done [line]
  refine ⟨⟨calls, place, ?_, fun hnext => hplace hnext line rfl⟩, ?_, ?_⟩
  · have hline := hends.line fun hr => hreturn (line.allowed hr)
    rw [hsection, linesText_append, linesText_singleton, Line.text, ← List.append_assoc]
    exact hline
  · intro l hl
    rcases List.mem_append.mp hl with hl | hl
    · exact h.shown l hl
    · rw [List.mem_singleton.mp hl]
      exact shown_of_copied hline
  · intro call hcall
    rw [lineCalls_append] at hcall
    rcases List.mem_append.mp hcall with hcall | hcall
    · exact h.unnamed call hcall
    · refine unnamed_of_not_matches hkey ?_
      rw [lineCalls_cons] at hcall
      simpa [lineCalls] using hcall

/-! ## The whole file -/

theorem names_of_isSection (h : k.isSection inSection = true) :
    k.names inSection k.name.val = true := by
  have hmap : inSection.map toLower = k.inSection.val.map toLower := of_decide_eq_true h
  have hne : inSection ≠ [] := by
    rintro rfl
    exact PlainKey.word_ne_nil k.inSection (List.map_eq_nil_iff.mp hmap.symm)
  have hnul : 0 ∉ fullName inSection k.name.val := by
    rw [fullName, if_neg hne]
    intro hmem
    rcases List.mem_append.mp hmem with hmem | hmem
    · have hlower : (0 : UInt8) ∈ k.inSection.val.map toLower := by
        rw [← hmap]
        exact List.mem_map.mpr ⟨0, hmem, rfl⟩
      obtain ⟨c, hc, hzero⟩ := List.mem_map.mp hlower
      have halpha : isAlpha c = false := by
        rw [← isAlpha_toLower, hzero]
        rfl
      have hsame : toLower c = c := by
        unfold toLower
        apply if_neg
        rintro ⟨hlow, hhigh⟩
        have hletter : isAlpha c = true := by
          unfold isAlpha
          simp [hlow, hhigh]
        rw [hletter] at halpha
        cases halpha
      rw [hsame] at hzero
      exact (isAlnum_spec (k.inSection.property.2 c hc)).1 hzero
    · rcases List.mem_cons.mp hmem with heq | hmem
      · cases heq
      · exact k.name.not_mem rfl hmem
  rw [PlainKey.names, cString_of_not_mem hnul, fullName, if_neg hne]
  apply decide_eq_true
  rw [PlainKey.fullName, List.map_append, List.map_append, hmap]

/-- The header that is written at the end of the file. -/
def PlainKey.header (k : PlainKey) : Line :=
  Body.line (.header ⟨[], by simp⟩ k.inSection ⟨[], by simp⟩ none)

theorem Copying.updates_append {file : ConfigText} {hasPlace : Bool}
    (h : Copying k file.lines hasPlace st)
    (hkey : file.last.matchesKey k (lastSection [] file.lines) = false)
    (hheader : (file.last.opensHeader && k.startsAs (lastSection [] file.lines)) = false)
    (hlast : file.last.Copied)
    (hsection : k.startsAs (file.last.nextSection (lastSection [] file.lines)) = true →
      k.isSection (file.last.nextSection (lastSection [] file.lines)) = true) :
    Updates k file.text
      (finish (updateOptions k) (run (updateOptions k) st file.last.text)).configFileOutput := by
  obtain ⟨calls, place, ⟨⟨last, hat, hfinish⟩, -⟩, -, -⟩ := h.ends_body hkey hheader hlast
  have hcopied := h.append file.last.line hkey hheader hlast
  let inSection := file.last.nextSection (lastSection [] file.lines)
  let header : List Line := if k.startsAs inSection then [] else [k.header]
  have hopen : lastSection [] (file.lines ++ [file.last.line]) = inSection := lastSection_append _ _ _
  have hheader' : ∀ line ∈ header, line.body.Shown := by
    intro line hline
    have hone : line = k.header := by
      unfold header at hline
      split at hline
      · cases hline
      · exact List.mem_singleton.mp hline
    rw [hone]
    trivial
  have hcalls : lineCalls inSection header = [] := by
    unfold header
    split <;> rfl
  have hname : k.names (lastSection inSection header) k.name.val = true := by
    unfold header
    split
    · next hstarts => exact names_of_isSection (hsection hstarts)
    · exact names_of_isSection (decide_eq_true rfl)
  obtain ⟨ls, hedits, -, htext⟩ := edits_insert hcopied.shown hheader' hopen hcalls hcopied.unnamed
    hname (Or.inr rfl)
  have hwritten : endOfFile (updateOptions k) [10] last =
      writeNewKeyValue k.toConfigKey [10] last := by
    change (if !last.outputKeyValueUpdated && true then _ else last) = _
    rw [hat.updated]
    rfl
  have hheaderText : (if 0 < last.sectionLength &&
      k.toConfigKey.matchesStart (cString last.key 0) last.sectionLength then []
      else 91 :: (k.toConfigKey.inSection ++ [93, 10])) = linesText header := by
    rw [startsAs_eq hat.named]
    unfold header
    split
    · rfl
    · change 91 :: (k.inSection.val ++ [93, 10]) = _
      rw [linesText_singleton]
      simp [PlainKey.header, Body.line_text, Body.text, remarkText]
  refine updates_of_edits hedits ?_
  rw [hfinish, hwritten, htext]
  change last.configFileOutput ++ [10] ++ _ ++ k.name.val ++ 61 :: k.value ++ [10] = _
  rw [hheaderText, hat.output]
  simp [Body.line, Line.ending, linesText]

theorem Copying.run_lines {done : List Line} {hasPlace : Bool} (h : Copying k done hasPlace st)
    {ls : List Line} {bodies : List Body}
    (hls : Harmless k (lastSection [] done) hasPlace (ls.map (·.body) ++ bodies)) :
    (∃ hasPlace', Copying k (done ++ ls) hasPlace' (run (updateOptions k) st (linesText ls)) ∧
      Harmless k (lastSection [] (done ++ ls)) hasPlace' bodies) ∨
    (Updated k (done ++ ls) (run (updateOptions k) st (linesText ls)) ∧ ∀ b ∈ bodies, b.Copied) := by
  induction ls generalizing done hasPlace st with
  | nil =>
    rw [List.append_nil]
    exact Or.inl ⟨hasPlace, h, hls⟩
  | cons line ls ih =>
    have hassoc : done ++ line :: ls = (done ++ [line]) ++ ls := by simp
    rw [linesText_cons, run_append, hassoc]
    have hfinished : Wrote k (done ++ [line]) line (run (updateOptions k) st line.body.text) →
        (∀ b ∈ ls.map (·.body) ++ bodies, b.Copied) →
        Updated k (done ++ [line] ++ ls)
            (run (updateOptions k) (run (updateOptions k) st line.text) (linesText ls)) ∧
          ∀ b ∈ bodies, b.Copied := by
      intro hwrote hrest
      refine ⟨(updated_of_wrote hwrote).run_lines fun l hl => ?_, fun b hb => ?_⟩
      · exact hrest l.body (List.mem_append_left _ (List.mem_map_of_mem hl))
      · exact hrest b (List.mem_append_right _ hb)
    rw [List.map_cons, List.cons_append, Harmless] at hls
    split at hls
    · next hkey => exact Or.inr (hfinished (h.wrote_replaced line hkey hls.1) hls.2)
    · next hkey =>
      split at hls
      · next hheader =>
        obtain ⟨hopens, hstarts⟩ := Bool.and_eq_true_iff.mp hheader
        obtain ⟨hsection, rfl, hcopied⟩ := hls
        exact Or.inr (hfinished (h.wrote_inserted line hopens hstarts (names_of_isSection hsection)
          (hcopied line.body List.mem_cons_self)) fun b hb => hcopied b (List.mem_cons_of_mem _ hb))
      · next hheader =>
        have hnext := h.append line (Bool.eq_false_iff.mpr hkey) (Bool.eq_false_iff.mpr hheader) hls.1
        have hopen : lastSection [] (done ++ [line]) = line.body.nextSection (lastSection [] done) :=
          lastSection_append [] done [line]
        apply ih hnext
        rw [hopen]
        exact hls.2

end Update

def memoryKey : PlainKey where
  inSection := ⟨ascii "wsl2", by decide⟩
  name := ⟨ascii "memory", by decide⟩
  value := ascii "4GB"
  plain := by decide
  noSpaceFront := by decide
  noSpaceBack := by decide

/-- A section without the key, in front of another one. -/
def swapFile : ConfigText where
  lines :=
    [Body.line (.header ⟨[], by simp⟩ memoryKey.inSection ⟨[], by simp⟩ none),
      ⟨.keyValue ⟨[], by simp⟩ ⟨ascii "swap", by decide⟩ ⟨[], by simp⟩ oneSpace
        ⟨[.char ⟨48, by decide⟩], trivial, by decide⟩ none nofun, true, fun _ => ⟨rfl, rfl⟩⟩,
      Body.line (.malformed ⟨[], by simp⟩ .start
        ⟨61, rfl, by decide, by decide, by decide, by decide, rfl⟩ ⟨ascii " no key", by decide⟩)]
  last := .header ⟨[], by simp⟩ ⟨ascii "boot", by decide⟩ ⟨[], by simp⟩ none

theorem isWord_a : ([97] : Bytes).head?.any isAlpha = true ∧ ∀ c ∈ ([97] : Bytes), isAlnum c = true := by
  decide

theorem isWord_k :
    ([107] : Bytes).head?.any isAlpha = true ∧ ∀ c ∈ ([107] : Bytes), isAlnum c = true := by
  decide

def shortKey : PlainKey where
  inSection := ⟨[97], isWord_a⟩
  name := ⟨[107], isWord_k⟩
  value := [50]
  plain := by decide
  noSpaceFront := by decide
  noSpaceBack := by decide

end WslFreeBSD.Reference.ConfigFile
