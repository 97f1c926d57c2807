import Mathlib.Data.List.Find
import WslFreeBSD.Reference.ConfigLines

/-!
# The reference on files that need no rule of their own

The lines of a common file are lines as `ParseConfigFile` reads them (`exists_lines`), and so their
assignments reach `SetConfig` with the names `section.key` (`setCalls_commonFile`). With the calls of
`wsl_conf_apply` this gives the same first value of every key (`first_value_agrees`).
-/

namespace WslFreeBSD.Reference.ConfigFile

open Lib Config

/-! ## Values -/

def quotedItem : QuotedItem → Item
  | .char c => if c.val = 35 then .hash else charItem c.val
  | .escape e => .escape ⟨e.letter, by cases e <;> rfl⟩

theorem quotedItem_char (c : QuotedChar) :
    c.val = 35 ∧ quotedItem (.char c) = .hash ∨
      ∃ h : IsPlainChar c.val, quotedItem (.char c) = .char ⟨c.val, h⟩ := by
  by_cases hhash : c.val = 35
  · exact Or.inl ⟨hhash, if_pos hhash⟩
  · obtain ⟨-, hbreak, hreturn, hquote, hslash⟩ := c.property
    have hplain : IsPlainChar c.val := ⟨hbreak, hreturn, hquote, hhash, hslash⟩
    exact Or.inr ⟨hplain, (if_neg hhash).trans (charItem_eq hplain)⟩

theorem text_quotedItem (i : QuotedItem) : (quotedItem i).text = i.text := by
  cases i with
  | char c =>
    rcases quotedItem_char c with ⟨hhash, hitem⟩ | ⟨hplain, hitem⟩
    · rw [hitem, QuotedItem.text, hhash]
      rfl
    · rw [hitem]
      rfl
  | escape e => rfl

theorem isUnknown_quotedItem (i : QuotedItem) : (quotedItem i).isUnknown = false := by
  cases i with
  | char c =>
    rcases quotedItem_char c with ⟨-, hitem⟩ | ⟨hplain, hitem⟩
    · rw [hitem]
      rfl
    · rw [hitem]
      rfl
  | escape e => rfl

theorem read_quotedItem (v : ValueState) (i : QuotedItem) :
    ∃ n, v.read (quotedItem i) = { v with value := v.value ++ [i.meaning], trimmedLength := n } := by
  cases i with
  | char c =>
    rcases quotedItem_char c with ⟨hhash, hitem⟩ | ⟨hplain, hitem⟩
    · rw [hitem, QuotedItem.meaning, hhash]
      exact ⟨_, rfl⟩
    · rw [hitem, ValueState.read]
      split
      · exact ⟨_, rfl⟩
      · exact ⟨_, rfl⟩
  | escape e =>
    cases e <;> exact ⟨_, rfl⟩

theorem read_quotedItems (v : ValueState) (hquote : v.inQuote = true) (items : List QuotedItem) :
    Placed v (items.map quotedItem) ∧
      ∃ n, readItems v (items.map quotedItem) =
        { v with value := v.value ++ items.map (·.meaning), trimmedLength := n } := by
  induction items generalizing v with
  | nil =>
    refine ⟨trivial, v.trimmedLength, ?_⟩
    change v = { v with value := v.value ++ [] }
    rw [List.append_nil]
  | cons i items ih =>
    obtain ⟨m, hm⟩ := read_quotedItem v i
    obtain ⟨hplaced, n, hn⟩ := ih (v.read (quotedItem i)) (by rw [hm]; exact hquote)
    refine ⟨placed_cons.mpr ⟨fun _ => hquote, hplaced⟩, n, ?_⟩
    change readItems (v.read (quotedItem i)) (items.map quotedItem) = _
    rw [hn, hm, List.map_cons, List.append_assoc]
    rfl

theorem isPlainChar_of_plainText {text : PlainText} {c : UInt8} (h : c ∈ text.val) :
    IsPlainChar c := by
  obtain ⟨-, hbreak, hreturn, hquote, hslash, hhash⟩ := text.property c h
  exact ⟨hbreak, hreturn, hquote, hhash, hslash⟩

theorem exists_items (after : Blanks) (value : CommonValue) (behind : Blanks) :
    ∃ (after' : Blanks) (items : Items),
      after'.val ++ items.text = after.val ++ (value.text ++ behind.val) ∧
      (∀ i ∈ items.list, i.isUnknown = false) ∧ items.last.inQuote = false ∧
      items.last.stored = value.meaning := by
  cases value with
  | plain text =>
    -- the spaces in front of the text do not belong to the items
    let s := after.val ++ (text.val ++ behind.val)
    have hplain : ∀ c ∈ s.dropWhile isHSpace, IsPlainChar c := by
      intro c hc
      have hmem := (List.dropWhile_suffix _).mem hc
      rcases List.mem_append.mp hmem with hmem | hmem
      · exact isPlainChar_of_isHSpace (after.property c hmem)
      · rcases List.mem_append.mp hmem with hmem | hmem
        · exact isPlainChar_of_plainText hmem
        · exact isPlainChar_of_isHSpace (behind.property c hmem)
    have hspace : ∀ c ∈ (((s.dropWhile isHSpace).map charItem).flatMap (·.text)).head?,
        isHSpace c = false := by
      rw [text_charItems hplain]
      intro c hc
      cases hrest : s.dropWhile isHSpace with
      | nil =>
        rw [hrest] at hc
        cases hc
      | cons d r =>
        have hhead := List.head_dropWhile_not (l := s) isHSpace (by rw [hrest]; simp)
        rw [hrest] at hc
        obtain rfl : d = c := Option.some.inj hc
        simpa [hrest] using hhead
    have htrim : (s.dropWhile isHSpace).rdropWhile isHSpace = trim isBlank isBlank text.val := by
      change trim isBlank isBlank (after.val ++ (text.val ++ behind.val)) = _
      rw [trim_append_left after.property, trim_append_right _ behind.property]
    refine ⟨⟨s.takeWhile isHSpace, fun c hc => List.mem_takeWhile_imp hc⟩,
      ⟨(s.dropWhile isHSpace).map charItem, placed_charItems hplain _, hspace⟩, ?_, ?_, ?_, ?_⟩
    · change s.takeWhile isHSpace ++ ((s.dropWhile isHSpace).map charItem).flatMap (·.text) = s
      rw [text_charItems hplain, List.takeWhile_append_dropWhile]
    · exact fun i hi => isUnknown_of_plain (plain_charItems hplain hi)
    · change (readItems _ _).inQuote = false
      rw [read_charItems hplain]
    · change (readItems _ _).stored = _
      rw [stored_charItems hplain, htrim]
      rfl
  | quoted items =>
    obtain ⟨hplaced, n, hn⟩ := read_quotedItems ⟨[], 0, true⟩ rfl items
    let list : List Item :=
      .quote :: (items.map quotedItem ++ (.quote :: behind.val.map charItem))
    have hbehind : ∀ c ∈ behind.val, IsPlainChar c :=
      fun c hc => isPlainChar_of_isHSpace (behind.property c hc)
    have htext : list.flatMap (·.text) = (CommonValue.quoted items).text ++ behind.val := by
      have hitems : (items.map quotedItem).flatMap (·.text) = items.flatMap (·.text) := by
        rw [List.flatMap_map]
        exact List.flatMap_congr fun i _ => text_quotedItem i
      simp only [list, List.flatMap_cons, List.flatMap_append, hitems, text_charItems hbehind]
      simp [CommonValue.text, Item.text]
    have hread : readItems ValueState.init list =
        ⟨items.map (·.meaning) ++ behind.val, (items.map (·.meaning)).length, false⟩ := by
      change readItems ⟨[], 0, true⟩ _ = _
      rw [readItems_append, hn]
      change readItems ⟨items.map (·.meaning), (items.map (·.meaning)).length, false⟩
        (behind.val.map charItem) = _
      exact read_spaces _ behind.property
    have hall : Placed ValueState.init list := by
      change Placed ⟨[], 0, true⟩ (items.map quotedItem ++ (.quote :: behind.val.map charItem))
      exact placed_append.mpr ⟨hplaced, placed_charItems hbehind _⟩
    refine ⟨after, ⟨list, hall, ?_⟩, ?_, ?_, ?_, ?_⟩
    · rw [htext]
      intro c hc
      obtain rfl : 34 = c := Option.some.inj hc
      rfl
    · change after.val ++ list.flatMap (·.text) = _
      rw [htext]
    · intro i hi
      rcases List.mem_cons.mp hi with rfl | hi
      · rfl
      · rcases List.mem_append.mp hi with hi | hi
        · obtain ⟨j, -, rfl⟩ := List.mem_map.mp hi
          exact isUnknown_quotedItem j
        · rcases List.mem_cons.mp hi with rfl | hi
          · rfl
          · exact isUnknown_of_plain (plain_charItems hbehind hi)
    · change (readItems _ list).inQuote = false
      rw [hread]
    · change (readItems _ list).stored = _
      rw [hread, ValueState.stored]
      dsimp only
      rw [resize_of_le (by simp), List.take_left]
      rfl

/-! ## Lines -/

def noSpace : Blanks := ⟨[], by decide⟩

def toRest (text : CommentText) : Rest := ⟨text.val, fun c hc => (text.property c hc).2⟩

theorem remarkText_toRest (remark : Option CommentText) :
    remarkText (remark.map toRest) = commentText remark := by
  cases remark <;> rfl

/-- The call of `SetConfig` for an assignment. -/
def setCall (assignment : Bytes × Bytes × Bytes) : Bytes × Bytes :=
  (fullName assignment.1 assignment.2.1, assignment.2.2)

theorem nul_not_mem_fullName {inSection : Bytes} (hsection : ∀ c ∈ inSection, isAlnum c = true)
    (key : Word) : 0 ∉ fullName inSection key.val := by
  have hkey : 0 ∉ key.val := key.not_mem rfl
  unfold fullName
  split
  · exact hkey
  · intro hmem
    rcases List.mem_append.mp hmem with hmem | hmem
    · exact (isAlnum_spec (hsection 0 hmem)).1 rfl
    · rcases List.mem_cons.mp hmem with heq | hmem
      · cases heq
      · exact hkey hmem

theorem exists_line (line : CommonLine) :
    ∃ l : Line, l.text = line.text ++ [10] ∧ l.body.Valid ∧ l.body.Shown ∧
      ∀ inSection : Bytes, (∀ c ∈ inSection, isAlnum c = true) →
        l.body.nextSection inSection = line.nextSection inSection ∧
          l.body.calls inSection = (line.assignment inSection).map setCall := by
  cases line with
  | blank spaces =>
    exact ⟨⟨.blank spaces, false, nofun⟩, rfl, trivial, trivial, fun _ _ => ⟨rfl, rfl⟩⟩
  | comment spaces text =>
    exact ⟨⟨.comment spaces (toRest text), false, nofun⟩, rfl, trivial, trivial,
      fun _ _ => ⟨rfl, rfl⟩⟩
  | header spaces name after remark =>
    refine ⟨⟨.header spaces name.val after (remark.map toRest), false, nofun⟩, ?_, trivial, trivial,
      fun _ _ => ⟨rfl, rfl⟩⟩
    change Body.text _ ++ [10] = _
    rw [Body.text, remarkText_toRest]
    rfl
  | keyValue spaces key before after value behind remark =>
    obtain ⟨after', items, htext, hknown, hquote, hstored⟩ := exists_items after value behind
    refine ⟨⟨.keyValue spaces key before after' items (remark.map toRest) fun _ => hquote, false,
      nofun⟩, ?_, ⟨hquote, hknown⟩, Or.inl hknown, fun inSection hsection => ⟨rfl, ?_⟩⟩
    · change Body.text _ ++ [10] = _
      have hsplit : after'.val ++ (items.text ++ commentText remark) =
          after.val ++ (value.text ++ (behind.val ++ commentText remark)) := by
        rw [← List.append_assoc, htext]
        simp
      rw [Body.text, remarkText_toRest, hsplit]
      rfl
    · have hname := cString_of_not_mem (nul_not_mem_fullName hsection key)
      have hcopied : CopiedItems (readOptions true) items := ⟨rfl, hknown⟩
      rw [calls_keyValue hcopied, hquote, if_neg Bool.false_ne_true, hname, hstored]
      rfl

theorem exists_lines (lines : List CommonLine) :
    ∃ ls : List Line, ls.flatMap (·.text) = lines.flatMap (fun line => line.text ++ [10]) ∧
      (∀ l ∈ ls, l.body.Valid ∧ l.body.Shown) ∧
      ∀ inSection : Bytes, (∀ c ∈ inSection, isAlnum c = true) →
        lineCalls inSection ls = (assignments inSection lines).map setCall := by
  induction lines with
  | nil => exact ⟨[], rfl, fun _ h => absurd h List.not_mem_nil, fun _ _ => rfl⟩
  | cons line lines ih =>
    obtain ⟨l, htext, hvalid, hshown, hline⟩ := exists_line line
    obtain ⟨ls, hrest, hall, hlines⟩ := ih
    refine ⟨l :: ls, by rw [List.flatMap_cons, htext, hrest, List.flatMap_cons], ?_, ?_⟩
    · intro m hm
      rcases List.mem_cons.mp hm with rfl | hm
      · exact ⟨hvalid, hshown⟩
      · exact hall m hm
    · intro inSection hsection
      obtain ⟨hnext, hcalls⟩ := hline inSection hsection
      have hopen : ∀ c ∈ line.nextSection inSection, isAlnum c = true := by
        cases line with
        | header spaces name after remark => exact name.val.property.2
        | _ => exact hsection
      rw [lineCalls, hcalls, hnext, hlines _ hopen, assignments, List.map_append]

theorem setCalls_commonFile (skipInvalidLines : Bool) (file : CommonFile) :
    setCalls skipInvalidLines file.text = (assignments [] file.lines).map setCall := by
  obtain ⟨ls, htext, hall, hlines⟩ := exists_lines file.lines
  let text : ConfigText := ⟨ls, .blank noSpace⟩
  have hsame : text.text = file.text := by
    rw [ConfigText.text, htext]
    exact List.append_nil _
  rw [← hsame, setCalls_configText text (fun l hl => ⟨Or.inl (hall l hl).1, (hall l hl).2⟩)
    ⟨Or.inl trivial, trivial⟩, ConfigText.calls, hlines [] fun _ h => absurd h List.not_mem_nil]
  exact List.append_nil _

/-! ## The first value of a key -/

/-- The first value that `wsl_conf_apply` is called with for a section and a key. -/
def firstApplied (inSection key stream : Bytes) : Option Bytes :=
  ((applyCalls stream).find? fun call =>
    eqIgnoringCase call.1 inSection && eqIgnoringCase call.2.1 key).map (·.2.2)

theorem append_dot_inj {s t u v : Bytes} (hs : 46 ∉ s) (hu : 46 ∉ u)
    (h : s ++ 46 :: u = t ++ 46 :: v) : s = t ∧ u = v := by
  rcases List.append_eq_append_iff.mp h with ⟨mid, rfl, hmid⟩ | ⟨mid, rfl, hmid⟩
  · cases mid with
    | nil => exact ⟨(List.append_nil s).symm, (List.cons.inj hmid).2⟩
    | cons c mid =>
      have hmem : 46 ∈ u := by
        rw [(List.cons.inj hmid).2]
        simp
      exact absurd hmem hu
  · cases mid with
    | nil => exact ⟨List.append_nil t, (List.cons.inj hmid).2.symm⟩
    | cons c mid =>
      have hmem : 46 ∈ t ++ c :: mid := by
        rw [← (List.cons.inj hmid).1]
        simp
      exact absurd hmem hs

theorem dot_not_mem_toLower {s : Bytes} (h : ∀ c ∈ s, isAlnum c = true) : 46 ∉ s.map toLower := by
  intro hmem
  obtain ⟨c, hc, hdot⟩ := List.mem_map.mp hmem
  have hall : ∀ c : UInt8, toLower c = 46 → isAlnum c = false := forall_char (by decide +kernel)
  have hnot := hall c hdot
  rw [h c hc] at hnot
  cases hnot

theorem named_fullName {inSection key : Bytes} (hsection : ∀ c ∈ inSection, isAlnum c = true)
    (hkey : ∀ c ∈ key, isAlnum c = true) (s k : Bytes) :
    eqIgnoringCase (fullName inSection key) (s ++ 46 :: k) =
      (decide (inSection ≠ []) && (eqIgnoringCase inSection s && eqIgnoringCase key k)) := by
  have hdot : (s ++ 46 :: k).map toLower = s.map toLower ++ 46 :: k.map toLower := by
    rw [List.map_append, List.map_cons]
    rfl
  rw [Bool.eq_iff_iff, fullName]
  split
  · next hnil =>
    rw [decide_eq_false (not_not.mpr hnil), Bool.false_and]
    refine iff_of_false ?_ Bool.false_ne_true
    intro heq
    have hmap : key.map toLower = s.map toLower ++ 46 :: k.map toLower :=
      (of_decide_eq_true heq).trans hdot
    apply dot_not_mem_toLower hkey
    rw [hmap]
    simp
  · next hne =>
    have hmap : (inSection ++ 46 :: key).map toLower =
        inSection.map toLower ++ 46 :: key.map toLower := by
      rw [List.map_append, List.map_cons]
      rfl
    rw [decide_eq_true hne, Bool.true_and, Bool.and_eq_true]
    unfold eqIgnoringCase
    rw [decide_eq_true_iff, decide_eq_true_iff, decide_eq_true_iff, hmap, hdot]
    constructor
    · exact append_dot_inj (dot_not_mem_toLower hsection) (dot_not_mem_toLower hkey)
    · rintro ⟨hs, hk⟩
      rw [hs, hk]

theorem assignments_alnum {inSection : Bytes} (hsection : ∀ c ∈ inSection, isAlnum c = true)
    {ls : List CommonLine} {a : Bytes × Bytes × Bytes} (ha : a ∈ assignments inSection ls) :
    (∀ c ∈ a.1, isAlnum c = true) ∧ ∀ c ∈ a.2.1, isAlnum c = true := by
  induction ls generalizing inSection with
  | nil => cases ha
  | cons line ls ih =>
    rcases List.mem_append.mp ha with ha | ha
    · cases line with
      | keyValue spaces key before after value behind remark =>
        rw [List.mem_singleton.mp ha]
        exact ⟨hsection, key.property.2⟩
      | _ => cases ha
    · refine ih ?_ ha
      cases line with
      | header spaces name after remark => exact name.val.property.2
      | _ => exact hsection

/-- Both parsers find the same first value of a key, or none. -/
theorem first_value_agrees (skipInvalidLines : Bool) (file : CommonFile)
    (hclear : ∀ line ∈ file.lines, line.Clear) (inSection key : Bytes) :
    firstApplied inSection key file.text =
      firstSet skipInvalidLines (inSection ++ 46 :: key) file.text := by
  rw [firstApplied, firstSet, applyCalls_commonFile file hclear, setCalls_commonFile,
    List.find?_filter, List.find?_map, Option.map_map]
  congr 1
  apply List.find?_congr
  intro a ha
  have halnum := assignments_alnum (fun _ h => absurd h List.not_mem_nil) ha
  change _ = eqIgnoringCase (fullName a.1 a.2.1) (inSection ++ 46 :: key)
  rw [named_fullName halnum.1 halnum.2, Bool.decide_and, Bool.decide_eq_true, Bool.decide_eq_true]

/-- The file `[a]`, `k = <value> # c`. -/
def oneKey (value : CommonValue) (hshort : value.text.length < 4000) : CommonFile where
  lines :=
    [.header noSpace ⟨⟨[97], by decide⟩, by decide⟩ noSpace none,
      .keyValue noSpace ⟨[107], by decide⟩ oneSpace oneSpace value oneSpace
        (some ⟨[32, 99], by decide⟩)]
  short := by
    intro line hline
    rcases List.mem_pair.mp hline with rfl | rfl
    · decide
    · simp only [CommonLine.text, noSpace, oneSpace, commentText, List.length_append,
        List.length_cons, List.length_nil]
      omega

theorem first_value_agrees_quoted :
    firstApplied [65] [107] (oneKey (.quoted [.char ⟨35, by decide⟩, .escape .tab]) (by decide)).text =
        some [35, 9] ∧
      firstSet true [65, 46, 107]
        (oneKey (.quoted [.char ⟨35, by decide⟩, .escape .tab]) (by decide)).text = some [35, 9] := by
  have hagrees := first_value_agrees true
    (oneKey (.quoted [.char ⟨35, by decide⟩, .escape .tab]) (by decide)) (by decide) [65] [107]
  have happlied : firstApplied [65] [107]
      (oneKey (.quoted [.char ⟨35, by decide⟩, .escape .tab]) (by decide)).text = some [35, 9] := by
    decide
  exact ⟨happlied, hagrees.symm.trans happlied⟩

/-- `wsl_conf_parse_stream` trims the space in front of a NUL, and the reference keeps it. -/
theorem nul_ends_line :
    ¬ ∀ (skipInvalidLines : Bool) (file : CommonFile) (inSection key : Bytes),
      firstApplied inSection key file.text =
        firstSet skipInvalidLines (inSection ++ 46 :: key) file.text := by
  intro h
  have happlied : firstApplied [97] [107] (oneKey (.plain ⟨[120, 32, 0], by decide⟩) (by decide)).text =
      some [120] := by decide
  have hset : firstSet true [97, 46, 107]
      (oneKey (.plain ⟨[120, 32, 0], by decide⟩) (by decide)).text = some [120, 32] := by
    decide
  have heq := (h true (oneKey (.plain ⟨[120, 32, 0], by decide⟩) (by decide)) [97] [107])
  rw [happlied] at heq
  cases heq.trans hset

end WslFreeBSD.Reference.ConfigFile
