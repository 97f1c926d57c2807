import WslFreeBSD.Lib.Access
import WslFreeBSD.Reference.ConfigAccepted
import WslFreeBSD.Reference.ConfigUpdate

/-!
# What removing a key keeps

The text that is left when a key is removed is read again. It has no value for the key, the first
values of the other keys and all comments (`Removes`), unless the first line of the file sets the key
under a name without a section, or the first value of another key has a `#` between its quotes
(`Removable`).
-/

namespace WslFreeBSD.Reference.ConfigFile

open Lib Config

/-! ## Stored values -/

def Item.meaning : Item → Bytes
  | .char c => [c.val]
  | .quote => []
  | .hash => [35]
  | .escape c => (unescape c.val).getD []
  | .unknown _ => []

def Item.isNul : Item → Bool
  | .char c => c.val = 0
  | _ => false

/-- There is a `#` between quotes in the part of the value that a C string has. -/
def Items.showsHash (items : Items) : Bool :=
  (items.list.takeWhile (!·.isNul)).any (·.isHash)

theorem value_read (v : ValueState) (i : Item) : (v.read i).value = v.value ++ i.meaning := by
  cases i with
  | char c =>
    rw [ValueState.read]
    split
    · rfl
    · rfl
  | quote => exact (List.append_nil _).symm
  | hash => rfl
  | escape c => rfl
  | unknown c => rfl

theorem value_readItems (v : ValueState) (items : List Item) :
    (readItems v items).value = v.value ++ items.flatMap (·.meaning) := by
  induction items generalizing v with
  | nil => exact (List.append_nil _).symm
  | cons i items ih =>
    change (readItems (v.read i) items).value = _
    rw [ih, value_read, List.append_assoc, List.flatMap_cons]

theorem value_last (items : Items) : items.last.value = items.list.flatMap (·.meaning) :=
  value_readItems ValueState.init items.list

theorem unescape_spec {c : UInt8} {s : Bytes} (h : unescape c = some s) : 0 ∉ s ∧ 35 ∉ s := by
  unfold unescape at h
  split at h
  · next hc =>
    obtain rfl := Option.some.inj h
    rcases hc with rfl | rfl <;> decide
  split at h
  · obtain rfl := Option.some.inj h
    decide
  split at h
  · obtain rfl := Option.some.inj h
    decide
  split at h
  · obtain rfl := Option.some.inj h
    decide
  split at h
  · obtain rfl := Option.some.inj h
    decide
  · cases h

theorem meaning_escape (c : {c : UInt8 // (unescape c).isSome = true}) :
    0 ∉ (Item.escape c).meaning ∧ 35 ∉ (Item.escape c).meaning := by
  obtain ⟨s, hs⟩ := Option.isSome_iff_exists.mp c.property
  have hmeaning : (Item.escape c).meaning = s := by
    rw [Item.meaning, hs]
    rfl
  rw [hmeaning]
  exact unescape_spec hs

theorem nul_mem_meaning {i : Item} (h : i.isNul = false) : 0 ∉ i.meaning := by
  cases i with
  | char c =>
    intro hmem
    have hne : c.val ≠ 0 := of_decide_eq_false h
    exact hne (List.mem_singleton.mp hmem).symm
  | escape c => exact (meaning_escape c).1
  | quote => exact List.not_mem_nil
  | hash => decide
  | unknown c => exact List.not_mem_nil

theorem hash_mem_meaning (i : Item) : 35 ∈ i.meaning ↔ i.isHash = true := by
  cases i with
  | char c =>
    have hne : (35 : UInt8) ≠ c.val := c.property.2.2.2.1.symm
    simp [Item.meaning, Item.isHash, hne]
  | escape c => simp [(meaning_escape c).2, Item.isHash]
  | quote => simp [Item.meaning, Item.isHash]
  | hash => simp [Item.meaning, Item.isHash]
  | unknown c => simp [Item.meaning, Item.isHash]

theorem cString_meaning (items : List Item) :
    cString (items.flatMap (·.meaning)) 0 =
      (items.takeWhile (!·.isNul)).flatMap (·.meaning) := by
  induction items with
  | nil => rfl
  | cons i items ih =>
    cases hi : i.isNul with
    | true =>
      cases i with
      | char c =>
        have hc : c.val = 0 := of_decide_eq_true hi
        rw [List.flatMap_cons, List.takeWhile_cons, hi, Item.meaning, hc]
        rfl
      | _ => cases hi
    | false =>
      rw [List.flatMap_cons, cString_append_of_not_mem (nul_mem_meaning hi), ih,
        List.takeWhile_cons, hi]
      rfl

/-! ### A value and what is written of it -/

theorem ValueState.Trimmed.stored_eq {v : ValueState} (h : v.Trimmed) :
    v.stored = cString (v.value.take v.trimmedLength) 0 := by
  rw [ValueState.stored, resize_of_le h.1]

theorem hash_mem_append {s spaces : Bytes} (hspaces : ∀ c ∈ spaces, isHSpace c = true) :
    35 ∈ cString (s ++ spaces) 0 ↔ 35 ∈ cString s 0 := by
  by_cases hnul : (0 : UInt8) ∈ s
  · have hsame : cString (s ++ spaces) 0 = cString s 0 :=
      Access.takeWhile_append_of_mem hnul spaces
    rw [hsame]
  · have hnone : 35 ∉ cString spaces 0 := by
      intro hmem
      have hspace := hspaces 35 ((List.takeWhile_sublist _).subset hmem)
      cases hspace
    rw [cString_append_of_not_mem hnul, cString_of_not_mem hnul, List.mem_append]
    exact or_iff_left hnone

theorem hash_mem_stored (items : Items) : 35 ∈ items.last.stored ↔ items.showsHash = true := by
  have htrimmed := trimmed_last items
  have hmem := hash_mem_append (s := items.last.value.take items.last.trimmedLength) htrimmed.2
  rw [List.take_append_drop, value_last, cString_meaning, ← value_last] at hmem
  rw [htrimmed.stored_eq, ← hmem, Items.showsHash, List.any_eq_true, List.mem_flatMap]
  simp only [hash_mem_meaning]

theorem ValueState.Trimmed.stored_of_nul {v : ValueState} (h : v.Trimmed) {front rest : Bytes}
    (hvalue : v.value = front ++ 0 :: rest) (hfront : 0 ∉ front) : v.stored = front := by
  have hlt : front.length < v.trimmedLength := by
    by_contra hle
    have hmem : (0 : UInt8) ∈ v.value.drop v.trimmedLength := by
      rw [hvalue, List.drop_append_of_le_length (by omega)]
      simp
    cases h.2 0 hmem
  obtain ⟨n, hn⟩ := Nat.exists_eq_add_of_lt hlt
  have htake : v.value.take v.trimmedLength = front ++ 0 :: rest.take n := by
    rw [hvalue, hn, Nat.add_assoc, List.take_length_add_append, List.take_succ_cons]
  rw [h.stored_eq, htake, cString_append_nul hfront]

theorem showsHash_withoutHash (items : Items) : items.withoutHash.showsHash = false := by
  rw [Items.showsHash, List.any_eq_false]
  intro i hi
  have hmem : i ∈ items.list.filter (!·.isHash) := (List.takeWhile_sublist _).subset hi
  have hkept : (!i.isHash) = true := (List.mem_filter.mp hmem).2
  rw [(Bool.not_eq_true' _).mp hkept]
  exact Bool.false_ne_true

theorem withoutHash_eq_self {items : Items} (h : ∀ i ∈ items.list, i.isHash = false) :
    items.withoutHash = items := by
  obtain ⟨list, placed, noSpace⟩ := items
  have hfilter : list.filter (!·.isHash) = list := by
    rw [List.filter_eq_self]
    intro i hi
    rw [h i hi]
    rfl
  simp only [Items.withoutHash, hfilter]

theorem stored_withoutHash_of_nul {items : Items} {front rest : List Item} {c : Item}
    (hlist : items.list = front ++ c :: rest) (hc : c.isNul = true)
    (hfront : ∀ i ∈ front, i.isNul = false) (hhash : ∀ i ∈ front, i.isHash = false) :
    items.withoutHash.last.stored = items.last.stored := by
  have hmeaning : c.meaning = [0] := by
    cases c with
    | char c =>
      have hzero : c.val = 0 := of_decide_eq_true hc
      rw [Item.meaning, hzero]
    | _ => cases hc
  have hnul : 0 ∉ front.flatMap (·.meaning) := by
    intro hmem
    obtain ⟨i, hi, hmem⟩ := List.mem_flatMap.mp hmem
    exact nul_mem_meaning (hfront i hi) hmem
  have hkept : items.withoutHash.list = front ++ c :: rest.filter (!·.isHash) := by
    have hfrontKept : front.filter (!·.isHash) = front := by
      rw [List.filter_eq_self]
      intro i hi
      rw [hhash i hi]
      rfl
    have hcKept : c.isHash = false := by
      cases c with
      | char c => rfl
      | _ => cases hc
    change items.list.filter (!·.isHash) = _
    rw [hlist, List.filter_append, hfrontKept, List.filter_cons, hcKept]
    rfl
  have hvalue : items.last.value =
      front.flatMap (·.meaning) ++ 0 :: rest.flatMap (·.meaning) := by
    rw [value_last, hlist, List.flatMap_append, List.flatMap_cons, hmeaning]
    rfl
  have hvalueKept : items.withoutHash.last.value =
      front.flatMap (·.meaning) ++ 0 :: (rest.filter (!·.isHash)).flatMap (·.meaning) := by
    rw [value_last, hkept, List.flatMap_append, List.flatMap_cons, hmeaning]
    rfl
  rw [(trimmed_last items).stored_of_nul hvalue hnul,
    (trimmed_last items.withoutHash).stored_of_nul hvalueKept hnul]

/-- A value stays when it is written, unless it shows a `#`. -/
theorem stored_withoutHash_iff (items : Items) :
    items.withoutHash.last.stored = items.last.stored ↔ items.showsHash = false := by
  constructor
  · intro hsame
    have hnone : 35 ∉ items.withoutHash.last.stored := by
      rw [hash_mem_stored, showsHash_withoutHash]
      exact Bool.false_ne_true
    rw [hsame, hash_mem_stored] at hnone
    exact Bool.eq_false_iff.mpr hnone
  · intro hshows
    cases hnul : items.list.find? (·.isNul) with
    | none =>
      have hall : items.list.takeWhile (!·.isNul) = items.list := by
        rw [List.takeWhile_eq_self_iff]
        intro i hi
        rw [Bool.eq_false_iff.mpr (List.find?_eq_none.mp hnul i hi)]
        rfl
      rw [Items.showsHash, hall] at hshows
      rw [withoutHash_eq_self fun i hi => Bool.eq_false_iff.mpr (List.any_eq_false.mp hshows i hi)]
    | some c =>
      obtain ⟨hc, front, rest, hlist, hfront⟩ := List.find?_eq_some_iff_append.mp hnul
      have hfront' : ∀ i ∈ front, i.isNul = false := fun i hi => (Bool.not_eq_true' _).mp (hfront i hi)
      have hshown : items.list.takeWhile (!·.isNul) = front := by
        rw [hlist, List.takeWhile_append_of_pos hfront, List.takeWhile_cons, hc]
        exact List.append_nil _
      rw [Items.showsHash, hshown] at hshows
      exact stored_withoutHash_of_nul hlist hc hfront' fun i hi =>
        Bool.eq_false_iff.mpr (List.any_eq_false.mp hshows i hi)

/-! ## What lines set -/

def Body.setting (inSection : Bytes) : Body → List (Bytes × Items)
  | .keyValue _ key _ _ items _ _ => [(cString (fullName inSection key.val) 0, items)]
  | _ => []

def settings (inSection : Bytes) : List Body → List (Bytes × Items)
  | [] => []
  | body :: bodies => body.setting inSection ++ settings (body.nextSection inSection) bodies

def sectionBehind (inSection : Bytes) (bodies : List Body) : Bytes :=
  bodies.foldl Body.nextSection inSection

theorem settings_append (inSection : Bytes) (s t : List Body) :
    settings inSection (s ++ t) =
      settings inSection s ++ settings (sectionBehind inSection s) t := by
  induction s generalizing inSection with
  | nil => rfl
  | cons body s ih =>
    rw [List.cons_append, settings, ih, settings, List.append_assoc]
    rfl

theorem lineCalls_bodies {bodies : List Body} (hvalid : ∀ body ∈ bodies, body.Valid)
    (inSection : Bytes) :
    lineCalls inSection (bodies.map Body.line) =
      (settings inSection bodies).map fun e => (e.1, e.2.last.stored) := by
  induction bodies generalizing inSection with
  | nil => rfl
  | cons body bodies ih =>
    have hbody := hvalid body List.mem_cons_self
    have hcalls : body.calls inSection =
        (body.setting inSection).map fun e => (e.1, e.2.last.stored) := by
      cases body with
      | keyValue spaces key before after items remark closed =>
        have hknown : items.list.any (·.isUnknown) = false :=
          List.any_eq_false.mpr fun i hi => Bool.eq_false_iff.mp (hbody.2 i hi)
        rw [Body.calls, hknown, hbody.1]
        rfl
      | _ => rfl
    rw [List.map_cons, lineCalls_cons, settings, List.map_append, ← hcalls,
      ← ih fun b hb => hvalid b (List.mem_cons_of_mem _ hb)]
    rfl

def fileOf (bodies : List Body) : ConfigText := ⟨bodies.map Body.line, .blank noBlanks⟩

theorem text_fileOf (bodies : List Body) : (fileOf bodies).text = bodiesText bodies :=
  List.append_nil _

theorem shown_of_valid {body : Body} (h : body.Valid) : body.Shown := by
  cases body with
  | keyValue spaces key before after items remark closed => exact Or.inl h.2
  | badEscape spaces key before after items c rest => exact h.elim
  | _ => trivial

def firstSetting (name : Bytes) (bodies : List Body) : Option (Bytes × Items) :=
  (settings [] bodies).find? fun e => eqIgnoringCase e.1 name

theorem firstSet_bodies {bodies : List Body} (hvalid : ∀ body ∈ bodies, body.Valid) (skip : Bool)
    (name : Bytes) :
    firstSet skip name (bodiesText bodies) =
      (firstSetting name bodies).map fun e => e.2.last.stored := by
  have hlines : ∀ line ∈ (fileOf bodies).lines,
      (line.body.Valid ∨ skip = true) ∧ line.body.Shown := by
    intro line hline
    obtain ⟨body, hbody, rfl⟩ := List.mem_map.mp hline
    exact ⟨Or.inl (hvalid body hbody), shown_of_valid (hvalid body hbody)⟩
  have hcalls := @setCalls_configText skip (fileOf bodies) hlines
    ⟨Or.inl trivial, trivial⟩
  have hall : (fileOf bodies).calls =
      (settings [] bodies).map fun e => (e.1, e.2.last.stored) := by
    rw [← lineCalls_bodies hvalid]
    exact List.append_nil _
  rw [text_fileOf, hall] at hcalls
  rw [firstSet, hcalls, List.find?_map, Option.map_map]
  rfl

/-! ## What the lines that are left set -/

section Left

variable (k : ConfigKey) {inSection : Bytes} {first matched : Bool}

def Body.isKey (k : ConfigKey) (inSection : Bytes) (body : Body) : Bool :=
  body.key.any (k.matchesIn inSection)

/-- The settings of other keys, as they are written. -/
def kept (k : ConfigKey) (es : List (Bytes × Items)) : List (Bytes × Items) :=
  (es.filter fun e => !k.matchesName e.1).map fun e => (e.1, e.2.withoutHash)

/-- The setting that stays when there is nothing to cut. -/
def Body.uncut (k : ConfigKey) (inSection : Bytes) (first : Bool) (body : Body) :
    List (Bytes × Items) :=
  if first && body.isKey k inSection then (body.setting inSection).map fun e => (e.1, noItems)
  else []

theorem settings_remark (remark : Option Rest) : settings inSection (remarkBodies remark) = [] := by
  cases remark with
  | none => rfl
  | some text => rfl

theorem sectionBehind_remark (remark : Option Rest) :
    sectionBehind inSection (remarkBodies remark) = inSection := by
  cases remark with
  | none => rfl
  | some text => rfl

theorem uncut_of_not_isKey {body : Body} (h : body.isKey k inSection = false) :
    body.uncut k inSection first = [] := by
  rw [Body.uncut, h, Bool.and_false, if_neg Bool.false_ne_true]

theorem settings_left (body : Body) :
    settings inSection (body.left k inSection first matched) =
        body.uncut k inSection first ++ kept k (body.setting inSection) ∧
      sectionBehind inSection (body.left k inSection first matched) =
        body.nextSection inSection := by
  cases body with
  | blank spaces =>
    rw [uncut_of_not_isKey k (by rfl)]
    exact ⟨rfl, rfl⟩
  | comment spaces text =>
    rw [uncut_of_not_isKey k (by rfl)]
    exact ⟨rfl, rfl⟩
  | header spaces name after remark =>
    rw [uncut_of_not_isKey k (by rfl), Body.left]
    split
    · exact ⟨settings_remark remark, sectionBehind_remark remark⟩
    · exact ⟨rfl, rfl⟩
  | keyValue spaces key before after items remark closed =>
    have hkey : (Body.keyValue spaces key before after items remark closed).isKey k inSection =
        k.matchesIn inSection key.val := rfl
    have hkept : kept k ((Body.keyValue spaces key before after items remark closed).setting
        inSection) =
          if k.matchesIn inSection key.val then []
          else [(cString (fullName inSection key.val) 0, items.withoutHash)] := by
      rw [Body.setting, kept, List.filter_cons, ConfigKey.matchesIn]
      cases k.matchesName (cString (fullName inSection key.val) 0) with
      | true => rfl
      | false => rfl
    rw [Body.left, hkept, Body.uncut, hkey]
    cases hmatches : k.matchesIn inSection key.val with
    | true =>
      rw [if_pos rfl, if_pos rfl, settings_append, Bool.and_true, List.append_nil]
      cases first with
      | true => exact ⟨congrArg _ (settings_remark remark), sectionBehind_remark remark⟩
      | false => exact ⟨settings_remark remark, sectionBehind_remark remark⟩
    | false =>
      rw [if_neg Bool.false_ne_true, if_neg Bool.false_ne_true, Bool.and_false,
        if_neg Bool.false_ne_true]
      exact ⟨rfl, rfl⟩
  | malformed spaces front c rest =>
    rw [uncut_of_not_isKey k (by rfl)]
    exact ⟨rfl, rfl⟩
  | badEscape spaces key before after items c rest =>
    rw [Body.uncut]
    exact ⟨congrArg (· ++ []) (ite_self _).symm, rfl⟩

theorem kept_append (es es' : List (Bytes × Items)) : kept k (es ++ es') = kept k es ++ kept k es' := by
  rw [kept, List.filter_append, List.map_append]
  rfl

theorem settings_leftBodies (bodies : List Body) :
    settings inSection (leftBodies k inSection first matched bodies) =
      (bodies.head?.elim [] fun body => body.uncut k inSection first) ++
        kept k (settings inSection bodies) := by
  induction bodies generalizing inSection first matched with
  | nil => rfl
  | cons body bodies ih =>
    obtain ⟨hbody, hsection⟩ := @settings_left k inSection first matched body
    have hnone : ∀ s, (bodies.head?.elim [] fun b => b.uncut k s false) = [] := by
      intro s
      cases bodies with
      | nil => rfl
      | cons b bodies => rfl
    rw [leftBodies, settings_append, hbody, hsection, ih, hnone, List.nil_append, settings,
      kept_append, List.append_assoc]
    rfl

theorem valid_left {body : Body} (h : body.Valid) {b : Body}
    (hb : b ∈ body.left k inSection first matched) : b.Valid := by
  have hremark : ∀ remark, b ∈ remarkBodies remark → b.Valid := by
    intro remark hmem
    cases remark with
    | none => cases hmem
    | some text =>
      obtain rfl := List.mem_singleton.mp hmem
      trivial
  cases body with
  | header spaces name after remark =>
    rw [Body.left] at hb
    split at hb
    · rcases List.mem_cons.mp hb with rfl | hb
      · trivial
      · exact hremark remark hb
    · obtain rfl := List.mem_singleton.mp hb
      trivial
  | keyValue spaces key before after items remark closed =>
    rw [Body.left] at hb
    split at hb
    · rcases List.mem_append.mp hb with hb | hb
      · split at hb
        · obtain rfl := List.mem_singleton.mp hb
          exact ⟨rfl, fun i hi => absurd hi List.not_mem_nil⟩
        · cases hb
      · exact hremark remark hb
    · obtain rfl := List.mem_singleton.mp hb
      refine ⟨(inQuote_withoutHash items).trans h.1, ?_⟩
      intro i hi
      exact h.2 i (List.mem_filter.mp hi).1
  | malformed spaces front c rest => exact h.elim
  | badEscape spaces key before after items c rest => exact h.elim
  | _ =>
    obtain rfl := List.mem_singleton.mp hb
    exact h

theorem valid_leftBodies {bodies : List Body} (hvalid : ∀ body ∈ bodies, body.Valid) :
    ∀ b ∈ leftBodies k inSection first matched bodies, b.Valid := by
  induction bodies generalizing inSection first matched with
  | nil => exact fun b hb => absurd hb List.not_mem_nil
  | cons body bodies ih =>
    intro b hb
    rcases List.mem_append.mp hb with hb | hb
    · exact valid_left k (hvalid body List.mem_cons_self) hb
    · exact ih (fun b' hb' => hvalid b' (List.mem_cons_of_mem _ hb')) b hb

/-- The comments of a body, with the `#`. -/
def Body.comments : Body → List Bytes
  | .comment _ text => [35 :: text.val]
  | .header _ _ _ remark | .keyValue _ _ _ _ _ remark _ =>
    remark.toList.map fun text => 35 :: text.val
  | _ => []

def comments (bodies : List Body) : List Bytes := bodies.flatMap (·.comments)

theorem comments_append (s t : List Body) : comments (s ++ t) = comments s ++ comments t :=
  List.flatMap_append

theorem comments_remark (remark : Option Rest) :
    comments (remarkBodies remark) = remark.toList.map fun text => 35 :: text.val := by
  cases remark with
  | none => rfl
  | some text => rfl

theorem comments_left {body : Body} : comments (body.left k inSection first matched) = body.comments := by
  cases body with
  | header spaces name after remark =>
    rw [Body.left]
    split
    · exact comments_remark remark
    · exact List.append_nil _
  | keyValue spaces key before after items remark closed =>
    rw [Body.left]
    split
    · rw [comments_append]
      split
      · exact comments_remark remark
      · exact comments_remark remark
    · exact List.append_nil _
  | _ => exact List.append_nil _

theorem comments_leftBodies (bodies : List Body) :
    comments (leftBodies k inSection first matched bodies) = comments bodies := by
  induction bodies generalizing inSection first matched with
  | nil => rfl
  | cons body bodies ih =>
    have hbody : comments (body.left k inSection first matched) = body.comments := comments_left k
    have hrest := @ih (body.nextSection inSection) false (body.nextMatched k inSection matched)
    rw [leftBodies, comments_append, hbody, hrest]
    rfl

end Left

/-! ## Removing a key -/

/-- What removing a key from a file has to do: there is no value for any of its names, the first
values of other names stay, and the text has the comments of the file. -/
structure Removes (k : ConfigKey) (bodies : List Body) (output : Bytes) : Prop where
  removed : ∀ skip name, k.matchesName name = true → firstSet skip name output = none
  others : ∀ skip name, k.matchesName name = false →
    firstSet skip name output = firstSet skip name (bodiesText bodies)
  comments : ∃ left, (∀ body ∈ left, Body.Valid body) ∧ output = bodiesText left ∧
    comments left = comments bodies

/-- The first line does not set the key, and no line that sets another name for the first time has
a `#` between quotes that is stored. -/
structure Removable (k : ConfigKey) (bodies : List Body) : Prop where
  first : ∀ body ∈ bodies.head?, body.isKey k [] = false
  noHash : ∀ name, k.matchesName name = false → ∀ e ∈ firstSetting name bodies,
    e.2.showsHash = false

section Removal

variable {k : ConfigKey} {bodies : List Body}

theorem matchesName_congr {s t : Bytes} (h : eqIgnoringCase s t = true) :
    k.matchesName s = k.matchesName t := by
  have hsame : ∀ e, eqIgnoringCase e s = eqIgnoringCase e t := by
    intro e
    rw [Bool.eq_iff_iff]
    constructor
    · exact fun he => eqIgnoringCase_trans he h
    · rw [eqIgnoringCase_swap] at h
      exact fun he => eqIgnoringCase_trans he h
  rw [ConfigKey.matchesName, ConfigKey.matchesName]
  exact congrArg _ (funext hsame)

theorem firstSetting_left (name : Bytes) :
    firstSetting name (leftBodies k [] true false bodies) =
      ((bodies.head?.elim [] fun body => body.uncut k [] true).find? fun e =>
        eqIgnoringCase e.1 name).or
        ((kept k (settings [] bodies)).find? fun e => eqIgnoringCase e.1 name) := by
  rw [firstSetting, settings_leftBodies, List.find?_append]

theorem find?_kept (name : Bytes) :
    (kept k (settings [] bodies)).find? (fun e => eqIgnoringCase e.1 name) =
      if k.matchesName name then none
      else (firstSetting name bodies).map fun e => (e.1, e.2.withoutHash) := by
  have hpred : (fun e : Bytes × Items =>
      decide ((!k.matchesName e.1) = true ∧ eqIgnoringCase e.1 name = true)) =
        fun e => !k.matchesName name && eqIgnoringCase e.1 name := by
    funext e
    rw [Bool.decide_and, Bool.decide_eq_true, Bool.decide_eq_true]
    cases hsame : eqIgnoringCase e.1 name with
    | true => rw [matchesName_congr hsame]
    | false => rw [Bool.and_false, Bool.and_false]
  rw [kept, List.find?_map, List.find?_filter, firstSetting]
  change ((settings [] bodies).find? fun e =>
    decide ((!k.matchesName e.1) = true ∧ eqIgnoringCase e.1 name = true)).map _ = _
  rw [hpred]
  cases k.matchesName name with
  | true =>
    have hnone : (settings [] bodies).find? (fun e => !true && eqIgnoringCase e.1 name) = none :=
      List.find?_eq_none.mpr fun e _ => Bool.false_ne_true
    rw [if_pos rfl, hnone]
    rfl
  | false => rfl

theorem find?_uncut (body : Body) (hvalid : body.Valid) :
    (body.isKey k [] = true → ∃ name, k.matchesName name = true ∧
      ((body.uncut k [] true).find? fun e => eqIgnoringCase e.1 name).isSome = true) ∧
    ∀ name, k.matchesName name = false →
      (body.uncut k [] true).find? (fun e => eqIgnoringCase e.1 name) = none := by
  constructor
  · intro hkey
    cases body with
    | keyValue spaces key before after items remark closed =>
      have hname : k.matchesIn [] key.val = true := hkey
      refine ⟨cString (fullName [] key.val) 0, hname, ?_⟩
      rw [Body.uncut, hkey, Bool.true_and, if_pos rfl, Body.setting, List.map_singleton,
        List.find?_singleton, eqIgnoringCase, if_pos (decide_eq_true rfl)]
      rfl
    | badEscape spaces key before after items c rest => exact hvalid.elim
    | _ => cases hkey
  · intro name hname
    rw [List.find?_eq_none]
    intro e he hsame
    rw [← matchesName_congr hsame] at hname
    rw [Body.uncut] at he
    split at he
    · next hkey =>
      obtain ⟨e', he', rfl⟩ := List.mem_map.mp he
      cases body with
      | keyValue spaces key before after items remark closed =>
        obtain rfl := List.mem_singleton.mp he'
        have hmatches : k.matchesIn [] key.val = true := hkey
        rw [ConfigKey.matchesIn, hname] at hmatches
        cases hmatches
      | _ => cases he'
    · cases he

theorem firstSet_left_other (hvalid : ∀ body ∈ bodies, body.Valid) (skip : Bool) {name : Bytes}
    (hname : k.matchesName name = false) :
    firstSet skip name (bodiesText (leftBodies k [] true false bodies)) =
      (firstSetting name bodies).map fun e => e.2.withoutHash.last.stored := by
  have huncut : (bodies.head?.elim [] fun body => body.uncut k [] true).find?
      (fun e => eqIgnoringCase e.1 name) = none := by
    cases bodies with
    | nil => rfl
    | cons body bodies => exact (find?_uncut body (hvalid body List.mem_cons_self)).2 name hname
  rw [firstSet_bodies (valid_leftBodies k hvalid), firstSetting_left, huncut, find?_kept, hname,
    if_neg Bool.false_ne_true, Option.none_or, Option.map_map]
  rfl

theorem firstSet_left_key (hvalid : ∀ body ∈ bodies, body.Valid) (skip : Bool) {name : Bytes}
    (hname : k.matchesName name = true) :
    firstSet skip name (bodiesText (leftBodies k [] true false bodies)) =
      ((bodies.head?.elim [] fun body => body.uncut k [] true).find? fun e =>
        eqIgnoringCase e.1 name).map fun e => e.2.last.stored := by
  rw [firstSet_bodies (valid_leftBodies k hvalid), firstSetting_left, find?_kept, hname, if_pos rfl,
    Option.or_none]

theorem removed_iff (hvalid : ∀ body ∈ bodies, body.Valid) :
    (∀ skip name, k.matchesName name = true →
      firstSet skip name (bodiesText (leftBodies k [] true false bodies)) = none) ↔
    ∀ body ∈ bodies.head?, body.isKey k [] = false := by
  constructor
  · intro h body hbody
    by_contra hkey
    have hbodyValid := hvalid body (List.mem_of_mem_head? hbody)
    obtain ⟨name, hname, hfound⟩ :=
      (find?_uncut body hbodyValid).1 ((Bool.not_eq_false _).mp hkey)
    have hnone := h true name hname
    have hhead : bodies.head? = some body := hbody
    rw [firstSet_left_key hvalid true hname, hhead, Option.map_eq_none_iff] at hnone
    have hnone' : (body.uncut k [] true).find? (fun e => eqIgnoringCase e.1 name) = none := hnone
    rw [hnone'] at hfound
    cases hfound
  · intro h skip name hname
    have huncut : (bodies.head?.elim [] fun body => body.uncut k [] true) = [] := by
      cases bodies with
      | nil => rfl
      | cons body bodies => exact uncut_of_not_isKey k (h body rfl)
    rw [firstSet_left_key hvalid skip hname, huncut]
    rfl

theorem others_iff (hvalid : ∀ body ∈ bodies, body.Valid) :
    (∀ skip name, k.matchesName name = false →
      firstSet skip name (bodiesText (leftBodies k [] true false bodies)) =
        firstSet skip name (bodiesText bodies)) ↔
    ∀ name, k.matchesName name = false → ∀ e ∈ firstSetting name bodies,
      e.2.showsHash = false := by
  constructor
  · intro h name hname e he
    have hsame := h true name hname
    have hfound : firstSetting name bodies = some e := he
    rw [firstSet_left_other hvalid true hname, firstSet_bodies hvalid, hfound] at hsame
    exact (stored_withoutHash_iff e.2).mp (Option.some.inj hsame)
  · intro h skip name hname
    rw [firstSet_left_other hvalid skip hname, firstSet_bodies hvalid]
    cases hfound : firstSetting name bodies with
    | none => rfl
    | some e => exact congrArg some ((stored_withoutHash_iff e.2).mpr (h name hname e hfound))

theorem removes_bodies_iff (skip : Bool) (k : ConfigKey) (bodies : List Body)
    (hvalid : ∀ body ∈ bodies, body.Valid) :
    Removes k bodies (removeKeyOutput skip k (bodiesText bodies)) ↔ Removable k bodies := by
  rw [removeKeyOutput_bodies skip k hvalid]
  constructor
  · intro h
    exact ⟨(removed_iff hvalid).mp h.removed, (others_iff hvalid).mp h.others⟩
  · intro h
    exact ⟨(removed_iff hvalid).mpr h.first, (others_iff hvalid).mpr h.noHash,
      ⟨_, valid_leftBodies k hvalid, rfl, comments_leftBodies k bodies⟩⟩

/-- A plain file has lines, and removing a key from it does what it has to do if and only if they
allow it. -/
theorem removal_iff (skip : Bool) (k : ConfigKey) {file : Bytes} (hfile : PlainFile file) :
    (∃ bodies, (∀ body ∈ bodies, Body.Valid body) ∧ file = bodiesText bodies) ∧
      ∀ bodies, (∀ body ∈ bodies, Body.Valid body) → file = bodiesText bodies →
        (Removes k bodies (removeKeyOutput skip k file) ↔ Removable k bodies) := by
  refine ⟨hfile.exists_bodies, ?_⟩
  rintro bodies hvalid rfl
  exact removes_bodies_iff skip k bodies hvalid

end Removal

def memoryItems : Items where
  list := [.char ⟨52, by decide⟩, .char ⟨71, by decide⟩, .char ⟨66, by decide⟩]
  placed := trivial
  noSpace := by decide

def swapItems : Items where
  list := [.quote, .char ⟨97, by decide⟩, .hash, .quote]
  placed := ⟨rfl, trivial⟩
  noSpace := by decide

def memoryHeader : Body := .header noBlanks memoryKey.inSection noBlanks none

def memoryLine : Body :=
  .keyValue noBlanks memoryKey.name noBlanks noBlanks memoryItems (some ⟨ascii " limit", by decide⟩)
    (fun _ => rfl)

def swapLine : Body :=
  .keyValue noBlanks ⟨ascii "swapFile", by decide⟩ noBlanks noBlanks swapItems none (fun _ => rfl)

theorem memoryItems_known : ∀ i ∈ memoryItems.list, i.isUnknown = false := by
  simp [memoryItems, Item.isUnknown]

theorem swapItems_known : ∀ i ∈ swapItems.list, i.isUnknown = false := by
  simp [swapItems, Item.isUnknown]

theorem removal_iff_memory :
    PlainFile (bodiesText [memoryHeader, memoryLine]) ∧
      removeKeyOutput true memoryKey.toConfigKey (bodiesText [memoryHeader, memoryLine]) =
        ascii "[wsl2]\n# limit\n" ∧
      Removes memoryKey.toConfigKey [memoryHeader, memoryLine]
        (removeKeyOutput true memoryKey.toConfigKey (bodiesText [memoryHeader, memoryLine])) := by
  have hfile : PlainFile (bodiesText [memoryHeader, memoryLine]) :=
    ⟨by decide, by decide, by decide⟩
  have hvalid : ∀ body ∈ [memoryHeader, memoryLine], body.Valid := by
    rintro body (_ | ⟨_, _ | ⟨_, hnone⟩⟩)
    · trivial
    · exact ⟨rfl, memoryItems_known⟩
    · cases hnone
  have hremovable : Removable memoryKey.toConfigKey [memoryHeader, memoryLine] := by
    refine ⟨?_, ?_⟩
    · rintro body ⟨⟩
      rfl
    · intro name _ e he
      obtain rfl := List.mem_singleton.mp (List.mem_of_find?_eq_some he)
      rfl
  exact ⟨hfile, by decide,
    ((removal_iff true memoryKey.toConfigKey hfile).2 _ hvalid rfl).mpr hremovable⟩

/-- The `#` between the quotes of the next value is not written. -/
theorem hash_is_lost :
    ¬ ∀ (skip : Bool) (k : ConfigKey) (bodies : List Body), PlainFile (bodiesText bodies) →
      (∀ body ∈ bodies, body.Valid) →
        Removes k bodies (removeKeyOutput skip k (bodiesText bodies)) := by
  intro h
  have hfile : PlainFile (bodiesText [memoryHeader, memoryLine, swapLine]) :=
    ⟨by decide, by decide, by decide⟩
  have hvalid : ∀ body ∈ [memoryHeader, memoryLine, swapLine], body.Valid := by
    rintro body (_ | ⟨_, _ | ⟨_, _ | ⟨_, hnone⟩⟩⟩)
    · trivial
    · exact ⟨rfl, memoryItems_known⟩
    · exact ⟨rfl, swapItems_known⟩
    · cases hnone
  have hsame := (h true memoryKey.toConfigKey _ hfile hvalid).others true (ascii "wsl2.swapFile")
    (by decide)
  have hbefore : firstSet true (ascii "wsl2.swapFile")
      (bodiesText [memoryHeader, memoryLine, swapLine]) = some (ascii "a#") := by decide
  have hafter : firstSet true (ascii "wsl2.swapFile") (removeKeyOutput true memoryKey.toConfigKey
      (bodiesText [memoryHeader, memoryLine, swapLine])) = some (ascii "a") := by decide
  rw [hbefore, hafter] at hsame
  cases hsame

end WslFreeBSD.Reference.ConfigFile
