import WslFreeBSD.Gns.KeySearch

/-!
# Members of a JSON text

The texts that the host sends: JSON without white space, except for blanks around colons, whose keys
are letters and digits and whose strings escape quotes and backslashes only. The search for a key is
no parser, but in such a text it finds the first member with that key in document order, however deep
it is nested, and nothing else (`first_member_found`).
-/

namespace WslFreeBSD.Gns

open Lib

/-! ## Texts -/

structure ObjectKey where
  text : Bytes
  name : IsName text
  short : text.length ≤ 61

structure Blanks where
  text : Bytes
  blank : ∀ c ∈ text, isBlank c = true

/-- The characters of numbers and of `true`, `false` and `null`. -/
def isScalarChar (c : UInt8) : Bool := isAlnum c || c = 43 || c = 45 || c = 46

/-- A number or a literal. -/
structure Scalar where
  text : Bytes
  nonempty : text ≠ []
  plain : ∀ c ∈ text, isScalarChar c = true

mutual

inductive Json where
  | scalar (s : Scalar)
  | string (s : Bytes)
  | array (items : Items)
  | object (members : Members)

inductive Items where
  | nil
  | cons (value : Json) (rest : Items)

inductive Members where
  | nil
  | cons (key : ObjectKey) (before behind : Blanks) (value : Json) (rest : Members)

end

mutual

def Json.text : Json → Bytes
  | .scalar s => s.text
  | .string s => 34 :: (escape s ++ [34])
  | .array items => 91 :: (items.text [] ++ [93])
  | .object members => 123 :: (members.text [] ++ [125])

/-- The items, with a separator in front of the first one. -/
def Items.text : Items → Bytes → Bytes
  | .nil, _ => []
  | .cons value rest, sep => sep ++ (value.text ++ rest.text [44])

def Members.text : Members → Bytes → Bytes
  | .nil, _ => []
  | .cons key before behind value rest, sep =>
    sep ++ (34 :: (key.text ++ 34 :: (before.text ++ 58 :: (behind.text ++
      (value.text ++ rest.text [44])))))

end

/-- A member of an object somewhere in a text, with the text from its value on. -/
structure Found where
  key : Bytes
  value : Json
  position : Bytes

mutual

/-- The members in document order, in a text that goes on with `after`. -/
def Json.members : Json → Bytes → List Found
  | .scalar _, _ => []
  | .string _, _ => []
  | .array items, after => items.members (93 :: after)
  | .object members, after => members.members (125 :: after)

def Items.members : Items → Bytes → List Found
  | .nil, _ => []
  | .cons value rest, after => value.members (rest.text [44] ++ after) ++ rest.members after

def Members.members : Members → Bytes → List Found
  | .nil, _ => []
  | .cons key _ _ value rest, after =>
    ⟨key.text, value, value.text ++ (rest.text [44] ++ after)⟩ ::
      (value.members (rest.text [44] ++ after) ++ rest.members after)

end

def Json.firstMember (json : Json) (key : ObjectKey) : Option Found :=
  (json.members []).find? (·.key = key.text)

def Json.contents : Json → Option Bytes
  | .string s => some s
  | _ => none

def ObjectKey.argument (key : ObjectKey) : String :=
  String.ofList (key.text.map fun c => Char.ofNat c.toNat)

theorem ascii_argument (key : ObjectKey) : ascii key.argument = key.text := by
  rw [ascii, ObjectKey.argument, String.toList_ofList, List.map_map]
  conv_rhs => rw [← List.map_id key.text]
  refine List.map_congr_left fun c _ => ?_
  have hall : ∀ c : UInt8, UInt8.ofNat (Char.ofNat c.toNat).toNat = c := forall_char (by decide +kernel)
  exact hall c

/-! ## Searching a text -/

theorem isScalarChar_spec {c : UInt8} (h : isScalarChar c = true) : c ≠ 34 ∧ isBlank c = false := by
  have hall : ∀ c : UInt8, isScalarChar c = true → c ≠ 34 ∧ isBlank c = false :=
    forall_char (by decide +kernel)
  exact hall c h

theorem dropWhile_text (value : Json) (s : Bytes) :
    (value.text ++ s).dropWhile isBlank = value.text ++ s := by
  cases value with
  | scalar t =>
    obtain ⟨c, cs, hcs⟩ := List.exists_cons_of_ne_nil t.nonempty
    have hc : isBlank c = false := (isScalarChar_spec (t.plain c (hcs ▸ List.mem_cons_self))).2
    rw [Json.text, hcs, List.cons_append, List.dropWhile_cons, hc]
    rfl
  | string t => rfl
  | array items => rfl
  | object members => rfl

theorem follows_items (items : Items) {after : Bytes} (h : Follows after) :
    Follows (items.text [44] ++ after) := by
  cases items with
  | nil => exact h
  | cons value rest => exact follows_cons (Or.inl rfl) _

theorem follows_members (members : Members) {after : Bytes} (h : Follows after) :
    Follows (members.text [44] ++ after) := by
  cases members with
  | nil => exact h
  | cons key before behind value rest => exact follows_cons (Or.inl rfl) _

/-- The position of the first of some members that has a key. -/
def firstPosition (key : Bytes) (found : List Found) : Option Bytes :=
  (found.find? (·.key = key)).map (·.position)

theorem firstPosition_append (key : Bytes) (found found' : List Found) :
    firstPosition key (found ++ found') = (firstPosition key found).or (firstPosition key found') := by
  unfold firstPosition
  rw [List.find?_append]
  cases found.find? (·.key = key) with
  | none => rw [Option.none_or, Option.map_none, Option.none_or]
  | some m => rw [Option.some_or, Option.map_some, Option.some_or]

mutual

theorem search_text {key : Bytes} (hkey : IsName key) {after : Bytes} (hafter : Follows after) :
    ∀ value : Json, search key (value.text ++ after) =
      (firstPosition key (value.members after)).or (search key after)
  | .scalar t => by
    have hquote : 34 ∉ t.text := fun h => (isScalarChar_spec (t.plain 34 h)).1 rfl
    exact search_plain hquote after
  | .string t => by
    have hform : (Json.string t).text ++ after = 34 :: (escape t ++ 34 :: after) := by
      rw [Json.text, List.cons_append, List.append_assoc]
      rfl
    rw [hform]
    exact search_string hkey hafter t
  | .array items => by
    have hform : (Json.array items).text ++ after = 91 :: (items.text [] ++ 93 :: after) := by
      rw [Json.text, List.cons_append, List.append_assoc]
      rfl
    rw [hform, search_other (by decide), search_items hkey (follows_cons (Or.inr (Or.inl rfl)) after)
      (by decide) items, search_other (by decide)]
    rfl
  | .object members => by
    have hform : (Json.object members).text ++ after =
        123 :: (members.text [] ++ 125 :: after) := by
      rw [Json.text, List.cons_append, List.append_assoc]
      rfl
    rw [hform, search_other (by decide), search_members hkey
      (follows_cons (Or.inr (Or.inr rfl)) after) (by decide) members, search_other (by decide)]
    rfl

theorem search_items {key : Bytes} (hkey : IsName key) {after : Bytes} (hafter : Follows after)
    {sep : Bytes} (hsep : 34 ∉ sep) :
    ∀ items : Items, search key (items.text sep ++ after) =
      (firstPosition key (items.members after)).or (search key after)
  | .nil => rfl
  | .cons value rest => by
    have hform : (Items.cons value rest).text sep ++ after =
        sep ++ (value.text ++ (rest.text [44] ++ after)) := by
      rw [Items.text, List.append_assoc, List.append_assoc]
    rw [hform, search_plain hsep, search_text hkey (follows_items rest hafter) value,
      search_items hkey hafter (by decide) rest, Items.members, firstPosition_append, Option.or_assoc]

theorem search_members {key : Bytes} (hkey : IsName key) {after : Bytes} (hafter : Follows after)
    {sep : Bytes} (hsep : 34 ∉ sep) :
    ∀ members : Members, search key (members.text sep ++ after) =
      (firstPosition key (members.members after)).or (search key after)
  | .nil => rfl
  | .cons key' before behind value rest => by
    have hform : (Members.cons key' before behind value rest).text sep ++ after =
        sep ++ (34 :: (key'.text ++ 34 :: (before.text ++ 58 :: (behind.text ++
          (value.text ++ (rest.text [44] ++ after)))))) := by
      simp only [Members.text, List.append_assoc, List.cons_append]
    rw [hform, search_plain hsep]
    by_cases hfound : key'.text = key
    · rw [← hfound, search_key before.blank behind.blank (dropWhile_text value _)]
      simp [firstPosition, Members.members]
    · have hskip : firstPosition key ((Members.cons key' before behind value rest).members after) =
          firstPosition key (value.members (rest.text [44] ++ after) ++ rest.members after) := by
        rw [firstPosition, Members.members, List.find?_cons_of_neg (by simpa using hfound)]
        rfl
      rw [search_otherKey hkey key'.name hfound before.blank behind.blank,
        search_text hkey (follows_members rest hafter) value,
        search_members hkey hafter (by decide) rest, hskip, firstPosition_append, Option.or_assoc]

end

theorem gnsJsonFindValue_text (json : Json) (key : ObjectKey) :
    gnsJsonFindValue json.text key.argument = (json.firstMember key).map (·.position) := by
  have hsearch := search_text key.name follows_nil json
  rw [List.append_nil, search_nil, Option.or_none] at hsearch
  rw [gnsJsonFindValue_eq json.text (by rw [ascii_argument]; exact key.short), ascii_argument, hsearch]
  rfl

/-! ## Positions and strings -/

/-- The position of a member is one in the whole text, and its value stands there. -/
structure IsAt (whole : Bytes) (m : Found) : Prop where
  suffix : m.position <:+ whole
  value : ∃ rest, m.position = m.value.text ++ rest

theorem IsAt.mono {whole whole' : Bytes} {m : Found} (h : IsAt whole m) (hw : whole <:+ whole') :
    IsAt whole' m := ⟨h.suffix.trans hw, h.value⟩

theorem suffix_item (value : Json) (rest : Items) (sep after : Bytes) :
    rest.text [44] ++ after <:+ (Items.cons value rest).text sep ++ after ∧
      value.text ++ (rest.text [44] ++ after) <:+ (Items.cons value rest).text sep ++ after := by
  rw [Items.text, List.append_assoc, List.append_assoc]
  exact ⟨(List.suffix_append _ _).trans (List.suffix_append _ _), List.suffix_append _ _⟩

theorem suffix_member (key : ObjectKey) (before behind : Blanks) (value : Json) (rest : Members)
    (sep after : Bytes) :
    rest.text [44] ++ after <:+ (Members.cons key before behind value rest).text sep ++ after ∧
      value.text ++ (rest.text [44] ++ after) <:+
        (Members.cons key before behind value rest).text sep ++ after := by
  have hform : (Members.cons key before behind value rest).text sep ++ after =
      (sep ++ 34 :: (key.text ++ 34 :: (before.text ++ 58 :: behind.text))) ++
        (value.text ++ (rest.text [44] ++ after)) := by
    simp only [Members.text, List.append_assoc, List.cons_append]
  rw [hform]
  exact ⟨(List.suffix_append _ _).trans (List.suffix_append _ _), List.suffix_append _ _⟩

mutual

theorem isAt_members {after : Bytes} :
    ∀ (value : Json), ∀ m ∈ value.members after, IsAt (value.text ++ after) m
  | .scalar _, _, hm => absurd hm List.not_mem_nil
  | .string _, _, hm => absurd hm List.not_mem_nil
  | .array items, m, hm => by
    have hform : (Json.array items).text ++ after = 91 :: (items.text [] ++ 93 :: after) := by
      rw [Json.text, List.cons_append, List.append_assoc]
      rfl
    rw [hform]
    exact (isAt_items items [] m hm).mono (List.suffix_cons _ _)
  | .object members, m, hm => by
    have hform : (Json.object members).text ++ after =
        123 :: (members.text [] ++ 125 :: after) := by
      rw [Json.text, List.cons_append, List.append_assoc]
      rfl
    rw [hform]
    exact (isAt_object members [] m hm).mono (List.suffix_cons _ _)

theorem isAt_items {after : Bytes} :
    ∀ (items : Items) (sep : Bytes), ∀ m ∈ items.members after, IsAt (items.text sep ++ after) m
  | .nil, _, _, hm => absurd hm List.not_mem_nil
  | .cons value rest, sep, m, hm => by
    obtain ⟨hrest, hvalue⟩ := suffix_item value rest sep after
    rcases List.mem_append.mp hm with hm | hm
    · exact (isAt_members value m hm).mono hvalue
    · exact (isAt_items rest [44] m hm).mono hrest

theorem isAt_object {after : Bytes} :
    ∀ (members : Members) (sep : Bytes),
      ∀ m ∈ members.members after, IsAt (members.text sep ++ after) m
  | .nil, _, _, hm => absurd hm List.not_mem_nil
  | .cons key before behind value rest, sep, m, hm => by
    obtain ⟨hrest, hvalue⟩ := suffix_member key before behind value rest sep after
    rcases List.mem_cons.mp hm with rfl | hm
    · exact ⟨hvalue, _, rfl⟩
    · rcases List.mem_append.mp hm with hm | hm
      · exact (isAt_members value m hm).mono hvalue
      · exact (isAt_object rest [44] m hm).mono hrest

end

theorem isAt_of_firstMember {json : Json} {key : ObjectKey} {m : Found}
    (h : json.firstMember key = some m) : IsAt json.text m := by
  have hat := isAt_members json m (List.mem_of_find?_eq_some h)
  rwa [List.append_nil] at hat

theorem copyString_escape (room : Nat) (s rest : Bytes) :
    copyString room (escape s ++ 34 :: rest) = s.take (room - 1) := by
  induction s generalizing room with
  | nil =>
    rw [List.take_nil]
    show copyString room (34 :: rest) = []
    unfold copyString
    simp
  | cons c s ih =>
    have htake : (if room ≤ 1 then [] else c :: s.take (room - 1 - 1)) = (c :: s).take (room - 1) := by
      split
      · rename_i hroom
        rw [show room - 1 = 0 by omega, List.take_zero]
      · rename_i hroom
        obtain ⟨n, hn⟩ := Nat.exists_eq_succ_of_ne_zero (n := room - 1) (by omega)
        rw [hn, List.take_succ_cons]
        rfl
    rw [escape_cons, ← htake, ← ih (room - 1)]
    split
    · rfl
    · rename_i hplain
      have hquote : c ≠ 34 := fun h => hplain (Or.inl h)
      show copyString room (c :: (escape s ++ 34 :: rest)) = _
      rw [copyString]
      · simp only [hquote, false_or]
      · intro c' v hc
        exact absurd (Or.inr hc) hplain

theorem quote_of_text (value : Json) (rest : Bytes) :
    (∃ s, value = .string s ∧ value.text ++ rest = 34 :: (escape s ++ 34 :: rest)) ∨
      value.contents = none ∧ (value.text ++ rest).head? ≠ some 34 := by
  cases value with
  | string s =>
    refine Or.inl ⟨s, rfl, ?_⟩
    rw [Json.text, List.cons_append, List.append_assoc]
    rfl
  | scalar t =>
    obtain ⟨c, cs, hcs⟩ := List.exists_cons_of_ne_nil t.nonempty
    have hc : c ≠ 34 := (isScalarChar_spec (t.plain c (hcs ▸ List.mem_cons_self))).1
    refine Or.inr ⟨rfl, ?_⟩
    rw [Json.text, hcs]
    exact fun h => hc (Option.some.inj h)
  | array items => exact Or.inr ⟨rfl, by simp [Json.text]⟩
  | object members => exact Or.inr ⟨rfl, by simp [Json.text]⟩

/-- A lookup finds the value of the first member with its key in document order, and nothing if there
is none. If the value is a string, it is returned without its escapes, cut to the buffer. -/
theorem first_member_found (json : Json) (key : ObjectKey) (outSize : Nat) :
    gnsJsonFindValue json.text key.argument = (json.firstMember key).map (·.position) ∧
      (∀ m, json.firstMember key = some m → IsAt json.text m) ∧
      gnsJsonGetString json.text key.argument outSize =
        ((json.firstMember key).bind (·.value.contents)).map (·.take (outSize - 1)) := by
  have hfind := gnsJsonFindValue_text json key
  refine ⟨hfind, fun m hm => isAt_of_firstMember hm, ?_⟩
  rw [gnsJsonGetString, hfind]
  cases hm : json.firstMember key with
  | none => rfl
  | some m =>
    obtain ⟨rest, hposition⟩ := (isAt_of_firstMember hm).value
    rw [Option.map_some, Option.bind_some, hposition]
    rcases quote_of_text m.value rest with ⟨s, hvalue, htext⟩ | ⟨hnone, hhead⟩
    · rw [htext, hvalue]
      exact congrArg some (copyString_escape outSize s rest)
    · rw [hnone]
      split
      · rename_i heq
        rw [Option.some.inj heq] at hhead
        exact absurd rfl hhead
      · rfl

end WslFreeBSD.Gns
