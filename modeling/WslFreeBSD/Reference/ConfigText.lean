import WslFreeBSD.Config.CommonFile
import WslFreeBSD.Reference.ConfigFile

/-!
# The text of a configuration file

Bodies of lines as `ParseConfigFile` reads them, also malformed ones, and what they say: the section
that is open behind them and the calls of `SetConfig`. A body can be followed by a line break or by
the end of the file. What has no body here is what the parser does not read as a line of its own or
does not write as it was: comments with a `\r`, headers and keys that are malformed because the line
ends, and invalid lines that end with `\r\n`.
-/

namespace WslFreeBSD.Reference.ConfigFile

open Lib Config

/-! ## Values -/

/-- A piece of a value. -/
inductive Item where
  | char (c : {c : UInt8 // c ≠ 10 ∧ c ≠ 13 ∧ c ≠ 34 ∧ c ≠ 35 ∧ c ≠ 92})
  | quote
  /-- a `#` between quotes -/
  | hash
  /-- a known escape sequence; a line break continues the line -/
  | escape (c : {c : UInt8 // (unescape c).isSome = true})
  | unknown (c : {c : UInt8 // unescape c = none})

def Item.text : Item → Bytes
  | .char c => [c.val]
  | .quote => [34]
  | .hash => [35]
  | .escape c => [92, c.val]
  | .unknown c => [92, c.val]

/-- The locals that a value is read into. -/
structure ValueState where
  value : Bytes
  trimmedLength : Nat
  inQuote : Bool

def ValueState.init : ValueState := ⟨[], 0, false⟩

def ValueState.add (v : ValueState) (s : Bytes) : ValueState :=
  { v with value := v.value ++ s, trimmedLength := (v.value ++ s).length }

def ValueState.read (v : ValueState) : Item → ValueState
  | .char c =>
    if isHSpace c.val then { v with value := v.value ++ [c.val] } else v.add [c.val]
  | .quote => { v with inQuote := !v.inQuote, trimmedLength := v.value.length }
  | .hash => v.add [35]
  | .escape c => v.add ((unescape c.val).getD [])
  | .unknown _ => v.add []

def readItems (v : ValueState) (items : List Item) : ValueState := items.foldl ValueState.read v

/-- A `#` outside of quotes would be a comment. -/
def Placed : ValueState → List Item → Prop
  | _, [] => True
  | v, .hash :: items => v.inQuote = true ∧ Placed (v.read .hash) items
  | v, i :: items => Placed (v.read i) items

/-- The item is written as it is, and the value stays valid. -/
def Item.Plain : Item → Prop
  | .hash | .unknown _ => False
  | _ => True

/-- The items of a value: the spaces in front of it do not belong to them. -/
structure Items where
  list : List Item
  placed : Placed ValueState.init list
  noSpace : ∀ c ∈ (list.flatMap (·.text)).head?, isHSpace c = false

def Items.text (items : Items) : Bytes := items.list.flatMap (·.text)

def Items.last (items : Items) : ValueState := readItems ValueState.init items.list

def ValueState.stored (v : ValueState) : Bytes := cString (resize v.value v.trimmedLength) 0

theorem readItems_append (v : ValueState) (s t : List Item) :
    readItems v (s ++ t) = readItems (readItems v s) t := List.foldl_append

theorem readItems_singleton (v : ValueState) (i : Item) : readItems v [i] = v.read i := rfl

theorem placed_cons {v : ValueState} {i : Item} {items : List Item} :
    Placed v (i :: items) ↔ (i = .hash → v.inQuote = true) ∧ Placed (v.read i) items := by
  cases i <;> simp [Placed]

theorem placed_append {v : ValueState} {s t : List Item} :
    Placed v (s ++ t) ↔ Placed v s ∧ Placed (readItems v s) t := by
  induction s generalizing v with
  | nil => simp [Placed, readItems]
  | cons i s ih =>
    rw [List.cons_append, placed_cons, placed_cons, ih, and_assoc]
    rfl

/-! ### Plain text as a value -/

def IsPlainChar (c : UInt8) : Prop := c ≠ 10 ∧ c ≠ 13 ∧ c ≠ 34 ∧ c ≠ 35 ∧ c ≠ 92

instance : DecidablePred IsPlainChar := fun c =>
  inferInstanceAs (Decidable (c ≠ 10 ∧ c ≠ 13 ∧ c ≠ 34 ∧ c ≠ 35 ∧ c ≠ 92))

def charItem (c : UInt8) : Item := if h : IsPlainChar c then .char ⟨c, h⟩ else .quote

theorem charItem_eq {c : UInt8} (h : IsPlainChar c) : charItem c = .char ⟨c, h⟩ := dif_pos h

theorem text_charItems {s : Bytes} (h : ∀ c ∈ s, IsPlainChar c) :
    (s.map charItem).flatMap (·.text) = s := by
  induction s with
  | nil => rfl
  | cons c s ih =>
    rw [List.map_cons, List.flatMap_cons, charItem_eq (h c List.mem_cons_self),
      ih fun d hd => h d (List.mem_cons_of_mem _ hd)]
    rfl

theorem placed_charItems {s : Bytes} (h : ∀ c ∈ s, IsPlainChar c) (v : ValueState) :
    Placed v (s.map charItem) := by
  induction s generalizing v with
  | nil => trivial
  | cons c s ih =>
    rw [List.map_cons, placed_cons, charItem_eq (h c List.mem_cons_self)]
    exact ⟨fun heq => (nomatch heq), ih (fun d hd => h d (List.mem_cons_of_mem _ hd)) _⟩

theorem plain_charItems {s : Bytes} (h : ∀ c ∈ s, IsPlainChar c) {i : Item}
    (hi : i ∈ s.map charItem) : i.Plain := by
  obtain ⟨c, hc, rfl⟩ := List.mem_map.mp hi
  rw [charItem_eq (h c hc)]
  trivial

theorem read_charItems {s : Bytes} (h : ∀ c ∈ s, IsPlainChar c) :
    readItems ValueState.init (s.map charItem) =
      ⟨s, (s.rdropWhile isHSpace).length, false⟩ := by
  induction s using List.reverseRecOn with
  | nil => rfl
  | append_singleton s c ih =>
    have hrest := ih fun d hd => h d (List.mem_append_left _ hd)
    rw [List.map_append, readItems_append, hrest, List.map_singleton, charItem_eq (h c (by simp)),
      List.rdropWhile_concat, readItems_singleton, ValueState.read]
    split
    · rfl
    · rfl

theorem isPlainChar_of_isHSpace {c : UInt8} (h : isHSpace c = true) : IsPlainChar c := by
  rcases isBlank_iff.mp h with rfl | rfl <;> decide

theorem read_spaces (v : ValueState) {s : Bytes} (h : ∀ c ∈ s, isHSpace c = true) :
    readItems v (s.map charItem) = { v with value := v.value ++ s } := by
  induction s using List.reverseRecOn with
  | nil =>
    change v = { v with value := v.value ++ [] }
    rw [List.append_nil]
  | append_singleton s c ih =>
    have hc : isHSpace c = true := h c (by simp)
    have hrest := ih fun d hd => h d (List.mem_append_left _ hd)
    rw [List.map_append, readItems_append, hrest, List.map_singleton,
      charItem_eq (isPlainChar_of_isHSpace hc), readItems_singleton, ValueState.read, if_pos hc,
      List.append_assoc]

theorem resize_of_le {s : Bytes} {n : Nat} (h : n ≤ s.length) : resize s n = s.take n := by
  rw [resize, Nat.sub_eq_zero_of_le h, List.replicate_zero, List.append_nil]

theorem stored_charItems {s : Bytes} (h : ∀ c ∈ s, IsPlainChar c) :
    (readItems ValueState.init (s.map charItem)).stored = cString (s.rdropWhile isHSpace) 0 := by
  have hprefix := List.rdropWhile_prefix isHSpace (l := s)
  rw [read_charItems h, ValueState.stored]
  dsimp only
  rw [resize_of_le hprefix.length_le, ← List.prefix_iff_eq_take.mp hprefix]

/-! ## Bodies -/

abbrev Rest := {s : Bytes // ∀ c ∈ s, c ≠ 10 ∧ c ≠ 13}

/-- What is in front of a character that makes a line malformed. -/
inductive Broken where
  | start
  | sectionStart
  | sectionName (name : Word)
  | afterBracket (name : Word) (spaces : Blanks)
  | key (name : Word) (spaces : Blanks)

def Broken.text : Broken → Bytes
  | .start => []
  | .sectionStart => [91]
  | .sectionName name => 91 :: name.val
  | .afterBracket name spaces => 91 :: (name.val ++ 93 :: spaces.val)
  | .key name spaces => name.val ++ spaces.val

/-- A character that cannot follow. A line break is none of them: in update mode the next line would
be taken for the rest of this one. -/
def Broken.Offends : Broken → UInt8 → Prop
  | .start, c => isHSpace c = false ∧ c ≠ 10 ∧ c ≠ 13 ∧ c ≠ 35 ∧ c ≠ 91 ∧ isAlpha c = false
  | .sectionStart, c => isAlpha c = false ∧ c ≠ 10
  | .sectionName _, c => isAlnum c = false ∧ c ≠ 93 ∧ c ≠ 10
  | .afterBracket _ _, c => isHSpace c = false ∧ c ≠ 10 ∧ c ≠ 13 ∧ c ≠ 35
  | .key _ spaces, c =>
    isHSpace c = false ∧ c ≠ 61 ∧ c ≠ 10 ∧ (spaces.val = [] → isAlnum c = false)

/-- A comment behind something else, if there is one. -/
def remarkText : Option Rest → Bytes
  | none => []
  | some text => 35 :: text.val

inductive Body where
  | blank (spaces : Blanks)
  | comment (spaces : Blanks) (text : Rest)
  | header (spaces : Blanks) (name : Word) (after : Blanks) (remark : Option Rest)
  | keyValue (spaces : Blanks) (key : Word) (before after : Blanks) (items : Items)
      (remark : Option Rest) (closed : remark.isSome = true → items.last.inQuote = false)
  | malformed (spaces : Blanks) (front : Broken) (c : {c : UInt8 // front.Offends c}) (rest : Rest)
  /-- the rest of a line is skipped from an unknown escape sequence on -/
  | badEscape (spaces : Blanks) (key : Word) (before after : Blanks) (items : Items)
      (c : {c : UInt8 // unescape c = none}) (rest : Rest)

def Body.text : Body → Bytes
  | .blank spaces => spaces.val
  | .comment spaces text => spaces.val ++ 35 :: text.val
  | .header spaces name after remark =>
    spaces.val ++ 91 :: (name.val ++ 93 :: (after.val ++ remarkText remark))
  | .keyValue spaces key before after items remark _ =>
    spaces.val ++ (key.val ++ (before.val ++ 61 ::
      (after.val ++ (items.text ++ remarkText remark))))
  | .malformed spaces front c rest => spaces.val ++ (front.text ++ c.val :: rest.val)
  | .badEscape spaces key before after items c rest =>
    spaces.val ++ (key.val ++ (before.val ++ 61 ::
      (after.val ++ (items.text ++ 92 :: c.val :: rest.val))))

/-- `\r\n` can follow: a `\r` in a comment or in the rest of an invalid line is not read like that. -/
def Body.AllowsReturn : Body → Prop
  | .header _ _ _ remark => remark = none
  | .keyValue _ _ _ _ items remark _ => remark = none ∧ items.last.inQuote = false
  | _ => False

/-- A line and its end. -/
structure Line where
  body : Body
  hasReturn : Bool
  allowed : hasReturn = true → body.AllowsReturn

def Line.ending (line : Line) : Bytes := if line.hasReturn then [13, 10] else [10]

def Line.text (line : Line) : Bytes := line.body.text ++ line.ending

/-- A file: lines, and what follows the last line break. -/
structure ConfigText where
  lines : List Line
  last : Body

def ConfigText.text (file : ConfigText) : Bytes := file.lines.flatMap (·.text) ++ file.last.text

/-! ## What lines say -/

/-- `section.key`, or the key alone in front of the first section. -/
def fullName (inSection key : Bytes) : Bytes := if inSection = [] then key else inSection ++ 46 :: key

/-- The name in a malformed header takes the place of the section, but its length does not change. -/
def Broken.nextSection (inSection : Bytes) : Broken → Bytes
  | .sectionName name | .afterBracket name _ => resize name.val inSection.length
  | _ => inSection

def Body.nextSection (inSection : Bytes) : Body → Bytes
  | .header _ name _ _ => name.val
  | .malformed _ front _ _ => front.nextSection inSection
  | _ => inSection

def Item.isUnknown : Item → Bool
  | .unknown _ => true
  | _ => false

/-- The call of `SetConfig` for a body. -/
def Body.calls (inSection : Bytes) : Body → List (Bytes × Bytes)
  | .keyValue _ key _ _ items _ _ =>
    if items.list.any (·.isUnknown) || items.last.inQuote then []
    else [(cString (fullName inSection key.val) 0, items.last.stored)]
  | _ => []

def lineCalls (inSection : Bytes) : List Line → List (Bytes × Bytes)
  | [] => []
  | line :: ls => line.body.calls inSection ++ lineCalls (line.body.nextSection inSection) ls

def lastSection (inSection : Bytes) (ls : List Line) : Bytes :=
  ls.foldl (fun s line => line.body.nextSection s) inSection

def ConfigText.calls (file : ConfigText) : List (Bytes × Bytes) :=
  lineCalls [] file.lines ++ file.last.calls (lastSection [] file.lines)

def Body.Copied : Body → Prop
  | .keyValue _ _ _ _ items _ _ => ∀ i ∈ items.list, i.Plain
  | .badEscape _ _ _ _ items _ _ => ∀ i ∈ items.list, i.Plain
  | _ => True

def Body.isPlace : Body → Bool
  | .header _ _ _ remark => remark.isSome
  | .keyValue _ _ _ _ items _ _ => !items.last.inQuote
  | _ => false

def Broken.opensHeader : Broken → Bool
  | .start | .key _ _ => false
  | _ => true

def Body.opensHeader : Body → Bool
  | .header _ _ _ _ => true
  | .malformed _ front _ _ => front.opensHeader
  | _ => false

def Body.key : Body → Option Bytes
  | .keyValue _ key _ _ _ _ _ => some key.val
  | .badEscape _ key _ _ _ _ _ => some key.val
  | _ => none

end WslFreeBSD.Reference.ConfigFile
