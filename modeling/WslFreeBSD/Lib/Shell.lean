import WslFreeBSD.Lib.Bytes

/-!
# Shell commands put together from texts

A shell reads a command character by character, and every character has a role: it is part of a word,
or it separates words, or it is an operator, a quote, an escape, the start of an expansion or part of
a comment. `step` gives the role of a character after the characters before it. The scan says where an
expansion starts and not how far it goes, so roles are exact up to the first expansion.

A command is often put together from fixed texts and fields, which are filled with data. A field is
used as data if all its characters are literal characters of one word and none of them makes the word
an option (`IsData`). Whether that is so can be told from the characters of the fields alone
(`isData_iff_plain`): outside quotes none of them may be special to the shell, between single quotes
none may be a single quote, and at the start of a word some more are not allowed.
-/

namespace WslFreeBSD.Lib.Shell

open Lib

/-- What the next character is read as. -/
inductive Mode
  | plain
  | single
  | double
  | escape
  | doubleEscape
  | comment
  deriving DecidableEq, Repr

/-- How much there is of the current word: nothing, only quotes, or characters. -/
inductive Word
  | outside
  | opened
  | inside
  deriving DecidableEq, Repr

structure State where
  mode : Mode := .plain
  word : Word := .outside
  deriving DecidableEq, Repr

inductive Role
  | literal
  | blank
  | operator
  | quote
  | escape
  | expansion
  | comment
  deriving DecidableEq, Repr

def Word.open : Word → Word
  | .outside => .opened
  | w => w

def isBlank (c : UInt8) : Bool := c = 32 || c = 9

/-- A line end and the characters `;&|<>()`. -/
def isOperator (c : UInt8) : Bool :=
  c = 10 || c = 59 || c = 38 || c = 124 || c = 60 || c = 62 || c = 40 || c = 41

/-- A dollar sign, a backquote and the characters of patterns. -/
def isExpansion (c : UInt8) : Bool := c = 36 || c = 96 || c = 42 || c = 63 || c = 91

/-- Outside quotes. A `#` or a tilde is special at the start of a word. -/
def stepPlain (w : Word) (c : UInt8) : Role × State :=
  if isBlank c then (.blank, {})
  else if isOperator c then (.operator, {})
  else if c = 39 then (.quote, ⟨.single, w.open⟩)
  else if c = 34 then (.quote, ⟨.double, w.open⟩)
  else if c = 92 then (.escape, ⟨.escape, w⟩)
  else if isExpansion c then (.expansion, ⟨.plain, .inside⟩)
  else if w = .outside ∧ c = 35 then (.comment, ⟨.comment, w⟩)
  else if w = .outside ∧ c = 126 then (.expansion, ⟨.plain, .inside⟩)
  else (.literal, ⟨.plain, .inside⟩)

/-- The role of a character, and the state after it. -/
def step (s : State) (c : UInt8) : Role × State :=
  match s.mode with
  | .plain => stepPlain s.word c
  | .single => if c = 39 then (.quote, ⟨.plain, s.word⟩) else (.literal, ⟨.single, .inside⟩)
  | .double =>
    if c = 34 then (.quote, ⟨.plain, s.word⟩)
    else if c = 36 ∨ c = 96 then (.expansion, ⟨.double, .inside⟩)
    else if c = 92 then (.escape, ⟨.doubleEscape, s.word⟩)
    else (.literal, ⟨.double, .inside⟩)
  -- an escaped line end disappears
  | .escape => if c = 10 then (.escape, ⟨.plain, s.word⟩) else (.literal, ⟨.plain, .inside⟩)
  | .doubleEscape => if c = 10 then (.escape, ⟨.double, s.word⟩) else (.literal, ⟨.double, .inside⟩)
  | .comment => if c = 10 then (.operator, {}) else (.comment, s)

def scan (s : State) (text : Bytes) : State := text.foldl (fun s c => (step s c).2) s

@[simp] theorem scan_nil (s : State) : scan s [] = s := rfl

@[simp] theorem scan_cons (s : State) (c : UInt8) (text : Bytes) :
    scan s (c :: text) = scan (step s c).2 text := rfl

/-! ## Fields -/

/-- A part of a command. -/
inductive Part
  | text (t : Bytes)
  | field (b : Bytes)
  deriving DecidableEq, Repr

def Part.bytes : Part → Bytes
  | .text t => t
  | .field b => b

def render (parts : List Part) : Bytes := (parts.map Part.bytes).flatten

/-- The character is a literal character of a word and does not make the word an option. -/
def LiteralChar (s : State) (c : UInt8) : Prop :=
  (step s c).1 = .literal ∧ (c = 45 → s.word = .inside)

def Literal : State → Bytes → Prop
  | _, [] => True
  | s, c :: b => LiteralChar s c ∧ Literal (step s c).2 b

/-- In the command, every character of a field is data. -/
def IsData : State → List Part → Prop
  | _, [] => True
  | s, .text t :: parts => IsData (scan s t) parts
  | s, .field b :: parts => Literal s b ∧ IsData (scan s b) parts

/-! ## Plain fields -/

def isSpecial (c : UInt8) : Bool :=
  isBlank c || isOperator c || c = 39 || c = 34 || c = 92 || isExpansion c

/-- The characters that are literal in a mode, in the middle of a word. -/
def allowed : Mode → UInt8 → Bool
  | .plain, c => !isSpecial c
  | .single, c => c ≠ 39
  | .double, c => c ≠ 34 && c ≠ 36 && c ≠ 96 && c ≠ 92
  | .escape, c => c ≠ 10
  | .doubleEscape, c => c ≠ 10
  | .comment, _ => false

/-- What a word may not start with: a minus sign, and outside quotes a `#` or a tilde. -/
def startAllowed (s : State) (c : UInt8) : Bool :=
  match s.word with
  | .inside => true
  | .opened => c ≠ 45
  | .outside => c ≠ 45 && (s.mode ≠ .plain || (c ≠ 35 && c ≠ 126))

def Mode.next : Mode → Mode
  | .escape => .plain
  | .doubleEscape => .double
  | m => m

/-- A field has no character that is special where the field stands. -/
def PlainField (s : State) : Bytes → Prop
  | [] => True
  | c :: b => allowed s.mode c = true ∧ startAllowed s c = true ∧ ∀ d ∈ b, allowed s.mode.next d = true

def afterField (s : State) (b : Bytes) : State :=
  if b = [] then s else ⟨s.mode.next, .inside⟩

/-- The fields of a command are plain where they stand. -/
def Plain : State → List Part → Prop
  | _, [] => True
  | s, .text t :: parts => Plain (scan s t) parts
  | s, .field b :: parts => PlainField s b ∧ Plain (afterField s b) parts

/-! ## Data is what is plain -/

theorem literal_stepPlain_iff (w : Word) (c : UInt8) : (stepPlain w c).1 = .literal ↔
    isSpecial c = false ∧ (w = .outside → c ≠ 35 ∧ c ≠ 126) := by
  unfold stepPlain isSpecial
  by_cases hblank : isBlank c = true
  · simp [hblank]
  by_cases hoperator : isOperator c = true
  · simp [hblank, hoperator]
  by_cases hsingle : c = 39
  · rw [if_neg hblank, if_neg hoperator, if_pos hsingle]
    simp [hsingle]
  by_cases hdouble : c = 34
  · rw [if_neg hblank, if_neg hoperator, if_neg hsingle, if_pos hdouble]
    simp [hdouble]
  by_cases hescape : c = 92
  · rw [if_neg hblank, if_neg hoperator, if_neg hsingle, if_neg hdouble, if_pos hescape]
    simp [hescape]
  by_cases hexpansion : isExpansion c = true
  · simp [hblank, hoperator, hsingle, hdouble, hescape, hexpansion]
  rw [if_neg hblank, if_neg hoperator, if_neg hsingle, if_neg hdouble, if_neg hescape,
    if_neg hexpansion]
  by_cases hw : w = .outside
  · by_cases hhash : c = 35
    · simp [hw, hhash]
    · by_cases htilde : c = 126
      · simp [hw, htilde]
      · simp [hw, hhash, htilde, hblank, hoperator, hsingle, hdouble, hescape, hexpansion]
  · simp [hw, hblank, hoperator, hsingle, hdouble, hescape, hexpansion]

theorem literalChar_iff (s : State) (c : UInt8) :
    LiteralChar s c ↔ allowed s.mode c = true ∧ startAllowed s c = true := by
  obtain ⟨mode, word⟩ := s
  unfold LiteralChar startAllowed
  cases mode with
  | plain =>
    change (stepPlain word c).1 = .literal ∧ _ ↔ _
    rw [literal_stepPlain_iff]
    cases word with
    | outside =>
      simp [allowed]
      tauto
    | opened => simp [allowed]
    | inside => simp [allowed]
  | single =>
    by_cases hc : c = 39
    · simp [step, allowed, hc]
    · cases word <;> simp [step, allowed, hc]
  | double =>
    by_cases hquote : c = 34
    · simp [step, allowed, hquote]
    by_cases hdollar : c = 36 ∨ c = 96
    · rcases hdollar with rfl | rfl <;> simp [step, allowed]
    by_cases hescape : c = 92
    · simp [step, allowed, hescape]
    rw [not_or] at hdollar
    cases word <;> simp [step, allowed, hquote, hdollar, hescape]
  | escape =>
    by_cases hc : c = 10
    · simp [step, allowed, hc]
    · cases word <;> simp [step, allowed, hc]
  | doubleEscape =>
    by_cases hc : c = 10
    · simp [step, allowed, hc]
    · cases word <;> simp [step, allowed, hc]
  | comment =>
    by_cases hc : c = 10
    · simp [step, allowed, hc]
    · simp [step, allowed, hc]

theorem literal_ite {p : Prop} [Decidable p] {role : Role} {st st' : State} {rest : Role × State}
    (hrole : role ≠ .literal) (hrest : rest.1 = .literal → rest.2 = st') :
    (if p then (role, st) else rest).1 = .literal → (if p then (role, st) else rest).2 = st' := by
  split
  · exact fun h => absurd h hrole
  · exact hrest

theorem stepPlain_of_literal {w : Word} {c : UInt8} :
    (stepPlain w c).1 = .literal → (stepPlain w c).2 = ⟨.plain, .inside⟩ := by
  unfold stepPlain
  apply literal_ite (by decide)
  apply literal_ite (by decide)
  apply literal_ite (by decide)
  apply literal_ite (by decide)
  apply literal_ite (by decide)
  apply literal_ite (by decide)
  apply literal_ite (by decide)
  apply literal_ite (by decide)
  exact fun _ => rfl

theorem step_of_literal {s : State} {c : UInt8} (h : (step s c).1 = .literal) :
    (step s c).2 = ⟨s.mode.next, .inside⟩ := by
  obtain ⟨mode, word⟩ := s
  revert h
  cases mode with
  | plain => exact stepPlain_of_literal
  | single => exact literal_ite (by decide) fun _ => rfl
  | double => exact literal_ite (by decide) (literal_ite (by decide) (literal_ite (by decide) fun _ => rfl))
  | escape => exact literal_ite (by decide) fun _ => rfl
  | doubleEscape => exact literal_ite (by decide) fun _ => rfl
  | comment => exact literal_ite (by decide) fun h => by cases h

theorem Mode.next_next (m : Mode) : m.next.next = m.next := by
  cases m <;> rfl

theorem literal_inside_iff {m : Mode} (hm : m.next = m) (b : Bytes) :
    Literal ⟨m, .inside⟩ b ↔ ∀ c ∈ b, allowed m c = true := by
  induction b with
  | nil => simp [Literal]
  | cons c b ih =>
    rw [Literal, literalChar_iff, List.forall_mem_cons]
    constructor
    · rintro ⟨hc, hb⟩
      have hlit := ((literalChar_iff _ _).mpr hc).1
      rw [step_of_literal hlit, hm] at hb
      exact ⟨hc.1, ih.mp hb⟩
    · rintro ⟨hc, hb⟩
      have hchar : allowed m c = true ∧ startAllowed ⟨m, .inside⟩ c = true := ⟨hc, rfl⟩
      have hlit := ((literalChar_iff ⟨m, .inside⟩ c).mpr hchar).1
      refine ⟨hchar, ?_⟩
      rw [step_of_literal hlit, hm]
      exact ih.mpr hb

theorem literal_iff_plainField (s : State) (b : Bytes) : Literal s b ↔ PlainField s b := by
  cases b with
  | nil => exact Iff.rfl
  | cons c b =>
    rw [Literal, PlainField, literalChar_iff, and_assoc]
    refine and_congr_right fun hallowed => and_congr_right fun hstart => ?_
    have hlit := ((literalChar_iff s c).mpr ⟨hallowed, hstart⟩).1
    rw [step_of_literal hlit]
    exact literal_inside_iff (Mode.next_next _) b

theorem scan_eq_afterField {s : State} {b : Bytes} (h : Literal s b) : scan s b = afterField s b := by
  induction b generalizing s with
  | nil => rfl
  | cons c b ih =>
    obtain ⟨hc, hb⟩ := h
    rw [step_of_literal hc.1] at hb
    rw [scan_cons, step_of_literal hc.1, ih hb]
    unfold afterField
    split
    · rfl
    · rw [Mode.next_next]
      rfl

theorem isData_iff_plain (s : State) (parts : List Part) : IsData s parts ↔ Plain s parts := by
  induction parts generalizing s with
  | nil => exact Iff.rfl
  | cons part parts ih =>
    cases part with
    | text t => exact ih _
    | field b =>
      rw [IsData, Plain, literal_iff_plainField]
      refine and_congr_right fun h => ?_
      rw [scan_eq_afterField ((literal_iff_plainField s b).mpr h)]
      exact ih _

end WslFreeBSD.Lib.Shell
