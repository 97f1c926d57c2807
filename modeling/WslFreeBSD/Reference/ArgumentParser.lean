import WslFreeBSD.Lib.Bytes

/-!
# The command line parser

`ArgumentParser::Parse` goes through the arguments with a position for the positional ones. The position is
advanced by a rule of its own, that the argument does not start with a dash, and not by whether a positional
argument was found; `parseFrom` has the rule as a parameter, and `inOrder` is the parser that counts.

The log of the calls says which argument was handed to which handler. The two parsers hand out the same
arguments in the same way exactly if the two counts select the same registered argument wherever the parser
comes to (`handed_eq_iff`).
-/

namespace WslFreeBSD.Reference.ArgumentParser

open Lib

variable {σ ε : Type}

/-! ## Registered arguments -/

/-- What a registered argument does with the outputs. `NoOp` and what is callable without an argument are flags
like `bool`; the functors with an argument need it, like the simple types. -/
inductive Output (σ ε : Type) where
  | flag (store : σ → Except ε σ)
  | value (store : Bytes → σ → Except ε σ)

/-- `ParseArgumentImpl`: how many further arguments are consumed, or -1. -/
def Output.consume : Output σ ε → Option Bytes → σ → Except ε (Int × σ)
  | .flag store, _, outputs => (store outputs).map (0, ·)
  | .value _, none, outputs => .ok (-1, outputs)
  | .value store, some text, outputs => (store text outputs).map (1, ·)

/-- An option without a long or a short name has `nullptr` or NUL there. -/
inductive Name where
  | option (long : Option Bytes) (short : UInt8)
  | positional (position : Nat)
  deriving DecidableEq, Repr

structure Argument (σ ε : Type) where
  name : Name
  output : Output σ ε

def Argument.position (e : Argument σ ε) : Option Nat :=
  match e.name with
  | .option _ _ => none
  | .positional position => some position

/-- `Matches`. -/
def Argument.Matches (e : Argument σ ε) (name : Option Bytes) (index : Int) : Bool :=
  match e.name with
  | .positional position => position = index
  | .option long short =>
    match name with
    | none => false
    | some name => long = some name ∨ (short ≠ 0 ∧ name = [45, short])

variable (arguments : List (Argument σ ε))

/-! ## `Parse` -/

/-- `argumentPosition` and `stopParameters`, with what was parsed so far. -/
structure State (σ : Type) where
  outputs : σ
  position : Nat := 0
  stop : Bool := false

/-- A call of `Consume`: how many arguments there are behind the one that led to it, the position of a
positional argument, whether a value is needed, and what is handed over. -/
structure Call where
  behind : Nat
  position : Option Nat
  needsValue : Bool
  value : Option Bytes
  deriving DecidableEq, Repr

def callOf (e : Argument σ ε) (behind : Nat) (value : Option Bytes) : Call where
  behind := behind
  position := e.position
  needsValue :=
    match e.output with
    | .flag _ => false
    | .value _ => true
  value := value

/-- What is thrown; both messages go on with the name of the program. -/
inductive Error (ε : Type) where
  | thrown (error : ε)
  | missingArgument (arg : Bytes)
  | invalidCommandLine (arg : Bytes)
  deriving DecidableEq, Repr

structure Outcome (σ ε : Type) where
  calls : List Call
  result : Except (Error ε) σ

def startsWithDash (arg : Bytes) : Bool := arg.head? = some 45

def isGroup (arg : Bytes) : Bool :=
  startsWithDash arg ∧ arg[1]? ≠ some 45 ∧ 3 ≤ arg.length

def shortOption (letter : UInt8) : Option (Argument σ ε) :=
  arguments.find? fun e => e.position.isNone ∧ e.Matches (some [45, letter]) (-1)

/-- The loop over the letters of a group: the calls, and whether all letters were found. -/
def parseGroup (behind : Nat) : Bytes → σ → List Call × Except ε (Bool × σ)
  | [], outputs => ([], .ok (true, outputs))
  | letter :: letters, outputs =>
    match shortOption arguments letter with
    | none => ([], .ok (false, outputs))
    | some e =>
      match e.output.consume none outputs with
      | .error error => ([callOf e behind none], .error error)
      | .ok (_, outputs) =>
        let (calls, result) := parseGroup behind letters outputs
        (callOf e behind none :: calls, result)

/-- The registered argument for an argument that is no group. -/
def select (s : State σ) (arg : Bytes) : Option (Argument σ ε) :=
  arguments.find? fun e =>
    e.Matches (if s.stop then none else some arg)
      (if startsWithDash arg ∧ 2 ≤ arg.length ∧ ¬ s.stop then -1 else s.position)

variable (advances : (positional : Bool) → (arg : Bytes) → Bool)

/-- The loop over the registered arguments, for an argument with others behind it: how many of these are
consumed, and the next state. -/
def parseArgument (s : State σ) (arg : Bytes) (rest : List Bytes) :
    List Call × Except (Error ε) (Nat × State σ) :=
  match select arguments s arg with
  | none => ([], .error (.invalidCommandLine arg))
  | some e =>
    let value := if e.position.isSome then some arg else rest.head?
    let call := callOf e rest.length value
    match e.output.consume value s.outputs with
    | .error error => ([call], .error (.thrown error))
    | .ok (offset, outputs) =>
      if offset < 0 then ([call], .error (.missingArgument arg))
      else
        ([call], .ok (if e.position.isSome then 0 else offset.toNat,
          { s with
            outputs
            position := if advances e.position.isSome arg then s.position + 1 else s.position }))

/-- The body of the loop in `Parse`. -/
def step (s : State σ) (arg : Bytes) (rest : List Bytes) : List Call × Except (Error ε) (Nat × State σ) :=
  if ¬ s.stop ∧ arg = [45, 45] then ([], .ok (0, { s with stop := true }))
  else if ¬ s.stop ∧ isGroup arg then
    match parseGroup arguments rest.length arg.tail s.outputs with
    | (calls, .error error) => (calls, .error (.thrown error))
    | (calls, .ok (true, outputs)) =>
      (calls, .ok (0, { s with
        outputs
        position := if advances false arg then s.position + 1 else s.position }))
    | (calls, .ok (false, outputs)) =>
      let (calls', result) := parseArgument arguments advances { s with outputs } arg rest
      (calls ++ calls', result)
  else parseArgument arguments advances s arg rest

/-- The loop in `Parse`; the first arguments are skipped. -/
def parseFrom : (skip : Nat) → State σ → List Bytes → Outcome σ ε
  | _, s, [] => ⟨[], .ok s.outputs⟩
  | skip + 1, s, _ :: rest => parseFrom skip s rest
  | 0, s, arg :: rest =>
    match step arguments advances s arg rest with
    | (calls, .error error) => ⟨calls, .error error⟩
    | (calls, .ok (skip, s')) =>
      let outcome := parseFrom skip s' rest
      ⟨calls ++ outcome.calls, outcome.result⟩

def noDash (_ : Bool) (arg : Bytes) : Bool := ¬ startsWithDash arg

/-- `Parse`, for the arguments behind the name of the program. -/
def parse (outputs : σ) (args : List Bytes) : Outcome σ ε := parseFrom arguments noDash 0 { outputs } args

/-! ## What is promised -/

def countsPositional (positional : Bool) (_ : Bytes) : Bool := positional

/-- A parser in which the position counts the positional arguments. -/
def inOrder (outputs : σ) (args : List Bytes) : Outcome σ ε :=
  parseFrom arguments countsPositional 0 { outputs } args

/-- The arguments that positional handlers got, each by how many arguments are behind it, with the position
of the handler. -/
def handed (calls : List Call) : List (Nat × Nat) :=
  calls.filterMap fun call => call.position.map fun position => (call.behind, position)

/-- Wherever the parser comes to, the same registered argument is selected by `counted`, the number of arguments
without a dash, as by the number of positional arguments. -/
def Aligned : (skip counted : Nat) → State σ → List Bytes → Prop
  | _, _, _, [] => True
  | skip + 1, counted, s, _ :: rest => Aligned skip counted s rest
  | 0, counted, s, arg :: rest =>
    select arguments { s with position := counted } arg = select arguments s arg ∧
      match (step arguments countsPositional s arg rest).2 with
      | .error _ => True
      | .ok (skip, s') => Aligned skip (if noDash false arg then counted + 1 else counted) s' rest

/-! ## Selection -/

section Select

variable {arguments} {s : State σ} {arg : Bytes} {e e' : Argument σ ε}

theorem position_eq_none_iff : e.position = none ↔ ∃ long short, e.name = .option long short := by
  unfold Argument.position
  cases e.name with
  | option long short => exact iff_of_true rfl ⟨long, short, rfl⟩
  | positional position => exact iff_of_false (Option.some_ne_none _) fun ⟨_, _, h⟩ => Name.noConfusion h

theorem matches_option (h : e.position = none) (name : Option Bytes) (index index' : Int) :
    e.Matches name index = e.Matches name index' := by
  obtain ⟨long, short, hname⟩ := position_eq_none_iff.mp h
  unfold Argument.Matches
  rw [hname]

theorem select_dash (hstop : s.stop = false) (hdash : startsWithDash arg = true) (hlong : 2 ≤ arg.length)
    (position : Nat) : select arguments { s with position } arg = select arguments s arg := by
  unfold select
  simp only [hstop, hdash, hlong, Bool.false_eq_true, not_false_eq_true, and_self, if_true]

theorem position_of_select (h : select arguments s arg = some e) {n : Nat} (hn : e.position = some n) :
    n = s.position := by
  have hmatches := List.find?_some h
  have hname : e.name = .positional n := by
    unfold Argument.position at hn
    cases hname : e.name with
    | option long short =>
      rw [hname] at hn
      cases hn
    | positional position =>
      rw [hname] at hn
      exact congrArg Name.positional (Option.some.inj hn)
  unfold Argument.Matches at hmatches
  rw [hname] at hmatches
  dsimp only at hmatches
  rw [decide_eq_true_eq] at hmatches
  split at hmatches
  · omega
  · exact Int.ofNat_inj.mp hmatches

theorem find?_eq_of_options {f g : Argument σ ε → Bool} (hfg : ∀ e, e.position = none → f e = g e)
    (hf : ∀ e, arguments.find? f = some e → e.position = none)
    (hg : ∀ e, arguments.find? g = some e → e.position = none) : arguments.find? f = arguments.find? g := by
  induction arguments with
  | nil => rfl
  | cons first arguments ih =>
    by_cases hfirst : f first = true
    · have hposition := hf first (List.find?_cons_of_pos hfirst)
      rw [List.find?_cons_of_pos hfirst, List.find?_cons_of_pos ((hfg first hposition).symm.trans hfirst)]
    · by_cases hfirst' : g first = true
      · have hposition := hg first (List.find?_cons_of_pos hfirst')
        exact absurd ((hfg first hposition).trans hfirst') hfirst
      · rw [List.find?_cons_of_neg hfirst] at hf ⊢
        rw [List.find?_cons_of_neg hfirst'] at hg ⊢
        exact ih hf hg

theorem select_eq_of_positions {position : Nat}
    (h : (select arguments { s with position } arg).bind Argument.position =
      (select arguments s arg).bind Argument.position) :
    select arguments { s with position } arg = select arguments s arg := by
  cases hposition : (select arguments s arg).bind Argument.position with
  | some n =>
    obtain ⟨e, he, hn⟩ := Option.bind_eq_some_iff.mp hposition
    obtain ⟨e', he', hn'⟩ := Option.bind_eq_some_iff.mp (h.trans hposition)
    have hsame : position = s.position := (position_of_select he' hn').symm.trans (position_of_select he hn)
    rw [hsame]
  | none =>
    refine find?_eq_of_options (fun e he => matches_option he _ _ _) (fun e he => ?_) (fun e he => ?_)
    · exact Option.bind_eq_none_iff.mp (h.trans hposition) e he
    · exact Option.bind_eq_none_iff.mp hposition e he

end Select

/-! ## The log -/

theorem handed_append (calls calls' : List Call) : handed (calls ++ calls') = handed calls ++ handed calls' :=
  List.filterMap_append

theorem handed_callOf (e : Argument σ ε) (behind : Nat) (value : Option Bytes) :
    handed [callOf e behind value] = e.position.toList.map (behind, ·) := by
  unfold handed
  cases hposition : e.position with
  | none => simp [callOf, hposition]
  | some position => simp [callOf, hposition]

section Log

variable {arguments} {advances} {s : State σ} {arg : Bytes} {rest : List Bytes} {behind : Nat}

theorem calls_parseGroup (letters : Bytes) (outputs : σ) :
    ∀ call ∈ (parseGroup arguments behind letters outputs).1, call.behind = behind ∧ call.position = none := by
  induction letters generalizing outputs with
  | nil => exact fun call hcall => absurd hcall List.not_mem_nil
  | cons letter letters ih =>
    rw [parseGroup]
    cases hshort : shortOption arguments letter with
    | none => exact fun call hcall => absurd hcall List.not_mem_nil
    | some e =>
      have hfound := List.find?_some hshort
      rw [decide_eq_true_eq] at hfound
      have hposition : (callOf e behind none).behind = behind ∧ (callOf e behind none).position = none :=
        ⟨rfl, Option.isNone_iff_eq_none.mp hfound.1⟩
      dsimp only
      cases hconsume : e.output.consume none outputs with
      | error error => exact fun call hcall => List.mem_singleton.mp hcall ▸ hposition
      | ok result =>
        intro call hcall
        rcases List.mem_cons.mp hcall with rfl | hcall
        · exact hposition
        · exact ih result.2 call hcall

theorem handed_parseGroup (letters : Bytes) (outputs : σ) :
    handed (parseGroup arguments behind letters outputs).1 = [] := by
  rw [handed, List.filterMap_eq_nil_iff]
  intro call hcall
  rw [(calls_parseGroup letters outputs call hcall).2, Option.map_none]

theorem handed_parseArgument (s : State σ) (arg : Bytes) (rest : List Bytes) :
    handed (parseArgument arguments advances s arg rest).1 =
      ((select arguments s arg).bind Argument.position).toList.map (rest.length, ·) := by
  unfold parseArgument
  cases hselect : select arguments s arg with
  | none => rfl
  | some e =>
    rw [Option.bind_some, ← handed_callOf]
    dsimp only
    cases e.output.consume _ s.outputs with
    | error error => rfl
    | ok result =>
      dsimp only
      split
      · rfl
      · rfl

theorem behind_parseArgument (s : State σ) (arg : Bytes) (rest : List Bytes) :
    ∀ call ∈ (parseArgument arguments advances s arg rest).1, call.behind = rest.length := by
  unfold parseArgument
  cases select arguments s arg with
  | none => exact fun call hcall => absurd hcall List.not_mem_nil
  | some e =>
    dsimp only
    cases e.output.consume _ s.outputs with
    | error error => exact fun call hcall => List.mem_singleton.mp hcall ▸ rfl
    | ok result =>
      dsimp only
      split
      · exact fun call hcall => List.mem_singleton.mp hcall ▸ rfl
      · exact fun call hcall => List.mem_singleton.mp hcall ▸ rfl

theorem behind_step (s : State σ) (arg : Bytes) (rest : List Bytes) :
    ∀ call ∈ (step arguments advances s arg rest).1, call.behind = rest.length := by
  unfold step
  split
  · exact fun call hcall => absurd hcall List.not_mem_nil
  · split
    · have hgroup := @calls_parseGroup σ ε arguments rest.length arg.tail s.outputs
      generalize parseGroup arguments rest.length arg.tail s.outputs = result at hgroup ⊢
      obtain ⟨calls, error | ⟨found, outputs⟩⟩ := result
      · exact fun call hcall => (hgroup call hcall).1
      · cases found with
        | true => exact fun call hcall => (hgroup call hcall).1
        | false =>
          intro call hcall
          rcases List.mem_append.mp hcall with hcall | hcall
          · exact (hgroup call hcall).1
          · exact behind_parseArgument _ arg rest call hcall
    · exact behind_parseArgument s arg rest

theorem behind_parseFrom (args : List Bytes) (skip : Nat) (s : State σ) :
    ∀ call ∈ (parseFrom arguments advances skip s args).calls, call.behind < args.length := by
  induction args generalizing skip s with
  | nil =>
    rw [parseFrom]
    exact fun call hcall => absurd hcall List.not_mem_nil
  | cons arg rest ih =>
    cases skip with
    | succ skip =>
      rw [parseFrom]
      exact fun call hcall => Nat.lt_succ_of_lt (ih skip s call hcall)
    | zero =>
      have hstep := @behind_step σ ε arguments advances s arg rest
      rw [parseFrom]
      generalize step arguments advances s arg rest = result at hstep ⊢
      obtain ⟨calls, error | ⟨skip, s'⟩⟩ := result
      · exact fun call hcall => (hstep call hcall).symm ▸ Nat.lt_succ_self _
      · intro call hcall
        rcases List.mem_append.mp hcall with hcall | hcall
        · exact (hstep call hcall).symm ▸ Nat.lt_succ_self _
        · exact Nat.lt_succ_of_lt (ih skip s' call hcall)

theorem exists_call_of_handed {calls : List Call} {pair : Nat × Nat} (h : pair ∈ handed calls) :
    ∃ call ∈ calls, call.behind = pair.1 := by
  obtain ⟨call, hcall, hpair⟩ := List.mem_filterMap.mp h
  obtain ⟨position, -, rfl⟩ := Option.map_eq_some_iff.mp hpair
  exact ⟨call, hcall, rfl⟩

theorem handed_step (s : State σ) (arg : Bytes) (rest : List Bytes) :
    ∀ pair ∈ handed (step arguments advances s arg rest).1, pair.1 = rest.length := by
  intro pair hpair
  obtain ⟨call, hcall, hbehind⟩ := exists_call_of_handed hpair
  exact hbehind.symm.trans (behind_step s arg rest call hcall)

theorem handed_parseFrom_lt (args : List Bytes) (skip : Nat) (s : State σ) :
    ∀ pair ∈ handed (parseFrom arguments advances skip s args).calls, pair.1 < args.length := by
  intro pair hpair
  obtain ⟨call, hcall, hbehind⟩ := exists_call_of_handed hpair
  exact hbehind ▸ behind_parseFrom args skip s call hcall

theorem handed_step_of_parseFrom (s : State σ) (arg : Bytes) (rest : List Bytes) :
    (handed (parseFrom arguments advances 0 s (arg :: rest)).calls).filter (·.1 = rest.length) =
      handed (step arguments advances s arg rest).1 := by
  have hstep := @handed_step σ ε arguments advances s arg rest
  rw [parseFrom]
  generalize step arguments advances s arg rest = result at hstep ⊢
  obtain ⟨calls, error | ⟨skip, s'⟩⟩ := result
  · exact List.filter_eq_self.mpr fun pair hpair => decide_eq_true (hstep pair hpair)
  · dsimp only
    rw [handed_append, List.filter_append, List.filter_eq_self.mpr fun pair hpair =>
      decide_eq_true (hstep pair hpair)]
    refine (congrArg (handed calls ++ ·) (List.filter_eq_nil_iff.mpr fun pair hpair => ?_)).trans
      (List.append_nil _)
    rw [decide_eq_true_eq]
    exact (@handed_parseFrom_lt σ ε arguments advances rest skip s' pair hpair).ne

end Log

/-! ## Both parsers side by side -/

/-- The position is replaced by the count of arguments without a dash. -/
def recount (counted : Nat) (arg : Bytes) (next : Nat × State σ) : Nat × State σ :=
  (next.1, { next.2 with position := if noDash false arg then counted + 1 else counted })

section Lockstep

variable {arguments} {s : State σ} {counted : Nat} {arg : Bytes} {rest : List Bytes}

theorem parseArgument_noDash
    (h : select arguments { s with position := counted } arg = select arguments s arg) :
    parseArgument arguments noDash { s with position := counted } arg rest =
      ((parseArgument arguments countsPositional s arg rest).1,
        (parseArgument arguments countsPositional s arg rest).2.map (recount counted arg)) := by
  unfold parseArgument
  rw [h]
  cases select arguments s arg with
  | none => rfl
  | some e =>
    dsimp only
    cases e.output.consume _ s.outputs with
    | error error => rfl
    | ok result =>
      dsimp only
      split
      · rfl
      · rfl

theorem step_noDash (h : select arguments { s with position := counted } arg = select arguments s arg) :
    step arguments noDash { s with position := counted } arg rest =
      ((step arguments countsPositional s arg rest).1,
        (step arguments countsPositional s arg rest).2.map (recount counted arg)) := by
  unfold step
  dsimp only
  by_cases hseparator : ¬ s.stop = true ∧ arg = [45, 45]
  · rw [if_pos hseparator, if_pos hseparator, hseparator.2]
    rfl
  rw [if_neg hseparator, if_neg hseparator]
  by_cases hgroup : ¬ s.stop = true ∧ isGroup arg = true
  · have hdash : noDash false arg = false := by
      have hstarts := hgroup.2
      simp only [isGroup, decide_eq_true_eq] at hstarts
      simp [noDash, hstarts.1]
    rw [if_pos hgroup, if_pos hgroup]
    rcases parseGroup arguments rest.length arg.tail s.outputs with ⟨calls, error | ⟨found, outputs⟩⟩
    · rfl
    · cases found with
      | true =>
        simp only [Except.map, recount, hdash, Bool.false_eq_true, if_false]
      | false =>
        have hargument := @parseArgument_noDash σ ε arguments { s with outputs } counted arg rest h
        dsimp only at hargument ⊢
        rw [hargument]
  · rw [if_neg hgroup, if_neg hgroup]
    exact parseArgument_noDash h

theorem select_eq_of_handed
    (h : handed (parseFrom arguments noDash 0 { s with position := counted } (arg :: rest)).calls =
      handed (parseFrom arguments countsPositional 0 s (arg :: rest)).calls) :
    select arguments { s with position := counted } arg = select arguments s arg := by
  by_cases hdash : ¬ s.stop = true ∧ startsWithDash arg = true ∧ 2 ≤ arg.length
  · exact select_dash (Bool.eq_false_iff.mpr hdash.1) hdash.2.1 hdash.2.2 counted
  -- the argument is neither a separator nor a group
  have hseparator : ¬ (¬ s.stop = true ∧ arg = [45, 45]) := fun hboth =>
    hdash ⟨hboth.1, by rw [hboth.2]; rfl, by rw [hboth.2]; exact Nat.le_refl 2⟩
  have hgroup : ¬ (¬ s.stop = true ∧ isGroup arg = true) := by
    rintro ⟨hstop, hgroup⟩
    simp only [isGroup, decide_eq_true_eq] at hgroup
    exact hdash ⟨hstop, hgroup.1, Nat.le_of_succ_le hgroup.2.2⟩
  have hstep (advances : Bool → Bytes → Bool) (position : Nat) :
      handed (step arguments advances { s with position } arg rest).1 =
        ((select arguments { s with position } arg).bind Argument.position).toList.map (rest.length, ·) := by
    rw [step, if_neg hseparator, if_neg hgroup, handed_parseArgument]
  have hfirst := congrArg (List.filter (·.1 = rest.length)) h
  rw [handed_step_of_parseFrom, handed_step_of_parseFrom, hstep, hstep countsPositional s.position] at hfirst
  refine select_eq_of_positions ?_
  have hinjective : Function.Injective fun position : Nat => (rest.length, position) := fun _ _ heq =>
    (Prod.mk.inj heq).2
  have hpositions := List.map_injective_iff.mpr hinjective hfirst
  simpa only [Option.head?_toList] using congrArg List.head? hpositions

theorem handed_parseFrom_iff (args : List Bytes) (skip counted : Nat) (s : State σ) :
    handed (parseFrom arguments noDash skip { s with position := counted } args).calls =
        handed (parseFrom arguments countsPositional skip s args).calls ↔
      Aligned arguments skip counted s args := by
  induction args generalizing skip counted s with
  | nil =>
    unfold parseFrom
    exact iff_of_true rfl trivial
  | cons arg rest ih =>
    cases skip with
    | succ skip => exact ih skip counted s
    | zero =>
      rw [Aligned]
      by_cases hselect : select arguments { s with position := counted } arg = select arguments s arg
      · rw [parseFrom, parseFrom, step_noDash hselect]
        rcases step arguments countsPositional s arg rest with ⟨calls, error | ⟨skip, s'⟩⟩
        · exact iff_of_true rfl ⟨hselect, trivial⟩
        · refine Iff.trans ?_ (and_iff_right hselect).symm
          refine Iff.trans ?_ (ih skip (if noDash false arg then counted + 1 else counted) s')
          simp only [Except.map, recount, handed_append, List.append_cancel_left_eq]
      · exact iff_of_false (fun h => hselect (select_eq_of_handed h)) fun h => hselect h.1

end Lockstep

/-! ## The parser that counts -/

/-- The positions handed out are the next ones, and the count goes on behind them. -/
def Continues (s : State σ) (result : List Call × Except (Error ε) (Nat × State σ)) : Prop :=
  (handed result.1).map Prod.snd = List.range' s.position (handed result.1).length ∧
    ∀ skip s', result.2 = .ok (skip, s') → s'.position = s.position + (handed result.1).length

section Counting

variable {arguments} {s : State σ} {arg : Bytes} {rest : List Bytes}

theorem continues_parseArgument : Continues s (parseArgument arguments countsPositional s arg rest) := by
  have hhanded := @handed_parseArgument σ ε arguments countsPositional s arg rest
  unfold Continues
  rw [hhanded]
  unfold parseArgument
  cases hselect : select arguments s arg with
  | none =>
    refine ⟨rfl, fun skip s' h => ?_⟩
    cases h
  | some e =>
    dsimp only
    rw [Option.bind_some]
    refine ⟨?_, fun skip s' h => ?_⟩
    · cases hposition : e.position with
      | none => rfl
      | some n => exact congrArg (fun n => [n]) (position_of_select hselect hposition)
    · cases hconsume : e.output.consume (if e.position.isSome then some arg else rest.head?) s.outputs with
      | error error =>
        rw [hconsume] at h
        cases h
      | ok result =>
        rw [hconsume] at h
        dsimp only at h
        split at h
        · cases h
        · cases h
          cases e.position with
          | none => rfl
          | some n => rfl

theorem continues_step : Continues s (step arguments countsPositional s arg rest) := by
  unfold step
  split
  · refine ⟨rfl, fun skip s' h => ?_⟩
    cases h
    rfl
  · split
    · have hgroup := @handed_parseGroup σ ε arguments rest.length arg.tail s.outputs
      generalize parseGroup arguments rest.length arg.tail s.outputs = result at hgroup ⊢
      obtain ⟨calls, error | ⟨found, outputs⟩⟩ := result
      · unfold Continues
        dsimp only at hgroup ⊢
        rw [hgroup]
        refine ⟨rfl, fun skip s' h => ?_⟩
        cases h
      · cases found with
        | true =>
          unfold Continues
          dsimp only at hgroup ⊢
          rw [hgroup]
          refine ⟨rfl, fun skip s' h => ?_⟩
          cases h
          rfl
        | false =>
          have hargument := @continues_parseArgument σ ε arguments { s with outputs } arg rest
          unfold Continues at hargument ⊢
          dsimp only at hgroup hargument ⊢
          rw [handed_append, hgroup, List.nil_append]
          exact hargument
    · exact continues_parseArgument

theorem positions_parseFrom (args : List Bytes) (skip : Nat) (s : State σ) :
    (handed (parseFrom arguments countsPositional skip s args).calls).map Prod.snd =
      List.range' s.position (handed (parseFrom arguments countsPositional skip s args).calls).length := by
  induction args generalizing skip s with
  | nil =>
    unfold parseFrom
    rfl
  | cons arg rest ih =>
    cases skip with
    | succ skip => exact ih skip s
    | zero =>
      have hstep := @continues_step σ ε arguments s arg rest
      rw [parseFrom]
      generalize step arguments countsPositional s arg rest = result at hstep ⊢
      obtain ⟨calls, error | ⟨skip, s'⟩⟩ := result
      · exact hstep.1
      · have hnext := hstep.2 skip s' rfl
        dsimp only at hnext ⊢
        rw [handed_append, List.map_append, hstep.1, ih skip s', hnext, List.length_append,
          List.range'_append_1]

theorem positions_inOrder (outputs : σ) (args : List Bytes) :
    (handed (inOrder arguments outputs args).calls).map Prod.snd =
      List.range (handed (inOrder arguments outputs args).calls).length := by
  rw [List.range_eq_range']
  exact positions_parseFrom args 0 { outputs }

end Counting

/-- `Parse` hands the positional arguments to the handlers in order, exactly if wherever it comes to the number
of arguments without a dash selects what the number of positional arguments does. -/
theorem parse_handed_iff (outputs : σ) (args : List Bytes) :
    handed (parse arguments outputs args).calls = handed (inOrder arguments outputs args).calls ↔
      Aligned arguments 0 0 { outputs } args :=
  handed_parseFrom_iff args 0 0 { outputs }

/-- `wslpath - x`: the path that is converted is `x`. -/
theorem parse_not_handed_dash :
    ¬ ∀ (arguments : List (Argument Bytes Unit)) (outputs : Bytes) (args : List Bytes),
      handed (parse arguments outputs args).calls = handed (inOrder arguments outputs args).calls := by
  intro h
  have hpath := h [⟨.positional 0, .value fun path _ => .ok path⟩] [] [ascii "-", ascii "x"]
  revert hpath
  decide

end WslFreeBSD.Reference.ArgumentParser
