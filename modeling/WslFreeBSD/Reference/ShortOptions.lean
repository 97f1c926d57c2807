import WslFreeBSD.Reference.ArgumentParser

/-!
# Grouped short options

A group `-xyz` goes through a loop of its own, in which each option is called without a value and what it
returns is not looked at. For options that take no value this is the same as `-x -y -z`; a last option that
takes one does not get it (`replaceable_iff`).
-/

namespace WslFreeBSD.Reference.ArgumentParser

open Lib

variable {σ ε : Type} (arguments : List (Argument σ ε))

/-- `-xyz`. -/
def grouped (letters : Bytes) : Bytes := 45 :: letters

/-- `-x -y -z`. -/
def separately (letters : Bytes) : List Bytes := letters.map fun letter => [45, letter]

def IsFlag (letter : UInt8) : Prop :=
  ∃ e store, shortOption arguments letter = some e ∧ e.output = .flag store

def TakesValue (letter : UInt8) : Prop :=
  ∃ e store, shortOption arguments letter = some e ∧ e.output = .value store

/-- What the options of some letters store, if they are flags. -/
def storeFlags : Bytes → σ → Except ε σ
  | [], outputs => .ok outputs
  | letter :: letters, outputs =>
    match (shortOption arguments letter).map Argument.output with
    | some (.flag store) =>
      match store outputs with
      | .error error => .error error
      | .ok outputs => storeFlags letters outputs
    | _ => storeFlags letters outputs

/-- A group: at least one letter and a last one. Only the last option may take a value. -/
structure IsGroupOf (first : Bytes) (last : UInt8) : Prop where
  nonempty : first ≠ []
  letters : ∀ letter ∈ first ++ [last], letter ≠ 45
  flags : ∀ letter ∈ first, IsFlag arguments letter
  registered : IsFlag arguments last ∨ TakesValue arguments last

/-- The parser comes to what is behind some arguments, as an argument of its own, in the state `s'`. -/
def Reaches (behind : List Bytes) : (skip : Nat) → State σ → List Bytes → State σ → Prop
  | 0, s, [], s' => s = s'
  | _ + 1, _, [], _ => False
  | skip + 1, s, _ :: before, s' => Reaches behind skip s before s'
  | 0, s, arg :: before, s' =>
    ∃ skip next, (step arguments noDash s arg (before ++ behind)).2 = .ok (skip, next) ∧
      Reaches behind skip next before s'

/-- A group can be written as separate options: the outputs are the same, or an error is reported for both; and
the options of the group that take a value get the argument behind it. -/
def Replaceable (outputs : σ) (before : List Bytes) (letters : Bytes) (after : List Bytes) : Prop :=
  (parse arguments outputs (before ++ grouped letters :: after)).result.toOption =
      (parse arguments outputs (before ++ (separately letters ++ after))).result.toOption ∧
    ∀ call ∈ (parse arguments outputs (before ++ grouped letters :: after)).calls,
      call.behind = after.length → call.needsValue = true → call.value = after.head?

/-! ## Up to the group -/

section Reach

variable {arguments} {s s' : State σ} {arg : Bytes}

theorem parseGroup_snd (behind behind' : Nat) (letters : Bytes) (outputs : σ) :
    (parseGroup arguments behind letters outputs).2 = (parseGroup arguments behind' letters outputs).2 := by
  induction letters generalizing outputs with
  | nil => rfl
  | cons letter letters ih =>
    rw [parseGroup, parseGroup]
    cases shortOption arguments letter with
    | none => rfl
    | some e =>
      dsimp only
      cases e.output.consume none outputs with
      | error error => rfl
      | ok result => exact ih result.2

theorem parseArgument_snd_congr {rest rest' : List Bytes} (h : rest.head? = rest'.head?) (s : State σ) :
    (parseArgument arguments noDash s arg rest).2 = (parseArgument arguments noDash s arg rest').2 := by
  unfold parseArgument
  cases select arguments s arg with
  | none => rfl
  | some e =>
    dsimp only
    rw [h]
    cases e.output.consume _ s.outputs with
    | error error => rfl
    | ok result =>
      dsimp only
      split
      · rfl
      · rfl

theorem parseArgument_snd_of_zero {rest : List Bytes} {s next : State σ} (rest' : List Bytes)
    (hrest : rest ≠ []) (h : (parseArgument arguments noDash s arg rest).2 = .ok (0, next)) :
    (parseArgument arguments noDash s arg rest').2 = .ok (0, next) := by
  unfold parseArgument at h ⊢
  cases hselect : select arguments s arg with
  | none =>
    rw [hselect] at h
    cases h
  | some e =>
    rw [hselect] at h
    dsimp only at h ⊢
    cases hposition : e.position with
    | some n =>
      simp only [hposition, Option.isSome_some, if_true] at h ⊢
      cases hconsume : e.output.consume (some arg) s.outputs with
      | error error =>
        rw [hconsume] at h
        cases h
      | ok result =>
        rw [hconsume] at h
        dsimp only at h ⊢
        split at h
        · cases h
        · next hoffset =>
          rw [if_neg hoffset]
          exact h
    | none =>
      simp only [hposition, Option.isSome_none, Bool.false_eq_true, if_false] at h ⊢
      obtain ⟨first, others, rfl⟩ := List.exists_cons_of_ne_nil hrest
      cases houtput : e.output with
      | flag store =>
        rw [houtput] at h
        simp only [Output.consume] at h ⊢
        cases hstore : store s.outputs with
        | error error =>
          rw [hstore] at h
          cases h
        | ok outputs =>
          rw [hstore] at h
          exact h
      | value store =>
        rw [houtput] at h
        simp only [List.head?_cons, Output.consume] at h
        cases hstore : store first s.outputs with
        | error error =>
          rw [hstore] at h
          cases h
        | ok outputs =>
          rw [hstore] at h
          cases h

theorem step_snd (s : State σ) (arg : Bytes) :
    (∃ result, ∀ rest, (step arguments noDash s arg rest).2 = result) ∨
      ∃ s', ∀ rest, (step arguments noDash s arg rest).2 = (parseArgument arguments noDash s' arg rest).2 := by
  unfold step
  by_cases hseparator : ¬ s.stop = true ∧ arg = [45, 45]
  · refine Or.inl ⟨.ok (0, { s with stop := true }), fun rest => ?_⟩
    rw [if_pos hseparator]
  by_cases hgroup : ¬ s.stop = true ∧ isGroup arg = true
  · rcases hending : (parseGroup arguments 0 arg.tail s.outputs).2 with error | ⟨found, outputs⟩
    · refine Or.inl ⟨.error (.thrown error), fun rest => ?_⟩
      rw [if_neg hseparator, if_pos hgroup]
      rw [parseGroup_snd 0 rest.length] at hending
      generalize parseGroup arguments rest.length arg.tail s.outputs = result at hending ⊢
      obtain ⟨calls, ending⟩ := result
      subst hending
      rfl
    · cases found with
      | true =>
        refine Or.inl ⟨.ok (0, { s with
          outputs
          position := if noDash false arg then s.position + 1 else s.position }), fun rest => ?_⟩
        rw [if_neg hseparator, if_pos hgroup]
        rw [parseGroup_snd 0 rest.length] at hending
        generalize parseGroup arguments rest.length arg.tail s.outputs = result at hending ⊢
        obtain ⟨calls, ending⟩ := result
        subst hending
        rfl
      | false =>
        refine Or.inr ⟨{ s with outputs }, fun rest => ?_⟩
        rw [if_neg hseparator, if_pos hgroup]
        rw [parseGroup_snd 0 rest.length] at hending
        generalize parseGroup arguments rest.length arg.tail s.outputs = result at hending ⊢
        obtain ⟨calls, ending⟩ := result
        subst hending
        rfl
  · refine Or.inr ⟨s, fun rest => ?_⟩
    rw [if_neg hseparator, if_neg hgroup]

theorem step_snd_congr {rest rest' : List Bytes} (h : rest.head? = rest'.head?) :
    (step arguments noDash s arg rest).2 = (step arguments noDash s arg rest').2 := by
  rcases @step_snd σ ε arguments s arg with ⟨result, hresult⟩ | ⟨s', hargument⟩
  · rw [hresult, hresult]
  · rw [hargument, hargument]
    exact parseArgument_snd_congr h s'

theorem step_snd_of_zero {rest : List Bytes} {next : State σ} (rest' : List Bytes) (hrest : rest ≠ [])
    (h : (step arguments noDash s arg rest).2 = .ok (0, next)) :
    (step arguments noDash s arg rest').2 = .ok (0, next) := by
  rcases @step_snd σ ε arguments s arg with ⟨result, hresult⟩ | ⟨s', hargument⟩
  · rw [hresult] at h ⊢
    exact h
  · rw [hargument] at h ⊢
    exact parseArgument_snd_of_zero rest' hrest h

theorem Reaches.congr {first first' : Bytes} {behind behind' : List Bytes} {before : List Bytes} {skip : Nat}
    (h : Reaches arguments (first :: behind) skip s before s') :
    Reaches arguments (first' :: behind') skip s before s' := by
  induction before generalizing skip s with
  | nil =>
    cases skip with
    | zero => exact h
    | succ skip => exact h
  | cons arg before ih =>
    cases skip with
    | succ skip => exact ih h
    | zero =>
      obtain ⟨skip, next, hstep, hreaches⟩ := h
      refine ⟨skip, next, ?_, ih hreaches⟩
      cases before with
      | nil =>
        cases skip with
        | zero => exact step_snd_of_zero (first' :: behind') (List.cons_ne_nil _ _) hstep
        | succ skip => exact hreaches.elim
      | cons second before =>
        have hcongr := @step_snd_congr σ ε arguments s arg (second :: before ++ first :: behind)
          (second :: before ++ first' :: behind') rfl
        exact hcongr.symm.trans hstep

theorem Reaches.parseFrom_eq {behind before : List Bytes} {skip : Nat}
    (h : Reaches arguments behind skip s before s') : ∃ calls,
      parseFrom arguments noDash skip s (before ++ behind) =
          ⟨calls ++ (parseFrom arguments noDash 0 s' behind).calls,
            (parseFrom arguments noDash 0 s' behind).result⟩ ∧
        ∀ call ∈ calls, behind.length ≤ call.behind := by
  induction before generalizing skip s with
  | nil =>
    cases skip with
    | zero =>
      cases h
      exact ⟨[], rfl, fun call hcall => absurd hcall List.not_mem_nil⟩
    | succ skip => exact h.elim
  | cons arg before ih =>
    cases skip with
    | succ skip =>
      rw [List.cons_append, parseFrom]
      exact ih h
    | zero =>
      obtain ⟨skip, next, hstep, hreaches⟩ := h
      obtain ⟨calls, hrun, hbehind⟩ := ih hreaches
      have hcalls := @behind_step σ ε arguments noDash s arg (before ++ behind)
      rw [List.cons_append, parseFrom]
      generalize step arguments noDash s arg (before ++ behind) = result at hstep hcalls ⊢
      obtain ⟨calls', ending⟩ := result
      subst hstep
      dsimp only at hcalls ⊢
      refine ⟨calls' ++ calls, by rw [hrun, List.append_assoc], fun call hcall => ?_⟩
      rcases List.mem_append.mp hcall with hcall | hcall
      · rw [hcalls call hcall, List.length_append]
        exact Nat.le_add_left _ _
      · exact hbehind call hcall

end Reach

/-! ## The letters -/

section Letters

variable {arguments} {s : State σ} {letter : UInt8}

theorem select_short (hstop : s.stop = false) (letter : UInt8) :
    select arguments s [45, letter] = shortOption arguments letter := by
  have hdash : startsWithDash [45, letter] = true := rfl
  unfold select shortOption
  refine congrArg (arguments.find? ·) (funext fun e => ?_)
  simp only [hstop, hdash, List.length_cons, List.length_nil, Bool.false_eq_true, not_false_eq_true, if_false,
    and_true, Nat.le_refl, if_true]
  unfold Argument.Matches Argument.position
  cases e.name with
  | option long short => simp
  | positional position => simp

theorem step_short (hletter : letter ≠ 45) (s : State σ) (rest : List Bytes) :
    step arguments noDash s [45, letter] rest = parseArgument arguments noDash s [45, letter] rest := by
  have hseparator : ¬ (¬ s.stop = true ∧ [45, letter] = [45, 45]) := fun h =>
    hletter (List.cons.inj (List.cons.inj h.2).2).1
  have hgroup : ¬ (¬ s.stop = true ∧ isGroup [45, letter] = true) := fun h => by
    have hlong := h.2
    simp [isGroup] at hlong
  rw [step, if_neg hseparator, if_neg hgroup]

theorem parseFrom_flag (hstop : s.stop = false) (hletter : letter ≠ 45) {e : Argument σ ε}
    {store : σ → Except ε σ} (he : shortOption arguments letter = some e) (houtput : e.output = .flag store)
    (rest : List Bytes) :
    (parseFrom arguments noDash 0 s ([45, letter] :: rest)).result =
      match store s.outputs with
      | .error error => .error (.thrown error)
      | .ok outputs => (parseFrom arguments noDash 0 { s with outputs } rest).result := by
  have hfound := List.find?_some he
  rw [decide_eq_true_eq] at hfound
  have hposition : e.position = none := Option.isNone_iff_eq_none.mp hfound.1
  have hdash : noDash false [45, letter] = false := rfl
  rw [parseFrom, step_short hletter, parseArgument, select_short hstop, he]
  simp only [houtput, Output.consume]
  cases store s.outputs with
  | error error => rfl
  | ok outputs =>
    simp only [Except.map, hposition, hdash, Option.isSome_none, Bool.false_eq_true, if_false, Int.lt_irrefl]
    rfl

theorem storeFlags_cons {e : Argument σ ε} {store : σ → Except ε σ}
    (he : shortOption arguments letter = some e) (houtput : e.output = .flag store) (letters : Bytes)
    (outputs : σ) :
    storeFlags arguments (letter :: letters) outputs =
      match store outputs with
      | .error error => .error error
      | .ok outputs => storeFlags arguments letters outputs := by
  rw [storeFlags, he, Option.map_some, houtput]

theorem parseFrom_separately (hstop : s.stop = false) {letters : Bytes}
    (hletters : ∀ letter ∈ letters, letter ≠ 45) (hflags : ∀ letter ∈ letters, IsFlag arguments letter)
    (rest : List Bytes) :
    (parseFrom arguments noDash 0 s (separately letters ++ rest)).result =
      match storeFlags arguments letters s.outputs with
      | .error error => .error (.thrown error)
      | .ok outputs => (parseFrom arguments noDash 0 { s with outputs } rest).result := by
  induction letters generalizing s with
  | nil => rfl
  | cons letter letters ih =>
    obtain ⟨e, store, he, houtput⟩ := hflags letter List.mem_cons_self
    have hrest := fun other hother => hletters other (List.mem_cons_of_mem letter hother)
    have hrest' := fun other hother => hflags other (List.mem_cons_of_mem letter hother)
    rw [separately, List.map_cons, List.cons_append,
      parseFrom_flag hstop (hletters letter List.mem_cons_self) he houtput, storeFlags_cons he houtput]
    cases store s.outputs with
    | error error => rfl
    | ok outputs => exact @ih { s with outputs } hstop hrest hrest'

theorem parseGroup_flags {letters : Bytes} (hflags : ∀ letter ∈ letters, IsFlag arguments letter)
    (behind : Nat) (others : Bytes) (outputs : σ) : ∃ calls, (∀ call ∈ calls, call.needsValue = false) ∧
      parseGroup arguments behind (letters ++ others) outputs =
        match storeFlags arguments letters outputs with
        | .error error => (calls, .error error)
        | .ok outputs => (calls ++ (parseGroup arguments behind others outputs).1,
            (parseGroup arguments behind others outputs).2) := by
  induction letters generalizing outputs with
  | nil => exact ⟨[], fun call hcall => absurd hcall List.not_mem_nil, rfl⟩
  | cons letter letters ih =>
    obtain ⟨e, store, he, houtput⟩ := hflags letter List.mem_cons_self
    have hflag : (callOf e behind none).needsValue = false := by simp only [callOf, houtput]
    rw [List.cons_append, parseGroup, he, storeFlags_cons he houtput]
    simp only [houtput, Output.consume]
    cases store outputs with
    | error error => exact ⟨[callOf e behind none], fun call hcall => List.mem_singleton.mp hcall ▸ hflag, rfl⟩
    | ok outputs =>
      obtain ⟨calls, hcalls, hgroup⟩ :=
        ih (fun other hother => hflags other (List.mem_cons_of_mem letter hother)) outputs
      refine ⟨callOf e behind none :: calls, fun call hcall => ?_, ?_⟩
      · rcases List.mem_cons.mp hcall with rfl | hcall
        · exact hflag
        · exact hcalls call hcall
      · simp only [Except.map, hgroup]
        cases storeFlags arguments letters outputs with
        | error error => rfl
        | ok outputs => rfl

theorem parseGroup_last_value (h : TakesValue arguments letter) (behind : Nat) : ∃ call : Call,
    (call.behind = behind ∧ call.needsValue = true ∧ call.value = none) ∧
      ∀ outputs, parseGroup arguments behind [letter] outputs = ([call], .ok (true, outputs)) := by
  obtain ⟨e, store, he, houtput⟩ := h
  refine ⟨callOf e behind none, ⟨rfl, by simp only [callOf, houtput], rfl⟩, fun outputs => ?_⟩
  rw [parseGroup, he]
  simp only [houtput, Output.consume]
  rfl

end Letters

/-! ## The group -/

section Group

variable {arguments} {s : State σ} {first : Bytes} {last : UInt8}

theorem step_grouped (hgroup : IsGroupOf arguments first last) (hstop : s.stop = false) (rest : List Bytes) :
    step arguments noDash s (grouped (first ++ [last])) rest =
      match parseGroup arguments rest.length (first ++ [last]) s.outputs with
      | (calls, .error error) => (calls, .error (.thrown error))
      | (calls, .ok (true, outputs)) => (calls, .ok (0, { s with outputs }))
      | (calls, .ok (false, outputs)) =>
        let (calls', result) :=
          parseArgument arguments noDash { s with outputs } (grouped (first ++ [last])) rest
        (calls ++ calls', result) := by
  obtain ⟨letter, letters, rfl⟩ := List.exists_cons_of_ne_nil hgroup.nonempty
  have hletter : letter ≠ 45 := hgroup.letters letter List.mem_cons_self
  have hseparator : ¬ (¬ s.stop = true ∧ grouped (letter :: letters ++ [last]) = [45, 45]) := fun h =>
    hletter (List.cons.inj (List.cons.inj h.2).2).1
  have hlong : isGroup (grouped (letter :: letters ++ [last])) = true := by
    simp [isGroup, grouped, startsWithDash, hletter]
  have hstop' : ¬ s.stop = true := by
    rw [hstop]
    exact Bool.false_ne_true
  have hdash : noDash false (grouped (letter :: letters ++ [last])) = false := rfl
  rw [step, if_neg hseparator, if_pos ⟨hstop', hlong⟩, hdash]
  rfl

theorem parseFrom_grouped_flags (hgroup : IsGroupOf arguments first last) (hlast : IsFlag arguments last)
    (hstop : s.stop = false) (after : List Bytes) : ∃ calls, (∀ call ∈ calls, call.needsValue = false) ∧
      parseFrom arguments noDash 0 s (grouped (first ++ [last]) :: after) =
        match storeFlags arguments (first ++ [last]) s.outputs with
        | .error error => ⟨calls, .error (.thrown error)⟩
        | .ok outputs =>
          ⟨calls ++ (parseFrom arguments noDash 0 { s with outputs } after).calls,
            (parseFrom arguments noDash 0 { s with outputs } after).result⟩ := by
  have hflags : ∀ letter ∈ first ++ [last], IsFlag arguments letter := by
    intro letter hletter
    rcases List.mem_append.mp hletter with hletter | hletter
    · exact hgroup.flags letter hletter
    · rwa [List.mem_singleton.mp hletter]
  obtain ⟨calls, hcalls, hparse⟩ := parseGroup_flags hflags after.length [] s.outputs
  refine ⟨calls, hcalls, ?_⟩
  rw [List.append_nil] at hparse
  rw [parseFrom, step_grouped hgroup hstop, hparse]
  cases storeFlags arguments (first ++ [last]) s.outputs with
  | error error => rfl
  | ok outputs => simp only [parseGroup, List.append_nil]

theorem parseFrom_grouped_value (hgroup : IsGroupOf arguments first last) (hlast : TakesValue arguments last)
    (hstop : s.stop = false) (after : List Bytes) : ∃ calls call, (∀ call ∈ calls, call.needsValue = false) ∧
      (call.behind = after.length ∧ call.needsValue = true ∧ call.value = none) ∧
      parseFrom arguments noDash 0 s (grouped (first ++ [last]) :: after) =
        match storeFlags arguments first s.outputs with
        | .error error => ⟨calls, .error (.thrown error)⟩
        | .ok outputs =>
          ⟨calls ++ [call] ++ (parseFrom arguments noDash 0 { s with outputs } after).calls,
            (parseFrom arguments noDash 0 { s with outputs } after).result⟩ := by
  obtain ⟨calls, hcalls, hparse⟩ := parseGroup_flags hgroup.flags after.length [last] s.outputs
  obtain ⟨call, hcall, hvalue⟩ := parseGroup_last_value hlast after.length
  refine ⟨calls, call, hcalls, hcall, ?_⟩
  rw [parseFrom, step_grouped hgroup hstop, hparse]
  cases storeFlags arguments first s.outputs with
  | error error => rfl
  | ok outputs => simp only [hvalue]

theorem parseFrom_value_nil (hlast : TakesValue arguments last) (hletter : last ≠ 45) (hstop : s.stop = false) :
    (parseFrom arguments noDash 0 s [[45, last]]).result = .error (.missingArgument [45, last]) := by
  obtain ⟨e, store, he, houtput⟩ := hlast
  have hfound := List.find?_some he
  rw [decide_eq_true_eq] at hfound
  have hposition : e.position = none := Option.isNone_iff_eq_none.mp hfound.1
  rw [parseFrom, step_short hletter, parseArgument, select_short hstop, he]
  simp only [houtput, hposition, Option.isSome_none, Bool.false_eq_true, if_false, List.head?_nil,
    Output.consume]
  rfl

theorem not_isFlag_of_takesValue {letter : UInt8} (h : TakesValue arguments letter) :
    ¬ IsFlag arguments letter := by
  rintro ⟨e, store, he, houtput⟩
  obtain ⟨e', store', he', houtput'⟩ := h
  obtain rfl := Option.some.inj (he.symm.trans he')
  rw [houtput] at houtput'
  cases houtput'

/-! ### Calls for the group -/

/-- An option behind which `after` follows gets its first argument. -/
def Served (after : List Bytes) (calls : List Call) : Prop :=
  ∀ call ∈ calls, call.behind = after.length → call.needsValue = true → call.value = after.head?

theorem served_append {after : List Bytes} {calls calls' : List Call} :
    Served after (calls ++ calls') ↔ Served after calls ∧ Served after calls' :=
  List.forall_mem_append

theorem served_of_flags {after : List Bytes} {calls : List Call}
    (h : ∀ call ∈ calls, call.needsValue = false) : Served after calls := by
  intro call hcall _ hneeds
  rw [h call hcall] at hneeds
  cases hneeds

theorem served_of_behind {after : List Bytes} {calls : List Call}
    (h : ∀ call ∈ calls, call.behind ≠ after.length) : Served after calls :=
  fun call hcall hbehind => absurd hbehind (h call hcall)

theorem served_rest (s : State σ) (after : List Bytes) :
    Served after (parseFrom arguments noDash 0 s after).calls :=
  served_of_behind fun call hcall => (behind_parseFrom after 0 s call hcall).ne

theorem replaceable_iff_behind {outputs : σ} {before after : List Bytes} {letters : Bytes}
    (hletters : letters ≠ [])
    (hreaches : Reaches arguments (grouped letters :: after) 0 { outputs } before s) :
    Replaceable arguments outputs before letters after ↔
      (parseFrom arguments noDash 0 s (grouped letters :: after)).result.toOption =
          (parseFrom arguments noDash 0 s (separately letters ++ after)).result.toOption ∧
        Served after (parseFrom arguments noDash 0 s (grouped letters :: after)).calls := by
  obtain ⟨letter, letters, rfl⟩ := List.exists_cons_of_ne_nil hletters
  obtain ⟨calls, hrun, hcalls⟩ := hreaches.parseFrom_eq
  have hreaches' : Reaches arguments (separately (letter :: letters) ++ after) 0 { outputs } before s :=
    hreaches.congr
  obtain ⟨calls', hrun', -⟩ := hreaches'.parseFrom_eq
  have hbefore : Served after calls := by
    apply served_of_behind
    intro call hcall heq
    have hle := hcalls call hcall
    rw [heq, List.length_cons] at hle
    omega
  unfold Replaceable parse
  rw [hrun, hrun']
  exact and_congr_right fun _ => served_append.trans (and_iff_right hbefore)

theorem replaceable_of_isFlag {outputs : σ} {before after : List Bytes}
    (hgroup : IsGroupOf arguments first last) (hlast : IsFlag arguments last) (hstop : s.stop = false)
    (hreaches : Reaches arguments (grouped (first ++ [last]) :: after) 0 { outputs } before s) :
    Replaceable arguments outputs before (first ++ [last]) after := by
  have hflags : ∀ letter ∈ first ++ [last], IsFlag arguments letter := by
    intro letter hletter
    rcases List.mem_append.mp hletter with hletter | hletter
    · exact hgroup.flags letter hletter
    · rwa [List.mem_singleton.mp hletter]
  obtain ⟨group, hneeds, hparse⟩ := parseFrom_grouped_flags hgroup hlast hstop after
  rw [replaceable_iff_behind (List.concat_ne_nil _ _) hreaches, hparse,
    parseFrom_separately hstop hgroup.letters hflags]
  cases storeFlags arguments (first ++ [last]) s.outputs with
  | error error => exact ⟨rfl, served_of_flags hneeds⟩
  | ok outputs => exact ⟨rfl, served_append.mpr ⟨served_of_flags hneeds, served_rest _ after⟩⟩

/-- A group can be written as separate options exactly if its last option takes no value, or if one of the
other options throws. -/
theorem replaceable_iff {outputs : σ} {before after : List Bytes}
    (hgroup : IsGroupOf arguments first last) (hstop : s.stop = false)
    (hreaches : Reaches arguments (grouped (first ++ [last]) :: after) 0 { outputs } before s) :
    Replaceable arguments outputs before (first ++ [last]) after ↔
      IsFlag arguments last ∨ ∃ error, storeFlags arguments first s.outputs = .error error := by
  rcases hgroup.registered with hlast | hlast
  · exact iff_of_true (replaceable_of_isFlag hgroup hlast hstop hreaches) (Or.inl hlast)
  have hseparately : separately (first ++ [last]) ++ after = separately first ++ ([45, last] :: after) := by
    simp [separately]
  have hletters : ∀ letter ∈ first, letter ≠ 45 := fun letter hletter =>
    hgroup.letters letter (List.mem_append_left _ hletter)
  have hlastLetter : last ≠ 45 := hgroup.letters last (List.mem_append_right _ List.mem_cons_self)
  obtain ⟨group, call, hneeds, hcall, hparse⟩ := parseFrom_grouped_value hgroup hlast hstop after
  rw [replaceable_iff_behind (List.concat_ne_nil _ _) hreaches, hparse, hseparately,
    parseFrom_separately hstop hletters hgroup.flags]
  cases hstore : storeFlags arguments first s.outputs with
  | error error => exact iff_of_true ⟨rfl, served_of_flags hneeds⟩ (Or.inr ⟨error, rfl⟩)
  | ok outputs =>
    refine iff_of_false ?_ ?_
    · rintro ⟨hresult, hserved⟩
      -- nothing can follow, since the call was made without a value; then a value is missing
      have hmem : call ∈ group ++ [call] ++
          (parseFrom arguments noDash 0 { s with outputs } after).calls := by simp
      have hnone := hserved call hmem hcall.1 hcall.2.1
      rw [hcall.2.2] at hnone
      have hnil : after = [] := List.head?_eq_none_iff.mp hnone.symm
      subst hnil
      have hmissing := @parseFrom_value_nil σ ε arguments { s with outputs } last hlast hlastLetter hstop
      dsimp only at hresult hmissing
      rw [hmissing] at hresult
      cases hresult
    · rintro (hflag | ⟨error, herror⟩)
      · exact not_isFlag_of_takesValue hlast hflag
      · cases herror

/-- Two flags of which the second may be given once, and an option with a value. -/
def threeOptions : List (Argument (Bool × Option Bytes) Unit) :=
  [⟨.option none 97, .flag fun outputs => .ok (true, outputs.2)⟩,
    ⟨.option none 117, .flag fun outputs => if outputs.1 then .error () else .ok (true, outputs.2)⟩,
    ⟨.option none 110, .value fun text outputs => .ok (outputs.1, some text)⟩]

theorem isFlag_first : IsFlag threeOptions 97 := ⟨_, _, rfl, rfl⟩

theorem isFlag_second : IsFlag threeOptions 117 := ⟨_, _, rfl, rfl⟩

theorem takesValue_third : TakesValue threeOptions 110 := ⟨_, _, rfl, rfl⟩

theorem isGroupOf_three {last : UInt8} (hlast : last ≠ 45)
    (hregistered : IsFlag threeOptions last ∨ TakesValue threeOptions last) :
    IsGroupOf threeOptions [97] last := by
  refine ⟨List.cons_ne_nil _ _, fun letter hletter => ?_, fun letter hletter => ?_, hregistered⟩
  · rcases List.mem_cons.mp hletter with rfl | hletter
    · decide
    · rwa [List.mem_singleton.mp hletter]
  · rw [List.mem_singleton.mp hletter]
    exact isFlag_first

/-- `-au`, which fails like `-a -u`. -/
theorem replaceable_iff_two_flags : Replaceable threeOptions (false, none) [] [97, 117] [] :=
  (@replaceable_iff _ _ threeOptions { outputs := (false, none) } [97] 117 (false, none) [] []
    (isGroupOf_three (by decide) (Or.inl isFlag_second)) rfl rfl).mpr (Or.inl isFlag_second)

/-- `-an 5`: the value is taken for a positional argument. -/
theorem value_in_group_not_replaceable :
    ¬ ∀ (arguments : List (Argument (Bool × Option Bytes) Unit)) (outputs : Bool × Option Bytes)
      (before after : List Bytes) (first : Bytes) (last : UInt8) (s : State (Bool × Option Bytes)),
      IsGroupOf arguments first last → s.stop = false →
        Reaches arguments (grouped (first ++ [last]) :: after) 0 { outputs } before s →
          Replaceable arguments outputs before (first ++ [last]) after := by
  intro h
  have hresult := (h threeOptions (false, none) [] [ascii "5"] [97] 110 { outputs := (false, none) }
    (isGroupOf_three (by decide) (Or.inr takesValue_third)) rfl rfl).1
  revert hresult
  decide

end Group

end WslFreeBSD.Reference.ArgumentParser
