import Mathlib.Algebra.Order.BigOperators.Group.List
import Mathlib.Data.List.DropRight
import WslFreeBSD.Translation.WslPath

/-!
# Shared environment variables

`UtilParseWslEnv` of `init/util.cpp`: the variables that `WSLENV` lists are put into a block for the other
side, some of them with their paths translated. Strings are appended to the block with all of their bytes,
and entries end at a NUL.

`parseWslEnv_wellFormed_iff` says when the block has the entries that the list asks for.
-/

namespace WslFreeBSD.Translation

open Lib

/-! ## Environments -/

/-- An environment block: its strings, which an empty one ends. -/
structure EnvironmentBlock where
  entries : List Bytes
  proper : ∀ entry ∈ entries, entry ≠ [] ∧ 0 ∉ entry

/-- Strings in memory, with the empty one behind them. -/
def encodeStrings (strings : List Bytes) : Bytes := strings.flatMap (· ++ [0]) ++ [0]

/-- Where variables are looked up: in a block of the Windows side, or with `getenv`. -/
inductive Environment where
  | block (environment : EnvironmentBlock)
  | process (getenv : Bytes → Option Bytes) (terminated : ∀ name, ∀ value ∈ getenv name, 0 ∉ value)

def Environment.reverse : Environment → Bool
  | block _ => true
  | process _ _ => false

/-- The value of an entry if it is that of the variable. -/
def entryValue (name current : Bytes) : Option Bytes :=
  if current.take name.length = name ∧ current[name.length]? = some 61 then
    some (current.drop (name.length + 1))
  else none

/-- `UtilGetEnv`. -/
def utilGetEnv (name : Bytes) : Environment → Option Bytes
  | .block environment => environment.entries.findSome? (entryValue name)
  | .process getenv _ => getenv name

/-! ## Flags -/

structure FlagState where
  mode : UInt8
  skipTranslation : Bool

def readFlag (reverse : Bool) (state : FlagState) (flag : UInt8) : FlagState :=
  if flag = 112 ∨ flag = 108 then
    if state.mode ≠ 0 ∧ state.mode ≠ 112 ∧ state.mode ≠ 108 then { state with skipTranslation := true }
    else { state with mode := flag }
  else if flag = 117 then
    if reverse = false then { state with skipTranslation := true } else state
  else if flag = 119 then
    if reverse then { state with skipTranslation := true } else state
  else { state with skipTranslation := true }

def envName (token : Bytes) : Bytes := token.takeWhile (· ≠ 47)

def envFlags (token : Bytes) : Bytes := (token.dropWhile (· ≠ 47)).drop 1

/-! ## The block -/

/-- The entries of the list, without the blanks at its end. -/
def listedTokens (envList : Bytes) : List Bytes := tokens (· = 58) (envList.rdropWhile isSpace)

/-- What `UtilParseWslEnv` appends for an entry of the list, without the NUL. -/
def wslEnvEntry (s : Surroundings) (environment : Environment) (token : Bytes) : Option Bytes :=
  let state := (envFlags token).foldl (readFlag environment.reverse) ⟨0, false⟩
  if state.skipTranslation then none
  else
    match utilGetEnv (envName token) environment with
    | none => some (envName token ++ ascii "=")
    | some value =>
      if state.mode = 112 ∨ state.mode = 108 then
        (translatePathList s value environment.reverse).map (envName token ++ ascii "=" ++ ·)
      else some (envName token ++ ascii "=" ++ value)

def wslEnvStrings (s : Surroundings) (environment : Environment) : List Bytes :=
  let envList := utilGetEnv (ascii "WSLENV") environment
  (ascii "WSLENV=" ++ envList.getD []) :: (listedTokens (envList.getD [])).filterMap (wslEnvEntry s environment)

/-- `UtilParseWslEnv`. -/
def parseWslEnv (s : Surroundings) (environment : Environment) : Bytes :=
  encodeStrings (wslEnvStrings s environment)

/-! ## What the list asks for -/

/-- The flags ask for the variable to be passed on in this direction. -/
def Applies (reverse : Bool) (flags : Bytes) : Prop :=
  ∀ flag ∈ flags, flag = 112 ∨ flag = 108 ∨ (flag = 117 ∧ reverse = true) ∨ (flag = 119 ∧ reverse = false)

instance (reverse : Bool) (flags : Bytes) : Decidable (Applies reverse flags) :=
  inferInstanceAs (Decidable (∀ _ ∈ _, _))

def HoldsPaths (flags : Bytes) : Prop := 112 ∈ flags ∨ 108 ∈ flags

instance (flags : Bytes) : Decidable (HoldsPaths flags) := inferInstanceAs (Decidable (_ ∨ _))

/-- The value of a variable for the other side; nothing if it cannot be translated. A variable that is not set
has the empty value. -/
def passedValue (s : Surroundings) (environment : Environment) (token : Bytes) : Option Bytes :=
  match utilGetEnv (envName token) environment with
  | none => some []
  | some value =>
    if HoldsPaths (envFlags token) then translatePathList s value environment.reverse else some value

/-- The entry for a variable that is listed: its value is a text. -/
def expectedEntry (s : Surroundings) (environment : Environment) (token : Bytes) : Option Bytes :=
  if Applies environment.reverse (envFlags token) then
    (passedValue s environment token).map fun value => envName token ++ ascii "=" ++ value.takeWhile (· ≠ 0)
  else none

/-- The entry of `WSLENV` itself, and those of the variables in the order of the list. -/
def expectedEntries (s : Surroundings) (environment : Environment) : List Bytes :=
  let envList := (utilGetEnv (ascii "WSLENV") environment).getD []
  (ascii "WSLENV=" ++ envList) :: (listedTokens envList).filterMap (expectedEntry s environment)

/-- The output is a block with the expected entries. -/
def WellFormed (s : Surroundings) (environment : Environment) : Prop :=
  ∃ output : EnvironmentBlock, output.entries = expectedEntries s environment ∧
    parseWslEnv s environment = encodeStrings output.entries

/-- A variable is to be translated for Linux and lists a path of the share that holds an escape sequence. -/
def SharesEscaped (s : Surroundings) (environment : Environment) : Prop :=
  ∃ token ∈ listedTokens ((utilGetEnv (ascii "WSLENV") environment).getD []),
    Applies environment.reverse (envFlags token) ∧ HoldsPaths (envFlags token) ∧
      ∃ value ∈ utilGetEnv (envName token) environment, ListsEscapedShare s value environment.reverse

/-! ## Flags and values -/

theorem readFlag_path {reverse : Bool} {state : FlagState} {flag : UInt8} (hflag : flag = 112 ∨ flag = 108)
    (hmode : state.mode = 0 ∨ state.mode = 112 ∨ state.mode = 108) :
    readFlag reverse state flag = { state with mode := flag } := by
  unfold readFlag
  rw [if_pos hflag, if_neg]
  rintro ⟨hzero, hp, hl⟩
  rcases hmode with h | h | h
  · exact hzero h
  · exact hp h
  · exact hl h

theorem readFlag_other (reverse : Bool) (state : FlagState) {flag : UInt8}
    (hflag : ¬ (flag = 112 ∨ flag = 108)) :
    (readFlag reverse state flag).mode = state.mode ∧
      ((readFlag reverse state flag).skipTranslation = false ↔ state.skipTranslation = false ∧
        ((flag = 117 ∧ reverse = true) ∨ (flag = 119 ∧ reverse = false))) := by
  unfold readFlag
  rw [if_neg hflag]
  by_cases hu : flag = 117
  · subst hu
    cases reverse <;> simp
  · rw [if_neg hu]
    by_cases hw : flag = 119
    · subst hw
      cases reverse <;> simp
    · simp [hu, hw]

theorem foldl_readFlag (reverse : Bool) (flags : Bytes) :
    ((flags.foldl (readFlag reverse) ⟨0, false⟩).mode = 0 ∨
        (flags.foldl (readFlag reverse) ⟨0, false⟩).mode = 112 ∨
        (flags.foldl (readFlag reverse) ⟨0, false⟩).mode = 108) ∧
      ((flags.foldl (readFlag reverse) ⟨0, false⟩).skipTranslation = false ↔ Applies reverse flags) ∧
      ((flags.foldl (readFlag reverse) ⟨0, false⟩).mode = 112 ∨
        (flags.foldl (readFlag reverse) ⟨0, false⟩).mode = 108 ↔ HoldsPaths flags) := by
  induction flags using List.reverseRecOn with
  | nil => simp [Applies, HoldsPaths]
  | append_singleton flags flag ih =>
    obtain ⟨hmode, hskip, hpaths⟩ := ih
    rw [List.foldl_append, List.foldl_cons, List.foldl_nil]
    generalize flags.foldl (readFlag reverse) ⟨0, false⟩ = state at *
    have happlies : Applies reverse (flags ++ [flag]) ↔ Applies reverse flags ∧
        (flag = 112 ∨ flag = 108 ∨ (flag = 117 ∧ reverse = true) ∨ (flag = 119 ∧ reverse = false)) := by
      unfold Applies
      rw [List.forall_mem_append, List.forall_mem_singleton]
    have hholds : HoldsPaths (flags ++ [flag]) ↔ HoldsPaths flags ∨ (flag = 112 ∨ flag = 108) := by
      unfold HoldsPaths
      simp only [List.mem_append, List.mem_singleton]
      rw [eq_comm (a := flag), eq_comm (a := flag)]
      exact or_or_or_comm
    rw [happlies, hholds, ← hskip, ← hpaths]
    by_cases hflag : flag = 112 ∨ flag = 108
    · rw [readFlag_path hflag hmode]
      refine ⟨Or.inr hflag, ?_, ?_⟩
      · rw [← or_assoc, and_iff_left (Or.inl hflag)]
      · exact iff_of_true hflag (Or.inr hflag)
    · obtain ⟨hkeep, hskips⟩ := readFlag_other reverse state hflag
      rw [hkeep, hskips, or_iff_left hflag, ← or_assoc (a := flag = 112), or_iff_right hflag]
      exact ⟨hmode, Iff.rfl, Iff.rfl⟩

theorem zero_not_mem_of_utilGetEnv {environment : Environment} {name value : Bytes}
    (h : utilGetEnv name environment = some value) : 0 ∉ value := by
  cases environment with
  | block environment =>
    obtain ⟨entry, hentry, hvalue⟩ := List.exists_of_findSome?_eq_some h
    unfold entryValue at hvalue
    split at hvalue
    · obtain rfl := Option.some.inj hvalue
      exact fun hmem => (environment.proper entry hentry).2 (List.mem_of_mem_drop hmem)
    · cases hvalue
  | process getenv terminated => exact terminated name value h

theorem zero_not_mem_listedTokens {environment : Environment} {token : Bytes}
    (h : token ∈ listedTokens ((utilGetEnv (ascii "WSLENV") environment).getD [])) : 0 ∉ token := by
  intro hmem
  have hlist : 0 ∈ (utilGetEnv (ascii "WSLENV") environment).getD [] :=
    (List.rdropWhile_prefix _ _).subset (mem_of_mem_tokens h hmem)
  cases hvalue : utilGetEnv (ascii "WSLENV") environment with
  | none =>
    rw [hvalue] at hlist
    exact List.not_mem_nil hlist
  | some value =>
    rw [hvalue] at hlist
    exact zero_not_mem_of_utilGetEnv hvalue hlist

/-! ## Strings and texts -/

theorem takeWhile_append_of_not_mem {text : Bytes} (h : 0 ∉ text) (rest : Bytes) :
    (text ++ rest).takeWhile (· ≠ 0) = text ++ rest.takeWhile (· ≠ 0) := by
  refine List.takeWhile_append_of_pos fun c hc => ?_
  rw [decide_eq_true_eq]
  rintro rfl
  exact h hc

theorem wslEnvEntry_eq (s : Surroundings) (environment : Environment) (token : Bytes) :
    wslEnvEntry s environment token =
      if Applies environment.reverse (envFlags token) then
        (passedValue s environment token).map (envName token ++ ascii "=" ++ ·)
      else none := by
  obtain ⟨-, hskip, hpaths⟩ := foldl_readFlag environment.reverse (envFlags token)
  unfold wslEnvEntry passedValue
  dsimp only
  by_cases happlies : Applies environment.reverse (envFlags token)
  · rw [if_pos happlies, if_neg (by rw [hskip.mpr happlies]; decide)]
    cases utilGetEnv (envName token) environment with
    | none => rw [Option.map_some, List.append_nil]
    | some value =>
      by_cases hholds : HoldsPaths (envFlags token)
      · simp only [if_pos hholds, if_pos (hpaths.mpr hholds)]
      · simp only [if_neg hholds, if_neg fun hmode => hholds (hpaths.mp hmode), Option.map_some]
  · rw [if_neg happlies, if_pos]
    rw [← Bool.not_eq_false]
    exact fun hfalse => happlies (hskip.mp hfalse)

theorem zero_not_mem_envName {token : Bytes} (h : 0 ∉ token) : 0 ∉ envName token ++ ascii "=" := by
  rw [List.mem_append, not_or]
  exact ⟨fun hmem => h (List.takeWhile_subset _ hmem), by decide⟩

theorem expectedEntry_eq {s : Surroundings} {environment : Environment} {token : Bytes} (hnul : 0 ∉ token) :
    expectedEntry s environment token =
      (wslEnvEntry s environment token).map (·.takeWhile (· ≠ 0)) := by
  rw [wslEnvEntry_eq, expectedEntry]
  split
  · rw [Option.map_map]
    refine congrFun (congrArg Option.map (funext fun value => ?_)) _
    exact (takeWhile_append_of_not_mem (zero_not_mem_envName hnul) value).symm
  · rfl

theorem map_takeWhile_of_texts {strings : List Bytes} (h : ∀ string ∈ strings, 0 ∉ string) :
    strings.map (·.takeWhile (· ≠ 0)) = strings := by
  conv_rhs => rw [← List.map_id strings]
  exact List.map_congr_left fun string hstring => takeWhile_of_not_mem (h string hstring)

theorem encodeStrings_map_iff (strings : List Bytes) :
    encodeStrings strings = encodeStrings (strings.map (·.takeWhile (· ≠ 0))) ↔
      ∀ string ∈ strings, 0 ∉ string := by
  have hlength : ∀ ls : List Bytes,
      (encodeStrings ls).length = (ls.map fun string => string.length + 1).sum + 1 := by
    intro ls
    rw [encodeStrings, List.length_append, List.length_flatMap]
    simp only [List.length_append, List.length_singleton]
  constructor
  · intro heq string hstring hzero
    have hlen := congrArg List.length heq
    rw [hlength, hlength, List.map_map, Nat.add_right_cancel_iff] at hlen
    have hle : ∀ t ∈ strings, (t.takeWhile (· ≠ 0)).length + 1 ≤ t.length + 1 :=
      fun t _ => Nat.succ_le_succ (List.takeWhile_prefix _).length_le
    have hlt : (string.takeWhile (· ≠ 0)).length + 1 < string.length + 1 := by
      refine Nat.succ_lt_succ (lt_of_le_of_ne (List.takeWhile_prefix _).length_le fun hsame => ?_)
      have hself := (List.takeWhile_prefix fun c : UInt8 => decide (c ≠ 0)).eq_of_length hsame
      exact absurd (List.takeWhile_eq_self_iff.mp hself 0 hzero) (by decide)
    exact absurd hlen (List.sum_lt_sum _ _ hle ⟨string, hstring, hlt⟩).ne'
  · intro htexts
    rw [map_takeWhile_of_texts htexts]

theorem zero_mem_wslEnvEntry {s : Surroundings} {environment : Environment} {token : Bytes} (hnul : 0 ∉ token) :
    (∃ string ∈ wslEnvEntry s environment token, 0 ∈ string) ↔
      Applies environment.reverse (envFlags token) ∧ HoldsPaths (envFlags token) ∧
        ∃ value ∈ utilGetEnv (envName token) environment, ListsEscapedShare s value environment.reverse := by
  have hvalue : (∃ value ∈ passedValue s environment token, 0 ∈ value) ↔ HoldsPaths (envFlags token) ∧
      ∃ value ∈ utilGetEnv (envName token) environment, ListsEscapedShare s value environment.reverse := by
    unfold passedValue
    cases hget : utilGetEnv (envName token) environment with
    | none => simp
    | some value =>
      have htext := zero_not_mem_of_utilGetEnv hget
      by_cases hholds : HoldsPaths (envFlags token)
      · simp only [hholds, if_true, true_and, Option.mem_some_iff, exists_eq_left',
          zero_mem_translatePathList htext]
      · simp [hholds, htext]
  rw [wslEnvEntry_eq]
  by_cases happlies : Applies environment.reverse (envFlags token)
  · rw [if_pos happlies, and_iff_right happlies, ← hvalue]
    have hname := zero_not_mem_envName hnul
    constructor
    · rintro ⟨string, hstring, hzero⟩
      obtain ⟨value, hpassed, rfl⟩ := Option.map_eq_some_iff.mp hstring
      exact ⟨value, hpassed, (List.mem_append.mp hzero).resolve_left hname⟩
    · rintro ⟨value, hpassed, hzero⟩
      exact ⟨_, Option.map_eq_some_iff.mpr ⟨value, hpassed, rfl⟩, List.mem_append_right _ hzero⟩
  · rw [if_neg happlies]
    refine iff_of_false ?_ fun hboth => happlies hboth.1
    rintro ⟨string, hstring, -⟩
    cases hstring

theorem zero_not_mem_envList (environment : Environment) :
    0 ∉ ascii "WSLENV=" ++ (utilGetEnv (ascii "WSLENV") environment).getD [] := by
  rw [List.mem_append, not_or]
  refine ⟨by decide, fun hmem => ?_⟩
  cases hvalue : utilGetEnv (ascii "WSLENV") environment with
  | none =>
    rw [hvalue] at hmem
    exact List.not_mem_nil hmem
  | some value =>
    rw [hvalue] at hmem
    exact zero_not_mem_of_utilGetEnv hvalue hmem

theorem expectedEntries_eq (s : Surroundings) (environment : Environment) :
    expectedEntries s environment = (wslEnvStrings s environment).map (·.takeWhile (· ≠ 0)) := by
  unfold expectedEntries wslEnvStrings
  dsimp only
  rw [List.map_cons, takeWhile_of_not_mem (zero_not_mem_envList environment), List.map_filterMap]
  refine congrArg _ (List.filterMap_congr fun token htoken => ?_)
  exact expectedEntry_eq (zero_not_mem_listedTokens htoken)

theorem zero_mem_wslEnvStrings (s : Surroundings) (environment : Environment) :
    (∃ string ∈ wslEnvStrings s environment, 0 ∈ string) ↔ SharesEscaped s environment := by
  constructor
  · rintro ⟨string, hstring, hzero⟩
    rcases List.mem_cons.mp hstring with rfl | hstring
    · exact absurd hzero (zero_not_mem_envList environment)
    · obtain ⟨token, htoken, hentry⟩ := List.mem_filterMap.mp hstring
      have hescaped := (zero_mem_wslEnvEntry (zero_not_mem_listedTokens htoken)).mp ⟨string, hentry, hzero⟩
      exact ⟨token, htoken, hescaped⟩
  · rintro ⟨token, htoken, hescaped⟩
    obtain ⟨string, hentry, hzero⟩ := (zero_mem_wslEnvEntry (zero_not_mem_listedTokens htoken)).mpr hescaped
    exact ⟨string, List.mem_cons_of_mem _ (List.mem_filterMap.mpr ⟨token, htoken, hentry⟩), hzero⟩

theorem wslEnvStrings_ne_nil {s : Surroundings} {environment : Environment} {string : Bytes}
    (h : string ∈ wslEnvStrings s environment) : string ≠ [] := by
  rcases List.mem_cons.mp h with rfl | h
  · exact List.cons_ne_nil _ _
  · obtain ⟨token, -, hentry⟩ := List.mem_filterMap.mp h
    rw [wslEnvEntry_eq] at hentry
    split at hentry
    · obtain ⟨value, -, rfl⟩ := Option.map_eq_some_iff.mp hentry
      simp [ascii]
    · cases hentry

/-- The block is as the list asks for, unless a path of the share with an escape sequence is translated. -/
theorem parseWslEnv_wellFormed_iff (s : Surroundings) (environment : Environment) :
    WellFormed s environment ↔ ¬ SharesEscaped s environment := by
  have htexts : (∀ string ∈ wslEnvStrings s environment, 0 ∉ string) ↔ ¬ SharesEscaped s environment := by
    rw [← zero_mem_wslEnvStrings]
    push Not
    rfl
  rw [← htexts]
  constructor
  · rintro ⟨output, hentries, houtput⟩
    rw [hentries, expectedEntries_eq] at houtput
    exact (encodeStrings_map_iff _).mp houtput
  · intro hall
    have hself : expectedEntries s environment = wslEnvStrings s environment := by
      rw [expectedEntries_eq, map_takeWhile_of_texts hall]
    refine ⟨⟨wslEnvStrings s environment, fun string hstring => ?_⟩, hself.symm, rfl⟩
    exact ⟨wslEnvStrings_ne_nil hstring, hall string hstring⟩

theorem plainSurroundings_fields : 0 ∉ ascii "d" ∧ ∀ cwd ∈ some (ascii "/"), 0 ∉ cwd := by decide

/-- The distribution `d`, without a mount of Windows. -/
def plainSurroundings : Surroundings :=
  ⟨[rootMount], ascii "d", some (ascii "/"), plainSurroundings_fields.1, plainSurroundings_fields.2⟩

/-- The path of the file `/a:b` of the distribution in Windows. -/
def colonPath : Bytes := ascii "\\\\wsl.localhost\\d\\a" ++ escapeSequence 58 ++ ascii "b"

theorem colonBlock_proper : ∀ entry ∈ [ascii "WSLENV=X/p:Y", ascii "X=" ++ colonPath, ascii "Y=1"],
    entry ≠ [] ∧ 0 ∉ entry := by decide

def colonBlock : EnvironmentBlock :=
  ⟨[ascii "WSLENV=X/p:Y", ascii "X=" ++ colonPath, ascii "Y=1"], colonBlock_proper⟩

/-- The value goes on behind a NUL with bytes that are left over. -/
theorem parseWslEnv_not_wellFormed : ¬ WellFormed plainSurroundings (.block colonBlock) := by
  rintro ⟨output, hentries, houtput⟩
  rw [hentries] at houtput
  exact absurd houtput (by decide)

end WslFreeBSD.Translation
