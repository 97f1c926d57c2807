import WslFreeBSD.Translation.WslPath

/-!
# Collapsing a path

`CollapsePath` goes through a path from its last segment to the first and counts the segments that are to be
removed. A path is normalised from the first segment to the last (`normalise`); the same can be done from the
right (`normaliseRight`, `foldlM_normaliseStep`), with the difference that a segment that is empty or `.` is
dropped there and does not count as removed. In `CollapsePath` it does (`collapseFrom`).

So the two agree exactly if no such segment is met while segments are to be removed, or if the path is refused
in any case (`collapsePath_normalises_iff`).
-/

namespace WslFreeBSD.Translation

open Lib

/-! ## Normalisation -/

abbrev Skipped (segment : Bytes) : Prop := segment = [] ∨ segment = ascii "."

def normaliseStep (kept : List Bytes) (segment : Bytes) : Option (List Bytes) :=
  if Skipped segment then some kept
  else if segment = ascii ".." then
    if kept = [] then none else some kept.dropLast
  else some (kept ++ [segment])

/-- The segments of a path from left to right; there is no result where a `..` has nothing to remove. -/
def normalise (segments : List Bytes) : Option (List Bytes) := segments.foldlM normaliseStep []

def segmentsOf (separator : UInt8) (path : Bytes) : List Bytes := path.splitOnP (· = separator)

def names (separator : UInt8) (path : Bytes) : List Bytes := (segmentsOf separator path).filter (· ≠ [])

/-! ## From the right -/

/-- The segments from right to left: how many are still to be removed, and what is kept. -/
def normaliseRight : List Bytes → Nat × List Bytes
  | [] => (0, [])
  | segment :: segments =>
    let (pending, kept) := normaliseRight segments
    if segment = ascii ".." then (pending + 1, kept)
    else if Skipped segment then (pending, kept)
    else if pending > 0 then (pending - 1, kept)
    else (0, segment :: kept)

/-- The same in `CollapsePath`. -/
def collapseFrom : List Bytes → Nat × List Bytes
  | [] => (0, [])
  | segment :: segments =>
    let (pending, kept) := collapseFrom segments
    if segment = ascii ".." then (pending + 1, kept)
    else if pending > 0 then (pending - 1, kept)
    else if Skipped segment then (0, kept)
    else (0, segment :: kept)

theorem dotdot_not_skipped : ¬ Skipped (ascii "..") := by decide

section Steps

variable {segment : Bytes} (segments : List Bytes)

theorem normaliseRight_cons (segment : Bytes) :
    normaliseRight (segment :: segments) =
      if segment = ascii ".." then ((normaliseRight segments).1 + 1, (normaliseRight segments).2)
      else if Skipped segment then normaliseRight segments
      else if 0 < (normaliseRight segments).1 then
        ((normaliseRight segments).1 - 1, (normaliseRight segments).2)
      else (0, segment :: (normaliseRight segments).2) := rfl

theorem collapseFrom_cons (segment : Bytes) :
    collapseFrom (segment :: segments) =
      if segment = ascii ".." then ((collapseFrom segments).1 + 1, (collapseFrom segments).2)
      else if 0 < (collapseFrom segments).1 then
        ((collapseFrom segments).1 - 1, (collapseFrom segments).2)
      else if Skipped segment then (0, (collapseFrom segments).2)
      else (0, segment :: (collapseFrom segments).2) := rfl

theorem normaliseRight_up :
    normaliseRight (ascii ".." :: segments) =
      ((normaliseRight segments).1 + 1, (normaliseRight segments).2) := by
  rw [normaliseRight_cons, if_pos rfl]

theorem normaliseRight_skipped (h : Skipped segment) :
    normaliseRight (segment :: segments) = normaliseRight segments := by
  have hup : segment ≠ ascii ".." := fun heq => dotdot_not_skipped (heq ▸ h)
  rw [normaliseRight_cons, if_neg hup, if_pos h]

theorem normaliseRight_removed (hup : segment ≠ ascii "..") (h : ¬ Skipped segment)
    (hpending : 0 < (normaliseRight segments).1) :
    normaliseRight (segment :: segments) = ((normaliseRight segments).1 - 1, (normaliseRight segments).2) := by
  rw [normaliseRight_cons, if_neg hup, if_neg h, if_pos hpending]

theorem normaliseRight_kept (hup : segment ≠ ascii "..") (h : ¬ Skipped segment)
    (hpending : (normaliseRight segments).1 = 0) :
    normaliseRight (segment :: segments) = (0, segment :: (normaliseRight segments).2) := by
  rw [normaliseRight_cons, if_neg hup, if_neg h, if_neg (Nat.not_lt.mpr hpending.le)]

theorem collapseFrom_up :
    collapseFrom (ascii ".." :: segments) = ((collapseFrom segments).1 + 1, (collapseFrom segments).2) := by
  rw [collapseFrom_cons, if_pos rfl]

theorem collapseFrom_removed (hup : segment ≠ ascii "..") (hpending : 0 < (collapseFrom segments).1) :
    collapseFrom (segment :: segments) = ((collapseFrom segments).1 - 1, (collapseFrom segments).2) := by
  rw [collapseFrom_cons, if_neg hup, if_pos hpending]

theorem collapseFrom_skipped (h : Skipped segment) (hpending : (collapseFrom segments).1 = 0) :
    collapseFrom (segment :: segments) = (0, (collapseFrom segments).2) := by
  have hup : segment ≠ ascii ".." := fun heq => dotdot_not_skipped (heq ▸ h)
  rw [collapseFrom_cons, if_neg hup, if_neg (Nat.not_lt.mpr hpending.le), if_pos h]

theorem collapseFrom_kept (hup : segment ≠ ascii "..") (h : ¬ Skipped segment)
    (hpending : (collapseFrom segments).1 = 0) :
    collapseFrom (segment :: segments) = (0, segment :: (collapseFrom segments).2) := by
  rw [collapseFrom_cons, if_neg hup, if_neg (Nat.not_lt.mpr hpending.le), if_neg h]

/-- Each segment but `..` takes one from what is to be removed. -/
theorem collapseFrom_pending (hup : segment ≠ ascii "..") :
    (collapseFrom (segment :: segments)).1 = (collapseFrom segments).1 - 1 := by
  rcases Nat.eq_zero_or_pos (collapseFrom segments).1 with hzero | hpending
  · by_cases hskip : Skipped segment
    · rw [collapseFrom_skipped segments hskip hzero, hzero]
    · rw [collapseFrom_kept segments hup hskip hzero, hzero]
  · rw [collapseFrom_removed segments hup hpending]

end Steps

/-- The normalisation from the left, behind segments that are kept: as many of them are removed as are still
to be removed from the right. -/
theorem foldlM_normaliseStep (segments stack : List Bytes) :
    segments.foldlM normaliseStep stack =
      if (normaliseRight segments).1 ≤ stack.length then
        some (stack.take (stack.length - (normaliseRight segments).1) ++ (normaliseRight segments).2)
      else none := by
  induction segments generalizing stack with
  | nil => simp [normaliseRight]
  | cons segment segments ih =>
    rw [List.foldlM_cons, normaliseStep]
    by_cases hskip : Skipped segment
    · rw [if_pos hskip, normaliseRight_skipped segments hskip]
      exact ih stack
    · by_cases hup : segment = ascii ".."
      · subst hup
        rw [if_neg hskip, if_pos rfl, normaliseRight_up]
        cases stack using List.reverseRecOn with
        | nil => rfl
        | append_singleton stack top =>
          rw [if_neg (by simp), List.dropLast_concat]
          refine (ih stack).trans ?_
          rw [List.length_append, List.length_singleton, Nat.add_sub_add_right,
            List.take_append_of_le_length (Nat.sub_le _ _)]
          simp only [Nat.add_le_add_iff_right]
      · rw [if_neg hskip, if_neg hup]
        refine (ih (stack ++ [segment])).trans ?_
        rw [List.length_append, List.length_singleton]
        rcases Nat.eq_zero_or_pos (normaliseRight segments).1 with hzero | hpending
        · rw [normaliseRight_kept segments hup hskip hzero, hzero, if_pos (Nat.zero_le _),
            if_pos (Nat.zero_le _), Nat.sub_zero, Nat.sub_zero, List.take_of_length_le (by simp),
            List.take_length, List.append_assoc]
          rfl
        · have hle : (normaliseRight segments).1 ≤ stack.length + 1 ↔
              (normaliseRight segments).1 - 1 ≤ stack.length := by omega
          have htake : stack.length + 1 - (normaliseRight segments).1 =
              stack.length - ((normaliseRight segments).1 - 1) := by omega
          rw [normaliseRight_removed segments hup hskip hpending, htake,
            List.take_append_of_le_length (Nat.sub_le _ _)]
          simp only [hle]

theorem normalise_eq (segments : List Bytes) :
    normalise segments =
      if (normaliseRight segments).1 = 0 then some (normaliseRight segments).2 else none := by
  rw [normalise, foldlM_normaliseStep]
  simp

/-! ## What is removed wrongly -/

/-- A path from here leads up at last: it starts with more `..` than other segments. -/
def Climbs (segments : List Bytes) : Prop :=
  ∃ start, start <+: segments ∧ start.length < 2 * start.count (ascii "..")

/-- How often a segment that is left out is counted as removed. -/
def miscounted : List Bytes → Nat
  | [] => 0
  | segment :: segments =>
    miscounted segments + if Skipped segment ∧ 0 < (collapseFrom segments).1 then 1 else 0

theorem lt_collapseFrom_iff (n : Nat) (segments : List Bytes) :
    n < (collapseFrom segments).1 ↔
      ∃ start, start <+: segments ∧ start.length + n < 2 * start.count (ascii "..") := by
  induction segments generalizing n with
  | nil =>
    refine ⟨fun h => absurd h (Nat.not_lt_zero n), ?_⟩
    rintro ⟨start, hstart, hcount⟩
    rw [List.prefix_nil.mp hstart] at hcount
    simp at hcount
  | cons segment segments ih =>
    have hstart (P : List Bytes → Prop) (hnil : ¬ P []) :
        (∃ start, start <+: segment :: segments ∧ P start) ↔
          ∃ start, start <+: segments ∧ P (segment :: start) := by
      constructor
      · rintro ⟨start, hprefix, hP⟩
        rcases List.prefix_cons_iff.mp hprefix with rfl | ⟨start, rfl, hrest⟩
        · exact absurd hP hnil
        · exact ⟨start, hrest, hP⟩
      · rintro ⟨start, hprefix, hP⟩
        exact ⟨segment :: start, List.cons_prefix_cons.mpr ⟨rfl, hprefix⟩, hP⟩
    rw [hstart _ (by simp)]
    by_cases hup : segment = ascii ".."
    · subst hup
      rw [collapseFrom_up]
      cases n with
      | zero =>
        refine ⟨fun _ => ⟨[], List.nil_prefix, by simp⟩, fun _ => Nat.succ_pos _⟩
      | succ n =>
        rw [Nat.add_lt_add_iff_right, ih]
        refine exists_congr fun start => and_congr_right' ?_
        rw [List.length_cons, List.count_cons_self]
        omega
    · rw [collapseFrom_pending segments hup, Nat.lt_sub_iff_add_lt, ih]
      refine exists_congr fun start => and_congr_right' ?_
      rw [List.length_cons, List.count_cons_of_ne hup]
      omega

theorem collapseFrom_pos_iff (segments : List Bytes) : 0 < (collapseFrom segments).1 ↔ Climbs segments :=
  lt_collapseFrom_iff 0 segments

theorem miscounted_eq_zero_iff (segments : List Bytes) :
    miscounted segments = 0 ↔ ∀ before segment after, segments = before ++ segment :: after →
      Skipped segment → ¬ Climbs after := by
  induction segments with
  | nil => simp [miscounted]
  | cons first segments ih =>
    rw [miscounted, Nat.add_eq_zero_iff, ih]
    have hfirst : (if Skipped first ∧ 0 < (collapseFrom segments).1 then 1 else 0) = 0 ↔
        (Skipped first → ¬ Climbs segments) := by
      rw [← collapseFrom_pos_iff]
      split
      · next h => exact ⟨fun hone => absurd hone Nat.one_ne_zero, fun hnot => absurd h.2 (hnot h.1)⟩
      · next h => exact ⟨fun _ hskip hpos => h ⟨hskip, hpos⟩, fun _ => rfl⟩
    rw [hfirst]
    constructor
    · rintro ⟨hrest, hfirst⟩ before segment after heq hskip
      cases before with
      | nil =>
        obtain ⟨rfl, rfl⟩ := List.cons.inj heq
        exact hfirst hskip
      | cons head before => exact hrest before segment after (List.cons.inj heq).2 hskip
    · intro hall
      refine ⟨fun before segment after heq => ?_, hall [] first segments rfl⟩
      exact hall (first :: before) segment after (congrArg (first :: ·) heq)

theorem collapseFrom_normaliseRight (segments : List Bytes) :
    (collapseFrom segments).1 ≤ (normaliseRight segments).1 ∧
      (collapseFrom segments).2.length + (normaliseRight segments).1 =
        (normaliseRight segments).2.length + (collapseFrom segments).1 + miscounted segments ∧
      (miscounted segments = 0 → collapseFrom segments = normaliseRight segments) := by
  induction segments with
  | nil => exact ⟨Nat.le_refl _, rfl, fun _ => rfl⟩
  | cons segment segments ih =>
    obtain ⟨hle, hlength, heq⟩ := ih
    rw [miscounted]
    by_cases hup : segment = ascii ".."
    · subst hup
      rw [collapseFrom_up, normaliseRight_up, if_neg fun h => dotdot_not_skipped h.1, Nat.add_zero]
      refine ⟨Nat.add_le_add_right hle 1, by dsimp only; omega, fun h => ?_⟩
      rw [heq h]
    · by_cases hskip : Skipped segment
      · rw [normaliseRight_skipped segments hskip]
        rcases Nat.eq_zero_or_pos (collapseFrom segments).1 with hzero | hpending
        · rw [collapseFrom_skipped segments hskip hzero, if_neg fun h => absurd hzero h.2.ne', Nat.add_zero]
          rw [hzero] at hlength
          refine ⟨Nat.zero_le _, hlength, fun h => ?_⟩
          rw [← heq h, ← hzero]
        · rw [collapseFrom_removed segments hup hpending, if_pos ⟨hskip, hpending⟩]
          refine ⟨by dsimp only; omega, by dsimp only; omega, fun h => absurd h (Nat.succ_ne_zero _)⟩
      · rw [if_neg fun h => hskip h.1, Nat.add_zero]
        rcases Nat.eq_zero_or_pos (collapseFrom segments).1 with hzero | hpending
        · rw [collapseFrom_kept segments hup hskip hzero]
          rcases Nat.eq_zero_or_pos (normaliseRight segments).1 with hzero' | hpending'
          · rw [normaliseRight_kept segments hup hskip hzero']
            refine ⟨Nat.le_refl _, ?_, fun h => ?_⟩
            · rw [List.length_cons, List.length_cons]
              omega
            · rw [heq h]
          · rw [normaliseRight_removed segments hup hskip hpending']
            refine ⟨Nat.zero_le _, ?_, fun h => ?_⟩
            · rw [List.length_cons]
              dsimp only
              omega
            · rw [heq h] at hzero
              exact absurd hzero hpending'.ne'
        · have hpending' : 0 < (normaliseRight segments).1 := Nat.lt_of_lt_of_le hpending hle
          rw [collapseFrom_removed segments hup hpending, normaliseRight_removed segments hup hskip hpending']
          refine ⟨Nat.sub_le_sub_right hle 1, by dsimp only; omega, fun h => ?_⟩
          rw [heq h]

/-! ## `CollapsePath` -/

theorem segmentsOf_cons_separator (separator : UInt8) (path : Bytes) :
    segmentsOf separator (separator :: path) = [] :: segmentsOf separator path := by
  have hnone : ∀ c ∈ ([] : Bytes), decide (c = separator) = false := by simp
  exact List.splitOnP_append_cons_of_forall_mem hnone separator (decide_eq_true rfl) path

theorem names_nil (separator : UInt8) : names separator [] = [] := by simp [names, segmentsOf]

theorem names_cons_separator (separator : UInt8) (path : Bytes) :
    names separator (separator :: path) = names separator path := by
  rw [names, segmentsOf_cons_separator]
  rfl

section Segments

variable {separator : UInt8} {segment : Bytes} (h : separator ∉ segment) (hne : segment ≠ [])

include h

theorem plain_of_not_mem : ∀ c ∈ segment, decide (c = separator) = false := fun _ hc =>
  decide_eq_false (ne_of_mem_of_not_mem hc h)

include hne

theorem names_of_segment : names separator segment = [segment] := by
  rw [names, segmentsOf, List.splitOnP_eq_singleton (plain_of_not_mem h)]
  exact List.filter_cons_of_pos (decide_eq_true hne)

theorem names_segment_append (last : Bytes) :
    names separator (segment ++ separator :: last) = segment :: names separator last := by
  rw [names, segmentsOf, List.splitOnP_append_cons_of_forall_mem (plain_of_not_mem h) separator (by simp)]
  exact List.filter_cons_of_pos (decide_eq_true hne)

end Segments

theorem foldr_collapseSegment {separator : UInt8} {segments : List Bytes}
    (h : ∀ segment ∈ segments, separator ∉ segment) :
    (segments.foldr (collapseSegment separator) (0, none)).1 = (collapseFrom segments).1 ∧
      names separator ((segments.foldr (collapseSegment separator) (0, none)).2.getD []) =
        (collapseFrom segments).2 := by
  induction segments with
  | nil => exact ⟨rfl, names_nil separator⟩
  | cons segment segments ih =>
    obtain ⟨hcount, hnames⟩ := ih fun s hs => h s (List.mem_cons_of_mem segment hs)
    have hplain := h segment List.mem_cons_self
    rw [List.foldr_cons]
    generalize segments.foldr (collapseSegment separator) (0, none) = state at hcount hnames
    obtain ⟨count, text⟩ := state
    dsimp only at hcount hnames
    unfold collapseSegment
    by_cases hup : segment = ascii ".."
    · subst hup
      rw [if_pos rfl, collapseFrom_up, ← hcount]
      exact ⟨rfl, hnames⟩
    · rw [if_neg hup]
      dsimp only
      rcases Nat.eq_zero_or_pos count with rfl | hpending
      · by_cases hskip : Skipped segment
        · have hremove : removeSegmentCount segment 0 = 1 := if_pos ⟨rfl, hskip⟩
          rw [collapseFrom_skipped segments hskip hcount.symm, hremove]
          exact ⟨rfl, hnames⟩
        · have hne : segment ≠ [] := fun hnil => hskip (Or.inl hnil)
          have hremove : removeSegmentCount segment 0 = 0 := if_neg fun hboth => hskip hboth.2
          rw [collapseFrom_kept segments hup hskip hcount.symm, hremove, if_neg (Nat.lt_irrefl 0), ← hnames]
          cases text with
          | none =>
            rw [Option.getD_none, names_nil]
            exact ⟨rfl, names_of_segment hplain hne⟩
          | some last => exact ⟨rfl, names_segment_append hplain hne last⟩
      · have hremove : removeSegmentCount segment count = count := if_neg fun hboth => hpending.ne' hboth.1
        rw [hremove, if_pos hpending, collapseFrom_removed segments hup (hcount ▸ hpending), ← hcount]
        exact ⟨rfl, hnames⟩

theorem collapsePath_eq (rest : Bytes) (separator : UInt8) :
    (collapsePath (separator :: rest) separator).map (names separator) =
      if (collapseFrom (segmentsOf separator rest)).1 = 0 then
        some (collapseFrom (segmentsOf separator rest)).2
      else none := by
  have hsplit : ((separator :: rest).splitOnP (· = separator)).tail = segmentsOf separator rest :=
    congrArg List.tail (segmentsOf_cons_separator separator rest)
  have hplain : ∀ segment ∈ segmentsOf separator rest, separator ∉ segment := by
    intro segment hsegment hmem
    have hfalse := (mem_of_mem_splitOnP hsegment hmem).2
    simp at hfalse
  obtain ⟨hcount, hnames⟩ := foldr_collapseSegment hplain
  unfold collapsePath
  dsimp only
  rw [hsplit, hcount]
  split
  · rw [Option.map_some, List.takeWhile_cons_of_neg (by simp), List.nil_append, ← hnames]
    cases ((segmentsOf separator rest).foldr (collapseSegment separator) (0, none)).2 with
    | none => rfl
    | some text => exact congrArg some (names_cons_separator separator text)
  · rfl

/-- An absolute path is collapsed to the names of its normalisation, and refused where this has none, exactly
if the path is refused by both or no segment that is left out is followed by a part that climbs. -/
theorem collapsePath_normalises_iff (rest : Bytes) (separator : UInt8) :
    (collapsePath (separator :: rest) separator).map (names separator) =
        normalise (segmentsOf separator (separator :: rest)) ↔
      Climbs (segmentsOf separator rest) ∨
        ∀ before segment after, segmentsOf separator rest = before ++ segment :: after →
          Skipped segment → ¬ Climbs after := by
  rw [collapsePath_eq, normalise_eq, segmentsOf_cons_separator, normaliseRight_skipped _ (Or.inl rfl),
    ← miscounted_eq_zero_iff, ← collapseFrom_pos_iff]
  generalize segmentsOf separator rest = segments
  obtain ⟨hle, hlength, heq⟩ := collapseFrom_normaliseRight segments
  rcases Nat.eq_zero_or_pos (collapseFrom segments).1 with hzero | hpending
  · rw [if_pos hzero]
    constructor
    · intro hsame
      right
      split at hsame
      · next hzero' =>
        have hkept := congrArg List.length (Option.some.inj hsame)
        omega
      · cases hsame
    · rintro (hpos | hnone)
      · exact absurd hzero hpos.ne'
      · rw [← heq hnone, if_pos hzero]
  · rw [if_neg hpending.ne', if_neg (Nat.lt_of_lt_of_le hpending hle).ne']
    exact ⟨fun _ => Or.inl hpending, fun _ => rfl⟩

/-- `/a/./..` becomes `/a/`. -/
theorem collapsePath_dot_dotdot :
    ¬ ∀ (rest : Bytes) (separator : UInt8),
      (collapsePath (separator :: rest) separator).map (names separator) =
        normalise (segmentsOf separator (separator :: rest)) := by
  intro h
  have hpath := h (ascii "a/./..") 47
  revert hpath
  decide

end WslFreeBSD.Translation
