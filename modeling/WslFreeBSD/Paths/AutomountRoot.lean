import WslFreeBSD.Config.FirstValues
import WslFreeBSD.Paths.WslPath

/-!
# Two readings of the automount root

Both init and `wslpath` read the key `root` of the section `[automount]`, each with a parser of its
own. The texts that a file gives for the key are `rootTexts`, in the order of the file. Init takes
the first one, `wslpath` the last one that is not empty; an empty root, or none, is `/mnt` to both.

The parsers also differ in how they read a text. On a `PlainFile` they do not: its lines fit into the
smaller buffer of `wslpath`, no carriage return follows the name of the key, and its texts are
without escapes, inline comments and unclosed quotes. There the roots are `firstRoot`
and `lastRoot` (`driveRoot_eq`, `readAutomountRoot_eq`).
-/

namespace WslFreeBSD.Paths

open Lib Config

/-! ## The texts of the key -/

/-- The key of a line, with the blanks after it. -/
def keyText (line : Bytes) : Bytes := (lineText line).takeWhile (· ≠ 61)

/-- The text that a line gives for the key `root`. -/
def rootText (line : Bytes) : Option Bytes :=
  let p := lineText line
  if p = [] ∨ p.head? = some 35 ∨ p.head? = some 91 ∨ 61 ∉ p then none
  else if eqIgnoringCase (wslConfStrip (keyText line)) (ascii "root") then
    some (wslConfStrip (p.dropWhile (· ≠ 61)).tail)
  else none

/-- Whether the section `[automount]` is open after some lines, and the texts so far. -/
def scanRoots (s : Bool × List Bytes) (line : Bytes) : Bool × List Bytes :=
  match headerName line with
  | some name => (eqIgnoringCase name (ascii "automount"), s.2)
  | none => if s.1 then (true, s.2 ++ (rootText line).toList) else s

def scanLines (ls : List Bytes) : Bool × List Bytes := ls.foldl scanRoots (false, [])

def rootTexts (file : Bytes) : List Bytes := (scanLines (lines file)).2

/-- A text that both parsers read alike: in quotes without escapes, or without quotes, escapes and
comments. -/
def PlainText (t : Bytes) : Prop :=
  (t.head? = some 34 ∧ 34 ∈ t.tail ∧ 92 ∉ t.tail.takeWhile (· ≠ 34)) ∨
    (t.head? ≠ some 34 ∧ 35 ∉ t ∧ 92 ∉ t)

instance (t : Bytes) : Decidable (PlainText t) := inferInstanceAs (Decidable (_ ∨ _))

/-- A file that both parsers read alike. -/
structure PlainFile (file : Bytes) : Prop where
  short : ∀ line ∈ lines file, line.length ≤ 511
  noCarriage : ∀ line ∈ lines file,
    eqIgnoringCase (wslConfStrip (keyText line)) (ascii "root") = true → 13 ∉ keyText line
  plain : ∀ t ∈ rootTexts file, PlainText t

def rootValues (file : Bytes) : List Bytes := (rootTexts file).map unquote

/-- A root without trailing slashes; no root is `/mnt`. -/
def rootOr (root : Option Bytes) : Bytes :=
  match root with
  | none => ascii "/mnt"
  | some root => if root = [] then ascii "/mnt" else withoutTrailingSlash root

def firstRoot (file : Bytes) : Bytes := rootOr (rootValues file).head?

/-- The last root of the file that is not empty. -/
def lastRoot (file : Bytes) : Bytes := rootOr ((rootValues file).filter (· ≠ [])).getLast?

/-! ## Plain texts -/

theorem isBlank_head_dropWhile {s t : Bytes} {c : UInt8} (h : s.dropWhile isBlank = c :: t) :
    isBlank c = false := by
  have hne : s.dropWhile isBlank ≠ [] := by
    rw [h]
    exact List.cons_ne_nil c t
  have hhead := List.head_dropWhile_not isBlank hne
  simpa only [h, List.head_cons] using hhead

theorem wslConfStrip_idem (s : Bytes) : wslConfStrip (wslConfStrip s) = wslConfStrip s := by
  have hdrop : (wslConfStrip s).dropWhile isBlank = wslConfStrip s := by
    cases hstrip : wslConfStrip s with
    | nil => rfl
    | cons c r =>
      obtain ⟨t, ht⟩ : c :: r <+: s.dropWhile isBlank := by
        rw [← hstrip]
        exact List.rdropWhile_prefix _ _
      rw [List.dropWhile_cons, isBlank_head_dropWhile ht.symm]
      rfl
  conv_lhs => rw [wslConfStrip, hdrop, wslConfStrip]
  rw [List.rdropWhile_idempotent]
  rfl

theorem wslConfUnescape_of_not_mem {s : Bytes} (h : 92 ∉ s) : wslConfUnescape s = s := by
  induction s with
  | nil => rfl
  | cons c s ih =>
    obtain ⟨hc, hs⟩ := not_or.mp (mt List.mem_cons.mpr h)
    rw [wslConfUnescape, ih hs]
    rintro d t rfl
    exact absurd rfl hc

theorem quotedText_of_not_mem {s : Bytes} (h : 92 ∉ s.takeWhile (· ≠ 34)) :
    quotedText s = s.takeWhile (· ≠ 34) := by
  induction s with
  | nil => rfl
  | cons c s ih =>
    by_cases hquote : c = 34
    · subst hquote
      simp [quotedText]
    · rw [List.takeWhile_cons_of_pos (by simpa using hquote)] at h ⊢
      obtain ⟨hc, hs⟩ := not_or.mp (mt List.mem_cons.mpr h)
      rw [quotedText, if_neg hquote, ih hs]
      rintro d t rfl
      exact absurd rfl hc

/-- The parser of init reads a plain text like `wslpath`. -/
theorem valueOf_of_plain {t : Bytes} (hstrip : wslConfStrip t = t) (h : PlainText t) :
    valueOf t = unquote t := by
  rcases h with ⟨hhead, hclose, hescape⟩ | ⟨hhead, hcomment, hescape⟩
  · obtain ⟨start, rfl⟩ := List.head?_eq_some_iff.mp hhead
    rw [List.tail_cons] at hescape
    rw [unquote, if_pos ⟨hhead, hclose⟩, valueOf, List.tail_cons, quotedText_of_not_mem hescape]
    exact wslConfUnescape_of_not_mem hescape
  · have hcut : t.takeWhile (· ≠ 35) = t := by
      rw [List.takeWhile_eq_self_iff]
      intro c hc
      exact decide_eq_true fun heq => hcomment (heq ▸ hc)
    rw [unquote, if_neg fun hq => hhead hq.1]
    cases t with
    | nil => rfl
    | cons c t =>
      rw [valueOf, hcut, hstrip]
      · exact wslConfUnescape_of_not_mem hescape
      · exact List.cons_ne_nil c t
      · rintro start hstart
        exact hhead (by rw [hstart]; rfl)

/-! ## The root of init -/

/-- The root that init passes to `drvfs_mount_volumes`. -/
def driveRoot (file : Bytes) : Bytes :=
  match (wslConfParseFile wslConfInit (some file)).value .automountRoot with
  | .text (some root) => root
  | _ => ascii "/mnt"

theorem scanLines_concat (ls : List Bytes) (line : Bytes) :
    scanLines (ls ++ [line]) = scanRoots (scanLines ls) line := by
  rw [scanLines, List.foldl_append]
  rfl

theorem scanLines_open_iff (ls : List Bytes) :
    (scanLines ls).1 = true ↔ InSection .automountRoot ls := by
  induction ls using List.reverseRecOn with
  | nil =>
    refine iff_of_false Bool.false_ne_true ?_
    rintro ⟨name, hname, -⟩
    cases hname
  | append_singleton ls line ih =>
    rw [scanLines_concat, scanRoots, InSection, List.filterMap_append]
    cases hheader : headerName line with
    | some name =>
      have hlast : [line].filterMap headerName = [name] := by simp [hheader]
      rw [hlast, List.getLast?_concat]
      simp [Field.entry]
    | none =>
      have hlast : [line].filterMap headerName = [] := by simp [hheader]
      rw [hlast, List.append_nil]
      dsimp only
      split
      · next hopen => exact iff_of_true rfl (ih.mp hopen)
      · exact ih

theorem rootText_eq_some {line t : Bytes} (h : rootText line = some t) :
    wslConfStrip t = t ∧
      ∃ key, keyValue line = some (key, valueOf t) ∧ eqIgnoringCase key (ascii "root") = true := by
  unfold rootText at h
  dsimp only at h
  split at h
  · cases h
  · next hnot =>
    simp only [not_or, not_not] at hnot
    obtain ⟨hne, hhash, hbracket, heq⟩ := hnot
    split at h
    · next hkey =>
      obtain rfl := Option.some.inj h
      refine ⟨wslConfStrip_idem _, _, ?_, hkey⟩
      unfold keyValue wslConfExtractValue
      dsimp only
      rw [if_neg (by simp [hne, hhash, hbracket]), if_neg (not_not.mpr heq)]
      rfl
    · cases h

theorem exists_rootText_of_keyValue {line key v : Bytes} (h : keyValue line = some (key, v))
    (hkey : eqIgnoringCase key (ascii "root") = true) : ∃ t, rootText line = some t ∧ v = valueOf t := by
  unfold keyValue wslConfExtractValue at h
  dsimp only at h
  split at h
  · cases h
  · next hnot =>
    simp only [not_or] at hnot
    obtain ⟨hne, hhash, hbracket⟩ := hnot
    split at h
    · cases h
    · next heq =>
      obtain ⟨rfl, rfl⟩ := Prod.mk.inj (Option.some.inj h)
      refine ⟨_, ?_, rfl⟩
      unfold rootText keyText
      dsimp only
      rw [if_neg (by simp [hne, hhash, hbracket, not_not.mp heq]), if_pos hkey]

/-- The lines that give init a root are those of `scanLines`. -/
theorem assigns_root_iff {ls : List Bytes} {line v : Bytes} :
    Assigns .automountRoot ls line v ↔
      (scanLines ls).1 = true ∧ ∃ t, rootText line = some t ∧ v = valueOf t := by
  rw [scanLines_open_iff]
  constructor
  · rintro ⟨hsection, key, hpair, hkey⟩
    exact ⟨hsection, exists_rootText_of_keyValue hpair hkey⟩
  · rintro ⟨hsection, t, ht, rfl⟩
    obtain ⟨-, key, hpair, hkey⟩ := rootText_eq_some ht
    exact ⟨hsection, key, hpair, hkey⟩

theorem firstValue_root (ls : List Bytes) :
    ((scanLines ls).2 = [] ∧ Unassigned .automountRoot ls) ∨
      ∃ t ts, (scanLines ls).2 = t :: ts ∧ FirstValue .automountRoot ls (valueOf t) := by
  induction ls using List.reverseRecOn with
  | nil => exact Or.inl ⟨rfl, noMatch_nil⟩
  | append_singleton ls line ih =>
    have hnone : headerName line ≠ none → ∀ v, ¬ Assigns .automountRoot ls line v := by
      rintro hheader v ⟨-, key, hpair, -⟩
      exact hheader (headerName_eq_none hpair)
    rw [scanLines_concat, scanRoots]
    rcases ih with ⟨hnil, hun⟩ | ⟨t, ts, hts, hfirst⟩
    · cases hheader : headerName line with
      | some name => exact Or.inl ⟨hnil, hun.concat (hnone (by simp [hheader]))⟩
      | none =>
        dsimp only
        by_cases hopen : (scanLines ls).1 = true
        · rw [if_pos hopen]
          cases htext : rootText line with
          | none =>
            refine Or.inl ⟨by rw [hnil]; rfl, hun.concat ?_⟩
            intro v hv
            obtain ⟨-, t, ht, -⟩ := assigns_root_iff.mp hv
            rw [htext] at ht
            cases ht
          | some t =>
            refine Or.inr ⟨t, [], by rw [hnil]; rfl, ?_⟩
            exact hun.first_concat (assigns_root_iff.mpr ⟨hopen, t, htext, rfl⟩)
        · rw [if_neg hopen]
          refine Or.inl ⟨hnil, hun.concat ?_⟩
          intro v hv
          exact hopen (assigns_root_iff.mp hv).1
    · refine Or.inr ?_
      cases headerName line with
      | some name => exact ⟨t, ts, hts, hfirst.concat line⟩
      | none =>
        dsimp only
        split
        · exact ⟨t, ts ++ (rootText line).toList, by rw [hts]; rfl, hfirst.concat line⟩
        · exact ⟨t, ts, hts, hfirst.concat line⟩

theorem exists_line_of_mem_scanLines {ls : List Bytes} {t : Bytes} (h : t ∈ (scanLines ls).2) :
    ∃ line ∈ ls, rootText line = some t := by
  induction ls using List.reverseRecOn with
  | nil => cases h
  | append_singleton ls line ih =>
    have hbefore : t ∈ (scanLines ls).2 → ∃ line' ∈ ls ++ [line], rootText line' = some t := by
      intro ht
      obtain ⟨line', hmem, htext⟩ := ih ht
      exact ⟨line', List.mem_append_left _ hmem, htext⟩
    rw [scanLines_concat, scanRoots] at h
    split at h
    · exact hbefore h
    · split at h
      · rcases List.mem_append.mp h with h | h
        · exact hbefore h
        · exact ⟨line, List.mem_append_right _ List.mem_cons_self, Option.mem_toList.mp h⟩
      · exact hbefore h

theorem strip_of_mem_scanLines {ls : List Bytes} {t : Bytes} (h : t ∈ (scanLines ls).2) :
    wslConfStrip t = t := by
  obtain ⟨line, -, htext⟩ := exists_line_of_mem_scanLines h
  exact (rootText_eq_some htext).1

theorem withoutTrailingSlash_withSlash {root : Bytes} (h : root ≠ []) :
    withoutTrailingSlash (withSlash root) = withoutTrailingSlash root := by
  unfold withSlash
  split
  · exact withoutTrailingSlash_concat h
  · rfl

theorem driveRoot_eq {file : Bytes} (h : PlainFile file) :
    withoutTrailingSlash (if driveRoot file = [] then ascii "/mnt" else driveRoot file) =
      firstRoot file := by
  have hlines : ∀ line ∈ lines file, line.length < 4095 := by
    intro line hline
    have hshort := h.short line hline
    omega
  obtain ⟨hfirst, hnone⟩ := wslConfParseStream_spec file hlines .automountRoot
  rcases firstValue_root (lines file) with ⟨hnil, hun⟩ | ⟨t, ts, hts, hv⟩
  · have hroot : driveRoot file = ascii "/mnt/" := by
      rw [driveRoot, wslConfParseFile, hnone hun]
      rfl
    rw [hroot, firstRoot, rootValues, rootTexts, hnil]
    rfl
  · have hmem : t ∈ (scanLines (lines file)).2 := by
      rw [hts]
      exact List.mem_cons_self
    have hroot : driveRoot file = withSlash (unquote t) := by
      rw [driveRoot, wslConfParseFile, hfirst _ hv,
        valueOf_of_plain (strip_of_mem_scanLines hmem) (h.plain t hmem)]
      rfl
    have hspec : firstRoot file = rootOr (some (unquote t)) := by
      rw [firstRoot, rootValues, rootTexts, hts]
      rfl
    rw [hroot, hspec, rootOr]
    by_cases hnil : unquote t = []
    · rw [hnil]
      rfl
    · have hslash : withSlash (unquote t) ≠ [] := by
        unfold withSlash
        split
        · simp
        · exact hnil
      rw [if_neg hnil, if_neg hslash, withoutTrailingSlash_withSlash hnil]

/-! ## The root of wslpath -/

theorem wslConfStrip_sublist (s : Bytes) : (wslConfStrip s).Sublist s :=
  (List.rdropWhile_prefix _ _).sublist.trans (List.dropWhile_sublist _)

theorem lineText_sublist (line : Bytes) : (lineText line).Sublist line := by
  apply (wslConfStrip_sublist _).trans
  rw [cString, List.drop_zero]
  exact List.takeWhile_sublist _

theorem unquote_sublist (t : Bytes) : (unquote t).Sublist t := by
  unfold unquote
  split
  · exact (List.takeWhile_sublist _).trans (List.tail_sublist t)
  · exact List.Sublist.refl t

theorem rootText_sublist {line t : Bytes} (h : rootText line = some t) : t.Sublist line := by
  unfold rootText at h
  dsimp only at h
  split at h
  · cases h
  · split at h
    · obtain rfl := Option.some.inj h
      apply (wslConfStrip_sublist _).trans
      apply (List.tail_sublist _).trans
      exact (List.dropWhile_sublist _).trans (lineText_sublist line)
    · cases h

theorem rdropWhile_congr {α : Type*} {p q : α → Bool} {l : List α} (h : ∀ a ∈ l, p a = q a) :
    l.rdropWhile p = l.rdropWhile q := by
  induction l using List.reverseRecOn with
  | nil => rfl
  | append_singleton l a ih =>
    have ha := h a (by simp)
    cases hq : q a with
    | true =>
      rw [List.rdropWhile_concat_pos _ _ _ (ha.trans hq), List.rdropWhile_concat_pos _ _ _ hq]
      exact ih fun b hb => h b (List.mem_append_left _ hb)
    | false =>
      rw [List.rdropWhile_concat_neg _ _ _ (by rw [ha, hq]; exact Bool.false_ne_true),
        List.rdropWhile_concat_neg _ _ _ (by rw [hq]; exact Bool.false_ne_true)]

theorem stripKey_eq {key : Bytes} (hbreak : 10 ∉ key) (hcarriage : 13 ∉ key) :
    stripKey key = wslConfStrip key := by
  apply rdropWhile_congr
  intro c hc
  have hmem : c ∈ key := (List.dropWhile_sublist _).subset hc
  have h10 : c ≠ 10 := fun heq => hbreak (heq ▸ hmem)
  have h13 : c ≠ 13 := fun heq => hcarriage (heq ▸ hmem)
  simp [isBlank, isTrailing, h10, h13]

theorem isTrailing_of_isBlank {c : UInt8} (h : isBlank c = true) : isTrailing c = true := by
  unfold isTrailing
  unfold isBlank at h
  rw [h]
  rfl

theorem rdropWhile_eq_of_concat {α : Type*} {p q : α → Bool} (hpq : ∀ a, p a = true → q a = true)
    {l r : List α} {c : α} (h : l.rdropWhile p = r ++ [c]) (hc : q c = false) :
    l.rdropWhile q = r ++ [c] := by
  induction l using List.reverseRecOn with
  | nil => simp at h
  | append_singleton l a ih =>
    by_cases ha : p a = true
    · rw [List.rdropWhile_concat_pos _ _ _ ha] at h
      rw [List.rdropWhile_concat_pos _ _ _ (hpq a ha)]
      exact ih h
    · rw [List.rdropWhile_concat_neg _ _ _ ha] at h
      obtain ⟨rfl, hac⟩ := List.append_inj' h rfl
      obtain rfl : a = c := by simpa using hac
      exact List.rdropWhile_concat_neg _ _ _ (by rw [hc]; exact Bool.false_ne_true)

theorem eqIgnoringCase_stripKey {key : Bytes} (hbreak : 10 ∉ key)
    (hcarriage : eqIgnoringCase (wslConfStrip key) (ascii "root") = true → 13 ∉ key) :
    eqIgnoringCase (stripKey key) (ascii "root") =
      eqIgnoringCase (wslConfStrip key) (ascii "root") := by
  by_cases hroot : eqIgnoringCase (wslConfStrip key) (ascii "root") = true
  · rw [stripKey_eq hbreak (hcarriage hroot)]
  · rw [Bool.eq_false_iff.mpr hroot, Bool.eq_false_iff]
    intro hstrip
    apply hroot
    have hmap : (stripKey key).map toLower = (ascii "root").map toLower := of_decide_eq_true hstrip
    rcases List.eq_nil_or_concat (stripKey key) with hnil | ⟨r, c, hr⟩
    · rw [hnil] at hmap
      cases hmap
    · rw [List.concat_eq_append] at hr
      have hlast : toLower c = 116 := by
        have hget := congrArg List.getLast? hmap
        rw [hr, List.map_append] at hget
        simpa [ascii, toLower] using hget
      have hkept : isTrailing c = false := by
        rw [Bool.eq_false_iff]
        intro htrailing
        simp only [isTrailing, Bool.or_eq_true, decide_eq_true_eq] at htrailing
        rcases htrailing with ((rfl | rfl) | rfl) | rfl <;> exact absurd hlast (by decide)
      have hstrip' : wslConfStrip key = stripKey key :=
        (rdropWhile_eq_of_concat (p := isBlank) (fun _ => isTrailing_of_isBlank) hr hkept).trans hr.symm
      rwa [hstrip']

theorem head?_wslConfStrip {c : UInt8} (hblank : isBlank c = false) (htrailing : isTrailing c = false)
    (s : Bytes) : (wslConfStrip (c :: s)).head? = some c := by
  unfold wslConfStrip
  rw [List.dropWhile_cons, hblank, if_neg Bool.false_ne_true]
  cases hrest : (c :: s).rdropWhile isTrailing with
  | nil =>
    have hall := List.rdropWhile_eq_nil_iff.mp hrest c List.mem_cons_self
    rw [htrailing] at hall
    cases hall
  | cons d rest =>
    obtain ⟨t, ht⟩ : d :: rest <+: c :: s := by
      rw [← hrest]
      exact List.rdropWhile_prefix _ _
    exact congrArg some (List.cons.inj ht).1

theorem rootText_of_semicolon {line : Bytes} (h : (lineText line).head? = some 59) :
    rootText line = none := by
  unfold rootText
  dsimp only
  split
  · rfl
  · obtain ⟨p, hp⟩ := List.head?_eq_some_iff.mp h
    rw [keyText, hp, List.takeWhile_cons_of_pos (by decide)]
    have hkey : eqIgnoringCase (wslConfStrip (59 :: p.takeWhile (· ≠ 61))) (ascii "root") = false := by
      obtain ⟨key, hstrip⟩ := List.head?_eq_some_iff.mp
        (head?_wslConfStrip (c := 59) rfl rfl (p.takeWhile (· ≠ 61)))
      rw [hstrip]
      rfl
    rw [hkey]
    rfl

/-- A line that is skipped: an empty line, or a comment with a hash or a semicolon. -/
abbrev SkippedLine (line : Bytes) : Prop :=
  lineText line = [] ∨ (lineText line).head? = some 35 ∨ (lineText line).head? = some 59

theorem SkippedLine.headerName_eq {line : Bytes} (h : SkippedLine line) : headerName line = none := by
  apply headerName_of_head_ne
  intro hhead
  rcases h with hnil | hhash | hsemi
  · rw [hnil] at hhead
    cases hhead
  · exact absurd (hhash.symm.trans hhead) (by decide)
  · exact absurd (hsemi.symm.trans hhead) (by decide)

theorem SkippedLine.rootText_eq {line : Bytes} (h : SkippedLine line) : rootText line = none := by
  rcases h with hnil | hhash | hsemi
  · exact if_pos (Or.inl hnil)
  · exact if_pos (Or.inr (Or.inl hhash))
  · exact rootText_of_semicolon hsemi

theorem rootText_of_keyValue {line : Bytes} (hskip : ¬ SkippedLine line)
    (hhead : (lineText line).head? ≠ some 91) (heq : 61 ∈ lineText line) :
    rootText line =
      if eqIgnoringCase (wslConfStrip (keyText line)) (ascii "root") then
        some (wslConfStrip ((lineText line).dropWhile (· ≠ 61)).tail)
      else none := by
  obtain ⟨hne, hcomment⟩ := not_or.mp hskip
  exact if_neg (not_or.mpr ⟨hne, not_or.mpr ⟨(not_or.mp hcomment).1,
    not_or.mpr ⟨hhead, not_not.mpr heq⟩⟩⟩)

theorem readRootLine_eq (size : Nat) (st : RootState) {line : Bytes} (hbreak : 10 ∉ line)
    (hcarriage : eqIgnoringCase (wslConfStrip (keyText line)) (ascii "root") = true →
      13 ∉ keyText line) :
    readRootLine size st line =
      match headerName line with
      | some name => { st with inAutomount := eqIgnoringCase name (ascii "automount") }
      | none =>
        if st.inAutomount then
          match rootText line with
          | some t => if unquote t = [] then st else { st with buf := (unquote t).take (size - 1) }
          | none => st
        else st := by
  have htext : wslConfStrip (cString line 0) = lineText line := rfl
  have hkey : eqIgnoringCase (stripKey (keyText line)) (ascii "root") =
      eqIgnoringCase (wslConfStrip (keyText line)) (ascii "root") := by
    refine eqIgnoringCase_stripKey ?_ hcarriage
    intro hmem
    exact hbreak ((lineText_sublist line).subset ((List.takeWhile_sublist _).subset hmem))
  unfold readRootLine
  rw [htext]
  dsimp only
  by_cases hskip : SkippedLine line
  · rw [if_pos hskip, hskip.headerName_eq, hskip.rootText_eq]
    exact (ite_self st).symm
  · rw [if_neg hskip]
    by_cases hhead : (lineText line).head? = some 91
    · rw [if_pos hhead]
      by_cases hclose : 93 ∈ lineText line
      · rw [if_pos hclose, headerName_of_closed hhead hclose]
      · have hnone : rootText line = none := if_pos (Or.inr (Or.inr (Or.inl hhead)))
        rw [if_neg hclose, headerName_of_not_mem hclose, hnone]
        exact (ite_self st).symm
    · rw [if_neg hhead, headerName_of_head_ne hhead]
      dsimp only
      by_cases hopen : st.inAutomount = true
      · rw [if_neg (not_not.mpr hopen), if_pos hopen]
        by_cases heq : 61 ∈ lineText line
        · have hkeyText : (lineText line).takeWhile (· ≠ 61) = keyText line := rfl
          rw [if_neg (not_not.mpr heq), rootText_of_keyValue hskip hhead heq, ← hkey, hkeyText]
          by_cases hroot : eqIgnoringCase (stripKey (keyText line)) (ascii "root") = true
          · rw [if_pos hroot]
            dsimp only
            by_cases hnil : unquote (wslConfStrip ((lineText line).dropWhile (· ≠ 61)).tail) = []
            · rw [if_neg fun h => h.2 hnil, if_pos hnil]
            · rw [if_pos ⟨hroot, hnil⟩, if_neg hnil]
          · rw [if_neg fun h => hroot h.1, if_neg hroot]
        · have hnone : rootText line = none := if_pos (Or.inr (Or.inr (Or.inr heq)))
          rw [if_pos heq, hnone]
      · rw [if_pos hopen, if_neg hopen]

theorem readRootLine_break (size : Nat) (st : RootState) (line : Bytes) :
    readRootLine size st (line ++ [10]) = readRootLine size st line := by
  have htext := lineText_break line
  unfold lineText at htext
  unfold readRootLine
  rw [htext]

theorem readRootLine_nil (size : Nat) (st : RootState) : readRootLine size st [] = st := rfl

theorem foldl_readRootLine (size : Nat) (ls : List Bytes) (hbreak : ∀ line ∈ ls, 10 ∉ line)
    (hcarriage : ∀ line ∈ ls, eqIgnoringCase (wslConfStrip (keyText line)) (ascii "root") = true →
      13 ∉ keyText line) :
    ls.foldl (readRootLine size) ⟨ascii "/mnt", false⟩ =
      ⟨((((scanLines ls).2.map unquote).filter (· ≠ [])).getLast?.map (List.take (size - 1))).getD
        (ascii "/mnt"), (scanLines ls).1⟩ := by
  induction ls using List.reverseRecOn with
  | nil => rfl
  | append_singleton ls line ih =>
    have hmem : line ∈ ls ++ [line] := by simp
    rw [List.foldl_append, ih (fun l hl => hbreak l (List.mem_append_left _ hl))
      fun l hl => hcarriage l (List.mem_append_left _ hl), List.foldl_cons, List.foldl_nil,
      readRootLine_eq size _ (hbreak line hmem) (hcarriage line hmem), scanLines_concat, scanRoots]
    cases headerName line with
    | some name => rfl
    | none =>
      dsimp only
      by_cases hopen : (scanLines ls).1 = true
      · rw [if_pos hopen, if_pos hopen]
        cases rootText line with
        | none => simp [hopen]
        | some t =>
          by_cases hnil : unquote t = []
          · simp [hnil, hopen]
          · simp [hnil, hopen]
      · rw [if_neg hopen, if_neg hopen]

theorem length_of_mem_rootTexts {file t : Bytes} {n : Nat} (h : ∀ line ∈ lines file, line.length ≤ n)
    (ht : t ∈ rootTexts file) : t.length ≤ n := by
  obtain ⟨line, hline, htext⟩ := exists_line_of_mem_scanLines ht
  exact (rootText_sublist htext).length_le.trans (h line hline)

/-- On a plain file, `wslpath` takes the last root. -/
theorem readAutomountRoot_eq {file : Bytes} (h : PlainFile file) :
    readAutomountRoot pathMax (some file) = lastRoot file := by
  unfold readAutomountRoot
  rw [if_neg (by decide)]
  dsimp only
  rw [foldl_fgetsAll (readRootLine_break pathMax) (readRootLine_nil pathMax),
    contents_fgetsAll_of_length_le h.short, foldl_filter_ne_nil (readRootLine_nil pathMax),
    foldl_readRootLine pathMax (lines file) (fun line hline => not_mem_of_mem_lines hline) h.noCarriage]
  unfold lastRoot rootValues rootTexts
  dsimp only
  cases hlast : (((scanLines (lines file)).2.map unquote).filter (· ≠ [])).getLast? with
  | none => rfl
  | some v =>
    obtain ⟨hmem, hne⟩ := List.mem_filter.mp (List.mem_of_getLast? hlast)
    obtain ⟨t, ht, rfl⟩ := List.mem_map.mp hmem
    have hlen : (unquote t).length ≤ 511 :=
      (unquote_sublist t).length_le.trans (length_of_mem_rootTexts h.short ht)
    rw [Option.map_some, Option.getD_some, List.take_of_length_le (hlen.trans (by decide)), rootOr,
      if_neg (by simpa using hne)]

end WslFreeBSD.Paths
