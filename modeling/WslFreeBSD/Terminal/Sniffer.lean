import Mathlib.Data.List.Induction
import WslFreeBSD.Terminal.Colors

/-!
# The background colour of a terminal

The bridge looks at every byte that it passes on, and follows the escape sequences `ESC ] 11 ; c` and
`ESC ] 111` that set and reset the background colour. `bg_color_feed_byte` is a machine with four
states; it collects the text of a sequence up to its end, BEL or `ESC \`.

Where every sequence has its end, and no other ESC before it, the colour is the one that the complete
sequences make, one after the other (`color_of_stream`). A sequence that begins inside another one is
lost: `background_set_iff` says when a colour gets through.
-/

namespace WslFreeBSD.Terminal

open Lib

/-! ## The machine -/

inductive SnifferState where
  | idle
  | esc
  | osc
  | oscEsc
  deriving DecidableEq, Repr

/-- `struct bg_color_tracker`; `oscBuf` is the part of the buffer that is in use. -/
structure BgColorTracker where
  snifferState : SnifferState
  oscBuf : Bytes
  colorInitialized : Bool
  trackedR : Nat
  trackedG : Nat
  trackedB : Nat
  deriving DecidableEq, Repr

def bgColorTrackerInit : BgColorTracker where
  snifferState := .idle
  oscBuf := []
  colorInitialized := false
  trackedR := 0
  trackedG := 0
  trackedB := 0

def bgColorTrackerResetSniffer (t : BgColorTracker) : BgColorTracker :=
  { t with snifferState := .idle, oscBuf := [] }

/-- The case `OSC 11;<color>` of `tn_process_osc`. -/
def setBackground (t : BgColorTracker) (param : Bytes) : BgColorTracker :=
  match tnParseColor param with
  | none => t
  | some c =>
    if !t.colorInitialized ∨ c.r ≠ t.trackedR ∨ c.g ≠ t.trackedG ∨ c.b ≠ t.trackedB then
      { t with trackedR := c.r, trackedG := c.g, trackedB := c.b, colorInitialized := true }
    else t

def tnProcessOsc (t : BgColorTracker) : Bytes → BgColorTracker
  | [49, 49] => t
  | [49, 49, 59, 63] => t
  | 49 :: 49 :: 59 :: param => setBackground t param
  | [49, 49, 49] => { t with colorInitialized := false }
  | 49 :: 49 :: 49 :: 59 :: _ => { t with colorInitialized := false }
  | _ => t

/-- The end of a sequence: its text is the C string in the buffer. -/
def endOsc (t : BgColorTracker) : BgColorTracker × Bool :=
  (tnProcessOsc { t with snifferState := .idle } (t.oscBuf.takeWhile (· ≠ 0)), true)

/-- `bg_color_feed_byte`, with the result that tells whether a sequence was complete. -/
def bgColorFeedByte (t : BgColorTracker) (b : UInt8) : BgColorTracker × Bool :=
  match t.snifferState with
  | .idle => (if b = 27 then { t with snifferState := .esc } else t, false)
  | .esc =>
    (if b = 93 then { t with snifferState := .osc, oscBuf := [] }
      else if b = 27 then t
      else { t with snifferState := .idle }, false)
  | .osc =>
    if b = 7 then endOsc t
    else if b = 27 then ({ t with snifferState := .oscEsc }, false)
    else if t.oscBuf.length < 255 then ({ t with oscBuf := t.oscBuf ++ [b] }, false)
    else ({ t with snifferState := .idle, oscBuf := [] }, false)
  | .oscEsc =>
    if b = 92 then endOsc t
    else ({ t with snifferState := if b = 27 then .esc else .idle, oscBuf := [] }, false)

def feed (t : BgColorTracker) (buf : Bytes) : BgColorTracker :=
  buf.foldl (fun t b => (bgColorFeedByte t b).1) t

def feedChunks (t : BgColorTracker) (chunks : List Bytes) : BgColorTracker := chunks.foldl feed t

/-- What happens to a tracker. -/
inductive Event where
  | feedByte (b : UInt8)
  | resetSniffer
  deriving DecidableEq, Repr

def Event.apply (t : BgColorTracker) : Event → BgColorTracker
  | .feedByte b => (bgColorFeedByte t b).1
  | .resetSniffer => bgColorTrackerResetSniffer t

def trackerAfter (events : List Event) : BgColorTracker := events.foldl Event.apply bgColorTrackerInit

/-- The colour state: unset, or the tracked colour. -/
def BgColorTracker.color (t : BgColorTracker) : Option Color :=
  if t.colorInitialized then some ⟨t.trackedR, t.trackedG, t.trackedB⟩ else none

/-! ## The meaning of a stream -/

def recolor (color : Option Color) : Bytes → Option Color
  | 49 :: 49 :: 59 :: c => (tnParseColor c).or color
  | [49, 49, 49] => none
  | 49 :: 49 :: 49 :: 59 :: _ => none
  | _ => color

def Inside (body : Bytes) : Prop := ∀ b ∈ body, b ≠ 27 ∧ b ≠ 7

/-- Every sequence has its end, with no other ESC before it. -/
def Terminated (s : Bytes) : Prop :=
  ∀ u t, s = u ++ 27 :: 93 :: t →
    ∃ body rest, Inside body ∧ (t = body ++ 7 :: rest ∨ t = body ++ 27 :: 92 :: rest)

/-- The texts of the sequences of a stream in which all of them have an end. -/
def oscStrings : Bytes → List Bytes
  | 27 :: 93 :: s => s.takeWhile (fun b => b ≠ 27 ∧ b ≠ 7) :: oscStrings s
  | _ :: s => oscStrings s
  | [] => []

/-- What the sequences that fit into the buffer make of a colour. -/
def colorOfStream (color : Option Color) (s : Bytes) : Option Color :=
  ((oscStrings s).filter (·.length ≤ 255)).foldl recolor color

/-! ## One sequence -/

@[simp] theorem feed_nil (t : BgColorTracker) : feed t [] = t := rfl

@[simp] theorem feed_cons (t : BgColorTracker) (b : UInt8) (s : Bytes) :
    feed t (b :: s) = feed (bgColorFeedByte t b).1 s := rfl

theorem feed_append (t : BgColorTracker) (s s' : Bytes) : feed t (s ++ s') = feed (feed t s) s' :=
  List.foldl_append

theorem feedChunks_eq (t : BgColorTracker) (chunks : List Bytes) :
    feedChunks t chunks = feed t chunks.flatten := by
  unfold feedChunks feed
  exact List.foldl_flatten.symm

theorem feedByte_esc {t : BgColorTracker} (ht : t.snifferState = .idle) :
    (bgColorFeedByte t 27).1 = { t with snifferState := .esc } := by
  unfold bgColorFeedByte
  rw [ht]
  rfl

theorem feedByte_esc_inside {t : BgColorTracker} (ht : t.snifferState = .osc) :
    (bgColorFeedByte t 27).1 = { t with snifferState := .oscEsc } := by
  unfold bgColorFeedByte
  rw [ht]
  rfl

theorem feedByte_idle {t : BgColorTracker} (ht : t.snifferState = .idle) {b : UInt8} (hb : b ≠ 27) :
    (bgColorFeedByte t b).1 = t := by
  unfold bgColorFeedByte
  rw [ht]
  exact if_neg hb

theorem feed_idle {t : BgColorTracker} (ht : t.snifferState = .idle) {s : Bytes} (hs : 27 ∉ s) :
    feed t s = t := by
  induction s with
  | nil => rfl
  | cons b s ih =>
    have hb : b ≠ 27 := fun h => hs (h ▸ List.mem_cons_self)
    rw [feed_cons, feedByte_idle ht hb]
    exact ih fun h => hs (List.mem_cons_of_mem _ h)

theorem Inside.tail {b : UInt8} {body : Bytes} (h : Inside (b :: body)) : Inside body := fun c hc =>
  h c (List.mem_cons_of_mem _ hc)

theorem Inside.esc_not_mem {body : Bytes} (h : Inside body) : 27 ∉ body := fun hmem =>
  (h 27 hmem).1 rfl

theorem feedByte_inside {t : BgColorTracker} (ht : t.snifferState = .osc) {b : UInt8} (hb : b ≠ 27 ∧ b ≠ 7) :
    (bgColorFeedByte t b).1 =
      if t.oscBuf.length < 255 then { t with oscBuf := t.oscBuf ++ [b] }
      else { t with snifferState := .idle, oscBuf := [] } := by
  unfold bgColorFeedByte
  rw [ht]
  dsimp only
  rw [if_neg hb.2, if_neg hb.1]
  split <;> rfl

theorem feed_inside {t : BgColorTracker} (ht : t.snifferState = .osc) {body : Bytes}
    (hbody : Inside body) (hlen : t.oscBuf.length + body.length ≤ 255) :
    feed t body = { t with oscBuf := t.oscBuf ++ body } := by
  induction body generalizing t with
  | nil => rw [List.append_nil]; rfl
  | cons b body ih =>
    rw [List.length_cons] at hlen
    have hroom : t.oscBuf.length < 255 := by omega
    have hlen' : (t.oscBuf ++ [b]).length + body.length ≤ 255 := by
      rw [List.length_append, List.length_singleton]
      omega
    rw [feed_cons, feedByte_inside ht (hbody b List.mem_cons_self), if_pos hroom]
    calc feed { t with oscBuf := t.oscBuf ++ [b] } body
        = { t with oscBuf := t.oscBuf ++ [b] ++ body } :=
          ih (t := { t with oscBuf := t.oscBuf ++ [b] }) ht hbody.tail hlen'
      _ = { t with oscBuf := t.oscBuf ++ b :: body } := by
          rw [List.append_assoc, List.singleton_append]

theorem feed_overlong {t : BgColorTracker} (ht : t.snifferState = .osc) {body : Bytes}
    (hbody : Inside body) (hbuf : t.oscBuf.length ≤ 255)
    (hlen : 255 < t.oscBuf.length + body.length) :
    feed t body = { t with snifferState := .idle, oscBuf := [] } := by
  induction body generalizing t with
  | nil =>
    rw [List.length_nil] at hlen
    omega
  | cons b body ih =>
    rw [List.length_cons] at hlen
    rw [feed_cons, feedByte_inside ht (hbody b List.mem_cons_self)]
    split
    · rename_i hroom
      refine ih ht hbody.tail ?_ ?_
      · rw [List.length_append, List.length_singleton]
        omega
      · rw [List.length_append, List.length_singleton]
        omega
    · exact feed_idle rfl hbody.tail.esc_not_mem

theorem color_setBackground (t : BgColorTracker) (param : Bytes) :
    (setBackground t param).color = (tnParseColor param).or t.color := by
  unfold setBackground
  cases tnParseColor param with
  | none => rfl
  | some c =>
    dsimp only
    split
    · rfl
    · rename_i hsame
      simp only [Bool.not_eq_true', not_or, Bool.not_eq_false, ne_eq, not_not] at hsame
      obtain ⟨hinit, hr, hg, hb⟩ := hsame
      rw [BgColorTracker.color, hinit, ← hr, ← hg, ← hb]
      rfl

theorem setBackground_frame (t : BgColorTracker) (param : Bytes) :
    (setBackground t param).snifferState = t.snifferState ∧
      (setBackground t param).oscBuf = t.oscBuf := by
  unfold setBackground
  split
  · exact ⟨rfl, rfl⟩
  · split <;> exact ⟨rfl, rfl⟩

theorem color_tnProcessOsc (t : BgColorTracker) (s : Bytes) :
    (tnProcessOsc t s).color = recolor t.color s := by
  have hquery : tnParseColor [63] = none := by decide
  unfold tnProcessOsc
  split
  · rfl
  · rw [recolor, hquery]
    rfl
  · rw [recolor, color_setBackground]
  · rfl
  · rfl
  · rename_i h₁ h₂ h₃ h₄ h₅
    unfold recolor
    split
    · exact absurd rfl (h₃ _)
    · exact absurd rfl h₄
    · exact absurd rfl (h₅ _)
    · rfl

theorem tnProcessOsc_frame (t : BgColorTracker) (s : Bytes) :
    (tnProcessOsc t s).snifferState = t.snifferState ∧ (tnProcessOsc t s).oscBuf = t.oscBuf := by
  unfold tnProcessOsc
  split
  · exact ⟨rfl, rfl⟩
  · exact ⟨rfl, rfl⟩
  · exact setBackground_frame t _
  all_goals exact ⟨rfl, rfl⟩

theorem takeWhile_of_noNul {s : Bytes} (h : 0 ∉ s) : s.takeWhile (· ≠ 0) = s :=
  List.takeWhile_eq_self_iff.mpr fun _ hb => decide_eq_true fun hz => h (hz ▸ hb)

/-- The end of a sequence, BEL or `ESC \`. -/
def IsEnd (ending : Bytes) : Prop := ending = [7] ∨ ending = [27, 92]

theorem feed_end_osc {t : BgColorTracker} (ht : t.snifferState = .osc) {ending : Bytes}
    (h : IsEnd ending) : ∃ t', t'.oscBuf = t.oscBuf ∧ t'.color = t.color ∧
      feed t ending = (endOsc t').1 := by
  rcases h with rfl | rfl
  · refine ⟨t, rfl, rfl, ?_⟩
    rw [feed_cons, feed_nil]
    unfold bgColorFeedByte
    rw [ht]
    rfl
  · refine ⟨{ t with snifferState := .oscEsc }, rfl, rfl, ?_⟩
    rw [feed_cons, feedByte_esc_inside ht]
    rfl

theorem feed_end_idle {t : BgColorTracker} (ht : t.snifferState = .idle) {ending : Bytes}
    (h : IsEnd ending) : (feed t ending).snifferState = .idle ∧ (feed t ending).color = t.color := by
  rcases h with rfl | rfl
  · rw [feed_idle ht (by decide)]
    exact ⟨ht, rfl⟩
  · rw [feed_cons, feedByte_esc ht]
    exact ⟨rfl, rfl⟩

theorem feed_sequence {t : BgColorTracker} (ht : t.snifferState = .osc) (hbuf : t.oscBuf = [])
    {body ending : Bytes} (hbody : Inside body) (hnul : 0 ∉ body) (hend : IsEnd ending) :
    (feed t (body ++ ending)).snifferState = .idle ∧
      (feed t (body ++ ending)).color =
        if body.length ≤ 255 then recolor t.color body else t.color := by
  have hzero : t.oscBuf.length = 0 := by rw [hbuf, List.length_nil]
  rw [feed_append]
  split
  · rename_i hlen
    rw [feed_inside ht hbody (by omega)]
    obtain ⟨t', hbuf', hcolor, heq⟩ :=
      feed_end_osc (t := { t with oscBuf := t.oscBuf ++ body }) ht hend
    rw [heq, endOsc, (tnProcessOsc_frame _ _).1, color_tnProcessOsc, hbuf', hbuf, List.nil_append,
      takeWhile_of_noNul hnul]
    exact ⟨rfl, congrArg (recolor · body) hcolor⟩
  · rename_i hlen
    rw [feed_overlong ht hbody (by omega) (by omega)]
    exact feed_end_idle rfl hend

/-! ## A stream -/

theorem Terminated.tail {b : UInt8} {s : Bytes} (h : Terminated (b :: s)) : Terminated s := by
  intro u t hs
  exact h (b :: u) t (by rw [hs, List.cons_append])

theorem Terminated.of_append {s s' : Bytes} (h : Terminated (s ++ s')) : Terminated s' := by
  induction s with
  | nil => exact h
  | cons b s ih => exact ih h.tail

theorem Terminated.sequence {s : Bytes} (h : Terminated (27 :: 93 :: s)) :
    ∃ body ending rest, Inside body ∧ IsEnd ending ∧ s = body ++ ending ++ rest ∧
      Terminated rest := by
  have htail : Terminated s := h.tail.tail
  obtain ⟨body, rest, hbody, hs⟩ := h [] s rfl
  rcases hs with rfl | rfl
  · have heq : body ++ 7 :: rest = body ++ [7] ++ rest := by rw [List.append_assoc]; rfl
    exact ⟨body, [7], rest, hbody, Or.inl rfl, heq, (heq ▸ htail).of_append⟩
  · have heq : body ++ 27 :: 92 :: rest = body ++ [27, 92] ++ rest := by rw [List.append_assoc]; rfl
    exact ⟨body, [27, 92], rest, hbody, Or.inr rfl, heq, (heq ▸ htail).of_append⟩

theorem oscStrings_cons {b : UInt8} {s : Bytes} (h : b ≠ 27 ∨ s.head? ≠ some 93) :
    oscStrings (b :: s) = oscStrings s := by
  rw [oscStrings]
  rintro s' rfl rfl
  exact h.elim (fun hb => hb rfl) (fun hhead => hhead rfl)

theorem oscStrings_append {s : Bytes} (hs : 27 ∉ s) (s' : Bytes) :
    oscStrings (s ++ s') = oscStrings s' := by
  induction s with
  | nil => rfl
  | cons b s ih =>
    rw [List.cons_append, oscStrings_cons (Or.inl fun h => hs (h ▸ List.mem_cons_self))]
    exact ih fun h => hs (List.mem_cons_of_mem _ h)

theorem oscStrings_sequence {body ending : Bytes} (hbody : Inside body) (hend : IsEnd ending)
    (rest : Bytes) :
    oscStrings (27 :: 93 :: (body ++ ending ++ rest)) = body :: oscStrings rest := by
  have hrest : oscStrings (ending ++ rest) = oscStrings rest := by
    rcases hend with rfl | rfl
    · exact oscStrings_append (by decide) rest
    · rw [List.cons_append, List.cons_append, List.nil_append,
        oscStrings_cons (Or.inr (by simp)), oscStrings_cons (Or.inl (by decide))]
  have htake : (body ++ (ending ++ rest)).takeWhile (fun b => b ≠ 27 ∧ b ≠ 7) = body := by
    rw [List.takeWhile_append_of_pos fun b hb => decide_eq_true (hbody b hb)]
    rcases hend with rfl | rfl <;> simp
  rw [oscStrings, List.append_assoc, htake, oscStrings_append hbody.esc_not_mem, hrest]

/-- `ESC ]` begins a sequence unless another one is open. -/
theorem feed_begin {t : BgColorTracker} (ht : t.snifferState = .esc) :
    (bgColorFeedByte t 93).1 = { t with snifferState := .osc, oscBuf := [] } := by
  unfold bgColorFeedByte
  rw [ht]
  rfl

theorem colorOfStream_sequence (color : Option Color) {body ending : Bytes} (hbody : Inside body)
    (hend : IsEnd ending) (rest : Bytes) :
    colorOfStream color (27 :: 93 :: (body ++ ending ++ rest)) =
      colorOfStream (if body.length ≤ 255 then recolor color body else color) rest := by
  rw [colorOfStream, oscStrings_sequence hbody hend, List.filter_cons]
  by_cases hlen : body.length ≤ 255
  · rw [if_pos hlen, if_pos (decide_eq_true hlen), List.foldl_cons]
    rfl
  · rw [if_neg hlen, if_neg fun h => hlen (of_decide_eq_true h)]
    rfl

/-- The state and the part of the stream that it has read of a sequence to come. -/
inductive Pending : SnifferState → Bytes → Prop where
  | idle : Pending .idle []
  | esc : Pending .esc [27]

theorem color_feed {t : BgColorTracker} {p : Bytes} (hp : Pending t.snifferState p) (s : Bytes)
    (hnul : 0 ∉ s) (hs : Terminated (p ++ s)) :
    (feed t s).color = colorOfStream t.color (p ++ s) := by
  induction hn : s.length using Nat.strongRecOn generalizing t p s with
  | ind n ih =>
    cases s with
    | nil =>
      cases p with
      | nil => rfl
      | cons b p =>
        generalize hst : t.snifferState = st at hp
        cases hp
        rfl
    | cons b s =>
      have hshort : s.length < n := by rw [← hn, List.length_cons]; exact Nat.lt_succ_self _
      have hnul' : 0 ∉ s := fun h => hnul (List.mem_cons_of_mem _ h)
      generalize hst : t.snifferState = st at hp
      cases hp with
      | idle =>
        rw [feed_cons]
        by_cases hb : b = 27
        · subst hb
          rw [feedByte_esc hst]
          exact ih s.length hshort (p := [27]) .esc s hnul' hs rfl
        · have hpend : Pending t.snifferState [] := hst ▸ .idle
          rw [feedByte_idle hst hb, ih s.length hshort hpend s hnul' hs.tail rfl, List.nil_append, List.nil_append,
            colorOfStream, colorOfStream, oscStrings_cons (Or.inl hb)]
      | esc =>
        by_cases hbegin : b = 93
        · subst hbegin
          obtain ⟨body, ending, rest, hbody, hend, rfl, hrest⟩ := hs.sequence
          have hnulBody : 0 ∉ body := fun h => hnul' (by simp [h])
          have hnulRest : 0 ∉ rest := fun h => hnul' (by simp [h])
          obtain ⟨hidle, hcolor⟩ := feed_sequence
            (t := { t with snifferState := .osc, oscBuf := [] }) rfl rfl hbody hnulBody hend
          have hshort' : rest.length < n := by
            rw [List.length_append] at hshort
            omega
          rw [feed_cons, feed_begin hst, feed_append]
          rw [ih rest.length hshort' (p := []) (hidle ▸ .idle) rest hnulRest hrest rfl, hcolor]
          exact (colorOfStream_sequence t.color hbody hend rest).symm
        · have hskip : oscStrings ([27] ++ b :: s) = oscStrings (b :: s) :=
            oscStrings_cons (Or.inr (by simpa using hbegin))
          rw [feed_cons, colorOfStream, hskip]
          by_cases hb : b = 27
          · subst hb
            have hstep : (bgColorFeedByte t 27).1 = t := by
              unfold bgColorFeedByte
              rw [hst]
              rfl
            rw [hstep]
            exact ih s.length hshort (p := [27]) (hst ▸ .esc) s hnul' hs.tail rfl
          · have hstep : (bgColorFeedByte t b).1 = { t with snifferState := .idle } := by
              unfold bgColorFeedByte
              rw [hst]
              dsimp only
              rw [if_neg hbegin, if_neg hb]
            rw [hstep, oscStrings_cons (Or.inl hb)]
            exact ih s.length hshort (p := []) .idle s hnul' hs.tail.tail rfl

/-! ## What is tracked -/

theorem length_oscBuf_apply {t : BgColorTracker} (ht : t.oscBuf.length ≤ 255) (e : Event) :
    (e.apply t).oscBuf.length ≤ 255 := by
  cases e with
  | resetSniffer => exact Nat.zero_le _
  | feedByte b =>
    have hend : (endOsc t).1.oscBuf.length ≤ 255 := by
      rw [endOsc, (tnProcessOsc_frame _ _).2]
      exact ht
    unfold Event.apply bgColorFeedByte
    dsimp only
    cases t.snifferState with
    | idle =>
      dsimp only
      split
      · exact ht
      · exact ht
    | esc =>
      dsimp only
      split
      · exact Nat.zero_le _
      · split
        · exact ht
        · exact ht
    | osc =>
      dsimp only
      split
      · exact hend
      · split
        · exact ht
        · split
          · rename_i hroom
            rw [List.length_append, List.length_singleton]
            exact hroom
          · exact Nat.zero_le _
    | oscEsc =>
      dsimp only
      split
      · exact hend
      · exact Nat.zero_le _

theorem length_oscBuf_trackerAfter (events : List Event) :
    (trackerAfter events).oscBuf.length ≤ 255 := by
  unfold trackerAfter
  induction events using List.reverseRecOn with
  | nil => exact Nat.zero_le _
  | append_singleton events e ih =>
    rw [List.foldl_append]
    exact length_oscBuf_apply ih e

/-- In a stream without NUL, in which every sequence has its end, the tracked colour is the one that the
complete sequences make, however the stream is cut into reads. The buffer never overflows. -/
theorem color_of_stream (chunks : List Bytes) (hnul : 0 ∉ chunks.flatten)
    (hterm : Terminated chunks.flatten) :
    (feedChunks bgColorTrackerInit chunks).color = colorOfStream none chunks.flatten ∧
      ∀ events, (trackerAfter events).oscBuf.length ≤ 255 := by
  refine ⟨?_, length_oscBuf_trackerAfter⟩
  rw [feedChunks_eq]
  exact color_feed (t := bgColorTrackerInit) (p := []) .idle chunks.flatten hnul hterm

/-- A colour that is set, in two reads. -/
theorem color_of_short_stream :
    (feedChunks bgColorTrackerInit [ascii "a\x1b]11;#1", ascii "02030\x07b"]).color =
      some ⟨16, 32, 48⟩ := by
  have hflat : [ascii "a\x1b]11;#1", ascii "02030\x07b"].flatten =
      97 :: 27 :: 93 :: (ascii "11;#102030" ++ 7 :: [98]) := by decide
  have hterm : Terminated [ascii "a\x1b]11;#1", ascii "02030\x07b"].flatten := by
    rw [hflat]
    intro u t hs
    refine ⟨ascii "11;#102030", [98], by unfold Inside; decide, Or.inl ?_⟩
    match u, hs with
    | [_], hs => exact (List.cons.inj (List.cons.inj (List.cons.inj hs).2).2).2.symm
    | _ :: _ :: u, hs =>
      have hrest := (List.cons.inj (List.cons.inj hs).2).2
      have hesc : 27 ∈ 93 :: (ascii "11;#102030" ++ 7 :: [98]) := hrest ▸ (by simp)
      exact absurd hesc (by decide)
  rw [(color_of_stream _ (by decide) hterm).1]
  decide

/-! ## A colour that arrives in any state -/

/-- A colour that can stand in a sequence. -/
structure ValidColor (c : Bytes) (v : Color) : Prop where
  parses : tnParseColor c = some v
  inside : Inside c
  noNul : 0 ∉ c

/-- `ESC ] 11 ; c BEL`. -/
def backgroundSequence (c : Bytes) : Bytes := [27, 93] ++ (ascii "11;" ++ c ++ [7])

theorem ValidColor.text {c : Bytes} {v : Color} (h : ValidColor c v) :
    Inside (ascii "11;" ++ c) ∧ 0 ∉ ascii "11;" ++ c := by
  have htag : Inside (ascii "11;") := by
    unfold Inside
    decide
  constructor
  · intro b hb
    exact (List.mem_append.mp hb).elim (htag b) (h.inside b)
  · intro hmem
    rcases List.mem_append.mp hmem with hmem | hmem
    · exact absurd hmem (by decide)
    · exact h.noNul hmem

theorem feed_introducer {t : BgColorTracker} (ht : t.snifferState ≠ .osc) :
    ∃ t', feed t [27, 93] = t' ∧ t'.snifferState = .osc ∧ t'.oscBuf = [] ∧ t'.color = t.color := by
  refine ⟨_, rfl, ?_⟩
  rw [feed_cons]
  unfold bgColorFeedByte
  generalize hst : t.snifferState = st at ht
  cases st with
  | idle => exact ⟨rfl, rfl, rfl⟩
  | esc =>
    dsimp only
    rw [if_neg (by decide), if_pos rfl, feed_cons, feed_begin hst]
    exact ⟨rfl, rfl, rfl⟩
  | osc => exact absurd rfl ht
  | oscEsc => exact ⟨rfl, rfl, rfl⟩

/-- Inside a sequence `ESC ]` ends it, and begins none. -/
theorem feed_introducer_osc {t : BgColorTracker} (ht : t.snifferState = .osc) :
    ∃ t', feed t [27, 93] = t' ∧ t'.snifferState = .idle ∧ t'.color = t.color := by
  refine ⟨_, rfl, ?_⟩
  rw [feed_cons, feedByte_esc_inside ht]
  exact ⟨rfl, rfl⟩

theorem color_backgroundSequence {c : Bytes} {v : Color} (h : ValidColor c v) (t : BgColorTracker) :
    (feed t (backgroundSequence c)).color =
      if t.snifferState ≠ .osc ∧ c.length ≤ 252 then some v else t.color := by
  obtain ⟨hinside, hnul⟩ := h.text
  rw [backgroundSequence, feed_append]
  by_cases hosc : t.snifferState = .osc
  · obtain ⟨t', ht', hidle, hcolor⟩ := feed_introducer_osc hosc
    have hesc : 27 ∉ ascii "11;" ++ c ++ [7] := by
      intro hmem
      rcases List.mem_append.mp hmem with hmem | hmem
      · exact hinside.esc_not_mem hmem
      · exact absurd hmem (by decide)
    rw [ht', feed_idle hidle hesc, hcolor, if_neg fun h => h.1 hosc]
  · obtain ⟨t', ht', hstate, hbuf, hcolor⟩ := feed_introducer hosc
    have hlen : (ascii "11;" ++ c).length ≤ 255 ↔ t.snifferState ≠ .osc ∧ c.length ≤ 252 := by
      have hthree : (ascii "11;").length = 3 := rfl
      rw [List.length_append, hthree]
      exact ⟨fun h => ⟨hosc, by omega⟩, fun h => by omega⟩
    have hrecolor : recolor t.color (ascii "11;" ++ c) = some v := by
      change (tnParseColor c).or t.color = some v
      rw [h.parses]
      rfl
    rw [ht', (feed_sequence hstate hbuf hinside hnul (Or.inl rfl)).2, hcolor, hrecolor]
    exact if_congr hlen rfl rfl

/-- A colour gets through exactly if no sequence is open and it fits into the buffer, or if it is the
one that is tracked already. -/
theorem background_set_iff (events : List Event) {c : Bytes} {v : Color} (h : ValidColor c v) :
    (feed (trackerAfter events) (backgroundSequence c)).color = some v ↔
      (trackerAfter events).snifferState ≠ .osc ∧ c.length ≤ 252 ∨
        (trackerAfter events).color = some v := by
  rw [color_backgroundSequence h]
  split
  · rename_i hthrough
    exact ⟨fun _ => Or.inl hthrough, fun _ => rfl⟩
  · rename_i hlost
    exact ⟨Or.inr, fun h => h.resolve_left hlost⟩

theorem validColor_dark : ValidColor (ascii "#1e1e2e") ⟨30, 30, 46⟩ where
  parses := by decide
  inside := by unfold Inside; decide
  noNul := by decide

theorem background_set_at_start :
    (feed (trackerAfter []) (backgroundSequence (ascii "#1e1e2e"))).color = some ⟨30, 30, 46⟩ :=
  (background_set_iff [] validColor_dark).mpr (Or.inl ⟨by decide, by decide⟩)

/-- A title that has no end yet swallows the colour. -/
theorem background_lost :
    ¬ ∀ (events : List Event) (c : Bytes) (v : Color), ValidColor c v →
      (feed (trackerAfter events) (backgroundSequence c)).color = some v := by
  intro h
  have hset := h ((ascii "\x1b]0;title").map .feedByte) _ _ validColor_dark
  exact absurd hset (by decide)

end WslFreeBSD.Terminal
