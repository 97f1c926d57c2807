import Mathlib.Data.List.Basic
import Mathlib.Data.List.Infix

/-!
# Writing a buffer to a non-blocking descriptor

A write loop offers the unwritten rest of a buffer again and again. Each call either takes a
non-empty part of it or fails; after a failure the loop carries on or gives up, depending on
the error and on its own policy (`resume`). The results of the calls are a script, so that
every pattern of partial writes and failures is some script; a script that ends before the
buffer is written stands for a hard error.

Whatever the script, what was taken is a prefix of the buffer (`writeLoop_begins`), and the
loop reports success exactly when it is the whole buffer (`writeLoop_snd_iff`). How much was
taken depends on the length of the buffer only (`length_writeLoop`).
-/

namespace WslFreeBSD.Lib

variable {α : Type*}

/-- The result of one call. `took n` takes `n + 1` elements (or all that are left);
`wouldBlock w` is `EAGAIN`, followed by a wait that ends with the descriptor writable (`w`) or
with a timeout; `interrupted` is `EINTR`; `failed` is any other error. -/
inductive WriteResult where
  | took (n : Nat)
  | wouldBlock (writable : Bool)
  | interrupted
  | failed
  deriving DecidableEq, Repr

/-- What the descriptor took of the buffer, and whether the loop reported success. -/
def writeLoop (resume : WriteResult → Bool) : List WriteResult → List α → List α × Bool
  | _, [] => ([], true)
  | [], _ :: _ => ([], false)
  | .took n :: rs, b :: bs =>
    let rest := writeLoop resume rs ((b :: bs).drop (n + 1))
    ((b :: bs).take (n + 1) ++ rest.1, rest.2)
  | r :: rs, b :: bs => if resume r then writeLoop resume rs (b :: bs) else ([], false)

/-- How many of `n` elements the calls take. -/
def takenLength (resume : WriteResult → Bool) : List WriteResult → Nat → Nat
  | _, 0 => 0
  | [], _ + 1 => 0
  | .took k :: rs, n + 1 => min (k + 1) (n + 1) + takenLength resume rs (n + 1 - (k + 1))
  | r :: rs, n + 1 => if resume r then takenLength resume rs (n + 1) else 0

variable {resume : WriteResult → Bool}

@[simp] theorem writeLoop_nil_right (rs : List WriteResult) :
    writeLoop resume rs ([] : List α) = ([], true) := by
  cases rs <;> rfl

theorem writeLoop_begins (rs : List WriteResult) (buf : List α) :
    (writeLoop resume rs buf).1 <+: buf := by
  induction rs generalizing buf with
  | nil => cases buf <;> exact List.nil_prefix
  | cons r rs ih =>
    cases buf with
    | nil => simp
    | cons b bs =>
      have hskip : (if resume r then writeLoop resume rs (b :: bs) else ([], false)).1 <+: b :: bs := by
        split
        · exact ih _
        · exact List.nil_prefix
      cases r with
      | took n =>
        obtain ⟨u, hu⟩ := ih ((b :: bs).drop (n + 1))
        exact ⟨u, by rw [writeLoop, List.append_assoc, hu, List.take_append_drop]⟩
      | wouldBlock w => exact hskip
      | interrupted => exact hskip
      | failed => exact hskip

theorem writeLoop_snd_iff (rs : List WriteResult) (buf : List α) :
    (writeLoop resume rs buf).2 = true ↔ (writeLoop resume rs buf).1 = buf := by
  induction rs generalizing buf with
  | nil => cases buf <;> simp [writeLoop]
  | cons r rs ih =>
    cases buf with
    | nil => simp
    | cons b bs =>
      have hskip : ((if resume r then writeLoop resume rs (b :: bs) else ([], false)).2 = true ↔
          (if resume r then writeLoop resume rs (b :: bs) else ([], false)).1 = b :: bs) := by
        split
        · exact ih _
        · simp
      cases r with
      | took n =>
        rw [writeLoop, ih ((b :: bs).drop (n + 1))]
        constructor
        · intro h
          rw [h, List.take_append_drop]
        · intro h
          exact List.append_cancel_left (h.trans (List.take_append_drop (n + 1) _).symm)
      | wouldBlock w => exact hskip
      | interrupted => exact hskip
      | failed => exact hskip

theorem length_writeLoop (rs : List WriteResult) (buf : List α) :
    (writeLoop resume rs buf).1.length = takenLength resume rs buf.length := by
  induction rs generalizing buf with
  | nil => cases buf <;> rfl
  | cons r rs ih =>
    cases buf with
    | nil => simp [takenLength]
    | cons b bs =>
      have hskip : (if resume r then writeLoop resume rs (b :: bs) else ([], false)).1.length =
          if resume r then takenLength resume rs (b :: bs).length else 0 := by
        split
        · exact ih _
        · rfl
      cases r with
      | took k =>
        rw [writeLoop, List.length_append, ih, List.length_take, List.length_drop]
        rfl
      | wouldBlock w => exact hskip
      | interrupted => exact hskip
      | failed => exact hskip

theorem writeLoop_eq_nil {rs : List WriteResult} {buf : List α}
    (h : takenLength resume rs buf.length = 0) : (writeLoop resume rs buf).1 = [] := by
  apply List.length_eq_zero_iff.mp
  rw [length_writeLoop, h]

/-! ## Several writes to one stream -/

/-- A buffer that was offered and what was taken of it, only a part. -/
def Cut (w : List α × List α) : Prop := w.2 ≠ [] ∧ w.2 ≠ w.1

/-- Nothing is taken any more once a write was cut. -/
def StopsAtCut (ws : List (List α × List α)) : Prop := ws.Pairwise fun a b => Cut a → b.2 = []

theorem flatten_eq_nil_of_forall {ws : List (List α × List α)} (h : ∀ w ∈ ws, w.2 = []) :
    (ws.map Prod.snd).flatten = [] := by
  apply List.flatten_eq_nil_iff.mpr
  intro l hl
  obtain ⟨w, hw, rfl⟩ := List.mem_map.mp hl
  exact h w hw

/-- What such writes put on the stream: whole buffers, in order, and after them at most the
beginning of one more. -/
theorem StopsAtCut.whole_append {ws : List (List α × List α)} (h : StopsAtCut ws)
    (hp : ∀ w ∈ ws, w.2 <+: w.1) :
    ∃ (whole : List (List α)) (rest : List α),
      (ws.map Prod.snd).flatten = whole.flatten ++ rest ∧ whole.Sublist (ws.map Prod.fst) ∧
      (rest = [] ∨ ∃ m ∈ ws.map Prod.fst, rest <+: m ∧ rest ≠ m) := by
  induction ws with
  | nil => exact ⟨[], [], rfl, List.Sublist.refl _, .inl rfl⟩
  | cons w ws ih =>
    obtain ⟨hw, hws⟩ := List.pairwise_cons.mp h
    obtain ⟨whole, rest, heq, hsub, hrest⟩ := ih hws fun w hw => hp w (List.mem_cons_of_mem _ hw)
    by_cases hcut : Cut w
    · refine ⟨[], w.2, ?_, List.nil_sublist _, .inr ⟨w.1, by simp, hp w List.mem_cons_self, hcut.2⟩⟩
      have hnil := flatten_eq_nil_of_forall fun b hb => hw b hb hcut
      simp [hnil]
    · have hrest' : rest = [] ∨ ∃ m ∈ (w :: ws).map Prod.fst, rest <+: m ∧ rest ≠ m := by
        rcases hrest with hnil | ⟨m, hm, hlt⟩
        · exact .inl hnil
        · exact .inr ⟨m, List.mem_cons_of_mem _ hm, hlt⟩
      by_cases hnone : w.2 = []
      · refine ⟨whole, rest, ?_, hsub.cons _, hrest'⟩
        simpa [hnone] using heq
      · have hwhole : w.2 = w.1 := by
          by_contra hne
          exact hcut ⟨hnone, hne⟩
        refine ⟨w.1 :: whole, rest, ?_, hsub.cons_cons _, hrest'⟩
        simp [hwhole, heq]

end WslFreeBSD.Lib
