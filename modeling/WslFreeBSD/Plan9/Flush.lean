import Mathlib.Logic.Relation
import WslFreeBSD.Lib.Transitions
import WslFreeBSD.Plan9.Tasks

/-!
# Tflush

A Tflush waits until the first request with the tag it names, of those in the list, is finished.
-/

namespace WslFreeBSD.Plan9.Tasks

open Lib

variable {s s' : State} {a : Act} {t f r i : Nat} {p : Phase} {th : Task}

/-! ## What a Tflush waits for -/

/-- The request for which a task in this phase waits. -/
def Phase.awaits : Phase → Option Nat
  | .found r | .waiting r => some r
  | _ => none

def Awaits (s : State) (f r : Nat) : Prop := (s.tasks f).phase.awaits = some r

def Task.tags (th : Task) : UInt16 × Option UInt16 := (th.tag, th.oldTag)

theorem tags_unlockSocket {next : Phase} : ((unlockSocket s t next).tasks i).tags = (s.tasks i).tags := by
  obtain ⟨hnone, -⟩ | ⟨w, hsome, -⟩ := s.socketLock.unlock_spec
  · rw [unlockSocket_none hnone]
    exact setPhase_eq Task.tags (by rfl) i
  · rw [unlockSocket_some hsome]
    exact (setPhase_eq Task.tags (by rfl) i).trans (setPhase_eq Task.tags (by rfl) i)

theorem tags_setEvent {owned : Bool} : ((setEvent s t owned).tasks i).tags = (s.tasks i).tags := by
  refine (setPhase_eq Task.tags (by rfl) i).trans ?_
  dsimp only
  split <;> rfl

theorem tags_handleFlush {oldTag : UInt16} :
    ((handleFlush s t oldTag).tasks i).tags = (s.tasks i).tags := by
  unfold handleFlush
  cases search s oldTag with
  | none => exact setTask_eq Task.tags (by rfl) i
  | some r => exact setPhase_eq Task.tags (by rfl) i

theorem step_tags (hs : step s a = some s') (hi : i ≠ s.count) :
    (s'.tasks i).tags = (s.tasks i).tags := by
  cases step_cases hs with
  | check _ | stop _ | shutdown _ | wait _ _ => rfl
  | receive _ => exact congrArg Task.tags (setTask_other hi)
  | flush _ _ => exact tags_handleFlush
  | unlockSent _ | unlockFailed _ => exact tags_unlockSocket
  | set _ => exact tags_setEvent
  | finish _ =>
    refine (setPhase_eq Task.tags (by rfl) i).trans ?_
    dsimp only
    split <;> rfl
  | _ => exact setTask_eq Task.tags (by rfl) i

theorem mem_of_search {oldTag : UInt16} (h : search s oldTag = some r) :
    r ∈ s.requests ∧ (s.tasks r).tag = oldTag ∧ (s.infos r).cancelled = false := by
  have hfound := List.find?_some h
  exact ⟨List.mem_of_find?_eq_some h, by simpa using hfound⟩

theorem step_awaits (h : Sane s) (hs : step s a = some s') (hawaits : Awaits s' f r) :
    Awaits s f r ∨ ∃ oldTag, a = .flush f ∧ (s.tasks f).oldTag = some oldTag ∧
      search s oldTag = some r := by
  have hmoves := step_moves h hs f
  unfold Awaits at hawaits ⊢
  rcases hmoves with hstays | hmoves
  · rw [hstays] at hawaits
    exact .inl hawaits
  · generalize (s.tasks f).phase = p at hmoves ⊢
    generalize (s'.tasks f).phase = p' at hmoves hawaits
    cases hmoves with
    | @find oldTag q hflush ha hsearch =>
      cases hawaits
      exact .inr ⟨_, ha, hflush, hsearch⟩
    | wait q => exact .inl hawaits
    | _ => cases hawaits

/-! ## No circle -/

/-- No Tflush names its own tag, or that of a listed Tflush that was received behind it. -/
def NamesBackward (s : State) : Act → Prop
  | .flush t => ∀ oldTag, (s.tasks t).oldTag = some oldTag → ∀ r ∈ s.requests, t ≤ r →
      (s.tasks r).oldTag ≠ none → (s.tasks r).tag ≠ oldTag
  | _ => True

/-- Whoever waits is a Tflush, and waits for an older request or for one that does not wait. -/
structure Backward (s : State) : Prop where
  sane : Sane s
  waits : ∀ f r, Awaits s f r →
    f < s.count ∧ r < s.count ∧ (s.tasks f).oldTag ≠ none ∧ ((s.tasks r).oldTag = none ∨ r < f)

theorem lt_count_of_part (h : Sane s) (hpart : (s.tasks i).phase.part ≠ .absent) : i < s.count := by
  by_contra hle
  exact hpart ((h.registry.count i).mpr (not_lt.mp hle))

theorem lt_count_of_mem (h : Sane s) (hmem : i ∈ s.requests) : i < s.count := by
  refine lt_count_of_part h fun habsent => ?_
  rcases (h.registry.mem i).mp hmem with hpart | hpart <;> rw [habsent] at hpart <;> cases hpart

theorem step_count (hs : step s a = some s') : s.count ≤ s'.count := by
  cases step_cases hs with
  | receive _ => exact Nat.le_succ _
  | unlockSent _ | unlockFailed _ => exact count_unlockSocket.ge
  | @flush t oldTag _ _ =>
    unfold handleFlush
    cases search s oldTag <;> exact le_rfl
  | @finish t owned _ => cases owned <;> exact le_rfl
  | _ => exact le_rfl

theorem Backward.step (h : Backward s) (ha : NamesBackward s a) (hs : step s a = some s') :
    Backward s' := by
  refine ⟨h.sane.step hs, fun f r hawaits => ?_⟩
  have hold : f < s.count ∧ r < s.count ∧ (s.tasks f).oldTag ≠ none ∧
      ((s.tasks r).oldTag = none ∨ r < f) := by
    rcases step_awaits h.sane hs hawaits with hawaits | ⟨oldTag, rfl, hflush, hsearch⟩
    · exact h.waits f r hawaits
    · obtain ⟨hmem, htag, -⟩ := mem_of_search hsearch
      refine ⟨?_, lt_count_of_mem h.sane hmem, by simp [hflush], ?_⟩
      · refine lt_count_of_part h.sane ?_
        cases step_cases hs with
        | flush hphase _ => simp [hphase, Phase.part]
      · by_contra! hnew
        exact ha oldTag hflush r hmem hnew.2 hnew.1 htag
  obtain ⟨hf, hr, hflush, hback⟩ := hold
  have hcount := step_count hs
  have htags : ∀ i, i < s.count → (s'.tasks i).oldTag = (s.tasks i).oldTag := fun i hi =>
    congrArg Prod.snd (step_tags hs hi.ne)
  refine ⟨hf.trans_le hcount, hr.trans_le hcount, ?_, ?_⟩
  · rw [htags f hf]
    exact hflush
  · rw [htags r hr]
    exact hback

theorem Backward.lt_of_path (h : Backward s) (hpath : Relation.TransGen (Awaits s) f r)
    (hr : (s.tasks r).oldTag ≠ none) : r < f := by
  induction hpath with
  | single hawaits => exact (h.waits _ _ hawaits).2.2.2.resolve_left hr
  | tail hpath hawaits ih =>
    obtain ⟨-, -, hflush, hback⟩ := h.waits _ _ hawaits
    exact (hback.resolve_left hr).trans (ih hflush)

/-- **No circle.** In every run in which no Tflush names its own tag or that of a Tflush behind it, no
Tflush waits on itself, or on requests that wait on it. -/
theorem awaits_acyclic (h : Reaches step NamesBackward {} s) :
    ∀ f, ¬ Relation.TransGen (Awaits s) f f := by
  intro f hpath
  have hinv : Backward s := by
    refine h.invariant ⟨.init, fun f r hawaits => ?_⟩ fun s a s' hs ha hstep => hs.step ha hstep
    cases hawaits
  obtain ⟨q, hfirst, -⟩ := (Relation.TransGen.head'_iff).mp hpath
  exact absurd (hinv.lt_of_path hpath (hinv.waits f q hfirst).2.2.1) (lt_irrefl f)

/-- A request with the tag `1` and a Tflush for it are received. -/
def flushRun : List Act := [.check, .receive 1 none, .spawn, .check, .receive 2 (some 1), .spawn]

/-- The Tflush waits for the request. -/
theorem awaits_acyclic_flush :
    ∃ s, Awaits s 1 0 ∧ ∀ f, ¬ Relation.TransGen (Awaits s) f f := by
  obtain ⟨s, hs, hrequests, htag, hflush⟩ : ∃ s, flushRun.foldlM step {} = some s ∧
      s.requests = [0, 1] ∧ (s.tasks 1).tag = 2 ∧ (s.tasks 1).oldTag = some 1 :=
    ⟨_, rfl, rfl, rfl, rfl⟩
  obtain ⟨s', hs', hawaits⟩ : ∃ s', step s (.flush 1) = some s' ∧ Awaits s' 1 0 := by
    cases hs
    exact ⟨_, rfl, rfl⟩
  have hreach : Reaches step NamesBackward {} s :=
    Reaches.start.foldlM (by simp [flushRun, NamesBackward]) hs
  refine ⟨s', hawaits, awaits_acyclic (hreach.step ?_ hs')⟩
  intro oldTag hold r hmem hle _
  obtain rfl : 1 = oldTag := Option.some.inj (hflush.symm.trans hold)
  rw [hrequests] at hmem
  rcases List.mem_pair.mp hmem with rfl | rfl
  · omega
  · rw [htag]
    decide

/-- A Tflush that names its own tag waits on itself. -/
theorem awaits_itself :
    ¬ ∀ s, Reaches step (fun _ _ => True) {} s → ∀ f, ¬ Relation.TransGen (Awaits s) f f := by
  intro h
  obtain ⟨s, hs, hawaits⟩ : ∃ s,
      [Act.check, .receive 5 (some 5), .spawn, .flush 0].foldlM step {} = some s ∧ Awaits s 0 0 :=
    ⟨_, rfl, rfl⟩
  exact h s (Reaches.start.foldlM (fun _ _ _ => trivial) hs) 0 (.single hawaits)

end WslFreeBSD.Plan9.Tasks
