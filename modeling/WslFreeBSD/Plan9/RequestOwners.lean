import WslFreeBSD.Plan9.Flush

/-!
# Who owns a request

A `RequestInfo` belongs to its tracker, until `HandleFlush` marks it and takes it over. Through every step
nobody uses a request that was freed, and every request is freed by its owner (`Owned.step`).
-/

namespace WslFreeBSD.Plan9.Tasks

open Lib

variable {s s' : State} {a : Act} {t f r i : Nat} {p : Phase} {th : Task}

/-! ## Whose a request is -/

def Phase.holds : Phase → Option Nat
  | .found r | .waiting r | .woken r => some r
  | _ => none

/-- The phases of the destructor behind the list. -/
def Phase.ending : Phase → Phase
  | .setting owned => .setting owned
  | .finishing owned => .finishing owned
  | .done => .done
  | _ => .absent

def Phase.signalled : Phase → Bool
  | .finishing _ | .done => true
  | _ => false

/-- A request belongs to its tracker, or to the Tflush that marked it, and whoever it belongs to frees it
in the end. -/
structure Owned (s : State) : Prop where
  holder : ∀ f r, (s.tasks f).phase.holds = some r → (s.infos r).cancelled = true
  unique : ∀ f f' r, (s.tasks f).phase.holds = some r → (s.tasks f').phase.holds = some r → f = f'
  event : ∀ r, (s.infos r).event = .set ↔ (s.tasks r).phase.ending.signalled = true
  woken : ∀ f r, (s.tasks f).phase = .woken r → (s.infos r).event = .set
  tracker : ∀ r, (s.infos r).cancelled = false →
    (s.infos r).frees = if (s.tasks r).phase.ending = .done then 1 else 0
  taken : ∀ r, (s.infos r).cancelled = true →
    ((s.infos r).frees = 0 ∧ ∃ f, (s.tasks f).phase.holds = some r) ∨
      ((s.infos r).frees = 1 ∧ (∀ f, (s.tasks f).phase.holds ≠ some r) ∧ (s.infos r).event = .set)
  released : ∀ r owned, (s.tasks r).phase.ending = .setting owned ∨
    (s.tasks r).phase.ending = .finishing owned → owned = !(s.infos r).cancelled
  used : s.misused = false

namespace Owned

theorem init : Owned {} where
  holder _ _ h := by cases h
  unique _ _ _ h := by cases h
  event _ := by simp [Phase.ending, Phase.signalled]
  woken _ _ h := by cases h
  tracker _ _ := by simp [Phase.ending]
  taken _ h := by cases h
  released _ _ h := by rcases h with h | h <;> cases h
  used := rfl

theorem frees_eq_zero (h : Owned s) (hevent : (s.tasks r).phase.ending.signalled = false) :
    (s.infos r).frees = 0 := by
  cases hc : (s.infos r).cancelled with
  | false =>
    rw [h.tracker r hc, if_neg]
    intro hdone
    rw [hdone] at hevent
    cases hevent
  | true =>
    rcases h.taken r hc with ⟨hfrees, -⟩ | ⟨-, -, hset⟩
    · exact hfrees
    · rw [h.event r, hevent] at hset
      cases hset

theorem frees_of_holds (h : Owned s) (hholds : (s.tasks f).phase.holds = some r) :
    (s.infos r).frees = 0 := by
  rcases h.taken r (h.holder f r hholds) with ⟨hfrees, -⟩ | ⟨-, hnone, -⟩
  · exact hfrees
  · exact absurd hholds (hnone f)

theorem use_requests (h : Owned s) (hsane : Sane s) : (s.use s.requests).misused = false := by
  have hfrees : ∀ i ∈ s.requests, (s.infos i).frees = 0 := by
    intro i hi
    refine h.frees_eq_zero ?_
    rcases (hsane.registry.mem i).mp hi with hpart | hpart <;>
      cases hphase : (s.tasks i).phase <;> rw [hphase] at hpart <;> first | rfl | cases hpart
  simp only [State.use, h.used, Bool.false_or, List.any_eq_false, decide_eq_true_eq, not_lt,
    Nat.le_zero]
  exact hfrees

theorem use_one (h : Owned s) (hfrees : (s.infos r).frees = 0) : (s.use [r]).misused = false := by
  simp [State.use, h.used, hfrees]

theorem frame (h : Owned s) (hinfo : ∀ r, (s'.infos r).cancelled = (s.infos r).cancelled ∧
      (s'.infos r).frees = (s.infos r).frees ∧
      ((s'.infos r).event = .set ↔ (s.infos r).event = .set))
    (hholds : ∀ i, (s'.tasks i).phase.holds = (s.tasks i).phase.holds)
    (hending : ∀ i, (s'.tasks i).phase.ending = (s.tasks i).phase.ending)
    (hwoken : ∀ f r, (s'.tasks f).phase = .woken r → (s.infos r).event = .set)
    (hused : s'.misused = false) : Owned s' where
  holder f r := by
    rw [hholds, (hinfo r).1]
    exact h.holder f r
  unique f f' r := by
    rw [hholds, hholds]
    exact h.unique f f' r
  event r := by
    rw [(hinfo r).2.2, hending]
    exact h.event r
  woken f r hphase := (hinfo r).2.2.mpr (hwoken f r hphase)
  tracker r := by
    rw [(hinfo r).1, (hinfo r).2.1, hending]
    exact h.tracker r
  taken r := by
    simp only [(hinfo r).1, (hinfo r).2.1, (hinfo r).2.2, hholds]
    exact h.taken r
  released r owned := by
    rw [(hinfo r).1, hending]
    exact h.released r owned
  used := hused

theorem goesOn (h : Owned s) (hphase : (s.tasks t).phase = p) (hholds : th.phase.holds = p.holds)
    (hending : th.phase.ending = p.ending)
    (hwoken : ∀ r, th.phase = .woken r → (s.infos r).event = .set) : Owned (s.setTask t th) := by
  refine h.frame (fun r => ⟨rfl, rfl, Iff.rfl⟩) (setTask_eq (·.phase.holds) (by rw [hphase, hholds]))
    (setTask_eq (·.phase.ending) (by rw [hphase, hending])) (fun f r hf => ?_) h.used
  rcases eq_or_ne f t with rfl | hne
  · rw [setTask_self] at hf
    exact hwoken r hf
  · rw [setTask_other hne] at hf
    exact h.woken f r hf

/-- `HandleFlush` takes a request over that nobody holds. -/
theorem taken_over (h : Owned s) (hnew : (s.infos r).cancelled = false)
    (hlisted : (s.tasks r).phase.ending = .absent)
    (hself : (s'.infos r).cancelled = true ∧ (s'.infos r).frees = (s.infos r).frees ∧
      (s'.infos r).event = (s.infos r).event)
    (hother : ∀ q, q ≠ r → s'.infos q = s.infos q)
    (hholder : (s'.tasks t).phase.holds = some r)
    (hholds : ∀ i, i ≠ t → (s'.tasks i).phase.holds = (s.tasks i).phase.holds)
    (hold : (s.tasks t).phase.holds = none)
    (hending : ∀ i, (s'.tasks i).phase.ending = (s.tasks i).phase.ending)
    (hwoken : ∀ f q, (s'.tasks f).phase = .woken q → (s.tasks f).phase = .woken q)
    (hused : s'.misused = false) : Owned s' := by
  have hnone : ∀ f, (s.tasks f).phase.holds ≠ some r := by
    intro f hf
    rw [h.holder f r hf] at hnew
    cases hnew
  have hholds' : ∀ f q, (s'.tasks f).phase.holds = some q ↔
      (f = t ∧ q = r) ∨ (s.tasks f).phase.holds = some q := by
    intro f q
    rcases eq_or_ne f t with rfl | hf
    · simp [hholder, hold, eq_comm]
    · simp [hholds f hf, hf]
  have hevent : ∀ q, (s'.infos q).event = (s.infos q).event := by
    intro q
    rcases eq_or_ne q r with rfl | hq
    · exact hself.2.2
    · rw [hother q hq]
  refine ⟨fun f q hf => ?_, fun f f' q hf hf' => ?_, fun q => ?_, fun f q hf => ?_, fun q hq => ?_,
    fun q hq => ?_, fun q owned hq => ?_, hused⟩
  · rcases eq_or_ne q r with rfl | hq
    · exact hself.1
    · rw [hother q hq]
      exact h.holder f q (((hholds' f q).mp hf).resolve_left fun hfq => hq hfq.2)
  · rcases (hholds' f q).mp hf with ⟨rfl, rfl⟩ | hf
    · rcases (hholds' f' q).mp hf' with ⟨rfl, -⟩ | hf'
      · rfl
      · exact absurd hf' (hnone f')
    · rcases (hholds' f' q).mp hf' with ⟨-, rfl⟩ | hf'
      · exact absurd hf (hnone f)
      · exact h.unique f f' q hf hf'
  · rw [hevent, hending]
    exact h.event q
  · rw [hevent]
    exact h.woken f q (hwoken f q hf)
  · rcases eq_or_ne q r with rfl | hqr
    · rw [hself.1] at hq
      cases hq
    · rw [hother q hqr] at hq ⊢
      rw [hending]
      exact h.tracker q hq
  · rcases eq_or_ne q r with rfl | hqr
    · refine .inl ⟨?_, t, hholder⟩
      rw [hself.2.1, h.tracker q hnew, hlisted]
      rfl
    · rw [hother q hqr] at hq ⊢
      have hsame : ∀ f, (s'.tasks f).phase.holds = some q ↔ (s.tasks f).phase.holds = some q :=
        fun f => (hholds' f q).trans (or_iff_right fun hfq => hqr hfq.2)
      simp only [hsame, ne_eq]
      exact h.taken q hq
  · rw [hending] at hq
    rcases eq_or_ne q r with rfl | hqr
    · rw [hlisted] at hq
      rcases hq with hq | hq <;> cases hq
    · rw [hother q hqr]
      exact h.released q owned hq

theorem destructor (h : Owned s)
    (hother : ∀ q, q ≠ t → s'.infos q = s.infos q)
    (hcancelled : (s'.infos t).cancelled = (s.infos t).cancelled)
    (hholds : ∀ i, (s'.tasks i).phase.holds = (s.tasks i).phase.holds)
    (hending : ∀ i, i ≠ t → (s'.tasks i).phase.ending = (s.tasks i).phase.ending)
    (hwoken : ∀ f q, (s'.tasks f).phase = .woken q → (s'.infos q).event = .set)
    (hevent : (s'.infos t).event = .set ↔ (s'.tasks t).phase.ending.signalled = true)
    (hset : (s.infos t).event = .set → (s'.infos t).event = .set)
    (htracker : (s.infos t).cancelled = false →
      (s'.infos t).frees = if (s'.tasks t).phase.ending = .done then 1 else 0)
    (htaken : (s.infos t).cancelled = true → (s'.infos t).frees = (s.infos t).frees)
    (hreleased : ∀ owned, (s'.tasks t).phase.ending = .setting owned ∨
      (s'.tasks t).phase.ending = .finishing owned → owned = !(s.infos t).cancelled)
    (hused : s'.misused = false) : Owned s' := by
  refine ⟨fun f q hf => ?_, fun f f' q hf hf' => ?_, fun q => ?_, hwoken, fun q hq => ?_,
    fun q hq => ?_, fun q owned hq => ?_, hused⟩
  · rw [hholds] at hf
    rcases eq_or_ne q t with rfl | hqt
    · rw [hcancelled]
      exact h.holder f q hf
    · rw [hother q hqt]
      exact h.holder f q hf
  · rw [hholds] at hf hf'
    exact h.unique f f' q hf hf'
  · rcases eq_or_ne q t with rfl | hqt
    · exact hevent
    · rw [hother q hqt, hending q hqt]
      exact h.event q
  · rcases eq_or_ne q t with rfl | hqt
    · exact htracker (hcancelled ▸ hq)
    · rw [hother q hqt] at hq ⊢
      rw [hending q hqt]
      exact h.tracker q hq
  · simp only [hholds]
    rcases eq_or_ne q t with rfl | hqt
    · rw [hcancelled] at hq
      rw [htaken hq]
      exact (h.taken q hq).imp_right fun hfreed => ⟨hfreed.1, hfreed.2.1, hset hfreed.2.2⟩
    · rw [hother q hqt] at hq ⊢
      exact h.taken q hq
  · rcases eq_or_ne q t with rfl | hqt
    · rw [hcancelled]
      exact hreleased owned hq
    · rw [hending q hqt] at hq
      rw [hother q hqt]
      exact h.released q owned hq

/-- `HandleFlush` frees the request that it holds. -/
theorem flushed (h : Owned s) (hphase : (s.tasks t).phase = .woken r) : Owned (flushed s t r) := by
  have hholder : (s.tasks t).phase.holds = some r := by
    rw [hphase]
    rfl
  have hset := h.woken t r hphase
  have hself : ((Tasks.flushed s t r).tasks t).phase = .answered := by
    simp [Tasks.flushed, answer]
  have hother : ∀ i, i ≠ t → ((Tasks.flushed s t r).tasks i).phase = (s.tasks i).phase := by
    intro i hi
    unfold Tasks.flushed answer
    rw [setTask_other hi]
    rfl
  have hholds : ∀ f q, ((Tasks.flushed s t r).tasks f).phase.holds = some q ↔
      f ≠ t ∧ (s.tasks f).phase.holds = some q := by
    intro f q
    rcases eq_or_ne f t with rfl | hf
    · simp [hself, Phase.holds]
    · simp [hother f hf, hf]
  have hending : ∀ i, ((Tasks.flushed s t r).tasks i).phase.ending = (s.tasks i).phase.ending := by
    intro i
    rcases eq_or_ne i t with rfl | hi
    · rw [hself, hphase]
      rfl
    · rw [hother i hi]
  have hinfo : ∀ q, ((Tasks.flushed s t r).infos q).cancelled = (s.infos q).cancelled ∧
      ((Tasks.flushed s t r).infos q).event = (s.infos q).event := fun q =>
    ⟨setInfo_eq (·.cancelled) (by rfl) q, setInfo_eq (·.event) (by rfl) q⟩
  have hfrees : ((Tasks.flushed s t r).infos r).frees = 1 := by
    change ((State.free s r).infos r).frees = 1
    rw [State.free, setInfo_self, h.frees_of_holds hholder]
  have hfrees' : ∀ q, q ≠ r → ((Tasks.flushed s t r).infos q).frees = (s.infos q).frees := by
    intro q hq
    exact congrArg RequestInfo.frees (setInfo_other hq)
  have hcancelled := h.holder t r hholder
  refine ⟨fun f q hf => ?_, fun f f' q hf hf' => ?_, fun q => ?_, fun f q hf => ?_, fun q hq => ?_,
    fun q hq => ?_, fun q owned hq => ?_, h.used⟩
  · rw [(hinfo q).1]
    exact h.holder f q ((hholds f q).mp hf).2
  · exact h.unique f f' q ((hholds f q).mp hf).2 ((hholds f' q).mp hf').2
  · rw [(hinfo q).2, hending]
    exact h.event q
  · rw [(hinfo q).2]
    rcases eq_or_ne f t with rfl | hft
    · rw [hself] at hf
      cases hf
    · rw [hother f hft] at hf
      exact h.woken f q hf
  · rw [(hinfo q).1] at hq
    have hqr : q ≠ r := by
      rintro rfl
      rw [hcancelled] at hq
      cases hq
    rw [hfrees' q hqr, hending]
    exact h.tracker q hq
  · rw [(hinfo q).1] at hq
    rw [(hinfo q).2]
    simp only [hholds, ne_eq, not_and]
    rcases eq_or_ne q r with rfl | hqr
    · exact .inr ⟨hfrees, fun f hf hfq => hf (h.unique f t q hfq hholder), hset⟩
    · rw [hfrees' q hqr]
      refine (h.taken q hq).imp (fun htaken => ⟨htaken.1, ?_⟩)
        fun hfreed => ⟨hfreed.1, fun f _ => hfreed.2.1 f, hfreed.2.2⟩
      obtain ⟨f, hf⟩ := htaken.2
      refine ⟨f, ?_, hf⟩
      rintro rfl
      rw [hholder] at hf
      exact hqr (Option.some.inj hf).symm
  · rw [hending] at hq
    rw [(hinfo q).1]
    exact h.released q owned hq

theorem release (h : Owned s) (hphase : (s.tasks t).phase = .removed) : Owned (release s t) := by
  have hending : (s.tasks t).phase.ending = .absent := by
    rw [hphase]
    rfl
  have hself : ((Tasks.release s t).tasks t).phase = .setting !(s.infos t).cancelled := setPhase_self
  have hother : ∀ i, i ≠ t → ((Tasks.release s t).tasks i).phase = (s.tasks i).phase := fun i hi =>
    congrArg Task.phase (setPhase_other hi)
  have hfrees : (s.infos t).frees = 0 := h.frees_eq_zero (by rw [hending]; rfl)
  have hunset : (s.infos t).event ≠ .set := by
    rw [Ne, h.event, hending]
    simp [Phase.signalled]
  refine h.destructor (t := t) (fun _ _ => rfl) rfl (fun i => ?_) (fun i hi => ?_) (fun f q hf => ?_) ?_ id
    (fun _ => ?_) (fun _ => rfl) (fun owned howned => ?_) (h.use_one hfrees)
  · rcases eq_or_ne i t with rfl | hi
    · rw [hself, hphase]
      rfl
    · rw [hother i hi]
  · rw [hother i hi]
  · rcases eq_or_ne f t with rfl | hft
    · rw [hself] at hf
      cases hf
    · rw [hother f hft] at hf
      exact h.woken f q hf
  · rw [hself]
    exact iff_of_false hunset (by simp [Phase.ending, Phase.signalled])
  · rw [hself]
    exact hfrees
  · rw [hself] at howned
    simpa [Phase.ending, eq_comm] using howned

theorem setEvent (h : Owned s) (hsane : Sane s) {owned : Bool}
    (hphase : (s.tasks t).phase = .setting owned) : Owned (setEvent s t owned) := by
  have hending : (s.tasks t).phase.ending = .setting owned := by
    rw [hphase]
    rfl
  have hfrees : (s.infos t).frees = 0 := h.frees_eq_zero (by rw [hending]; rfl)
  have hinfo : (Tasks.setEvent s t owned).infos t = { s.infos t with event := .set } := setInfo_self
  have hwait : ∀ f, f ∈ (s.infos t).event.waiters ↔ (s.tasks f).phase = .waiting t := fun f =>
    (hsane.waiters.event t f).trans suspension_some
  have hcases : ∀ f, f ≠ t → ((Tasks.setEvent s t owned).tasks f).phase = (s.tasks f).phase ∨
      ((s.tasks f).phase = .waiting t ∧
        ((Tasks.setEvent s t owned).tasks f).phase = .woken t) := by
    intro f hf
    rw [setEvent_other hf]
    split
    next hmem => exact .inr ⟨(hwait f).mp hmem, rfl⟩
    next => exact .inl rfl
  refine h.destructor (t := t) (fun q hq => setInfo_other hq) ?_ (fun i => ?_) (fun i hi => ?_)
    (fun f q hf => ?_) ?_ (fun _ => ?_) (fun _ => ?_) (fun _ => ?_) (fun owned' howned => ?_)
    (h.use_one hfrees)
  · rw [hinfo]
  · rcases eq_or_ne i t with rfl | hi
    · rw [setEvent_self, hphase]
      rfl
    · rcases hcases i hi with hsame | ⟨hwaits, hwoken⟩
      · rw [hsame]
      · rw [hwaits, hwoken]
        rfl
  · rcases hcases i hi with hsame | ⟨hwaits, hwoken⟩
    · rw [hsame]
    · rw [hwaits, hwoken]
      rfl
  · rcases eq_or_ne f t with rfl | hft
    · rw [setEvent_self] at hf
      cases hf
    · rcases eq_or_ne q t with rfl | hqt
      · rw [hinfo]
      · rcases hcases f hft with hsame | ⟨-, hwoken⟩
        · rw [hsame] at hf
          exact (congrArg RequestInfo.event (setInfo_other hqt)).trans (h.woken f q hf)
        · rw [hwoken] at hf
          exact absurd (Phase.woken.inj hf).symm hqt
  · rw [hinfo, setEvent_self]
    exact iff_of_true rfl rfl
  · rw [hinfo]
  · rw [hinfo, setEvent_self]
    exact hfrees
  · rw [hinfo]
  · rw [setEvent_self] at howned
    rcases howned with howned | howned
    · cases howned
    · obtain rfl := Phase.finishing.inj howned
      exact h.released t owned (.inl hending)

theorem finish (h : Owned s) {owned : Bool} (hphase : (s.tasks t).phase = .finishing owned) :
    Owned (finish s t owned) := by
  have hending : (s.tasks t).phase.ending = .finishing owned := by
    rw [hphase]
    rfl
  have howned : owned = !(s.infos t).cancelled := h.released t owned (.inr hending)
  have hset : (s.infos t).event = .set := (h.event t).mpr (by rw [hending]; rfl)
  have hself : ((Tasks.finish s t owned).tasks t).phase = .done := setPhase_self
  have htasks : (if owned then s.free t else s).tasks = s.tasks := by cases owned <;> rfl
  have hother : ∀ i, i ≠ t → ((Tasks.finish s t owned).tasks i).phase = (s.tasks i).phase := by
    intro i hi
    refine (congrArg Task.phase (setPhase_other hi)).trans ?_
    exact congrFun (congrArg (fun f i => (f i).phase) htasks) i
  have hinfos : (Tasks.finish s t owned).infos = (if owned then s.free t else s).infos := rfl
  have hinfo : ∀ q, q ≠ t → (Tasks.finish s t owned).infos q = s.infos q := by
    intro q hq
    rw [hinfos]
    cases owned with
    | false => rfl
    | true => exact setInfo_other hq
  have hcancelled : ((Tasks.finish s t owned).infos t).cancelled = (s.infos t).cancelled ∧
      ((Tasks.finish s t owned).infos t).event = (s.infos t).event := by
    rw [hinfos]
    cases owned with
    | false => exact ⟨rfl, rfl⟩
    | true => exact ⟨setInfo_eq (·.cancelled) (by rfl) t, setInfo_eq (·.event) (by rfl) t⟩
  have hused : (Tasks.finish s t owned).misused = false := by
    cases owned <;> exact h.used
  refine h.destructor (t := t) hinfo hcancelled.1 (fun i => ?_) (fun i hi => ?_) (fun f q hf => ?_) ?_
    (fun _ => ?_) (fun hnot => ?_) (fun hc => ?_) (fun owned' howned' => ?_) hused
  · rcases eq_or_ne i t with rfl | hi
    · rw [hself, hphase]
      rfl
    · rw [hother i hi]
  · rw [hother i hi]
  · rcases eq_or_ne f t with rfl | hft
    · rw [hself] at hf
      cases hf
    · rw [hother f hft] at hf
      have hq := h.woken f q hf
      rcases eq_or_ne q t with rfl | hqt
      · rw [hcancelled.2, hq]
      · rw [hinfo q hqt, hq]
  · rw [hcancelled.2, hself]
    exact iff_of_true hset rfl
  · rw [hcancelled.2, hset]
  · rw [hnot] at howned
    subst howned
    have hzero : (s.infos t).frees = 0 := by
      rw [h.tracker t hnot, hending]
      rfl
    rw [hself, hinfos]
    change ((State.free s t).infos t).frees = 1
    rw [State.free, setInfo_self, hzero]
  · rw [hc] at howned
    subst howned
    rfl
  · rw [hself] at howned'
    rcases howned' with howned' | howned' <;> cases howned'

theorem use (h : Owned s) {is : List Nat} (hused : (s.use is).misused = false) : Owned (s.use is) :=
  h.frame (fun _ => ⟨rfl, rfl, Iff.rfl⟩) (fun _ => rfl) (fun _ => rfl) h.woken hused

theorem fields (h : Owned s) (hinfos : s'.infos = s.infos) (htasks : s'.tasks = s.tasks)
    (hused : s'.misused = s.misused) : Owned s' := by
  refine h.frame (fun r => ?_) (fun i => ?_) (fun i => ?_) (fun f r => ?_) (hused.trans h.used)
  · rw [hinfos]
    exact ⟨rfl, rfl, Iff.rfl⟩
  · rw [htasks]
  · rw [htasks]
  · rw [htasks]
    exact h.woken f r

theorem handleFlush (h : Owned s) (hsane : Sane s) {oldTag : UInt16}
    (hphase : (s.tasks t).phase = .handling) : Owned (handleFlush s t oldTag) := by
  have hused := h.use (h.use_requests hsane)
  unfold Tasks.handleFlush
  cases hsearch : search s oldTag with
  | none => exact hused.goesOn hphase rfl rfl fun _ hwoken => by cases hwoken
  | some r =>
    obtain ⟨hmem, -, hnew⟩ := mem_of_search hsearch
    have hlisted : (s.tasks r).phase.ending = .absent := by
      rcases (hsane.registry.mem r).mp hmem with hpart | hpart <;>
        cases hphase' : (s.tasks r).phase <;> rw [hphase'] at hpart <;> first | rfl | cases hpart
    change Owned (((s.use s.requests).setInfo r { s.infos r with cancelled := true }).setPhase t (.found r))
    have hinfo : (((s.use s.requests).setInfo r { s.infos r with cancelled := true }).setPhase t
        (.found r)).infos r = { s.infos r with cancelled := true } := setInfo_self
    refine hused.taken_over (t := t) hnew hlisted ?_ (fun q hq => setInfo_other hq) ?_ (fun i hi => ?_)
      ?_ (fun i => ?_) (fun f q hf => ?_) hused.used
    · rw [hinfo]
      exact ⟨rfl, rfl, rfl⟩
    · rw [setPhase_self]
      rfl
    · exact congrArg (fun th => th.phase.holds) (setPhase_other hi)
    · exact congrArg Phase.holds hphase
    · refine setPhase_eq (·.phase.ending) ?_ i
      exact (congrArg Phase.ending hphase).symm
    · rcases eq_or_ne f t with rfl | hft
      · rw [setPhase_self] at hf
        cases hf
      · exact (congrArg Task.phase (setPhase_other hft)).symm.trans hf

theorem awaitEvent (h : Owned s) (hphase : (s.tasks t).phase = .found r) :
    Owned (awaitEvent s t r) := by
  have hholds : (s.tasks t).phase.holds = some r := by
    rw [hphase]
    rfl
  have hused := h.use (h.use_one (h.frees_of_holds hholds))
  cases hevent : (s.infos r).event with
  | set =>
    rw [awaitEvent_set hevent]
    refine hused.goesOn hphase rfl rfl fun q hq => ?_
    cases hq
    exact hevent
  | unset waiters =>
    rw [awaitEvent_unset hevent]
    refine Owned.goesOn (hused.frame (fun q => ?_) (fun _ => rfl) (fun _ => rfl) hused.woken hused.used)
      hphase rfl rfl fun q hq => by cases hq
    refine ⟨setInfo_eq (·.cancelled) (by rfl) q, setInfo_eq (·.frees) (by rfl) q, ?_⟩
    rcases eq_or_ne q r with rfl | hq
    · rw [setInfo_self]
      simp [State.use, hevent]
    · rw [setInfo_other hq]

theorem unlockSocket (h : Owned s) (hsane : Sane s) {next : Phase} (hphase : (s.tasks t).phase = p)
    (hsusp : p.suspension = none) (hholds : next.holds = p.holds) (hending : next.ending = p.ending)
    (hwoken : ∀ r, next ≠ .woken r) : Owned (unlockSocket s t next) := by
  have ht : (s.tasks t).phase.suspension = none := by rw [hphase, hsusp]
  have hgone : Owned ({ s with socketLock := s.socketLock.unlock.1 }.setPhase t next) :=
    Owned.goesOn (h.fields rfl rfl rfl) hphase hholds hending fun r hr => absurd hr (hwoken r)
  obtain ⟨-, -, -, heq⟩ | ⟨w, hne, hw, -, -, heq⟩ := hsane.waiters.unlock_cases ht next
  · rw [heq]
    exact hgone
  · rw [heq]
    refine hgone.goesOn (p := .locking) ?_ rfl rfl fun _ hwoken => by cases hwoken
    rw [setPhase_other hne]
    exact hw

theorem step (h : Owned s) (hsane : Sane s) (hs : step s a = some s') : Owned s' := by
  cases step_cases hs with
  | check _ | stop _ | shutdown _ | wait _ _ => exact h.fields rfl rfl rfl
  | @receive tag oldTag _ =>
    have hreceived : Owned ((s.use s.requests).setTask s.count
        { tag := tag, oldTag := oldTag, phase := .acquiring }) :=
      (h.use (h.use_requests hsane)).goesOn hsane.registry.next rfl rfl fun _ hwoken => by cases hwoken
    exact hreceived.fields rfl rfl rfl
  | spawn hloop _ =>
    refine Owned.goesOn (h.fields rfl rfl rfl) (hsane.registry.last hloop) rfl rfl fun _ hwoken => ?_
    cases hwoken
  | handle hphase _ => exact h.goesOn hphase rfl rfl fun _ hwoken => by cases hwoken
  | flush hphase _ => exact h.handleFlush hsane hphase
  | await hphase => exact h.awaitEvent hphase
  | flushed hphase => exact h.flushed hphase
  | @lock t hphase =>
    unfold lockSocket
    by_cases hsusp : (s.socketLock.lock t).2 = true
    · simp only [hsusp, if_true]
      exact Owned.goesOn (h.fields rfl rfl rfl) hphase rfl rfl fun _ hwoken => by cases hwoken
    · simp only [hsusp, Bool.false_eq_true, if_false]
      exact Owned.goesOn (h.fields rfl rfl rfl) hphase rfl rfl fun _ hwoken => by cases hwoken
  | @send t n hphase _ _ =>
    unfold sendBytes
    by_cases hmore : (s.tasks t).totalSent + n < (s.tasks t).response.length
    · simp only [hmore, if_true]
      exact Owned.goesOn (h.fields rfl rfl rfl) hphase rfl rfl fun _ hwoken => by cases hwoken
    · simp only [hmore, if_false]
      exact Owned.goesOn (h.fields rfl rfl rfl) hphase rfl rfl fun _ hwoken => by cases hwoken
  | block hphase => exact h.goesOn hphase rfl rfl fun _ hwoken => by cases hwoken
  | error hphase =>
    exact Owned.goesOn (h.fields rfl rfl rfl) hphase rfl rfl fun _ hwoken => by cases hwoken
  | ready hphase => exact h.goesOn hphase rfl rfl fun _ hwoken => by cases hwoken
  | cancelled hphase _ => exact h.goesOn hphase rfl rfl fun _ hwoken => by cases hwoken
  | unlockSent hphase => exact h.unlockSocket hsane hphase rfl rfl rfl fun _ => by simp
  | unlockFailed hphase => exact h.unlockSocket hsane hphase rfl rfl rfl fun _ => by simp
  | caught hphase =>
    exact Owned.goesOn (h.fields rfl rfl rfl) hphase rfl rfl fun _ hwoken => by cases hwoken
  | remove hphase =>
    refine Owned.goesOn (Owned.fields (h.use (h.use_requests hsane)) rfl rfl rfl) hphase rfl rfl ?_
    intro _ hwoken
    cases hwoken
  | release hphase => exact h.release hphase
  | set hphase => exact h.setEvent hsane hphase
  | finish hphase => exact h.finish hphase

end Owned

end WslFreeBSD.Plan9.Tasks
