import Mathlib.Algebra.Order.BigOperators.Group.Finset
import WslFreeBSD.Plan9.RequestOwners

/-!
# The order of the responses to a Tflush
-/

namespace WslFreeBSD.Plan9.Tasks

open Lib

variable {s s' : State} {a : Act} {t f r i n : Nat} {p : Phase} {tag : UInt16}

/-! ## The semaphore -/

/-- The task has acquired the semaphore and not yet released it. -/
def Phase.running : Phase → Bool
  | .absent | .acquiring | .done => false
  | _ => true

def running (s : State) : Finset Nat :=
  (Finset.range s.count).filter fun i => (s.tasks i).phase.running = true

/-- The permits are with the semaphore, with the tasks, and in the end with `Run`. -/
def Balanced (s : State) : Prop :=
  s.permits + (running s).card + (if s.loop = .ended then maximumMessages else 0) = maximumMessages

theorem running_of_moves (h : StaysOrMoves s a s' i) (hspawn : a ≠ .spawn) (hfinish : a ≠ .finish i) :
    (s'.tasks i).phase.running = (s.tasks i).phase.running := by
  rcases h with hstays | hmoves
  · rw [hstays]
  · generalize (s.tasks i).phase = p at hmoves ⊢
    generalize (s'.tasks i).phase = p' at hmoves ⊢
    cases hmoves with
    | spawn ha => exact absurd ha hspawn
    | finish _ ha => exact absurd ha hfinish
    | _ => rfl

theorem mem_running (h : Sane s) : i ∈ running s ↔ (s.tasks i).phase.running = true := by
  rw [running, Finset.mem_filter, Finset.mem_range]
  refine and_iff_right_of_imp fun hrunning => ?_
  refine lt_count_of_part h fun habsent => ?_
  rw [absent_of_part habsent] at hrunning
  cases hrunning

theorem running_step (h : Sane s) (hs : step s a = some s') (hspawn : a ≠ .spawn)
    (hfinish : ∀ t, a ≠ .finish t) : running s' = running s := by
  ext i
  rw [mem_running (h.step hs), mem_running h, running_of_moves (step_moves h hs i) hspawn (hfinish i)]

/-- Only `Run`, and a task that is spawned or finishes, change the semaphore. -/
theorem step_permits (hs : step s a = some s') (hspawn : a ≠ .spawn) (hfinish : ∀ t, a ≠ .finish t)
    (hwait : a ≠ .wait) : s'.permits = s.permits ∧ (s'.loop = .ended ↔ s.loop = .ended) := by
  cases step_cases hs with
  | check hloop =>
    refine ⟨rfl, iff_of_false ?_ (by simp [hloop])⟩
    dsimp only
    split <;> simp
  | receive hloop | stop hloop | shutdown hloop => exact ⟨rfl, iff_of_false (by simp) (by simp [hloop])⟩
  | spawn _ _ => exact absurd rfl hspawn
  | wait _ _ => exact absurd rfl hwait
  | @finish t _ _ => exact absurd rfl (hfinish t)
  | unlockSent _ | unlockFailed _ =>
    rw [unlockSocket_fields]
    exact ⟨rfl, Iff.rfl⟩
  | @flush t oldTag _ _ =>
    unfold handleFlush
    cases search s oldTag <;> exact ⟨rfl, Iff.rfl⟩
  | _ => exact ⟨rfl, Iff.rfl⟩

theorem Balanced.step (h : Balanced s) (hsane : Sane s) (hs : Tasks.step s a = some s') :
    Balanced s' := by
  have hsane' := hsane.step hs
  unfold Balanced at h ⊢
  by_cases hother : a ≠ .spawn ∧ (∀ t, a ≠ .finish t) ∧ a ≠ .wait
  · obtain ⟨hspawn, hfinish, hwait⟩ := hother
    obtain ⟨hpermits, hloop⟩ := step_permits hs hspawn hfinish hwait
    simp only [running_step hsane hs hspawn hfinish, hpermits, hloop]
    exact h
  cases step_cases hs with
  | spawn hloop hpermits =>
    have hnew : running ({ s with loop := .top, permits := s.permits - 1 }.setPhase (s.count - 1)
        .handling) = insert (s.count - 1) (running s) := by
      ext i
      rw [mem_running hsane', Finset.mem_insert, mem_running hsane]
      rcases eq_or_ne i (s.count - 1) with rfl | hi
      · simp [Phase.running]
      · rw [setPhase_other hi]
        simp [hi]
    have hnot : s.count - 1 ∉ running s := by
      rw [mem_running hsane, hsane.registry.last hloop]
      simp [Phase.running]
    rw [hnew, Finset.card_insert_of_notMem hnot]
    simp only [hloop, reduceCtorEq, if_false] at h
    simp only [State.setPhase, State.setTask, reduceCtorEq, if_false]
    omega
  | @finish t owned hphase =>
    have htask : (finish s t owned).tasks = Function.update s.tasks t { s.tasks t with phase := .done } := by
      cases owned <;> rfl
    have hnew : running (finish s t owned) = (running s).erase t := by
      ext i
      rw [mem_running hsane', Finset.mem_erase, mem_running hsane, htask]
      rcases eq_or_ne i t with rfl | hi
      · simp [Phase.running]
      · simp [hi]
    have hmem : t ∈ running s := by
      rw [mem_running hsane, hphase]
      rfl
    have hcard := Finset.card_pos.mpr ⟨t, hmem⟩
    have hpermits : (finish s t owned).permits = s.permits + 1 := by cases owned <;> rfl
    have hloop : (finish s t owned).loop = s.loop := by cases owned <;> rfl
    rw [hnew, Finset.card_erase_of_mem hmem, hpermits, hloop]
    omega
  | wait hloop hpermits =>
    have hnew : running { s with loop := .ended, permits := s.permits - maximumMessages } = running s := rfl
    simp only [hloop, reduceCtorEq, if_false] at h
    simp only [hnew, if_true]
    omega
  | _ => simp at hother

theorem Balanced.init : Balanced {} := by
  simp [Balanced, running]

theorem Balanced.done (h : Balanced s) (hsane : Sane s) (hloop : s.loop = .ended) (hi : i < s.count) :
    (s.tasks i).phase = .done := by
  have hcard : (running s).card = 0 := by
    unfold Balanced at h
    simp only [hloop, if_true] at h
    omega
  have hnot : (s.tasks i).phase.running ≠ true := by
    rw [Ne, ← mem_running hsane, Finset.card_eq_zero.mp hcard]
    simp
  have hpart : (s.tasks i).phase.part ≠ .absent := by
    rw [Ne, hsane.registry.count]
    exact not_le.mpr hi
  have hacq : (s.tasks i).phase.part ≠ .acquiring := by
    rw [Ne, hsane.registry.acquiring, hloop]
    simp
  cases hphase : (s.tasks i).phase <;> rw [hphase] at hnot hpart hacq <;>
    simp [Phase.running, Phase.part] at hnot hpart hacq

/-! ## What a Tflush names -/

def Phase.replied : Phase → Bool
  | .absent | .acquiring | .handling | .found _ | .waiting _ | .woken _ => false
  | _ => true

def Phase.over : Phase → Bool
  | .sent | .failed | .caught | .closing | .removed | .setting _ | .finishing _ | .done => true
  | _ => false

def Answered (s : State) (r : Nat) : Prop :=
  (s.tasks r).phase.over = true ∧ (s.tasks r).totalSent = (s.tasks r).response.length

/-- The send of the response failed, or was cancelled. -/
def Failed (s : State) (r : Nat) : Prop := (s.tasks r).phase.over = true ∧ ¬ Answered s r

/-- The last of the first `n` requests with a tag. -/
def LastWithTag (s : State) (n : Nat) (tag : UInt16) (r : Nat) : Prop :=
  r < n ∧ (s.tasks r).tag = tag ∧ ∀ q, r < q → q < n → (s.tasks q).tag ≠ tag

/-- The request that a Tflush names: the last one with the tag that was received before it. -/
def Names (s : State) (f r : Nat) : Prop :=
  f < s.count ∧ ∃ oldTag, (s.tasks f).oldTag = some oldTag ∧ LastWithTag s f oldTag r

/-- A client does not use the tag of a request that is not answered, and does not send a Tflush that
names such a request if this is a Tflush itself or one was already sent for it. -/
def Disciplined (s : State) : Act → Prop
  | .receive tag oldTag =>
    (∀ r < s.count, ¬ Answered s r → (s.tasks r).tag ≠ tag) ∧
      ∀ old, oldTag = some old → ∀ r, LastWithTag s s.count old r → ¬ Answered s r →
        (s.tasks r).oldTag = none ∧ ∀ f, ¬ Names s f r
  | _ => True

/-- When `HandleFlush` searches, no other listed request has the tag of the one that the Tflush names, and
when an Rflush is sent, the send of the response to that request has not failed. -/
def Steady (s : State) : Act → Prop
  | .flush f => ∀ oldTag, (s.tasks f).oldTag = some oldTag → ∀ r ∈ s.requests,
      (s.tasks r).tag = oldTag → Names s f r
  | .send f n => 0 < n → ∀ r, Names s f r → ¬ Failed s r
  | _ => True

/-- What is to hold of Tflush requests, and of the records of all requests. -/
structure FlushSafe (s : State) : Prop where
  /-- An Rflush is sent behind the whole response to the request that was named. -/
  ordered : ∀ f r, Names s f r → 0 < (s.tasks f).totalSent → Answered s r
  /-- No request was used after it was freed, or freed twice. -/
  used : s.misused = false
  once : ∀ i, (s.infos i).frees ≤ 1
  /-- A request is freed when its task is done and no `HandleFlush` has it. -/
  freed : ∀ i, (s.tasks i).phase = .done → (∀ f, (s.tasks f).phase.holds ≠ some i) →
    (s.infos i).frees = 1
  /-- When `Run` has ended, every request is freed. -/
  ended : s.loop = .ended → ∀ i < s.count, (s.infos i).frees = 1

/-! ### Names and answers through a step -/

theorem lastWithTag_unique {q : Nat} (h : LastWithTag s n tag r) (h' : LastWithTag s n tag q) :
    r = q := by
  rcases lt_trichotomy r q with hlt | heq | hlt
  · exact absurd h'.2.1 (h.2.2 q hlt h'.1)
  · exact heq
  · exact absurd h.2.1 (h'.2.2 r hlt h.1)

theorem names_unique {q : Nat} (h : Names s f r) (h' : Names s f q) : r = q := by
  obtain ⟨-, oldTag, hold, hlast⟩ := h
  obtain ⟨-, oldTag', hold', hlast'⟩ := h'
  obtain rfl : oldTag = oldTag' := Option.some.inj (hold.symm.trans hold')
  exact lastWithTag_unique hlast hlast'

theorem lastWithTag_congr (h : ∀ i < n, (s'.tasks i).tag = (s.tasks i).tag) :
    LastWithTag s' n tag r ↔ LastWithTag s n tag r := by
  unfold LastWithTag
  refine and_congr_right fun hr => and_congr (by rw [h r hr]) ?_
  exact forall_congr' fun q => forall_congr' fun _ => forall_congr' fun hq => by rw [h q hq]

theorem names_step (hs : step s a = some s') (hf : f < s.count) :
    Names s' f r ↔ Names s f r := by
  have htags : ∀ i < s.count, (s'.tasks i).tag = (s.tasks i).tag ∧
      (s'.tasks i).oldTag = (s.tasks i).oldTag := fun i hi =>
    ⟨congrArg Prod.fst (step_tags hs hi.ne), congrArg Prod.snd (step_tags hs hi.ne)⟩
  unfold Names
  rw [(htags f hf).2]
  simp only [hf, hf.trans_le (step_count hs), true_and]
  refine exists_congr fun oldTag => and_congr_right fun _ => ?_
  exact lastWithTag_congr fun i hi => (htags i (hi.trans hf)).1

theorem over_step (h : Sane s) (hs : step s a = some s') (hover : (s.tasks i).phase.over = true) :
    (s'.tasks i).phase.over = true := by
  rcases step_moves h hs i with hstays | hmoves
  · rw [hstays]
    exact hover
  · generalize (s.tasks i).phase = p at hmoves hover
    generalize (s'.tasks i).phase = p' at hmoves
    cases hmoves <;> first | rfl | cases hover

def Task.result (th : Task) : Bytes × Nat := (th.response, th.totalSent)

theorem ne_of_over (hover : (s.tasks i).phase.over = true) (hphase : (s.tasks t).phase = p)
    (hp : p.over = false) : i ≠ t := by
  rintro rfl
  rw [hphase, hp] at hover
  cases hover

theorem result_step (hs : step s a = some s') (hi : i ≠ s.count)
    (hover : (s.tasks i).phase.over = true) : (s'.tasks i).result = (s.tasks i).result := by
  cases step_cases hs with
  | check _ | stop _ | shutdown _ | wait _ _ => rfl
  | receive _ => exact congrArg Task.result (setTask_other hi)
  | handle hphase _ => exact congrArg Task.result (setTask_other (ne_of_over hover hphase rfl))
  | @flush t oldTag hphase _ =>
    have hne := ne_of_over hover hphase rfl
    unfold handleFlush
    cases search s oldTag <;> exact congrArg Task.result (setTask_other hne)
  | flushed hphase => exact congrArg Task.result (setTask_other (ne_of_over hover hphase rfl))
  | send hphase _ _ => exact congrArg Task.result (setTask_other (ne_of_over hover hphase rfl))
  | unlockSent _ | unlockFailed _ =>
    obtain ⟨hnone, -⟩ | ⟨w, hsome, -⟩ := s.socketLock.unlock_spec
    · rw [unlockSocket_none hnone]
      exact setPhase_eq Task.result (by rfl) i
    · rw [unlockSocket_some hsome]
      exact (setPhase_eq Task.result (by rfl) i).trans (setPhase_eq Task.result (by rfl) i)
  | set _ =>
    refine (setPhase_eq Task.result (by rfl) i).trans ?_
    dsimp only
    split <;> rfl
  | finish _ =>
    refine (setPhase_eq Task.result (by rfl) i).trans ?_
    dsimp only
    split <;> rfl
  | _ => exact setTask_eq Task.result (by rfl) i

theorem answered_step (h : Sane s) (hs : step s a = some s') (hr : Answered s r) : Answered s' r := by
  have hne : r ≠ s.count := by
    refine (lt_count_of_part h fun habsent => ?_).ne
    have hover := hr.1
    rw [absent_of_part habsent] at hover
    cases hover
  have hresult := result_step hs hne hr.1
  refine ⟨over_step h hs hr.1, ?_⟩
  rw [show (s'.tasks r).totalSent = (s.tasks r).totalSent from congrArg Prod.snd hresult,
    show (s'.tasks r).response = (s.tasks r).response from congrArg Prod.fst hresult]
  exact hr.2

/-! ### The order through a step -/

/-- What keeps an Rflush behind the response. -/
structure Ordered (s : State) : Prop where
  held : ∀ f r, (s.tasks f).phase.holds = some r → Names s f r
  replied : ∀ f r, Names s f r → (s.tasks f).phase.replied = true → (s.tasks r).phase.over = true
  named : ∀ f f' r, Names s f r → Names s f' r → f = f' ∨ Answered s r
  sent : ∀ f r, Names s f r → 0 < (s.tasks f).totalSent → Answered s r

theorem Ordered.init : Ordered {} where
  held _ _ h := by cases h
  replied _ _ h := absurd h.1 (Nat.not_lt_zero _)
  named _ _ _ h := absurd h.1 (Nat.not_lt_zero _)
  sent _ _ h := absurd h.1 (Nat.not_lt_zero _)

theorem holds_step (h : Sane s) (hs : step s a = some s') (hholds : (s'.tasks f).phase.holds = some r) :
    (s.tasks f).phase.holds = some r ∨ ∃ oldTag, a = .flush f ∧ (s.tasks f).oldTag = some oldTag ∧
      search s oldTag = some r := by
  have hmoves := step_moves h hs f
  rcases hmoves with hstays | hmoves
  · rw [hstays] at hholds
    exact .inl hholds
  · generalize (s.tasks f).phase = p at hmoves ⊢
    generalize (s'.tasks f).phase = p' at hmoves hholds
    cases hmoves with
    | @find oldTag q hflush ha hsearch =>
      cases hholds
      exact .inr ⟨_, ha, hflush, hsearch⟩
    | wait | ready | wake => exact .inl hholds
    | _ => cases hholds

/-- A task that has its response now had it, or is not a Tflush, or is a Tflush that found nothing or
whose wait is over. -/
theorem replied_step (h : Sane s) (hs : step s a = some s')
    (hreplied : (s'.tasks f).phase.replied = true) :
    (s.tasks f).phase.replied = true ∨ (s.tasks f).oldTag = none ∨
      (∃ oldTag, (s.tasks f).phase = .handling ∧ (s.tasks f).oldTag = some oldTag ∧
        search s oldTag = none) ∨
      ∃ r, (s.tasks f).phase = .woken r := by
  have hmoves := step_moves h hs f
  rcases hmoves with hstays | hmoves
  · rw [hstays] at hreplied
    exact .inl hreplied
  · generalize (s.tasks f).phase = p at hmoves ⊢
    generalize (s'.tasks f).phase = p' at hmoves hreplied
    cases hmoves with
    | handle hflush => exact .inr (.inl hflush)
    | miss hflush _ hsearch => exact .inr (.inr (.inl ⟨_, rfl, hflush, hsearch⟩))
    | flushed r => exact .inr (.inr (.inr ⟨r, rfl⟩))
    | receive | spawn | find | wait | ready | wake => cases hreplied
    | _ => exact .inl rfl

theorem over_of_signalled (h : p.ending.signalled = true) : p.over = true := by
  cases p <;> first | rfl | cases h

theorem totalSent_step (hs : step s a = some s') (hi : i ≠ s.count) :
    (s'.tasks i).totalSent = (s.tasks i).totalSent ∨
      ∃ n, a = .send i n ∧ (s.tasks i).phase = .sending ∧
        (s'.tasks i).totalSent = (s.tasks i).totalSent + n := by
  cases step_cases hs with
  | check _ | stop _ | shutdown _ | wait _ _ => exact .inl rfl
  | receive _ => exact .inl (congrArg Task.totalSent (setTask_other hi))
  | @flush t oldTag _ _ =>
    unfold handleFlush
    cases search s oldTag <;> exact .inl (setTask_eq Task.totalSent (by rfl) i)
  | @send t n hphase _ _ =>
    rcases eq_or_ne i t with rfl | hne
    · exact .inr ⟨n, rfl, hphase, congrArg Task.totalSent setTask_self⟩
    · exact .inl (congrArg Task.totalSent (setTask_other hne))
  | unlockSent _ | unlockFailed _ =>
    refine .inl ?_
    obtain ⟨hnone, -⟩ | ⟨w, hsome, -⟩ := s.socketLock.unlock_spec
    · rw [unlockSocket_none hnone]
      exact setPhase_eq Task.totalSent (by rfl) i
    · rw [unlockSocket_some hsome]
      exact (setPhase_eq Task.totalSent (by rfl) i).trans (setPhase_eq Task.totalSent (by rfl) i)
  | set _ =>
    refine .inl ((setPhase_eq Task.totalSent (by rfl) i).trans ?_)
    dsimp only
    split <;> rfl
  | finish _ =>
    refine .inl ((setPhase_eq Task.totalSent (by rfl) i).trans ?_)
    dsimp only
    split <;> rfl
  | _ => exact .inl (setTask_eq Task.totalSent (by rfl) i)

theorem received_step (hs : step s a = some s') (hi : i < s'.count) (hnew : ¬ i < s.count) :
    i = s.count ∧ ∃ tag oldTag, a = .receive tag oldTag ∧
      s' = { register s tag oldTag with loop := .acquiring } := by
  have hsame : s'.count = s.count → False := fun hcount => hnew (hcount ▸ hi)
  cases step_cases hs with
  | @receive tag oldTag _ =>
    have hlt : i < s.count + 1 := hi
    exact ⟨by omega, tag, oldTag, rfl, rfl⟩
  | unlockSent _ | unlockFailed _ => exact (hsame count_unlockSocket).elim
  | @flush t oldTag _ _ =>
    refine (hsame ?_).elim
    unfold handleFlush
    cases search s oldTag <;> rfl
  | @finish t owned _ =>
    refine (hsame ?_).elim
    cases owned <;> rfl
  | _ => exact (hsame rfl).elim

theorem names_register {oldTag : Option UInt16}
    (h : Names { register s tag oldTag with loop := .acquiring } s.count r) :
    ∃ old, oldTag = some old ∧ LastWithTag s s.count old r := by
  obtain ⟨-, old, hold, hlast⟩ := h
  have hself : ({ register s tag oldTag with loop := .acquiring } : State).tasks s.count =
      { tag := tag, oldTag := oldTag, phase := .acquiring } := setTask_self
  rw [hself] at hold
  refine ⟨old, hold, (lastWithTag_congr fun i hi => ?_).mp hlast⟩
  exact congrArg Task.tag (setTask_other hi.ne)

theorem mem_of_names (h : Sane s) (hnames : Names s f r) (hover : (s.tasks r).phase.over = false) :
    r ∈ s.requests := by
  obtain ⟨hf, oldTag, -, hr, -⟩ := hnames
  have hpart : (s.tasks r).phase.part ≠ .absent := by
    rw [Ne, h.registry.count]
    exact not_le.mpr (hr.trans hf)
  rw [h.registry.mem]
  cases hphase : (s.tasks r).phase <;> rw [hphase] at hpart hover <;>
    simp [Phase.part, Phase.over] at hpart hover ⊢

theorem over_of_miss (h : Ordered s) (hsane : Sane s) (howned : Owned s) {oldTag : UInt16}
    (hphase : (s.tasks f).phase = .handling) (hflush : (s.tasks f).oldTag = some oldTag)
    (hsearch : search s oldTag = none) (hnames : Names s f r) :
    (s.tasks r).phase.over = true := by
  by_contra hover
  have hover : (s.tasks r).phase.over = false := by simpa using hover
  have htag : (s.tasks r).tag = oldTag := by
    obtain ⟨-, oldTag', hflush', hlast⟩ := hnames
    obtain rfl : oldTag = oldTag' := Option.some.inj (hflush.symm.trans hflush')
    exact hlast.2.1
  -- the request is still in the list, so that another Tflush has taken it over
  have hcancelled : (s.infos r).cancelled = true := by
    have hnot := List.find?_eq_none.mp hsearch r (mem_of_names hsane hnames hover)
    simpa [htag] using hnot
  rcases howned.taken r hcancelled with ⟨-, g, hg⟩ | ⟨-, -, hset⟩
  · rcases h.named f g r hnames (h.held g r hg) with rfl | hanswered
    · rw [hphase] at hg
      cases hg
    · rw [hanswered.1] at hover
      cases hover
  · rw [over_of_signalled ((howned.event r).mp hset)] at hover
    cases hover

theorem answered_of_received (hclient : Disciplined s a) (hs : step s a = some s')
    (hnames : Names s' f r) (hnew : ¬ f < s.count) {f' : Nat} (hother : Names s f' r) :
    Answered s r := by
  obtain ⟨rfl, tag, oldTag, rfl, rfl⟩ := received_step hs hnames.1 hnew
  obtain ⟨old, rfl, hlast⟩ := names_register hnames
  by_contra hnot
  exact (hclient.2 old rfl r hlast hnot).2 f' hother

theorem Ordered.step (h : Ordered s) (hsane : Sane s) (howned : Owned s)
    (hclient : Disciplined s a) (hsteady : Steady s a) (hs : Tasks.step s a = some s') :
    Ordered s' := by
  have hkeep : ∀ f r, f < s.count → (Names s' f r ↔ Names s f r) := fun f r hf => names_step hs hf
  refine ⟨fun f r hholds => ?_, fun f r hnames hreplied => ?_, fun f f' r hf hf' => ?_,
    fun f r hnames hsent => ?_⟩
  · have hnames : Names s f r := by
      rcases holds_step hsane hs hholds with hheld | ⟨oldTag, rfl, hflush, hsearch⟩
      · exact h.held f r hheld
      · obtain ⟨hmem, htag, -⟩ := mem_of_search hsearch
        exact hsteady oldTag hflush r hmem htag
    exact (hkeep f r hnames.1).mpr hnames
  · by_cases hf : f < s.count
    · rw [hkeep f r hf] at hnames
      refine over_step hsane hs ?_
      rcases replied_step hsane hs hreplied with hold | hnone | ⟨oldTag, hphase, hflush, hsearch⟩ | ⟨q, hq⟩
      · exact h.replied f r hnames hold
      · obtain ⟨-, oldTag, hflush, -⟩ := hnames
        rw [hnone] at hflush
        cases hflush
      · exact over_of_miss h hsane howned hphase hflush hsearch hnames
      · have hheld : Names s f q := h.held f q (by rw [hq]; rfl)
        obtain rfl := names_unique hheld hnames
        exact over_of_signalled ((howned.event q).mp (howned.woken f q hq))
    · obtain ⟨rfl, tag, oldTag, -, rfl⟩ := received_step hs hnames.1 hf
      change ((State.setTask _ s.count _).tasks s.count).phase.replied = true at hreplied
      rw [setTask_self] at hreplied
      cases hreplied
  · by_cases hold : f < s.count <;> by_cases hold' : f' < s.count
    · rcases h.named f f' r ((hkeep f r hold).mp hf) ((hkeep f' r hold').mp hf') with heq | hanswered
      · exact .inl heq
      · exact .inr (answered_step hsane hs hanswered)
    · exact .inr (answered_step hsane hs
        (answered_of_received hclient hs hf' hold' ((hkeep f r hold).mp hf)))
    · exact .inr (answered_step hsane hs
        (answered_of_received hclient hs hf hold ((hkeep f' r hold').mp hf')))
    · exact .inl ((received_step hs hf.1 hold).1.trans (received_step hs hf'.1 hold').1.symm)
  · by_cases hf : f < s.count
    · rw [hkeep f r hf] at hnames
      refine answered_step hsane hs ?_
      rcases totalSent_step hs hf.ne with hsame | ⟨n, rfl, hphase, hmore⟩
      · rw [hsame] at hsent
        exact h.sent f r hnames hsent
      · by_cases hn : 0 < n
        · have hover := h.replied f r hnames (by rw [hphase]; rfl)
          by_contra hnot
          exact hsteady hn r hnames ⟨hover, hnot⟩
        · exact h.sent f r hnames (by omega)
    · obtain ⟨rfl, tag, oldTag, -, rfl⟩ := received_step hs hnames.1 hf
      change 0 < ((State.setTask _ s.count _).tasks s.count).totalSent at hsent
      rw [setTask_self] at hsent
      cases hsent

/-! ## Runs -/

/-- Everything that holds between the steps. -/
structure Kept (s : State) : Prop where
  sane : Sane s
  owned : Owned s
  balanced : Balanced s
  ordered : Ordered s

theorem Kept.safe (h : Kept s) : FlushSafe s := by
  have hfreed : ∀ i, (s.tasks i).phase = .done → (∀ f, (s.tasks f).phase.holds ≠ some i) →
      (s.infos i).frees = 1 := by
    intro i hdone hnone
    cases hc : (s.infos i).cancelled with
    | false =>
      rw [h.owned.tracker i hc, hdone]
      rfl
    | true =>
      rcases h.owned.taken i hc with ⟨-, f, hf⟩ | ⟨hfrees, -⟩
      · exact absurd hf (hnone f)
      · exact hfrees
  refine ⟨h.ordered.sent, h.owned.used, fun i => ?_, hfreed, fun hloop i hi => ?_⟩
  · cases hc : (s.infos i).cancelled with
    | false =>
      rw [h.owned.tracker i hc]
      split <;> omega
    | true => rcases h.owned.taken i hc with ⟨hfrees, -⟩ | ⟨hfrees, -⟩ <;> omega
  · refine hfreed i (h.balanced.done h.sane hloop hi) fun f hf => ?_
    have hcount : f < s.count := by
      refine lt_count_of_part h.sane fun habsent => ?_
      rw [absent_of_part habsent] at hf
      cases hf
    rw [h.balanced.done h.sane hloop hcount] at hf
    cases hf

/-- **Tflush.** In every run of a disciplined client in which the searches meet no other request with the
tag, and no Rflush is sent behind a response whose send failed, every Rflush follows the response it
stands behind, and every request is freed once and not used afterwards. -/
theorem flush_safe (h : Reaches step (fun s a => Disciplined s a ∧ Steady s a) {} s) : FlushSafe s := by
  have hkept : Kept s := by
    refine h.invariant ⟨.init, .init, .init, .init⟩ fun s a s' hk ha hs => ?_
    exact ⟨hk.sane.step hs, hk.owned.step hk.sane hs, hk.balanced.step hk.sane hs,
      hk.ordered.step hk.sane hk.owned ha.1 ha.2 hs⟩
  exact hkept.safe

/-- The request `0` is received, and the Tflush `1` that waits for it. -/
def waitRun : List Act :=
  [.check, .receive 1 none, .spawn, .check, .receive 2 (some 1), .spawn, .flush 1, .await 1]

theorem reaches_waitRun : ∃ s, waitRun.foldlM step {} = some s ∧
    Reaches step (fun s a => Disciplined s a ∧ Steady s a) {} s := by
  obtain ⟨s₀, h₀, hcount₀⟩ : ∃ s, step {} .check = some s ∧ s.count = 0 := ⟨_, rfl, rfl⟩
  obtain ⟨s₁, h₁, hcount₁, htag₁, hflush₁⟩ : ∃ s,
      [Act.receive 1 none, .spawn, .check].foldlM step s₀ = some s ∧ s.count = 1 ∧
        (s.tasks 0).tag = 1 ∧ (s.tasks 0).oldTag = none := by
    cases h₀
    exact ⟨_, rfl, rfl, rfl, rfl⟩
  obtain ⟨s₂, h₂, hcount₂, hrequests₂, htag₂, hflush₂⟩ : ∃ s,
      [Act.receive 2 (some 1), .spawn].foldlM step s₁ = some s ∧ s.count = 2 ∧
        s.requests = [0, 1] ∧ (s.tasks 1).tag = 2 ∧ (s.tasks 1).oldTag = some 1 := by
    cases h₀
    cases h₁
    exact ⟨_, rfl, rfl, rfl, rfl, rfl⟩
  obtain ⟨s₃, h₃⟩ : ∃ s, [Act.flush 1, .await 1].foldlM step s₂ = some s := by
    cases h₀
    cases h₁
    cases h₂
    exact ⟨_, rfl⟩
  have hwhole : waitRun.foldlM step {} = some s₃ := by
    cases h₀
    cases h₁
    cases h₂
    exact h₃
  have hfirst : Disciplined s₀ (.receive 1 none) := by
    refine ⟨fun r hr => ?_, fun old hold => ?_⟩
    · rw [hcount₀] at hr
      exact absurd hr (Nat.not_lt_zero r)
    · cases hold
  have hsecond : Disciplined s₁ (.receive 2 (some 1)) := by
    refine ⟨fun r hr _ => ?_, fun old _ r hlast _ => ⟨?_, fun f hnames => ?_⟩⟩
    · rw [hcount₁] at hr
      obtain rfl : r = 0 := by omega
      rw [htag₁]
      decide
    · have hr := hlast.1
      rw [hcount₁] at hr
      obtain rfl : r = 0 := by omega
      exact hflush₁
    · obtain ⟨hf, oldTag, hflush, -⟩ := hnames
      rw [hcount₁] at hf
      obtain rfl : f = 0 := by omega
      rw [hflush₁] at hflush
      cases hflush
  have hsearch : Steady s₂ (.flush 1) := by
    intro oldTag hflush r hmem htag
    obtain rfl : 1 = oldTag := Option.some.inj (hflush₂.symm.trans hflush)
    rw [hrequests₂] at hmem
    rcases List.mem_pair.mp hmem with rfl | rfl
    · exact ⟨by omega, 1, hflush₂, Nat.one_pos, htag, fun q hq hq' => by omega⟩
    · rw [htag₂] at htag
      exact absurd htag (by decide)
  refine ⟨s₃, hwhole, ?_⟩
  have hcheck : Disciplined {} .check ∧ Steady {} .check := ⟨trivial, trivial⟩
  have hflush : Disciplined s₂ (.flush 1) ∧ Steady s₂ (.flush 1) := ⟨trivial, hsearch⟩
  have hreach₀ := Reaches.start.step (C := fun s a => Disciplined s a ∧ Steady s a) hcheck h₀
  have hreach₁ := hreach₀.foldlM_cons ⟨hfirst, trivial⟩ (by simp [Disciplined, Steady]) h₁
  have hreach₂ := hreach₁.foldlM_cons ⟨hsecond, trivial⟩ (by simp [Disciplined, Steady]) h₂
  exact hreach₂.foldlM_cons hflush (by simp [Disciplined, Steady]) h₃

/-- The Tflush `1` waits for the request `0`. -/
theorem flush_safe_waiting : ∃ s, (s.tasks 1).phase = .waiting 0 ∧ FlushSafe s := by
  obtain ⟨s, hs, hreach⟩ := reaches_waitRun
  refine ⟨s, ?_, flush_safe hreach⟩
  cases hs
  rfl

/-! ## A response that is cut off -/

/-- `send` takes three bytes of the response, the client closes its side of the connection, and the send
is cancelled. The Tflush is woken, and its response is sent behind the three bytes. -/
def cutRun : List Act :=
  [.handle 0 117 [], .lock 0, .send 0 3, .block 0, .check, .stop, .shutdown, .cancelled 0, .unlock 0,
    .caught 0, .remove 0, .release 0, .set 0, .flushed 1, .lock 1, .send 1 7]

theorem rflush_behind_cut :
    ¬ ∀ s, Reaches step Disciplined {} s → FlushSafe s := by
  intro h
  obtain ⟨s, hs, hreach⟩ := reaches_waitRun
  obtain ⟨s', hs', hcount, hflush, htag, hsent, hcut⟩ : ∃ s', cutRun.foldlM step s = some s' ∧
      s'.count = 2 ∧ (s'.tasks 1).oldTag = some 1 ∧ (s'.tasks 0).tag = 1 ∧
        (s'.tasks 1).totalSent = 7 ∧ (s'.tasks 0).totalSent ≠ (s'.tasks 0).response.length := by
    cases hs
    exact ⟨_, rfl, rfl, rfl, rfl, rfl, by decide⟩
  have hsafe : FlushSafe s' :=
    h s' ((hreach.mono fun _ _ hC => hC.1).foldlM (by simp [cutRun, Disciplined]) hs')
  have hnames : Names s' 1 0 :=
    ⟨by omega, 1, hflush, Nat.one_pos, htag, fun q hq hq' => by omega⟩
  exact hcut (hsafe.ordered 1 0 hnames (by omega)).2

end WslFreeBSD.Plan9.Tasks
