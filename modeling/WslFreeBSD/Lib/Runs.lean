import Mathlib.Data.List.Basic
import Mathlib.Data.List.Infix

/-!
# Runs of an event loop and their histories

A loop body maps a state and the input of one pass to the next state (`Sum.inl`) or to the
state in which the loop is left (`Sum.inr`). `runLoop` iterates it over a list of inputs. An
invariant that every pass keeps holds in every state the loop reaches and gives the
postcondition of every way out (`runLoop_inv`); `Meets` restricts this to the runs in which
every pass meets a condition on its state and input (`runLoop_inv_of_meets`).

The second half is about histories (lists of events, oldest first). `Preceded R t` says that
every event is one that `R` allows after the history before it.
-/

namespace WslFreeBSD.Lib

variable {σ ρ ι : Type*}

def runLoop (step : σ → ι → σ ⊕ ρ) : σ → List ι → σ ⊕ ρ
  | s, [] => .inl s
  | s, i :: is =>
    match step s i with
    | .inl s' => runLoop step s' is
    | .inr r => .inr r

theorem runLoop_append {step : σ → ι → σ ⊕ ρ} {s s' : σ} {is : List ι} (js : List ι)
    (h : runLoop step s is = .inl s') : runLoop step s (is ++ js) = runLoop step s' js := by
  induction is generalizing s with
  | nil =>
    cases h
    rfl
  | cons i is ih =>
    rw [List.cons_append, runLoop]
    rw [runLoop] at h
    cases hr : step s i with
    | inl t =>
      rw [hr] at h
      exact ih h
    | inr r =>
      rw [hr] at h
      cases h

/-- Every pass of the run meets `C` in the state in which it starts. -/
def Meets (step : σ → ι → σ ⊕ ρ) (C : σ → ι → Prop) : σ → List ι → Prop
  | _, [] => True
  | s, i :: is => C s i ∧ ∀ s', step s i = .inl s' → Meets step C s' is

/-- `Sum.elim` at propositions: a statement about the state after a pass, by the way it ended. -/
def After (I : σ → Prop) (Q : ρ → Prop) : σ ⊕ ρ → Prop
  | .inl s => I s
  | .inr r => Q r

variable {step : σ → ι → σ ⊕ ρ} {I : σ → Prop} {Q : ρ → Prop} {C : σ → ι → Prop}

theorem runLoop_inv_of_meets (hstep : ∀ s i, I s → C s i → After I Q (step s i))
    {is : List ι} {s : σ} (hs : I s) (hC : Meets step C s is) :
    After I Q (runLoop step s is) := by
  induction is generalizing s with
  | nil => exact hs
  | cons i is ih =>
    have h := hstep s i hs hC.1
    cases hr : step s i with
    | inl s' =>
      rw [hr] at h
      simpa only [runLoop, hr] using ih h (hC.2 s' hr)
    | inr r =>
      rw [hr] at h
      simpa only [runLoop, hr] using h

theorem Meets.and_forall {P : ι → Prop} {is : List ι} {s : σ} (hP : ∀ i ∈ is, P i)
    (hC : Meets step C s is) : Meets step (fun s i => P i ∧ C s i) s is := by
  induction is generalizing s with
  | nil => trivial
  | cons i is ih =>
    have hrest : ∀ j ∈ is, P j := fun j hj => hP j (List.mem_cons_of_mem _ hj)
    exact ⟨⟨hP i List.mem_cons_self, hC.1⟩, fun s' hs' => ih hrest (hC.2 s' hs')⟩

theorem Meets.of_inv {D : σ → ι → Prop} (hstep : ∀ s i, I s → C s i → After I Q (step s i))
    (hD : ∀ s i, I s → C s i → D s i) {is : List ι} {s : σ} (hs : I s) (hC : Meets step C s is) :
    Meets step D s is := by
  induction is generalizing s with
  | nil => trivial
  | cons i is ih =>
    refine ⟨hD s i hs hC.1, fun s' hs' => ih ?_ (hC.2 s' hs')⟩
    have h := hstep s i hs hC.1
    rwa [hs'] at h

theorem meets_of_forall (h : ∀ s i, C s i) (s : σ) (is : List ι) : Meets step C s is := by
  induction is generalizing s with
  | nil => trivial
  | cons i is ih => exact ⟨h s i, fun s' _ => ih s'⟩

theorem meets_true (s : σ) (is : List ι) : Meets step (fun _ _ => True) s is :=
  meets_of_forall (fun _ _ => trivial) s is

theorem runLoop_inv (hstep : ∀ s i, I s → After I Q (step s i)) {is : List ι} {s : σ} (hs : I s) :
    After I Q (runLoop step s is) :=
  runLoop_inv_of_meets (C := fun _ _ => True) (fun s i h _ => hstep s i h) hs (meets_true s is)

/-- A condition that every pass inside the loop meets, and on which the postcondition depends when the
loop is left: a run keeps the invariant and ends in the postcondition exactly if it meets the
condition. `D` is what all passes meet. -/
theorem after_runLoop_iff_of_meets {D : σ → ι → Prop}
    (hinl : ∀ s i s', I s → D s i → step s i = .inl s' → I s' ∧ C s i)
    (hinr : ∀ s i r, I s → D s i → step s i = .inr r → (Q r ↔ C s i)) {is : List ι} {s : σ}
    (hs : I s) (hD : Meets step D s is) :
    After I Q (runLoop step s is) ↔ Meets step C s is := by
  induction is generalizing s with
  | nil => exact iff_of_true hs trivial
  | cons i is ih =>
    cases hr : step s i with
    | inl s' =>
      obtain ⟨hs', hC⟩ := hinl s i s' hs hD.1 hr
      simp only [runLoop, Meets, hr, ih hs' (hD.2 s' hr)]
      exact ⟨fun h => ⟨hC, fun _ ht => Sum.inl.inj ht ▸ h⟩, fun h => h.2 s' rfl⟩
    | inr r =>
      simp only [runLoop, Meets, hr]
      exact (hinr s i r hs hD.1 hr).trans ⟨fun h => ⟨h, fun _ ht => nomatch ht⟩, fun h => h.1⟩

theorem after_runLoop_iff (hinl : ∀ s i s', I s → step s i = .inl s' → I s' ∧ C s i)
    (hinr : ∀ s i r, I s → step s i = .inr r → (Q r ↔ C s i)) {is : List ι} {s : σ} (hs : I s) :
    After I Q (runLoop step s is) ↔ Meets step C s is :=
  after_runLoop_iff_of_meets (fun s i s' h _ => hinl s i s' h) (fun s i r h _ => hinr s i r h) hs
    (meets_true s is)

/-! ## Histories -/

variable {ε : Type*}

/-- Every event of `t` is allowed by `R` after the history before it. -/
def Preceded (R : List ε → ε → Prop) (t : List ε) : Prop := ∀ p a q, t = p ++ a :: q → R p a

namespace Preceded

variable {R R' : List ε → ε → Prop} {t u : List ε}

theorem nil : Preceded R [] := by
  intro p a q h
  simp at h

theorem mono (h : Preceded R t) (hR : ∀ p a, R p a → R' p a) : Preceded R' t :=
  fun p a q ht => hR p a (h p a q ht)

theorem of_append (h : Preceded R (t ++ u)) : Preceded R t :=
  fun p a q ht => h p a (q ++ u) (by rw [ht, List.append_assoc, List.cons_append])

theorem append (ht : Preceded R t) (hu : ∀ p a q, u = p ++ a :: q → R (t ++ p) a) :
    Preceded R (t ++ u) := by
  intro p a q h
  rcases List.append_eq_append_iff.mp h with ⟨w, rfl, hw⟩ | ⟨w, hw, hw'⟩
  · exact hu w a q hw
  · cases w with
    | nil =>
      rw [List.nil_append] at hw'
      have := hu [] a q hw'.symm
      rwa [List.append_nil, hw, List.append_nil] at this
    | cons b w =>
      simp only [List.cons_append, List.cons.injEq] at hw'
      obtain ⟨rfl, -⟩ := hw'
      exact ht p a w hw

theorem concat (ht : Preceded R t) {a : ε} (ha : R t a) : Preceded R (t ++ [a]) := by
  refine ht.append fun p b q h => ?_
  cases p with
  | nil =>
    simp only [List.nil_append, List.cons.injEq] at h
    obtain ⟨rfl, -⟩ := h
    rwa [List.append_nil]
  | cons c p => simp at h

theorem countP_le_one {A : ε → Bool} (ht : Preceded R t)
    (hR : ∀ p a, R p a → A a = true → ∀ b ∈ p, A b = false) : t.countP A ≤ 1 := by
  induction t using List.reverseRecOn with
  | nil => simp
  | append_singleton t a ih =>
    have ht' : Preceded R t := fun p b q h => ht p b (q ++ [a]) (by simp [h])
    rw [List.countP_append, List.countP_singleton]
    cases ha : A a with
    | false => simpa using ih ht'
    | true =>
      have hnone := hR t a (ht t a [] rfl) ha
      have : t.countP A = 0 := List.countP_eq_zero.mpr fun b hb => by simp [hnone b hb]
      simp [this]

theorem pairwise {Q : ε → ε → Prop} (ht : Preceded R t) (hR : ∀ p a, R p a → ∀ b ∈ p, Q b a) :
    t.Pairwise Q := by
  induction t using List.reverseRecOn with
  | nil => exact List.Pairwise.nil
  | append_singleton t a ih =>
    have ht' : Preceded R t := fun p b q h => ht p b (q ++ [a]) (by simp [h])
    refine List.pairwise_append.mpr ⟨ih ht', List.pairwise_singleton _ _, ?_⟩
    intro b hb c hc
    rw [List.mem_singleton.mp hc]
    exact hR t a (ht t a [] rfl) b hb

end Preceded

end WslFreeBSD.Lib
