import Mathlib.Data.List.Basic
import Mathlib.Tactic.Push

/-!
# The first match in a list

Whether an element of a list matches, and with which result, may depend on the elements before it.
`First P ls b` says that the first match in `ls` has the result `b`, and `NoMatch P ls` that there is
none. The lemmas follow a list that grows at its end: a first match stays the first one, and a new
element is the first match only if there was none before.
-/

namespace WslFreeBSD.Lib

variable {α β : Type*} {P : List α → α → β → Prop} {ls : List α} {a : α} {b : β}

/-- The first element that matches, after the elements in front of it, has the result `b`. -/
def First (P : List α → α → β → Prop) (ls : List α) (b : β) : Prop :=
  ∃ before a after, ls = before ++ a :: after ∧ P before a b ∧
    ∀ x y z, before = x ++ y :: z → ∀ c, ¬ P x y c

def NoMatch (P : List α → α → β → Prop) (ls : List α) : Prop := ∀ b, ¬ First P ls b

theorem First.concat (h : First P ls b) (a : α) : First P (ls ++ [a]) b := by
  obtain ⟨before, a', after, rfl, hP, hfirst⟩ := h
  exact ⟨before, a', after ++ [a], by simp, hP, hfirst⟩

theorem exists_first {before : List α} (h : P before a b) (after : List α) :
    ∃ c, First P (before ++ a :: after) c := by
  induction hn : before.length using Nat.strongRecOn generalizing before a b after with
  | ind n ih =>
    by_cases hfirst : ∀ x y z, before = x ++ y :: z → ∀ c, ¬ P x y c
    · exact ⟨b, before, a, after, rfl, h, hfirst⟩
    · push Not at hfirst
      obtain ⟨x, y, z, rfl, c, hc⟩ := hfirst
      have hlt : x.length < n := by
        rw [← hn, List.length_append, List.length_cons]
        omega
      rw [List.append_assoc]
      exact ih x.length hlt hc _ rfl

theorem noMatch_nil : NoMatch P [] := by
  rintro b ⟨before, a, after, heq, -⟩
  exact absurd heq.symm (by simp)

theorem NoMatch.first_concat (h : NoMatch P ls) (hP : P ls a b) : First P (ls ++ [a]) b := by
  refine ⟨ls, a, [], rfl, hP, ?_⟩
  rintro x y z rfl c hc
  obtain ⟨d, hd⟩ := exists_first hc z
  exact h d hd

theorem NoMatch.concat (h : NoMatch P ls) (hP : ∀ b, ¬ P ls a b) : NoMatch P (ls ++ [a]) := by
  rintro b ⟨before, a', after, heq, hmatch, hfirst⟩
  rcases List.eq_nil_or_concat after with rfl | ⟨after, last, rfl⟩
  · obtain ⟨rfl, ha⟩ := List.append_inj' heq rfl
    obtain rfl : a = a' := by simpa using ha
    exact hP b hmatch
  · have hsplit : ls ++ [a] = (before ++ a' :: after) ++ [last] := by simpa using heq
    obtain ⟨rfl, -⟩ := List.append_inj' hsplit rfl
    exact h b ⟨before, a', after, rfl, hmatch, hfirst⟩

theorem First.unique (hP : ∀ {ls a b c}, P ls a b → P ls a c → b = c) {c : β} (hb : First P ls b)
    (hc : First P ls c) : b = c := by
  obtain ⟨before, a, after, rfl, hmatch, hfirst⟩ := hb
  obtain ⟨before', a', after', heq, hmatch', hfirst'⟩ := hc
  rcases List.append_eq_append_iff.mp heq with ⟨mid, hmid, hrest⟩ | ⟨mid, hmid, hrest⟩
  · cases mid with
    | nil =>
      obtain ⟨rfl, -⟩ : a = a' ∧ after = after' := List.cons.inj hrest
      rw [List.append_nil] at hmid
      subst hmid
      exact hP hmatch hmatch'
    | cons y mid =>
      obtain ⟨rfl, -⟩ : a = y ∧ after = mid ++ a' :: after' := List.cons.inj hrest
      exact absurd hmatch (hfirst' before a mid hmid b)
  · cases mid with
    | nil =>
      obtain ⟨rfl, -⟩ : a' = a ∧ after' = after := List.cons.inj hrest
      rw [List.append_nil] at hmid
      subst hmid
      exact hP hmatch hmatch'
    | cons y mid =>
      obtain ⟨rfl, -⟩ : a' = y ∧ after' = mid ++ a :: after := List.cons.inj hrest
      exact absurd hmatch' (hfirst before' a' mid hmid c)

end WslFreeBSD.Lib
