import Mathlib.Algebra.Order.Ring.Nat
import Mathlib.Data.List.FinRange
import Mathlib.Data.List.Nodup
import Mathlib.Logic.Function.Basic

/-!
# Tables of slots

A fixed array of slots, each in use or free, searched from the front: for a free slot
(`firstFree`) and for a slot in use that carries a key (`lookup`). What the two searches return
is all that is needed about them (`firstFree_eq_none_iff`, `lookup_eq_none_iff` and the two
lemmas on a slot found).

`Since S E t` says that the history `t` contains an event of the kind `S` after which no event of
the kind `E` has happened: a slot is in use since it was given away. `Numbered` is about the keys
that a 32-bit counter gives to the slots; as long as the counter has not wrapped around, no two of
them are the same and none is zero (`Numbered.nodup`, `Numbered.ne_zero`).
-/

namespace WslFreeBSD.Lib

variable {n : Nat} {α κ : Type*} [DecidableEq κ]

def firstFree (used : α → Bool) (table : Fin n → α) : Option (Fin n) :=
  (List.finRange n).find? fun i => !used (table i)

def lookup (used : α → Bool) (key : α → κ) (table : Fin n → α) (k : κ) : Option (Fin n) :=
  (List.finRange n).find? fun i => used (table i) && key (table i) = k

variable {used : α → Bool} {key : α → κ} {table : Fin n → α} {k : κ} {i : Fin n}

theorem used_firstFree (h : firstFree used table = some i) : used (table i) = false := by
  have := List.find?_some h
  simpa using this

theorem firstFree_eq_none_iff : firstFree used table = none ↔ ∀ i, used (table i) = true := by
  unfold firstFree
  rw [List.find?_eq_none]
  simp

theorem lookup_spec (h : lookup used key table k = some i) :
    used (table i) = true ∧ key (table i) = k := by
  have := List.find?_some h
  simpa using this

theorem lookup_eq_none_iff :
    lookup used key table k = none ↔ ∀ i, used (table i) = true → key (table i) ≠ k := by
  unfold lookup
  rw [List.find?_eq_none]
  simp

/-! ## What holds since an event -/

variable {ε : Type*}

/-- An event of the kind `S` has happened and none of the kind `E` after it. -/
def Since (S E : ε → Prop) (t : List ε) : Prop :=
  ∃ p a q, t = p ++ a :: q ∧ S a ∧ ∀ b ∈ q, ¬ E b

namespace Since

variable {S S' E : ε → Prop} {t u : List ε} {a : ε}

theorem now (h : S a) : Since S E (t ++ [a]) := ⟨t, a, [], rfl, h, by simp⟩

theorem append (h : Since S E t) (hu : ∀ b ∈ u, ¬ E b) : Since S E (t ++ u) := by
  obtain ⟨p, a, q, rfl, ha, hq⟩ := h
  refine ⟨p, a, q ++ u, by simp, ha, ?_⟩
  intro b hb
  rcases List.mem_append.mp hb with hb | hb
  · exact hq b hb
  · exact hu b hb

theorem concat (h : Since S E t) (ha : ¬ E a) : Since S E (t ++ [a]) :=
  h.append fun b hb => by rwa [List.mem_singleton.mp hb]

theorem anti {E' : ε → Prop} (h : Since S E t) (hE : ∀ a, E' a → E a) : Since S E' t := by
  obtain ⟨p, a, q, rfl, ha, hq⟩ := h
  exact ⟨p, a, q, rfl, ha, fun b hb hb' => hq b hb (hE b hb')⟩

theorem exists_mem (h : Since S E t) : ∃ a ∈ t, S a := by
  obtain ⟨p, a, q, rfl, ha, -⟩ := h
  exact ⟨a, by simp, ha⟩

end Since

theorem split_append {t u p q : List ε} {a : ε} (h : t ++ u = p ++ a :: q) (ha : a ∉ u) :
    ∃ r, t = p ++ a :: r ∧ q = r ++ u := by
  rcases List.append_eq_append_iff.mp h with ⟨w, rfl, hw⟩ | ⟨w, hw, hw'⟩
  · exact absurd (hw ▸ List.mem_append_right w List.mem_cons_self) ha
  · cases w with
    | nil =>
      rw [List.nil_append] at hw'
      exact absurd (hw' ▸ List.mem_cons_self) ha
    | cons b w =>
      obtain ⟨rfl, rfl⟩ := List.cons.inj hw'
      exact ⟨w, hw, rfl⟩

theorem last_unique {E : ε → Prop} {p q p' q' : List ε} {a a' : ε} (h : p ++ a :: q = p' ++ a' :: q')
    (ha : E a) (ha' : E a') (hq : ∀ b ∈ q, ¬ E b) (hq' : ∀ b ∈ q', ¬ E b) : a = a' ∧ q = q' := by
  rcases List.append_eq_append_iff.mp h with ⟨w, -, hw⟩ | ⟨w, -, hw⟩
  · cases w with
    | nil => exact List.cons.inj hw
    | cons b w =>
      have hmem : a' ∈ q := by
        rw [(List.cons.inj hw).2]
        exact List.mem_append_right w List.mem_cons_self
      exact absurd ha' (hq a' hmem)
  · cases w with
    | nil =>
      obtain ⟨h₁, h₂⟩ := List.cons.inj hw
      exact ⟨h₁.symm, h₂.symm⟩
    | cons b w =>
      have hmem : a ∈ q' := by
        rw [(List.cons.inj hw).2]
        exact List.mem_append_right w List.mem_cons_self
      exact absurd ha (hq' a hmem)

/-! ## Keys from a counter -/

/-- The keys given out so far, and the counter. -/
structure Numbered (ids : List UInt32) (counter : UInt32) : Prop where
  ids_eq : ids = (List.range ids.length).map fun k => UInt32.ofNat (k + 1)
  counter_eq : counter = UInt32.ofNat ids.length

namespace Numbered

variable {ids : List UInt32} {counter id : UInt32}

theorem nil : Numbered [] 0 := ⟨rfl, rfl⟩

theorem concat (h : Numbered ids counter) : Numbered (ids ++ [counter + 1]) (counter + 1) := by
  have hnext : counter + 1 = UInt32.ofNat (ids.length + 1) := by
    rw [h.counter_eq, UInt32.ofNat_add]
    rfl
  refine ⟨?_, ?_⟩
  · rw [List.length_append, List.length_singleton, List.range_succ, List.map_append, ← h.ids_eq,
      List.map_singleton, hnext]
  · rw [hnext, List.length_append, List.length_singleton]

theorem nodup (h : Numbered ids counter) (hlen : ids.length < 2 ^ 32) : ids.Nodup := by
  rw [h.ids_eq]
  refine List.Nodup.map_on ?_ List.nodup_range
  intro a ha b hb hab
  have ha' := List.mem_range.mp ha
  have hb' := List.mem_range.mp hb
  have := congrArg UInt32.toNat hab
  rw [UInt32.toNat_ofNat', UInt32.toNat_ofNat', Nat.mod_eq_of_lt (by omega),
    Nat.mod_eq_of_lt (by omega)] at this
  omega

theorem ne_zero (h : Numbered ids counter) (hlen : ids.length < 2 ^ 32) (hid : id ∈ ids) : id ≠ 0 := by
  rw [h.ids_eq] at hid
  obtain ⟨k, hk, rfl⟩ := List.mem_map.mp hid
  have hk' := List.mem_range.mp hk
  intro h0
  have := congrArg UInt32.toNat h0
  rw [UInt32.toNat_ofNat', Nat.mod_eq_of_lt (by omega)] at this
  simp at this

theorem succ_notMem (h : Numbered ids counter) (hlen : ids.length + 1 < 2 ^ 32) :
    counter + 1 ∉ ids := by
  have hnd := h.concat.nodup (by simpa using hlen)
  rw [List.nodup_append] at hnd
  intro hmem
  exact hnd.2.2 _ hmem _ (by simp) rfl

end Numbered

theorem eq_of_filterMap_nodup {κ : Type*} {f : ε → Option κ} {t : List ε} (h : (t.filterMap f).Nodup) {a b : ε}
    {k : κ} (ha : a ∈ t) (hb : b ∈ t) (hfa : f a = some k) (hfb : f b = some k) : a = b := by
  induction t with
  | nil => cases ha
  | cons e t ih =>
    have hnot : ∀ c ∈ t, f e = some k → f c ≠ some k := by
      intro c hc he hfc
      rw [List.filterMap_cons, he] at h
      exact (List.nodup_cons.mp h).1 (List.mem_filterMap.mpr ⟨c, hc, hfc⟩)
    have htail : (t.filterMap f).Nodup := h.sublist ((List.sublist_cons_self e t).filterMap f)
    rcases List.mem_cons.mp ha with rfl | ha'
    · rcases List.mem_cons.mp hb with rfl | hb'
      · rfl
      · exact absurd hfb (hnot b hb' hfa)
    · rcases List.mem_cons.mp hb with rfl | hb'
      · exact absurd hfa (hnot a ha' hfb)
      · exact ih htail ha' hb'

end WslFreeBSD.Lib
