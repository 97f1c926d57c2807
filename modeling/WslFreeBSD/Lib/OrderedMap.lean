import Mathlib.Data.List.Sort

/-!
# Maps that are ordered by a comparison of the keys

A map is kept as a list of entries, sorted by `lt`, a function that says whether a key goes before
another one. Two keys are the same for the map if neither goes before the other. For a lawful `lt`
these are equal keys, so that a map is known by what it finds.

`find` looks a key up, `emplace` adds an entry unless there is one, and `filterMap` goes over all
entries and keeps or drops each.
-/

namespace WslFreeBSD.Lib

/-- A strict order that tells all keys apart. -/
structure LawfulLt {κ : Type*} (lt : κ → κ → Bool) : Prop where
  irrefl : ∀ a, lt a a = false
  trans : ∀ a b c, lt a b = true → lt b c = true → lt a c = true
  connected : ∀ a b, lt a b = false → lt b a = false → a = b

namespace OrderedMap

variable {κ β γ : Type*} {lt : κ → κ → Bool}

def find (lt : κ → κ → Bool) (k : κ) : List (κ × β) → Option β
  | [] => none
  | (k', v) :: m => if lt k' k then find lt k m else if lt k k' then none else some v

/-- A new entry; one with the same key stays as it is. -/
def emplace (lt : κ → κ → Bool) (k : κ) (v : β) : List (κ × β) → List (κ × β)
  | [] => [(k, v)]
  | (k', v') :: m =>
    if lt k' k then (k', v') :: emplace lt k v m
    else if lt k k' then (k, v) :: (k', v') :: m
    else (k', v') :: m

def Sorted (lt : κ → κ → Bool) (m : List (κ × β)) : Prop :=
  m.Pairwise fun e e' => lt e.1 e'.1 = true

theorem find_eq_some_iff (hlt : LawfulLt lt) {m : List (κ × β)} (hm : Sorted lt m) {k : κ} {v : β} :
    find lt k m = some v ↔ (k, v) ∈ m := by
  induction m with
  | nil => simp [find]
  | cons e m ih =>
    obtain ⟨k', v'⟩ := e
    obtain ⟨hhead, htail⟩ := List.pairwise_cons.mp hm
    rw [find, List.mem_cons]
    split
    · next h =>
      rw [ih htail]
      refine ⟨.inr, fun hor => hor.resolve_left fun heq => ?_⟩
      obtain ⟨rfl, rfl⟩ := Prod.mk.inj heq
      rw [hlt.irrefl] at h
      cases h
    · next h =>
      split
      · next h' =>
        refine ⟨nofun, fun hor => ?_⟩
        rcases hor with heq | hmem
        · obtain ⟨rfl, rfl⟩ := Prod.mk.inj heq
          rw [hlt.irrefl] at h'
          cases h'
        · have := hlt.trans _ _ _ h' (hhead _ hmem)
          rw [hlt.irrefl] at this
          cases this
      · next h' =>
        obtain rfl : k' = k := hlt.connected k' k (Bool.eq_false_of_not_eq_true h)
          (Bool.eq_false_of_not_eq_true h')
        constructor
        · intro heq
          exact .inl (by rw [Option.some.inj heq])
        · rintro (heq | hmem)
          · rw [(Prod.mk.inj heq).2]
          · have := hhead _ hmem
            rw [hlt.irrefl] at this
            cases this

theorem mem_emplace {k : κ} {v : β} {m : List (κ × β)} {e : κ × β} (h : e ∈ emplace lt k v m) :
    e = (k, v) ∨ e ∈ m := by
  induction m with
  | nil => exact .inl (List.mem_singleton.mp h)
  | cons e' m ih =>
    rw [emplace] at h
    split at h
    · rcases List.mem_cons.mp h with rfl | h
      · exact .inr List.mem_cons_self
      · exact (ih h).imp_right (List.mem_cons_of_mem _)
    · split at h
      · exact List.mem_cons.mp h
      · exact .inr h

theorem sorted_emplace (hlt : LawfulLt lt) {m : List (κ × β)} (hm : Sorted lt m) (k : κ) (v : β) :
    Sorted lt (emplace lt k v m) := by
  induction m with
  | nil => exact List.pairwise_singleton _ _
  | cons e m ih =>
    obtain ⟨hhead, htail⟩ := List.pairwise_cons.mp hm
    rw [emplace]
    split
    · next h =>
      refine List.pairwise_cons.mpr ⟨fun e' he' => ?_, ih htail⟩
      rcases mem_emplace he' with rfl | he'
      · exact h
      · exact hhead e' he'
    · split
      · next h =>
        refine List.pairwise_cons.mpr ⟨fun e' he' => ?_, hm⟩
        rcases List.mem_cons.mp he' with rfl | he'
        · exact h
        · exact hlt.trans _ _ _ h (hhead e' he')
      · exact hm

theorem find_emplace_self (hlt : LawfulLt lt) (m : List (κ × β)) (k : κ) (v : β) :
    find lt k (emplace lt k v m) = some ((find lt k m).getD v) := by
  induction m with
  | nil => simp [emplace, find, hlt.irrefl]
  | cons e m ih =>
    rw [emplace]
    split
    · next h => rw [find, if_pos h, ih, find, if_pos h]
    · next h =>
      split
      · next h' => simp [find, h, h', hlt.irrefl]
      · next h' => simp [find, h, h']

theorem find_emplace_of_ne (hlt : LawfulLt lt) {m : List (κ × β)} (hm : Sorted lt m) {k k' : κ}
    (hne : k' ≠ k) (v : β) : find lt k' (emplace lt k v m) = find lt k' m := by
  refine Option.ext fun w => ?_
  rw [find_eq_some_iff hlt (sorted_emplace hlt hm k v), find_eq_some_iff hlt hm]
  constructor
  · intro h
    refine (mem_emplace h).resolve_left fun heq => hne (Prod.mk.inj heq).1
  · intro h
    induction m with
    | nil => cases h
    | cons e m ih =>
      rw [emplace]
      split
      · rcases List.mem_cons.mp h with rfl | h
        · exact List.mem_cons_self
        · exact List.mem_cons_of_mem _ (ih (List.pairwise_cons.mp hm).2 h)
      · split
        · exact List.mem_cons_of_mem _ h
        · exact h

def filterMap (f : κ → β → Option γ) (m : List (κ × β)) : List (κ × γ) :=
  m.filterMap fun e => (f e.1 e.2).map fun w => (e.1, w)

theorem mem_filterMap {f : κ → β → Option γ} {m : List (κ × β)} {k : κ} {w : γ} :
    (k, w) ∈ filterMap f m ↔ ∃ v, (k, v) ∈ m ∧ f k v = some w := by
  simp only [filterMap, List.mem_filterMap, Option.map_eq_some_iff, Prod.mk.injEq, Prod.exists]
  constructor
  · rintro ⟨k', v, hmem, u, hf, rfl, rfl⟩
    exact ⟨v, hmem, hf⟩
  · rintro ⟨v, hmem, hf⟩
    exact ⟨k, v, hmem, w, hf, rfl, rfl⟩

theorem sorted_filterMap {f : κ → β → Option γ} {m : List (κ × β)} (hm : Sorted lt m) :
    Sorted lt (filterMap f m) := by
  refine List.Pairwise.filterMap _ (fun e e' hlt' b hb b' hb' => ?_) hm
  obtain ⟨w, -, rfl⟩ := Option.map_eq_some_iff.mp hb
  obtain ⟨w', -, rfl⟩ := Option.map_eq_some_iff.mp hb'
  exact hlt'

theorem find_filterMap (hlt : LawfulLt lt) {f : κ → β → Option γ} {m : List (κ × β)}
    (hm : Sorted lt m) (k : κ) : find lt k (filterMap f m) = (find lt k m).bind (f k) := by
  refine Option.ext fun w => ?_
  rw [find_eq_some_iff hlt (sorted_filterMap hm), mem_filterMap, Option.bind_eq_some_iff]
  simp only [find_eq_some_iff hlt hm]

theorem nodup_keys (hlt : LawfulLt lt) {m : List (κ × β)} (hm : Sorted lt m) :
    (m.map Prod.fst).Nodup := by
  refine List.pairwise_map.mpr (hm.imp fun {e e'} h heq => ?_)
  rw [heq, hlt.irrefl] at h
  cases h

end OrderedMap

end WslFreeBSD.Lib
