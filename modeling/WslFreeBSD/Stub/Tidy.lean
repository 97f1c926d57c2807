import Mathlib.Data.Fintype.Basic
import Mathlib.Data.Finset.Card
import WslFreeBSD.Stub.Steps

/-!
# Fids and descriptors of the stub file server

`Tidy` says that the fid table and the descriptors of the process fit together: no fid stands in two
slots, the counter is right, and the descriptors are those of the server and one for each used slot.
What opens, closes, adds, removes and replaces keeps it; a handler that holds a descriptor of its own
counts it among those of the server.
-/

namespace WslFreeBSD.Stub

open Lib Config
open Lib.Faulting

def FidMap.used (m : FidMap) : Finset (Fin MAX_FID_MAP) := Finset.univ.filter fun i => (m i).isSome

/-- The table with the descriptors of its slots. -/
def FidMap.fds (m : FidMap) (opened : Finset Nat) : FdTable (Fin MAX_FID_MAP) where
  used := opened
  var i := ((m i).map FidEntry.fd).getD 0

/-- The table and the descriptors fit together, where the server has the descriptors of `base`. -/
structure Tidy (base : Finset Nat) (m : FidMap) (count : Int) (opened : Finset Nat) : Prop where
  distinct : ∀ i j e e', m i = some e → m j = some e' → e.fid = e'.fid → i = j
  counted : count = m.used.card
  owns : Owns base m.used (m.fds opened)

variable {base : Finset Nat} {m : FidMap} {count : Int} {opened : Finset Nat} {fd : Nat}
  {i : Fin MAX_FID_MAP} {e e' : FidEntry}

theorem FidMap.mem_used_iff : i ∈ m.used ↔ ∃ e, m i = some e := by
  rw [used, Finset.mem_filter, Option.isSome_iff_exists]
  simp

theorem FidMap.var_eq (h : m i = some e) : (m.fds opened).var i = e.fd := by
  change ((m i).map FidEntry.fd).getD 0 = e.fd
  rw [h]
  rfl

theorem FidMap.set_self (m : FidMap) (i : Fin MAX_FID_MAP) (slot : Option FidEntry) : m.set i slot i = slot :=
  Function.update_self ..

theorem FidMap.set_of_ne {j : Fin MAX_FID_MAP} (h : j ≠ i) (slot : Option FidEntry) : m.set i slot j = m j :=
  Function.update_of_ne h ..

theorem FidMap.image_set {slots : Finset (Fin MAX_FID_MAP)} (hi : i ∉ slots) (slot : Option FidEntry)
    (opened opened' : Finset Nat) :
    slots.image ((m.set i slot).fds opened').var = slots.image (m.fds opened).var := by
  refine Finset.image_congr fun j hj => ?_
  have hne : j ≠ i := fun heq => hi (heq ▸ hj)
  change ((m.set i slot j).map FidEntry.fd).getD 0 = ((m j).map FidEntry.fd).getD 0
  rw [set_of_ne hne]

theorem FidMap.used_set_none (m : FidMap) (i : Fin MAX_FID_MAP) : (m.set i none).used = m.used.erase i := by
  ext j
  rw [mem_used_iff, Finset.mem_erase, mem_used_iff]
  by_cases hj : j = i
  · subst hj
    simp [set]
  · simp [set, hj]

theorem FidMap.used_set_some (m : FidMap) (i : Fin MAX_FID_MAP) (e : FidEntry) :
    (m.set i (some e)).used = insert i m.used := by
  ext j
  rw [mem_used_iff, Finset.mem_insert, mem_used_iff]
  by_cases hj : j = i
  · subst hj
    simp [set]
  · simp [set, hj]

namespace Tidy

theorem mem_iff (h : Tidy base m count opened) :
    fd ∈ opened ↔ fd ∈ base ∨ ∃ j e', m j = some e' ∧ e'.fd = fd := by
  have hused : opened = base ∪ m.used.image (m.fds opened).var := h.owns.used
  constructor
  · intro hfd
    rw [hused, Finset.mem_union, Finset.mem_image] at hfd
    refine hfd.imp_right ?_
    rintro ⟨j, hj, rfl⟩
    obtain ⟨e', he'⟩ := FidMap.mem_used_iff.mp hj
    exact ⟨j, e', he', (FidMap.var_eq he').symm⟩
  · rintro (hbase | ⟨j, e', he', rfl⟩)
    · rw [hused]
      exact Finset.mem_union_left _ hbase
    · rw [hused]
      refine Finset.mem_union_right _ (Finset.mem_image.mpr ⟨j, FidMap.mem_used_iff.mpr ⟨e', he'⟩, ?_⟩)
      exact FidMap.var_eq he'

theorem base_subset (h : Tidy base m count opened) : base ⊆ opened := fun _ hfd => h.mem_iff.mpr (Or.inl hfd)

theorem fd_mem (h : Tidy base m count opened) (hi : m i = some e) : e.fd ∈ opened ∧ e.fd ∉ base := by
  refine ⟨h.mem_iff.mpr (Or.inr ⟨i, e, hi, rfl⟩), ?_⟩
  have hvar : (m.fds opened).var i = e.fd := FidMap.var_eq hi
  rw [← hvar]
  exact h.owns.apart i (FidMap.mem_used_iff.mpr ⟨e, hi⟩)

theorem opens (h : Tidy base m count opened) (hnew : fd ∉ opened) :
    Tidy (insert fd base) m count (insert fd opened) := by
  have hused : opened = base ∪ m.used.image (m.fds opened).var := h.owns.used
  refine ⟨h.distinct, h.counted, ?_, ?_, h.owns.distinct⟩
  · change insert fd opened = insert fd base ∪ m.used.image (m.fds opened).var
    rw [Finset.insert_union, ← hused]
  · intro i hi
    obtain ⟨e, he⟩ := FidMap.mem_used_iff.mp hi
    change (m.fds opened).var i ∉ insert fd base
    rw [Finset.mem_insert, FidMap.var_eq he]
    rintro (rfl | hbase)
    · exact hnew (h.fd_mem he).1
    · exact (h.fd_mem he).2 hbase

theorem closes (h : Tidy (insert fd base) m count opened) (hnew : fd ∉ base) :
    Tidy base m count (opened.erase fd) := by
  have hused : opened = insert fd base ∪ m.used.image (m.fds opened).var := h.owns.used
  refine ⟨h.distinct, h.counted, ?_, ?_, h.owns.distinct⟩
  · change opened.erase fd = base ∪ m.used.image (m.fds opened).var
    have hslots : fd ∉ m.used.image (m.fds opened).var := by
      intro hmem
      obtain ⟨i, hi, hvar⟩ := Finset.mem_image.mp hmem
      exact h.owns.apart i hi (hvar ▸ Finset.mem_insert_self fd base)
    nth_rewrite 1 [hused]
    rw [Finset.insert_union, Finset.erase_insert (by rw [Finset.mem_union, not_or]; exact ⟨hnew, hslots⟩)]
  · exact fun i hi hbase => h.owns.apart i hi (Finset.mem_insert_of_mem hbase)

theorem adds (h : Tidy (insert e.fd base) m count opened) (hnew : e.fd ∉ base) (hfree : m i = none)
    (hfid : ∀ j e', m j = some e' → e'.fid ≠ e.fid) : Tidy base (m.set i (some e)) (count + 1) opened := by
  have hused : opened = insert e.fd base ∪ m.used.image (m.fds opened).var := h.owns.used
  have hi : i ∉ m.used := by
    rw [FidMap.mem_used_iff, hfree]
    simp
  have hslot : (m.set i (some e)) i = some e := m.set_self i (some e)
  have hother : ∀ j e', j ≠ i → m.set i (some e) j = some e' → m j = some e' := fun j e' hj he' =>
    (FidMap.set_of_ne hj (some e)).symm.trans he'
  refine ⟨?_, ?_, ?_, ?_, ?_⟩
  · intro j k a b hj hk hab
    by_cases hji : j = i <;> by_cases hki : k = i
    · rw [hji, hki]
    · subst hji
      cases hslot.symm.trans hj
      exact absurd hab.symm (hfid k b (hother k b hki hk))
    · subst hki
      cases hslot.symm.trans hk
      exact absurd hab (hfid j a (hother j a hji hj))
    · exact h.distinct j k a b (hother j a hji hj) (hother k b hki hk) hab
  · rw [m.used_set_some, Finset.card_insert_of_notMem hi, h.counted]
    rfl
  · change opened = base ∪ (m.set i (some e)).used.image ((m.set i (some e)).fds opened).var
    rw [m.used_set_some, Finset.image_insert, FidMap.var_eq hslot, FidMap.image_set hi (some e) opened,
      Finset.union_insert, ← Finset.insert_union, ← hused]
  · intro j hj
    rw [m.used_set_some] at hj
    by_cases hji : j = i
    · rw [hji, FidMap.var_eq hslot]
      exact hnew
    · obtain ⟨e', he'⟩ := FidMap.mem_used_iff.mp (Finset.mem_of_mem_insert_of_ne hj hji)
      rw [FidMap.var_eq ((FidMap.set_of_ne hji (some e)).trans he')]
      exact fun hbase => (h.fd_mem he').2 (Finset.mem_insert_of_mem hbase)
  · intro j hj k hk heq
    rw [m.used_set_some] at hj hk
    by_cases hji : j = i <;> by_cases hki : k = i
    · rw [hji, hki]
    · obtain ⟨e', he'⟩ := FidMap.mem_used_iff.mp (Finset.mem_of_mem_insert_of_ne hk hki)
      rw [hji, FidMap.var_eq hslot, FidMap.var_eq ((FidMap.set_of_ne hki (some e)).trans he')] at heq
      exact absurd (heq ▸ Finset.mem_insert_self e.fd base) (h.fd_mem he').2
    · obtain ⟨e', he'⟩ := FidMap.mem_used_iff.mp (Finset.mem_of_mem_insert_of_ne hj hji)
      rw [hki, FidMap.var_eq hslot, FidMap.var_eq ((FidMap.set_of_ne hji (some e)).trans he')] at heq
      exact absurd (heq ▸ Finset.mem_insert_self e.fd base) (h.fd_mem he').2
    · obtain ⟨a, ha⟩ := FidMap.mem_used_iff.mp (Finset.mem_of_mem_insert_of_ne hj hji)
      obtain ⟨b, hb⟩ := FidMap.mem_used_iff.mp (Finset.mem_of_mem_insert_of_ne hk hki)
      rw [FidMap.var_eq ((FidMap.set_of_ne hji (some e)).trans ha),
        FidMap.var_eq ((FidMap.set_of_ne hki (some e)).trans hb)] at heq
      refine h.owns.distinct j (Finset.mem_of_mem_insert_of_ne hj hji) k
        (Finset.mem_of_mem_insert_of_ne hk hki) ?_
      rw [FidMap.var_eq ha, FidMap.var_eq hb, heq]

theorem eq_of_fd (h : Tidy base m count opened) {j : Fin MAX_FID_MAP} (hi : m i = some e) (hj : m j = some e')
    (hfd : e.fd = e'.fd) : i = j := by
  refine h.owns.distinct i (FidMap.mem_used_iff.mpr ⟨e, hi⟩) j (FidMap.mem_used_iff.mpr ⟨e', hj⟩) ?_
  rw [FidMap.var_eq hi, FidMap.var_eq hj, hfd]

theorem removes (h : Tidy base m count opened) (hi : m i = some e) :
    Tidy base (m.set i none) (count - 1) (opened.erase e.fd) := by
  have hused : opened = base ∪ m.used.image (m.fds opened).var := h.owns.used
  have hmem : i ∈ m.used := FidMap.mem_used_iff.mpr ⟨e, hi⟩
  have hother : ∀ j e', m.set i none j = some e' → j ≠ i ∧ m j = some e' := by
    intro j e' he'
    have hne : j ≠ i := by
      rintro rfl
      rw [m.set_self] at he'
      cases he'
    exact ⟨hne, (FidMap.set_of_ne hne none).symm.trans he'⟩
  have hslots : ∀ j ∈ (m.set i none).used, ∃ e', j ≠ i ∧ m j = some e' ∧
      ((m.set i none).fds (opened.erase e.fd)).var j = e'.fd := by
    intro j hj
    obtain ⟨e', he'⟩ := FidMap.mem_used_iff.mp hj
    exact ⟨e', (hother j e' he').1, (hother j e' he').2, FidMap.var_eq he'⟩
  refine ⟨?_, ?_, ?_, ?_, ?_⟩
  · exact fun j k a b hj hk => h.distinct j k a b (hother j a hj).2 (hother k b hk).2
  · have hpos : 0 < m.used.card := Finset.card_pos.mpr ⟨i, hmem⟩
    rw [m.used_set_none, Finset.card_erase_of_mem hmem, h.counted]
    omega
  · change opened.erase e.fd = base ∪ (m.set i none).used.image ((m.set i none).fds (opened.erase e.fd)).var
    rw [m.used_set_none, FidMap.image_set (Finset.notMem_erase i m.used) none opened]
    ext fd
    rw [Finset.mem_erase, h.mem_iff, Finset.mem_union, Finset.mem_image]
    constructor
    · rintro ⟨hne, hbase | ⟨j, e', he', rfl⟩⟩
      · exact Or.inl hbase
      · have hji : j ≠ i := by
          rintro rfl
          cases hi.symm.trans he'
          exact hne rfl
        refine Or.inr ⟨j, Finset.mem_erase.mpr ⟨hji, FidMap.mem_used_iff.mpr ⟨e', he'⟩⟩, ?_⟩
        exact FidMap.var_eq he'
    · rintro (hbase | ⟨j, hj, rfl⟩)
      · exact ⟨fun heq => (h.fd_mem hi).2 (heq ▸ hbase), Or.inl hbase⟩
      · obtain ⟨hji, hj⟩ := Finset.mem_erase.mp hj
        obtain ⟨e', he'⟩ := FidMap.mem_used_iff.mp hj
        rw [FidMap.var_eq he']
        exact ⟨fun heq => hji (h.eq_of_fd he' hi heq), Or.inr ⟨j, e', he', rfl⟩⟩
  · intro j hj
    obtain ⟨e', -, he', hvar⟩ := hslots j hj
    rw [hvar]
    exact (h.fd_mem he').2
  · intro j hj k hk heq
    obtain ⟨a, -, ha, hvara⟩ := hslots j hj
    obtain ⟨b, -, hb, hvarb⟩ := hslots k hk
    rw [hvara, hvarb] at heq
    exact h.eq_of_fd ha hb heq

theorem replaces (h : Tidy (insert e'.fd base) m count opened) (hnew : e'.fd ∉ base) (hi : m i = some e)
    (hfid : e'.fid = e.fid) : Tidy base (m.set i (some e')) count (opened.erase e.fd) := by
  have hgone := h.removes hi
  have hset : (m.set i none).set i (some e') = m.set i (some e') := Function.update_idem ..
  have hfree : ∀ j e'', m.set i none j = some e'' → e''.fid ≠ e'.fid := by
    intro j e'' hj heq
    by_cases hji : j = i
    · subst hji
      rw [m.set_self] at hj
      cases hj
    · rw [FidMap.set_of_ne hji] at hj
      exact hji (h.distinct j i e'' e hj hi (heq.trans hfid))
  have hadds := hgone.adds hnew (m.set_self i none) hfree
  rwa [hset, Int.sub_add_cancel] at hadds

end Tidy

end WslFreeBSD.Stub
