import WslFreeBSD.Lib.CBuffer

/-!
# What a store leaves alone

A buffer that is changed in place and grows at its end. `KeepsBut P` says that bytes keep their values
but for those `P`; changes in a row keep what each of them keeps (`KeepsBut.trans`), and so does what
is read of the bytes (`KeepsBut.slice_eq`). `store_spec` is what one store does.
-/

namespace WslFreeBSD.Lib

/-- The `n` bytes at an offset. -/
def slice (off n : Nat) (cells : Bytes) : Bytes := (cells.drop off).take n

/-- The offsets of `n` bytes. -/
def Covers (off n : Nat) (i : Nat) : Prop := off ≤ i ∧ i < off + n

/-- The bytes of a buffer have their values in another one as well, but for those `P`. -/
structure KeepsBut (P : Nat → Prop) (cells cells' : Bytes) : Prop where
  length_le : cells.length ≤ cells'.length
  get : ∀ i < cells.length, ¬ P i → cells'[i]? = cells[i]?

namespace KeepsBut

variable {P Q : Nat → Prop} {cells cells' cells'' : Bytes}

theorem refl (P : Nat → Prop) (cells : Bytes) : KeepsBut P cells cells := ⟨Nat.le_refl _, fun _ _ _ => rfl⟩

theorem append (P : Nat → Prop) (cells data : Bytes) : KeepsBut P cells (cells ++ data) := by
  refine ⟨?_, fun i hi _ => List.getElem?_append_left hi⟩
  rw [List.length_append]
  exact Nat.le_add_right _ _

theorem replace (before after : Bytes) {part part' : Bytes} (hlen : part'.length = part.length) :
    KeepsBut (Covers before.length part.length) (before ++ part ++ after) (before ++ part' ++ after) := by
  have hsame : (before ++ part' ++ after).length = (before ++ part ++ after).length := by
    rw [List.length_append, List.length_append, List.length_append, List.length_append, hlen]
  have hboth : (before ++ part').length = (before ++ part).length := by
    rw [List.length_append, List.length_append, hlen]
  refine ⟨hsame.ge, fun i hi hout => ?_⟩
  rcases Nat.lt_or_ge i before.length with hlow | hhigh
  · rw [List.append_assoc, List.append_assoc, List.getElem?_append_left hlow, List.getElem?_append_left hlow]
  · have hbehind : (before ++ part).length ≤ i := by
      rw [List.length_append]
      by_contra hin
      exact hout ⟨hhigh, by omega⟩
    rw [List.getElem?_append_right hbehind, List.getElem?_append_right (hboth.le.trans hbehind), hboth]

theorem trans (h : KeepsBut P cells cells') (h' : KeepsBut P cells' cells'') : KeepsBut P cells cells'' := by
  refine ⟨h.length_le.trans h'.length_le, fun i hi hP => ?_⟩
  rw [h'.get i (lt_of_lt_of_le hi h.length_le) hP, h.get i hi hP]

theorem mono (h : KeepsBut P cells cells') (hPQ : ∀ i, P i → Q i) : KeepsBut Q cells cells' :=
  ⟨h.length_le, fun i hi hQ => h.get i hi fun hP => hQ (hPQ i hP)⟩

theorem slice_eq (h : KeepsBut P cells cells') {off n : Nat} (hlen : off + n ≤ cells.length)
    (hP : ∀ i, Covers off n i → ¬ P i) : slice off n cells' = slice off n cells := by
  apply List.ext_getElem?
  intro i
  unfold slice
  by_cases hi : i < n
  · rw [List.getElem?_take_of_lt hi, List.getElem?_take_of_lt hi, List.getElem?_drop, List.getElem?_drop]
    apply h.get
    · omega
    · exact hP _ ⟨Nat.le_add_right _ _, by omega⟩
  · rw [List.getElem?_take, List.getElem?_take, if_neg hi, if_neg hi]

theorem leAt_eq (h : KeepsBut P cells cells') {off n : Nat} (hlen : off + n ≤ cells.length)
    (hP : ∀ i, Covers off n i → ¬ P i) : leAt off n cells' = leAt off n cells :=
  congrArg leValue (h.slice_eq hlen hP)

end KeepsBut

theorem slice_append {cells data : Bytes} : slice cells.length data.length (cells ++ data) = data := by
  rw [slice, List.drop_left, List.take_length]

theorem store_spec {cells data : Bytes} {off : Nat} (h : off + data.length ≤ cells.length) :
    ∃ cells', store cells off data = some cells' ∧ cells'.length = cells.length ∧
      slice off data.length cells' = data ∧ KeepsBut (Covers off data.length) cells cells' := by
  have hfront : (cells.take off).length = off := by
    rw [List.length_take]
    omega
  have hpart : ((cells.drop off).take data.length).length = data.length := by
    rw [List.length_take, List.length_drop]
    omega
  have hcells : cells = cells.take off ++ (cells.drop off).take data.length ++
      cells.drop (off + data.length) := by
    rw [List.append_assoc, ← List.drop_drop, List.take_append_drop, List.take_append_drop]
  have hkeeps := KeepsBut.replace (cells.take off) (cells.drop (off + data.length)) hpart.symm
  rw [← hcells, hfront, hpart] at hkeeps
  refine ⟨_, store_eq h, length_of_store (store_eq h), ?_, hkeeps⟩
  rw [slice, List.append_assoc, List.drop_append_of_le_length (by omega),
    List.drop_eq_nil_of_le (by omega), List.nil_append, List.take_left]

/-! ## Strings -/

/-- A text and its NUL at an offset. -/
structure HoldsAt (cells : Bytes) (off : Nat) (text : Bytes) : Prop where
  end_le : off + (text.length + 1) ≤ cells.length
  slice_eq : slice off (text.length + 1) cells = text ++ [0]

namespace HoldsAt

variable {cells cells' text : Bytes} {off : Nat}

theorem at_end (before text : Bytes) : HoldsAt (before ++ text ++ [0]) before.length text := by
  refine ⟨?_, ?_⟩
  · rw [List.length_append, List.length_append, List.length_singleton]
    omega
  · rw [slice, List.append_assoc, List.drop_left, List.take_of_length_le]
    rw [List.length_append, List.length_singleton]

theorem drop_eq (h : HoldsAt cells off text) : ∃ rest, cells.drop off = text ++ 0 :: rest := by
  refine ⟨(cells.drop off).drop (text.length + 1), ?_⟩
  have hsplit := List.take_append_drop (text.length + 1) (cells.drop off)
  rw [← slice, h.slice_eq] at hsplit
  nth_rewrite 1 [← hsplit]
  simp

theorem cString_eq (h : HoldsAt cells off text) (hnul : 0 ∉ text) : cString cells off = text := by
  obtain ⟨rest, hrest⟩ := h.drop_eq
  exact HoldsText.takeWhile_eq ⟨hnul, rest, hrest⟩

theorem keeps {P : Nat → Prop} (h : HoldsAt cells off text) (hkeeps : KeepsBut P cells cells')
    (hP : ∀ i, Covers off (text.length + 1) i → ¬ P i) : HoldsAt cells' off text :=
  ⟨h.end_le.trans hkeeps.length_le, by rw [hkeeps.slice_eq h.end_le hP, h.slice_eq]⟩

theorem keeps_beside {start count : Nat} (h : HoldsAt cells off text)
    (hkeeps : KeepsBut (Covers start count) cells cells')
    (hbeside : off + (text.length + 1) ≤ start ∨ start + count ≤ off) : HoldsAt cells' off text := by
  refine h.keeps hkeeps fun i hi hcovers => ?_
  have hlow := hi.1
  have hhigh := hi.2
  have hlow' := hcovers.1
  have hhigh' := hcovers.2
  rcases hbeside with hbefore | hbehind <;> omega

theorem append (h : HoldsAt cells off text) (more : Bytes) : HoldsAt (cells ++ more) off text :=
  h.keeps (KeepsBut.append (fun _ => False) cells more) fun _ _ hfalse => hfalse

theorem of_append (before text after : Bytes) :
    HoldsAt (before ++ text ++ [0] ++ after) before.length text := (at_end before text).append after

end HoldsAt

end WslFreeBSD.Lib
