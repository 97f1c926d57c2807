import WslFreeBSD.Lib.CText

/-!
# Text in arrays

Code that puts a text together in an array of characters, with calls of `snprintf` behind what is
there already. A step has no result when it writes outside of the array, or reads a string that does
not end in it.

An array `HoldsText` that ends with a NUL. What is printed behind the text is cut to the room that
is left (`HoldsText.printInto`), so that several prints leave a cut of everything that was printed.
-/

namespace WslFreeBSD.Lib

def store (cells : Bytes) (off : Nat) (data : Bytes) : Option Bytes :=
  if off + data.length ≤ cells.length then
    some (cells.take off ++ data ++ cells.drop (off + data.length))
  else none

/-- `strlen`. -/
def strlen (cells : Bytes) : Option Nat :=
  if 0 ∈ cells then some (cells.takeWhile (· ≠ 0)).length else none

/-- `snprintf(cells + off, room, ...)` of a text. -/
def printInto (cells : Bytes) (off room : Nat) (text : Bytes) : Option Bytes :=
  if room = 0 then some cells else store cells off (snprintf room text ++ [0])

/-- What `snprintf` returns; the length has to be an `int`. -/
def printfResult (text : Bytes) : Int := if text.length < 2 ^ 31 then text.length else -1

theorem printfResult_neg_iff {text : Bytes} : printfResult text < 0 ↔ 2 ^ 31 ≤ text.length := by
  unfold printfResult
  split <;> omega

def HoldsText (cells text : Bytes) : Prop := 0 ∉ text ∧ ∃ rest, cells = text ++ 0 :: rest

namespace HoldsText

variable {cells text : Bytes}

theorem takeWhile_eq (h : HoldsText cells text) : cells.takeWhile (· ≠ 0) = text := by
  obtain ⟨hnul, rest, rfl⟩ := h
  have hall : ∀ c ∈ text, decide (c ≠ 0) = true := by
    intro c hc
    rw [decide_eq_true_eq]
    rintro rfl
    exact hnul hc
  rw [List.takeWhile_append_of_pos hall]
  simp

theorem unique {text' : Bytes} (h : HoldsText cells text) (h' : HoldsText cells text') :
    text = text' := by
  rw [← h.takeWhile_eq, h'.takeWhile_eq]

theorem length_lt (h : HoldsText cells text) : text.length < cells.length := by
  obtain ⟨-, rest, rfl⟩ := h
  simp

theorem strlen_eq (h : HoldsText cells text) : strlen cells = some text.length := by
  have htext := h.takeWhile_eq
  obtain ⟨-, rest, rfl⟩ := h
  rw [strlen, if_pos (by simp), htext]

end HoldsText

/-! ## Storing -/

theorem store_eq {cells data : Bytes} {off : Nat}
    (h : off + data.length ≤ cells.length) :
    store cells off data = some (cells.take off ++ data ++ cells.drop (off + data.length)) :=
  if_pos h

theorem store_eq_none {cells data : Bytes} {off : Nat} (h : cells.length < off + data.length) :
    store cells off data = none := if_neg (by omega)

theorem length_of_store {cells cells' data : Bytes} {off : Nat} (h : store cells off data = some cells') :
    cells'.length = cells.length := by
  unfold store at h
  split at h
  · obtain rfl := Option.some.inj h
    simp
    omega
  · cases h

theorem store_append (text : Bytes) {rest data : Bytes} (h : data.length ≤ rest.length) :
    store (text ++ rest) text.length data = some (text ++ data ++ rest.drop data.length) := by
  rw [store_eq (by simp; omega), List.take_left, List.drop_append, List.drop_of_length_le (by omega)]
  simp

/-! ## Printing -/

theorem nul_not_mem_append {s t : Bytes} (hs : 0 ∉ s) (ht : 0 ∉ t) : 0 ∉ s ++ t := by
  rw [List.mem_append, not_or]
  exact ⟨hs, ht⟩

theorem holdsText_printInto {cells text : Bytes} (hpos : 0 < cells.length) (hnul : 0 ∉ text) :
    ∃ cells', printInto cells 0 cells.length text = some cells' ∧
      cells'.length = cells.length ∧ HoldsText cells' (text.take (cells.length - 1)) := by
  have hlen : (snprintf cells.length text ++ [0]).length ≤ cells.length := by
    simp [snprintf]
    omega
  have hstore := store_append [] hlen
  rw [List.nil_append, List.length_nil, List.nil_append] at hstore
  refine ⟨_, ?_, length_of_store hstore, ?_, cells.drop (snprintf cells.length text ++ [0]).length, ?_⟩
  · rw [printInto, if_neg (by omega), hstore]
  · exact fun h => hnul (List.mem_of_mem_take h)
  · simp [snprintf]

theorem HoldsText.printInto {cells text more : Bytes} (h : HoldsText cells text) (hnul : 0 ∉ more) :
    ∃ cells', printInto cells text.length (cells.length - text.length) more = some cells' ∧
      cells'.length = cells.length ∧
      HoldsText cells' (text ++ more.take (cells.length - text.length - 1)) := by
  have hlt := h.length_lt
  obtain ⟨htext, rest, rfl⟩ := h
  have hroom : (text ++ 0 :: rest).length - text.length = rest.length + 1 := by simp
  have hlen : (snprintf (rest.length + 1) more ++ [0]).length ≤ (0 :: rest).length := by
    simp [snprintf]
  have hstore := store_append text hlen
  rw [hroom]
  refine ⟨_, ?_, length_of_store hstore, ?_,
    (0 :: rest).drop (snprintf (rest.length + 1) more ++ [0]).length, ?_⟩
  · rw [Lib.printInto, if_neg (by omega), hstore]
  · exact nul_not_mem_append htext fun hmem => hnul (List.mem_of_mem_take hmem)
  · simp [snprintf]

theorem take_append_take {s t : Bytes} (n : Nat) :
    s.take n ++ t.take (n - (s.take n).length) = (s ++ t).take n := by
  rw [List.take_append, List.length_take]
  rcases Nat.le_total n s.length with h | h
  · rw [Nat.min_eq_left h, Nat.sub_self, Nat.sub_eq_zero_of_le h]
  · rw [Nat.min_eq_right h]

end WslFreeBSD.Lib
