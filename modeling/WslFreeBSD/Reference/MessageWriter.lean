import Mathlib.Data.List.Pairwise
import WslFreeBSD.Lib.Stores
import WslFreeBSD.Reference.CreateProcess

/-!
# The writer of messages

`MessageWriter` of `message.h` puts a message together in a vector that grows behind the fixed fields of
`TMessage`. The size of the message is one of these fields, and so are the indices of strings and buffers;
`MessageLayout` says where they are. A call has no result where it is undefined or stops the process.

Every call keeps the size right and changes no byte but the size, the fields that it is given and what it
appends (`Call.run_spec`). So what was written stays (`run_spec`), and the receiver finds it with `FromSpan`
(`run_create_spec`).
-/

namespace WslFreeBSD.Reference.MessageWriter

open Lib
open CreateProcess (fromSpan)

/-- `TMessage`: `sizeof`, and the offsets of `Buffer`, of two fields of the header, and of the fields of type
`unsigned int` that can be indices or sizes. There may be padding behind `Buffer`. -/
structure MessageLayout where
  sizeOf : Nat
  buffer : Nat
  messageType : Nat
  messageSize : Nat
  indices : List Nat
  buffer_le : buffer ≤ sizeOf
  inside : ∀ field ∈ messageType :: messageSize :: indices, field + 4 ≤ buffer
  apart : (messageType :: messageSize :: indices).Pairwise fun a b => a + 4 ≤ b ∨ b + 4 ≤ a

/-- A `gsl::span` of `m_buffer`. -/
structure Range where
  offset : Nat
  count : Nat

/-- The value of a `size_t` difference as an `int64_t`. -/
def toInt64 (n : Int) : Int := (n + 2 ^ 63) % 2 ^ 64 - 2 ^ 63

/-- `std::vector::resize`. -/
def resize (m_buffer : Bytes) (n : Nat) : Bytes := m_buffer.take n ++ List.replicate (n - m_buffer.length) 0

/-- `gsl::span::subspan`, which checks its arguments. -/
def subspan (span : Range) (offset count : Nat) : Option Range :=
  if offset ≤ span.count ∧ count ≤ span.count - offset then some ⟨span.offset + offset, count⟩ else none

/-- `gsl::copy` to a span of `m_buffer`, which checks the sizes. -/
def copy (data : Bytes) (span : Range) (m_buffer : Bytes) : Option Bytes :=
  if span.count < data.length then none else store m_buffer span.offset data

namespace MessageLayout

variable (layout : MessageLayout)

/-- Reading `Size()`. -/
def size (m_buffer : Bytes) : Option Nat :=
  if layout.messageSize + 4 ≤ m_buffer.length then some (leAt layout.messageSize 4 m_buffer) else none

/-- `Size() = m_buffer.size()`. -/
def setSize (m_buffer : Bytes) : Option Bytes :=
  store m_buffer layout.messageSize (leBytes 4 m_buffer.length)

def create (type : Nat) : Option Bytes := do
  let m_buffer ← store (List.replicate layout.buffer 0) layout.messageType (leBytes 4 type)
  store m_buffer layout.messageSize (leBytes 4 layout.buffer)

/-- `GetRelativeIndex` of a reference to a field, with its assertion. -/
def getRelativeIndex (index : Nat) (m_buffer : Bytes) : Option Nat :=
  if index < m_buffer.length then some index else none

def writeRelativeIndex (offset value : Nat) (m_buffer : Bytes) : Option Bytes :=
  store m_buffer offset (leBytes 4 value)

/-- `WriteString(String)`. -/
def writeString (string m_buffer : Bytes) : Option Bytes :=
  layout.setSize (m_buffer ++ string ++ [0])

/-- `WriteString(Index, String)`. -/
def writeStringAt (index : Nat) (string m_buffer : Bytes) : Option Bytes := do
  let indexOffset ← getRelativeIndex index m_buffer
  let indexValue ← layout.size m_buffer
  let m_buffer ← layout.writeString string m_buffer
  writeRelativeIndex indexOffset indexValue m_buffer

/-- `InsertBuffer(BufferSize)`, with the `Span()` that it calls. -/
def insertBufferWith (span : Bytes → Option (Bytes × Range)) (bufferSize : Nat) (m_buffer : Bytes) :
    Option (Bytes × Range) := do
  let m_buffer := resize m_buffer ((m_buffer.length + bufferSize) % 2 ^ 64)
  let index ← layout.size m_buffer
  let m_buffer ← layout.setSize m_buffer
  let (m_buffer, whole) ← span m_buffer
  let part ← subspan whole index bufferSize
  return (m_buffer, part)

/-- `Span()`, which calls `InsertBuffer` for the padding, and this one `Span()` again. -/
def spanWithin : (depth : Nat) → Bytes → Option (Bytes × Range)
  | 0, _ => none
  | depth + 1, m_buffer =>
    let diff := toInt64 (layout.sizeOf - m_buffer.length)
    if 0 < diff then
      (layout.insertBufferWith (spanWithin depth) diff.toNat m_buffer).map fun inserted =>
        (inserted.1, ⟨0, inserted.1.length⟩)
    else some (m_buffer, ⟨0, m_buffer.length⟩)

/-- `Span()`. The second call finds a message that is long enough (`span_spec`). -/
def span : Bytes → Option (Bytes × Range) := layout.spanWithin 2

/-- `InsertBuffer(BufferSize)`. -/
def insertBuffer : Nat → Bytes → Option (Bytes × Range) := layout.insertBufferWith layout.span

/-- `InsertBuffer(Index, BufferSize)`. -/
def insertBufferAt (index bufferSize : Nat) (m_buffer : Bytes) : Option (Bytes × Range) := do
  let indexOffset ← getRelativeIndex index m_buffer
  let indexValue ← layout.size m_buffer
  let m_buffer := resize m_buffer ((m_buffer.length + bufferSize) % 2 ^ 64)
  let m_buffer ← writeRelativeIndex indexOffset indexValue m_buffer
  let m_buffer ← layout.setSize m_buffer
  let (m_buffer, whole) ← layout.span m_buffer
  let part ← subspan whole indexValue bufferSize
  return (m_buffer, part)

/-- `InsertBuffer(Index, BufferSize, Size)`. -/
def insertBufferSized (index bufferSize sizeField : Nat) (m_buffer : Bytes) : Option (Bytes × Range) := do
  let m_buffer ← store m_buffer sizeField (leBytes 4 bufferSize)
  layout.insertBufferAt index bufferSize m_buffer

/-- `WriteSpan`. -/
def writeSpan (data m_buffer : Bytes) : Option (Bytes × Range) := do
  let (m_buffer, part) ← layout.insertBuffer data.length m_buffer
  let m_buffer ← copy data part m_buffer
  return (m_buffer, part)

end MessageLayout

/-! ## Sequences of calls -/

/-- Calls with references to fields of the message. A caller fills the buffer that it inserts with
`contents`, as long as its span is valid. -/
inductive Call where
  | writeString (string : Bytes)
  | writeStringAt (index : Nat) (string : Bytes)
  | writeSpan (data : Bytes)
  | insertBuffer (contents : Bytes)
  | insertBufferAt (index : Nat) (contents : Bytes)
  | insertBufferSized (index : Nat) (contents : Bytes) (size : Nat)
  | span

/-- What the caller puts into the span of an insertion. -/
def filled (contents : Bytes) (inserted : Option (Bytes × Range)) : Option (Bytes × Range) := do
  let (m_buffer, part) ← inserted
  let m_buffer ← copy contents part m_buffer
  return (m_buffer, part)

/-- A call, with the spans of the buffers that were inserted and their contents. -/
def Call.run (layout : MessageLayout) : Call → Bytes → Option (Bytes × List (Range × Bytes))
  | .writeString string, m_buffer => (layout.writeString string m_buffer).map (·, [])
  | .writeStringAt index string, m_buffer => (layout.writeStringAt index string m_buffer).map (·, [])
  | .writeSpan data, m_buffer => (layout.writeSpan data m_buffer).map fun st => (st.1, [(st.2, data)])
  | .insertBuffer contents, m_buffer =>
    (filled contents (layout.insertBuffer contents.length m_buffer)).map fun st =>
      (st.1, [(st.2, contents)])
  | .insertBufferAt index contents, m_buffer =>
    (filled contents (layout.insertBufferAt index contents.length m_buffer)).map fun st =>
      (st.1, [(st.2, contents)])
  | .insertBufferSized index contents size, m_buffer =>
    (filled contents (layout.insertBufferSized index contents.length size m_buffer)).map fun st =>
      (st.1, [(st.2, contents)])
  | .span, m_buffer => (layout.span m_buffer).map fun st => (st.1, [])

def run (layout : MessageLayout) : List Call → Bytes → Option (Bytes × List (Range × Bytes))
  | [], m_buffer => some (m_buffer, [])
  | call :: calls, m_buffer => do
    let (m_buffer, inserted) ← call.run layout m_buffer
    let (m_buffer, rest) ← run layout calls m_buffer
    return (m_buffer, inserted ++ rest)

def Call.stringFields : Call → List Nat
  | .writeStringAt index _ => [index]
  | _ => []

/-- The fields for the indices and the sizes of buffers. -/
def Call.bufferFields : Call → List Nat
  | .insertBufferAt index _ => [index]
  | .insertBufferSized index _ size => [index, size]
  | _ => []

def Call.fields (call : Call) : List Nat := call.stringFields ++ call.bufferFields

def Call.contents : Call → List Bytes
  | .writeSpan data => [data]
  | .insertBuffer contents => [contents]
  | .insertBufferAt _ contents => [contents]
  | .insertBufferSized _ contents _ => [contents]
  | _ => []

/-- The size of a message behind a call, with the padding that `Span()` adds. -/
def Call.grow (layout : MessageLayout) (size : Nat) : Call → Nat
  | .writeString string => size + (string.length + 1)
  | .writeStringAt _ string => size + (string.length + 1)
  | .writeSpan data => max (size + data.length) layout.sizeOf
  | .insertBuffer contents => max (size + contents.length) layout.sizeOf
  | .insertBufferAt _ contents => max (size + contents.length) layout.sizeOf
  | .insertBufferSized _ contents _ => max (size + contents.length) layout.sizeOf
  | .span => max size layout.sizeOf

/-- The size of the message that calls and a last `Span()` make. -/
def totalSize (layout : MessageLayout) (calls : List Call) : Nat :=
  max (calls.foldl (Call.grow layout) layout.buffer) layout.sizeOf

/-! ## Messages -/

/-- The bytes of the size of a message and of fields. -/
def MessageLayout.Written (layout : MessageLayout) (fields : List Nat) (i : Nat) : Prop :=
  ∃ field ∈ layout.messageSize :: fields, Covers field 4 i

/-- A message under construction: there are all fields, and the size is right. -/
structure IsMessage (layout : MessageLayout) (m_buffer : Bytes) : Prop where
  fixed : layout.buffer ≤ m_buffer.length
  size_eq : leAt layout.messageSize 4 m_buffer = m_buffer.length

variable {layout : MessageLayout} {m_buffer m_buffer' : Bytes}

namespace MessageLayout

theorem messageType_add_le (layout : MessageLayout) : layout.messageType + 4 ≤ layout.buffer :=
  layout.inside _ List.mem_cons_self

theorem messageSize_add_le (layout : MessageLayout) : layout.messageSize + 4 ≤ layout.buffer :=
  layout.inside _ (List.mem_cons_of_mem _ List.mem_cons_self)

theorem index_add_le {field : Nat} (h : field ∈ layout.indices) : field + 4 ≤ layout.buffer :=
  layout.inside _ (List.mem_cons_of_mem _ (List.mem_cons_of_mem _ h))

theorem not_written_nil_iff {i : Nat} : ¬ layout.Written [] i ↔ ¬ Covers layout.messageSize 4 i := by
  simp [Written]

theorem not_written_of_le {fields : List Nat} (hfields : ∀ field ∈ fields, field ∈ layout.indices)
    {i : Nat} (hi : layout.buffer ≤ i) : ¬ layout.Written fields i := by
  rintro ⟨field, hmem, hcovers⟩
  have hend : field + 4 ≤ layout.buffer := by
    rcases List.mem_cons.mp hmem with rfl | hmem
    · exact layout.messageSize_add_le
    · exact index_add_le (hfields field hmem)
  have := hcovers.2
  omega

theorem not_written_of_not_mem {fields : List Nat} (hfields : ∀ field ∈ fields, field ∈ layout.indices)
    {index i : Nat} (hindex : index ∈ layout.indices) (hnot : index ∉ fields) (hi : Covers index 4 i) :
    ¬ layout.Written fields i := by
  have hapart : ∀ field ∈ layout.messageSize :: fields, field + 4 ≤ index ∨ index + 4 ≤ field := by
    intro field hmem
    rcases List.mem_cons.mp hmem with rfl | hmem
    · have htail := (List.pairwise_cons.mp layout.apart).2
      exact (List.pairwise_cons.mp htail).1 index hindex
    · have hother : field ≠ index := by
        rintro rfl
        exact hnot hmem
      have htail := (List.pairwise_cons.mp (List.pairwise_cons.mp layout.apart).2).2
      have hsymm : Std.Symm fun a b : Nat => a + 4 ≤ b ∨ b + 4 ≤ a := ⟨fun _ _ h => h.symm⟩
      exact htail.forall (hfields field hmem) hindex hother
  rintro ⟨field, hmem, hcovers⟩
  have hlow := hi.1
  have hhigh := hi.2
  have hlow' := hcovers.1
  have hhigh' := hcovers.2
  rcases hapart field hmem with h | h <;> omega

end MessageLayout

theorem MessageLayout.Written.mono {fields fields' : List Nat} (h : ∀ field ∈ fields, field ∈ fields') {i : Nat}
    (hi : layout.Written fields i) : layout.Written fields' i := by
  obtain ⟨field, hmem, hcovers⟩ := hi
  refine ⟨field, ?_, hcovers⟩
  rcases List.mem_cons.mp hmem with rfl | hmem
  · exact List.mem_cons_self
  · exact List.mem_cons_of_mem _ (h field hmem)

/-- What a call makes of a message: one of `n` bytes, with the same bytes but for the size and the fields. -/
structure Extends (layout : MessageLayout) (fields : List Nat) (n : Nat) (m_buffer m_buffer' : Bytes) :
    Prop where
  message : IsMessage layout m_buffer'
  length_eq : m_buffer'.length = n
  keeps : KeepsBut (layout.Written fields) m_buffer m_buffer'

theorem Extends.slice_eq {fields : List Nat} {n : Nat} (h : Extends layout fields n m_buffer m_buffer')
    (hfields : ∀ field ∈ fields, field ∈ layout.indices) {off count : Nat} (hoff : layout.buffer ≤ off)
    (hend : off + count ≤ m_buffer.length) : slice off count m_buffer' = slice off count m_buffer :=
  h.keeps.slice_eq hend fun _ hi => MessageLayout.not_written_of_le hfields (hoff.trans hi.1)

theorem IsMessage.of_keeps {P : Nat → Prop} (h : IsMessage layout m_buffer)
    (hkeeps : KeepsBut P m_buffer m_buffer') (hlength : m_buffer'.length = m_buffer.length)
    (hP : ∀ i, Covers layout.messageSize 4 i → ¬ P i) : IsMessage layout m_buffer' := by
  refine ⟨h.fixed.trans hlength.ge, ?_⟩
  rw [hkeeps.leAt_eq (layout.messageSize_add_le.trans h.fixed) hP, h.size_eq, hlength]

/-! ## The steps of the calls -/

namespace MessageLayout

theorem size_eq_some (h : layout.buffer ≤ m_buffer.length) :
    layout.size m_buffer = some (leAt layout.messageSize 4 m_buffer) :=
  if_pos (layout.messageSize_add_le.trans h)

theorem setSize_spec (hfixed : layout.buffer ≤ m_buffer.length) (hlt : m_buffer.length < 2 ^ 32) :
    ∃ m_buffer', layout.setSize m_buffer = some m_buffer' ∧
      Extends layout [] m_buffer.length m_buffer m_buffer' := by
  have hfits := layout.messageSize_add_le.trans hfixed
  obtain ⟨m_buffer', hstore, hlength, hslice, hkeeps⟩ := @store_spec m_buffer
    (leBytes 4 m_buffer.length) layout.messageSize (by rw [length_leBytes]; exact hfits)
  rw [length_leBytes] at hslice hkeeps
  refine ⟨m_buffer', hstore, ⟨hfixed.trans hlength.ge, ?_⟩, hlength, ?_⟩
  · have hvalue := congrArg leValue hslice
    rw [leValue_leBytes (by omega)] at hvalue
    rw [hlength]
    exact hvalue
  · exact hkeeps.mono fun i hi => ⟨_, List.mem_cons_self, hi⟩

theorem writeRelativeIndex_spec {index : Nat} (hindex : index ∈ layout.indices) (value : Nat)
    (hfixed : layout.buffer ≤ m_buffer.length) :
    ∃ m_buffer', writeRelativeIndex index value m_buffer = some m_buffer' ∧
      m_buffer'.length = m_buffer.length ∧ leAt index 4 m_buffer' = value % 2 ^ 32 ∧
      KeepsBut (Covers index 4) m_buffer m_buffer' := by
  obtain ⟨m_buffer', hstore, hlength, hslice, hkeeps⟩ := @store_spec m_buffer (leBytes 4 value) index
    (by rw [length_leBytes]; exact (index_add_le hindex).trans hfixed)
  rw [length_leBytes] at hslice hkeeps
  refine ⟨m_buffer', hstore, hlength, ?_, hkeeps⟩
  calc leAt index 4 m_buffer' = leValue (slice index 4 m_buffer') := rfl
    _ = value % 256 ^ 4 := by rw [hslice, leValue_leBytes_mod]
    _ = value % 2 ^ 32 := by norm_num

theorem getRelativeIndex_eq {index : Nat} (hindex : index ∈ layout.indices)
    (hfixed : layout.buffer ≤ m_buffer.length) : getRelativeIndex index m_buffer = some index := by
  have := index_add_le hindex
  exact if_pos (by omega)

theorem resize_eq {n : Nat} (h : m_buffer.length ≤ n) :
    resize m_buffer n = m_buffer ++ List.replicate (n - m_buffer.length) 0 := by
  rw [resize, List.take_of_length_le h]

theorem subspan_eq {offset count length : Nat} (h : offset + count ≤ length) :
    subspan ⟨0, length⟩ offset count = some ⟨offset, count⟩ := by
  rw [subspan, if_pos ⟨by simp only; omega, by simp only; omega⟩, Nat.zero_add]

theorem toInt64_eq {n : Int} (hlow : -2 ^ 63 ≤ n) (hhigh : n < 2 ^ 63) : toInt64 n = n := by
  unfold toInt64
  omega

theorem resize_add {count : Nat} (hlt : m_buffer.length + count < 2 ^ 32) :
    resize m_buffer ((m_buffer.length + count) % 2 ^ 64) = m_buffer ++ List.replicate count 0 := by
  rw [Nat.mod_eq_of_lt (by omega), resize_eq (Nat.le_add_right _ _), Nat.add_sub_cancel_left]

theorem resize_setSize {count : Nat} (h : IsMessage layout m_buffer)
    (hlt : m_buffer.length + count < 2 ^ 32) :
    ∃ grown m_buffer', resize m_buffer ((m_buffer.length + count) % 2 ^ 64) = grown ∧
      layout.size grown = some m_buffer.length ∧ grown.length = m_buffer.length + count ∧
      layout.setSize grown = some m_buffer' ∧
      Extends layout [] (m_buffer.length + count) m_buffer m_buffer' := by
  have hresize := resize_add hlt
  have hlength : (m_buffer ++ List.replicate count 0).length = m_buffer.length + count := by simp
  have hkeeps := KeepsBut.append (layout.Written []) m_buffer (List.replicate count 0)
  have hfixed : layout.buffer ≤ (m_buffer ++ List.replicate count 0).length := by
    rw [hlength]
    exact h.fixed.trans (Nat.le_add_right _ _)
  obtain ⟨m_buffer', hset, hextends⟩ := setSize_spec hfixed (by rw [hlength]; exact hlt)
  refine ⟨_, m_buffer', hresize, ?_, hlength, hset, hextends.message, ?_, hkeeps.trans hextends.keeps⟩
  · rw [size_eq_some hfixed, leAt_append_of_le (layout.messageSize_add_le.trans h.fixed), h.size_eq]
  · rw [hextends.length_eq, hlength]

/-- Inserting a buffer, when the `Span()` behind it gives all of a message of `n` bytes. -/
theorem insertBufferWith_spec {span : Bytes → Option (Bytes × Range)} {count n : Nat}
    (h : IsMessage layout m_buffer) (hlt : m_buffer.length + count < 2 ^ 32)
    (hle : m_buffer.length + count ≤ n)
    (hspan : ∀ grown, IsMessage layout grown → grown.length = m_buffer.length + count →
      ∃ grown', span grown = some (grown', ⟨0, grown'.length⟩) ∧ Extends layout [] n grown grown') :
    ∃ m_buffer', layout.insertBufferWith span count m_buffer =
        some (m_buffer', ⟨m_buffer.length, count⟩) ∧ Extends layout [] n m_buffer m_buffer' := by
  obtain ⟨grown, sized, hresize, hsize, -, hset, hextends⟩ := resize_setSize h hlt
  obtain ⟨m_buffer', hwhole, hextends'⟩ := hspan sized hextends.message hextends.length_eq
  refine ⟨m_buffer', ?_, hextends'.message, hextends'.length_eq, hextends.keeps.trans hextends'.keeps⟩
  have hpart := @subspan_eq m_buffer.length count m_buffer'.length (by rw [hextends'.length_eq]; exact hle)
  simp only [insertBufferWith, hresize, hsize, hset, hwhole, hpart, Option.bind_eq_bind,
    Option.bind_some, Option.pure_def]

theorem spanWithin_eq (depth : Nat) (hle : layout.sizeOf ≤ m_buffer.length)
    (hlt : m_buffer.length < 2 ^ 32) :
    layout.spanWithin (depth + 1) m_buffer = some (m_buffer, ⟨0, m_buffer.length⟩) := by
  rw [spanWithin, toInt64_eq (by omega) (by omega)]
  exact if_neg (by omega)

theorem span_spec (h : IsMessage layout m_buffer) (hlt : max m_buffer.length layout.sizeOf < 2 ^ 32) :
    ∃ m_buffer', layout.span m_buffer = some (m_buffer', ⟨0, m_buffer'.length⟩) ∧
      Extends layout [] (max m_buffer.length layout.sizeOf) m_buffer m_buffer' := by
  have hboth := max_lt_iff.mp hlt
  rcases Nat.lt_or_ge m_buffer.length layout.sizeOf with hshort | hlong
  · have hcount : ((layout.sizeOf : Int) - m_buffer.length).toNat = layout.sizeOf - m_buffer.length := by
      omega
    have hsum : m_buffer.length + (layout.sizeOf - m_buffer.length) = layout.sizeOf := by omega
    obtain ⟨m_buffer', hinsert, hextends⟩ := @insertBufferWith_spec layout m_buffer
      (layout.spanWithin 1) (layout.sizeOf - m_buffer.length) layout.sizeOf h (by omega) hsum.le
      fun grown hgrown hlength => ⟨grown, spanWithin_eq 0 (by omega) (by omega), hgrown, by omega,
        KeepsBut.refl _ _⟩
    rw [Nat.max_eq_right hshort.le]
    refine ⟨m_buffer', ?_, hextends⟩
    rw [span, spanWithin, toInt64_eq (by omega) (by omega), if_pos (by omega), hcount, hinsert]
    rfl
  · rw [Nat.max_eq_left hlong]
    exact ⟨m_buffer, spanWithin_eq 1 hlong hboth.1, h, rfl, KeepsBut.refl _ _⟩

theorem insertBuffer_spec {count : Nat} (h : IsMessage layout m_buffer)
    (hlt : max (m_buffer.length + count) layout.sizeOf < 2 ^ 32) :
    ∃ m_buffer', layout.insertBuffer count m_buffer = some (m_buffer', ⟨m_buffer.length, count⟩) ∧
      Extends layout [] (max (m_buffer.length + count) layout.sizeOf) m_buffer m_buffer' := by
  refine insertBufferWith_spec h (max_lt_iff.mp hlt).1 (Nat.le_max_left _ _) fun grown hgrown hlength => ?_
  rw [← hlength] at hlt ⊢
  exact span_spec hgrown hlt

theorem keeps_field {fields : List Nat} {index : Nat} (h : KeepsBut (Covers index 4) m_buffer m_buffer') :
    KeepsBut (layout.Written (index :: fields)) m_buffer m_buffer' :=
  h.mono fun _ hi => ⟨index, List.mem_cons_of_mem _ List.mem_cons_self, hi⟩

theorem not_covers_messageSize {index : Nat} (hindex : index ∈ layout.indices) {i : Nat}
    (hi : Covers layout.messageSize 4 i) : ¬ Covers index 4 i := by
  have htail := (List.pairwise_cons.mp layout.apart).2
  have hapart := (List.pairwise_cons.mp htail).1 index hindex
  intro hi'
  have hlow := hi.1
  have hhigh := hi.2
  have hlow' := hi'.1
  have hhigh' := hi'.2
  omega

theorem insertBufferAt_spec {index count : Nat} (h : IsMessage layout m_buffer)
    (hindex : index ∈ layout.indices) (hlt : max (m_buffer.length + count) layout.sizeOf < 2 ^ 32) :
    ∃ m_buffer', layout.insertBufferAt index count m_buffer = some (m_buffer', ⟨m_buffer.length, count⟩) ∧
      Extends layout [index] (max (m_buffer.length + count) layout.sizeOf) m_buffer m_buffer' := by
  have hsum := (max_lt_iff.mp hlt).1
  have hresize := resize_add hsum
  have hlength : (m_buffer ++ List.replicate count 0).length = m_buffer.length + count := by simp
  obtain ⟨indexed, hindexed, hindexedLength, -, hindexedKeeps⟩ := writeRelativeIndex_spec hindex
    m_buffer.length (hlength ▸ h.fixed.trans (Nat.le_add_right _ _) :
      layout.buffer ≤ (m_buffer ++ List.replicate count 0).length)
  have hfixed : layout.buffer ≤ indexed.length := by
    rw [hindexedLength, hlength]
    exact h.fixed.trans (Nat.le_add_right _ _)
  obtain ⟨sized, hsized, hsizedExtends⟩ := setSize_spec hfixed (by omega)
  have hsizedLength : sized.length = m_buffer.length + count := by
    rw [hsizedExtends.length_eq, hindexedLength, hlength]
  rw [← hsizedLength] at hlt ⊢
  obtain ⟨m_buffer', hspan, hextends⟩ := span_spec hsizedExtends.message hlt
  have hpart := @subspan_eq m_buffer.length count m_buffer'.length (by
    rw [hextends.length_eq, ← hsizedLength]
    exact Nat.le_max_left _ _)
  refine ⟨m_buffer', ?_, hextends.message, hextends.length_eq, ?_⟩
  · simp only [insertBufferAt, getRelativeIndex_eq hindex h.fixed, size_eq_some h.fixed, h.size_eq, hresize,
      hindexed, hsized, hspan, hpart, Option.bind_eq_bind, Option.bind_some, Option.pure_def]
  · have hwritten := fun i => @Written.mono layout [] [index] (fun _ hf => absurd hf (List.not_mem_nil)) i
    exact (((KeepsBut.append _ _ _).trans (keeps_field hindexedKeeps)).trans
      (hsizedExtends.keeps.mono hwritten)).trans (hextends.keeps.mono hwritten)

theorem insertBufferSized_spec {index count sizeField : Nat} (h : IsMessage layout m_buffer)
    (hindex : index ∈ layout.indices) (hsize : sizeField ∈ layout.indices)
    (hlt : max (m_buffer.length + count) layout.sizeOf < 2 ^ 32) :
    ∃ m_buffer', layout.insertBufferSized index count sizeField m_buffer =
        some (m_buffer', ⟨m_buffer.length, count⟩) ∧
      Extends layout [index, sizeField] (max (m_buffer.length + count) layout.sizeOf) m_buffer
        m_buffer' := by
  obtain ⟨sized, hsized, hlength, -, hkeeps⟩ := writeRelativeIndex_spec hsize count h.fixed
  have hmessage := h.of_keeps hkeeps hlength fun i hi => not_covers_messageSize hsize hi
  rw [← hlength] at hlt ⊢
  obtain ⟨m_buffer', hinsert, hextends⟩ := insertBufferAt_spec hmessage hindex hlt
  rw [writeRelativeIndex] at hsized
  refine ⟨m_buffer', ?_, hextends.message, hextends.length_eq, ?_⟩
  · simp only [insertBufferSized, hsized, hinsert, Option.bind_eq_bind, Option.bind_some]
  · refine KeepsBut.trans ?_ (hextends.keeps.mono fun i => Written.mono fun field hf => ?_)
    · exact hkeeps.mono fun i hi => ⟨sizeField, by simp, hi⟩
    · exact List.mem_cons.mpr (Or.inl (List.mem_singleton.mp hf))

theorem writeString_spec {string : Bytes} (h : layout.buffer ≤ m_buffer.length)
    (hlt : m_buffer.length + (string.length + 1) < 2 ^ 32) :
    ∃ m_buffer', layout.writeString string m_buffer = some m_buffer' ∧
      Extends layout [] (m_buffer.length + (string.length + 1)) m_buffer m_buffer' ∧
      slice m_buffer.length (string.length + 1) m_buffer' = string ++ [0] := by
  have happend : m_buffer ++ string ++ [0] = m_buffer ++ (string ++ [0]) := List.append_assoc _ _ _
  have hlength : (m_buffer ++ string ++ [0]).length = m_buffer.length + (string.length + 1) := by
    simp only [List.length_append, List.length_singleton]
    omega
  have hfixed : layout.buffer ≤ (m_buffer ++ string ++ [0]).length := by omega
  obtain ⟨m_buffer', hset, hextends⟩ := setSize_spec hfixed (by omega)
  refine ⟨m_buffer', hset, ⟨hextends.message, hextends.length_eq.trans hlength, ?_⟩, ?_⟩
  · rw [happend] at hextends
    exact (KeepsBut.append _ _ _).trans hextends.keeps
  · have hslice := @slice_append m_buffer (string ++ [0])
    rw [List.length_append, List.length_singleton] at hslice
    rw [hextends.slice_eq (List.forall_mem_nil _) h (by omega), happend, hslice]

theorem writeStringAt_spec {index : Nat} {string : Bytes} (h : IsMessage layout m_buffer)
    (hindex : index ∈ layout.indices) (hlt : m_buffer.length + (string.length + 1) < 2 ^ 32) :
    ∃ m_buffer', layout.writeStringAt index string m_buffer = some m_buffer' ∧
      Extends layout [index] (m_buffer.length + (string.length + 1)) m_buffer m_buffer' ∧
      slice m_buffer.length (string.length + 1) m_buffer' = string ++ [0] ∧
      leAt index 4 m_buffer' = m_buffer.length := by
  obtain ⟨written, hwritten, hextends, hslice⟩ := writeString_spec h.fixed hlt
  obtain ⟨m_buffer', hstore, hlength, hvalue, hkeeps⟩ := writeRelativeIndex_spec hindex m_buffer.length
    hextends.message.fixed
  refine ⟨m_buffer', ?_, ⟨?_, hlength.trans hextends.length_eq, ?_⟩, ?_, ?_⟩
  · simp only [writeStringAt, getRelativeIndex_eq hindex h.fixed, size_eq_some h.fixed, h.size_eq, hwritten,
      Option.bind_eq_bind, Option.bind_some]
    exact hstore
  · exact hextends.message.of_keeps hkeeps hlength fun i hi => not_covers_messageSize hindex hi
  · refine KeepsBut.trans (hextends.keeps.mono fun i => ?_) (keeps_field hkeeps)
    exact Written.mono fun _ hf => absurd hf List.not_mem_nil
  · rw [hkeeps.slice_eq (by rw [hextends.length_eq]) fun i hi hcovers => ?_, hslice]
    have := index_add_le hindex
    have := h.fixed
    have := hi.1
    have := hcovers.2
    omega
  · rw [hvalue, Nat.mod_eq_of_lt (by omega)]

end MessageLayout

/-! ## Runs -/

/-- The buffer of a span that was returned, with its contents. -/
structure HoldsBuffer (layout : MessageLayout) (entry : Range × Bytes) (m_buffer : Bytes) : Prop where
  start_ge : layout.buffer ≤ entry.1.offset
  end_le : entry.1.offset + entry.1.count ≤ m_buffer.length
  contents : slice entry.1.offset entry.1.count m_buffer = entry.2

/-- A string and its NUL, where an index field says. -/
structure HoldsStringAt (layout : MessageLayout) (index : Nat) (string m_buffer : Bytes) : Prop where
  start_ge : layout.buffer ≤ leAt index 4 m_buffer
  holds : HoldsAt m_buffer (leAt index 4 m_buffer) string

namespace Extends

variable {fields : List Nat} {n : Nat}

theorem holdsBuffer {entry : Range × Bytes} (h : Extends layout fields n m_buffer m_buffer')
    (hfields : ∀ field ∈ fields, field ∈ layout.indices) (hbuffer : HoldsBuffer layout entry m_buffer) :
    HoldsBuffer layout entry m_buffer' := by
  refine ⟨hbuffer.start_ge, hbuffer.end_le.trans h.keeps.length_le, ?_⟩
  rw [h.slice_eq hfields hbuffer.start_ge hbuffer.end_le, hbuffer.contents]

theorem holdsStringAt {index : Nat} {string : Bytes} (h : Extends layout fields n m_buffer m_buffer')
    (hfields : ∀ field ∈ fields, field ∈ layout.indices) (hfixed : layout.buffer ≤ m_buffer.length)
    (hindex : index ∈ layout.indices) (hnot : index ∉ fields)
    (hstring : HoldsStringAt layout index string m_buffer) :
    HoldsStringAt layout index string m_buffer' := by
  have hvalue : leAt index 4 m_buffer' = leAt index 4 m_buffer :=
    h.keeps.leAt_eq ((MessageLayout.index_add_le hindex).trans hfixed) fun _ hi =>
      MessageLayout.not_written_of_not_mem hfields hindex hnot hi
  refine ⟨?_, ?_⟩
  · rw [hvalue]
    exact hstring.start_ge
  · rw [hvalue]
    exact hstring.holds.keeps h.keeps fun i hi =>
      MessageLayout.not_written_of_le hfields (hstring.start_ge.trans hi.1)

theorem filled {contents : Bytes} (h : Extends layout fields n m_buffer m_buffer')
    (hfixed : layout.buffer ≤ m_buffer.length) (hle : m_buffer.length + contents.length ≤ n) :
    ∃ m_buffer'',
      filled contents (some (m_buffer', ⟨m_buffer.length, contents.length⟩)) =
        some (m_buffer'', ⟨m_buffer.length, contents.length⟩) ∧
      Extends layout fields n m_buffer m_buffer'' ∧
      HoldsBuffer layout (⟨m_buffer.length, contents.length⟩, contents) m_buffer'' := by
  have hlength := h.length_eq
  obtain ⟨m_buffer'', hstore, hsame, hslice, hkeeps⟩ := @store_spec m_buffer' contents m_buffer.length
    (by omega)
  have hcopy : copy contents ⟨m_buffer.length, contents.length⟩ m_buffer' = some m_buffer'' := by
    rw [copy, if_neg (Nat.lt_irrefl _), hstore]
  refine ⟨m_buffer'', ?_, ⟨?_, hsame.trans hlength, ?_⟩, hfixed, ?_, hslice⟩
  · simp only [MessageWriter.filled, hcopy, Option.bind_eq_bind, Option.bind_some, Option.pure_def]
  · refine h.message.of_keeps hkeeps hsame fun i hi hcovers => ?_
    have := layout.messageSize_add_le
    have := hi.2
    have := hcovers.1
    omega
  · -- what is filled was not there before
    refine ⟨h.keeps.length_le.trans hsame.ge, fun i hi hP => ?_⟩
    rw [hkeeps.get i (lt_of_lt_of_le hi h.keeps.length_le) fun hcovers => ?_, h.keeps.get i hi hP]
    have := hcovers.1
    omega
  · simp only
    omega

end Extends

theorem Call.le_grow (layout : MessageLayout) (call : Call) (n : Nat) : n ≤ call.grow layout n := by
  cases call <;> simp only [Call.grow] <;> omega

theorem le_foldl_grow (layout : MessageLayout) (calls : List Call) (n : Nat) :
    n ≤ calls.foldl (Call.grow layout) n := by
  induction calls generalizing n with
  | nil => exact Nat.le_refl n
  | cons call calls ih => exact (call.le_grow layout n).trans (ih _)

theorem Call.run_filled (call : Call) (contents : Bytes) (hfixed : layout.buffer ≤ m_buffer.length)
    (hextends : Extends layout call.fields (call.grow layout m_buffer.length) m_buffer m_buffer')
    (hle : m_buffer.length + contents.length ≤ call.grow layout m_buffer.length)
    (hrun : call.run layout m_buffer =
      (filled contents (some (m_buffer', ⟨m_buffer.length, contents.length⟩))).map fun st =>
        (st.1, [(st.2, contents)])) :
    ∃ m_buffer'' inserted, call.run layout m_buffer = some (m_buffer'', inserted) ∧
      Extends layout call.fields (call.grow layout m_buffer.length) m_buffer m_buffer'' ∧
      inserted.map Prod.snd = [contents] ∧ ∀ entry ∈ inserted, HoldsBuffer layout entry m_buffer'' := by
  obtain ⟨m_buffer'', hfilled, hextends', hholds⟩ := hextends.filled hfixed hle
  refine ⟨m_buffer'', _, ?_, hextends', ?_, List.forall_mem_singleton.mpr hholds⟩
  · rw [hrun, hfilled, Option.map_some]
  · rfl

theorem Call.run_spec {call : Call} (h : IsMessage layout m_buffer)
    (hfields : ∀ field ∈ call.fields, field ∈ layout.indices)
    (hlt : call.grow layout m_buffer.length < 2 ^ 32) :
    ∃ m_buffer' inserted, call.run layout m_buffer = some (m_buffer', inserted) ∧
      Extends layout call.fields (call.grow layout m_buffer.length) m_buffer m_buffer' ∧
      inserted.map Prod.snd = call.contents ∧
      (∀ entry ∈ inserted, HoldsBuffer layout entry m_buffer') ∧
      ∀ index string, call = .writeStringAt index string →
        HoldsStringAt layout index string m_buffer' := by
  cases call with
  | writeString string =>
    obtain ⟨m_buffer', hrun, hextends, -⟩ := MessageLayout.writeString_spec h.fixed hlt
    refine ⟨m_buffer', [], ?_, hextends, rfl, List.forall_mem_nil _, fun _ _ heq => by cases heq⟩
    rw [Call.run, hrun]
    rfl
  | writeStringAt index string =>
    have hindex := hfields index List.mem_cons_self
    obtain ⟨m_buffer', hrun, hextends, hslice, hvalue⟩ := MessageLayout.writeStringAt_spec h hindex hlt
    refine ⟨m_buffer', [], ?_, hextends, rfl, List.forall_mem_nil _, ?_⟩
    · rw [Call.run, hrun]
      rfl
    · intro _ _ heq
      cases heq
      exact ⟨hvalue ▸ h.fixed, by rw [hvalue, hextends.length_eq], hvalue ▸ hslice⟩
  | writeSpan data =>
    obtain ⟨m_buffer', hinsert, hextends⟩ := MessageLayout.insertBuffer_spec h hlt
    have hwrite : layout.writeSpan data m_buffer = filled data (layout.insertBuffer data.length m_buffer) := rfl
    obtain ⟨m_buffer'', inserted, hrun, hdone, hcontents, hholds⟩ :=
      Call.run_filled (.writeSpan data) data h.fixed hextends (Nat.le_max_left _ _)
        (by rw [Call.run, hwrite, hinsert])
    exact ⟨m_buffer'', inserted, hrun, hdone, hcontents, hholds, fun _ _ heq => by cases heq⟩
  | insertBuffer contents =>
    obtain ⟨m_buffer', hinsert, hextends⟩ := MessageLayout.insertBuffer_spec h hlt
    obtain ⟨m_buffer'', inserted, hrun, hdone, hcontents, hholds⟩ :=
      Call.run_filled (.insertBuffer contents) contents h.fixed hextends (Nat.le_max_left _ _)
        (by rw [Call.run, hinsert])
    exact ⟨m_buffer'', inserted, hrun, hdone, hcontents, hholds, fun _ _ heq => by cases heq⟩
  | insertBufferAt index contents =>
    have hindex := hfields index List.mem_cons_self
    obtain ⟨m_buffer', hinsert, hextends⟩ := MessageLayout.insertBufferAt_spec h hindex hlt
    obtain ⟨m_buffer'', inserted, hrun, hdone, hcontents, hholds⟩ :=
      Call.run_filled (.insertBufferAt index contents) contents h.fixed hextends (Nat.le_max_left _ _)
        (by rw [Call.run, hinsert])
    exact ⟨m_buffer'', inserted, hrun, hdone, hcontents, hholds, fun _ _ heq => by cases heq⟩
  | insertBufferSized index contents size =>
    have hindex := hfields index List.mem_cons_self
    have hsize := hfields size (List.mem_cons_of_mem _ List.mem_cons_self)
    obtain ⟨m_buffer', hinsert, hextends⟩ := MessageLayout.insertBufferSized_spec h hindex hsize hlt
    obtain ⟨m_buffer'', inserted, hrun, hdone, hcontents, hholds⟩ :=
      Call.run_filled (.insertBufferSized index contents size) contents h.fixed hextends (Nat.le_max_left _ _)
        (by rw [Call.run, hinsert])
    exact ⟨m_buffer'', inserted, hrun, hdone, hcontents, hholds, fun _ _ heq => by cases heq⟩
  | span =>
    obtain ⟨m_buffer', hrun, hextends⟩ := MessageLayout.span_spec h hlt
    refine ⟨m_buffer', [], ?_, hextends, rfl, List.forall_mem_nil _, fun _ _ heq => by cases heq⟩
    rw [Call.run, hrun]
    rfl

/-- The strings have fields of their own for their indices. -/
structure DistinctIndices (calls : List Call) : Prop where
  nodup : (calls.flatMap Call.stringFields).Nodup
  apart : ∀ field ∈ calls.flatMap Call.bufferFields, field ∉ calls.flatMap Call.stringFields

namespace DistinctIndices

variable {call : Call} {calls : List Call}

theorem tail (h : DistinctIndices (call :: calls)) : DistinctIndices calls := by
  obtain ⟨hnodup, hapart⟩ := h
  rw [List.flatMap_cons] at hnodup
  simp only [List.flatMap_cons, List.mem_append] at hapart
  refine ⟨(List.nodup_append.mp hnodup).2.1, fun field hfield hmem => ?_⟩
  exact hapart field (Or.inr hfield) (Or.inr hmem)

theorem not_mem {index : Nat} {string : Bytes} (h : DistinctIndices (.writeStringAt index string :: calls)) :
    index ∉ calls.flatMap Call.fields := by
  obtain ⟨hnodup, hapart⟩ := h
  rw [List.flatMap_cons, Call.stringFields, List.singleton_append, List.nodup_cons] at hnodup
  intro hmem
  obtain ⟨call, hcall, hfield⟩ := List.mem_flatMap.mp hmem
  rcases List.mem_append.mp hfield with hstring | hbuffer
  · exact hnodup.1 (List.mem_flatMap.mpr ⟨call, hcall, hstring⟩)
  · refine hapart index ?_ ?_
    · exact List.mem_flatMap.mpr ⟨call, List.mem_cons_of_mem _ hcall, hbuffer⟩
    · rw [List.flatMap_cons]
      exact List.mem_append_left _ List.mem_cons_self

end DistinctIndices

theorem run_spec (calls : List Call) (h : IsMessage layout m_buffer)
    (hfields : ∀ field ∈ calls.flatMap Call.fields, field ∈ layout.indices)
    (hlt : calls.foldl (Call.grow layout) m_buffer.length < 2 ^ 32) :
    ∃ m_buffer' inserted, run layout calls m_buffer = some (m_buffer', inserted) ∧
      Extends layout (calls.flatMap Call.fields) (calls.foldl (Call.grow layout) m_buffer.length) m_buffer
        m_buffer' ∧
      inserted.map Prod.snd = calls.flatMap Call.contents ∧
      (∀ entry ∈ inserted, HoldsBuffer layout entry m_buffer') ∧
      (DistinctIndices calls → ∀ index string, .writeStringAt index string ∈ calls →
        HoldsStringAt layout index string m_buffer') := by
  induction calls generalizing m_buffer with
  | nil =>
    exact ⟨m_buffer, [], rfl, ⟨h, rfl, KeepsBut.refl _ _⟩, rfl, List.forall_mem_nil _,
      fun _ _ _ hmem => absurd hmem List.not_mem_nil⟩
  | cons call calls ih =>
    have hcall : ∀ field ∈ call.fields, field ∈ layout.indices := fun field hfield =>
      hfields field (List.mem_flatMap.mpr ⟨call, List.mem_cons_self, hfield⟩)
    have hrest : ∀ field ∈ calls.flatMap Call.fields, field ∈ layout.indices := fun field hfield =>
      hfields field (by rw [List.flatMap_cons]; exact List.mem_append_right _ hfield)
    rw [List.foldl_cons] at hlt ⊢
    obtain ⟨middle, first, hfirst, hextends, hcontents, hbuffers, hstrings⟩ :=
      Call.run_spec h hcall (lt_of_le_of_lt (le_foldl_grow layout calls _) hlt)
    rw [← hextends.length_eq] at hlt ⊢
    obtain ⟨m_buffer', later, hlater, hextends', hcontents', hbuffers', hstrings'⟩ :=
      ih hextends.message hrest hlt
    refine ⟨m_buffer', first ++ later, ?_, ⟨hextends'.message, hextends'.length_eq, ?_⟩, ?_, ?_, ?_⟩
    · simp only [run, hfirst, hlater, Option.bind_eq_bind, Option.bind_some, Option.pure_def]
    · rw [List.flatMap_cons]
      exact (hextends.keeps.mono fun i => MessageLayout.Written.mono fun _ => List.mem_append_left _).trans
        (hextends'.keeps.mono fun i => MessageLayout.Written.mono fun _ => List.mem_append_right _)
    · rw [List.map_append, List.flatMap_cons, hcontents, hcontents']
    · intro entry hentry
      rcases List.mem_append.mp hentry with hentry | hentry
      · exact hextends'.holdsBuffer hrest (hbuffers entry hentry)
      · exact hbuffers' entry hentry
    · intro hdistinct index string hmem
      rcases List.mem_cons.mp hmem with rfl | hmem
      · exact hextends'.holdsStringAt hrest hextends.message.fixed (hcall index List.mem_cons_self)
          hdistinct.not_mem (hstrings index string rfl)
      · exact hstrings' hdistinct.tail index string hmem

/-! ## Whole messages -/

theorem create_spec (layout : MessageLayout) (type : Nat) (hlt : layout.buffer < 2 ^ 32) :
    ∃ m_buffer, layout.create type = some m_buffer ∧ IsMessage layout m_buffer ∧
      m_buffer.length = layout.buffer ∧ leAt layout.messageType 4 m_buffer = type % 2 ^ 32 := by
  have hzeros : (List.replicate layout.buffer (0 : UInt8)).length = layout.buffer := List.length_replicate
  obtain ⟨typed, htyped, htypedLength, htypedSlice, -⟩ := @store_spec (List.replicate layout.buffer 0)
    (leBytes 4 type) layout.messageType (by
      rw [length_leBytes, hzeros]
      exact layout.messageType_add_le)
  rw [hzeros] at htypedLength
  obtain ⟨m_buffer, hsized, hextends⟩ := MessageLayout.setSize_spec htypedLength.ge (by omega)
  rw [MessageLayout.setSize, htypedLength] at hsized
  refine ⟨m_buffer, ?_, hextends.message, hextends.length_eq.trans htypedLength, ?_⟩
  · simp only [MessageLayout.create, htyped, hsized, Option.bind_eq_bind, Option.bind_some]
  · have happart := (List.pairwise_cons.mp layout.apart).1 layout.messageSize List.mem_cons_self
    have hkept : leAt layout.messageType 4 m_buffer = leAt layout.messageType 4 typed := by
      refine hextends.keeps.leAt_eq (by rw [htypedLength]; exact layout.messageType_add_le) fun i hi => ?_
      rw [MessageLayout.not_written_nil_iff]
      intro hcovers
      have hlow := hi.1
      have hhigh := hi.2
      have hlow' := hcovers.1
      have hhigh' := hcovers.2
      omega
    rw [length_leBytes] at htypedSlice
    rw [hkept]
    calc leAt layout.messageType 4 typed = leValue (slice layout.messageType 4 typed) := rfl
      _ = type % 256 ^ 4 := by rw [htypedSlice, leValue_leBytes_mod]
      _ = type % 2 ^ 32 := by norm_num

theorem HoldsStringAt.fromSpan_eq {index : Nat} {string : Bytes}
    (h : HoldsStringAt layout index string m_buffer) (hplain : 0 ∉ string) :
    (fromSpan m_buffer (leAt index 4 m_buffer)).map CreateProcess.cString = some string := by
  have hend := h.holds.end_le
  obtain ⟨rest, hrest⟩ := h.holds.drop_eq
  have hnul : 0 ∈ m_buffer.drop (leAt index 4 m_buffer) := by
    rw [hrest]
    simp
  have htext := h.holds.cString_eq hplain
  rw [fromSpan, if_neg (by omega), if_pos hnul, Option.map_some]
  exact congrArg some htext

/-- Whatever calls make a message: its size is right and at least that of the structure, the receiver finds
the strings, inserted buffers have their contents, and only the size and the fields that calls were given
have changed among the fixed fields. -/
theorem run_create_spec (layout : MessageLayout) (type : Nat) (calls : List Call)
    (hfields : ∀ field ∈ calls.flatMap Call.fields, field ∈ layout.indices)
    (hdistinct : DistinctIndices calls)
    (hplain : ∀ index string, .writeStringAt index string ∈ calls → 0 ∉ string)
    (htotal : totalSize layout calls < 2 ^ 32) :
    ∃ start last inserted final, layout.create type = some start ∧
      run layout calls start = some (last, inserted) ∧
      layout.span last = some (final, ⟨0, final.length⟩) ∧
      leAt layout.messageSize 4 final = final.length ∧ layout.sizeOf ≤ final.length ∧
      (∀ index string, .writeStringAt index string ∈ calls →
        (fromSpan final (leAt index 4 final)).map CreateProcess.cString = some string) ∧
      inserted.map Prod.snd = calls.flatMap Call.contents ∧
      (∀ entry ∈ inserted, slice entry.1.offset entry.1.count final = entry.2) ∧
      ∀ i < layout.buffer, ¬ layout.Written (calls.flatMap Call.fields) i → final[i]? = start[i]? := by
  have hgrown := (max_lt_iff.mp htotal).1
  obtain ⟨start, hcreate, hmessage, hlength, -⟩ :=
    create_spec layout type (lt_of_le_of_lt (le_foldl_grow layout calls _) hgrown)
  rw [totalSize, ← hlength] at htotal
  rw [← hlength] at hgrown
  obtain ⟨last, inserted, hrun, hextends, hcontents, hbuffers, hstrings⟩ :=
    run_spec calls hmessage hfields hgrown
  rw [← hextends.length_eq] at htotal
  obtain ⟨final, hspan, hpadded⟩ := MessageLayout.span_spec hextends.message htotal
  refine ⟨start, last, inserted, final, hcreate, hrun, hspan, hpadded.message.size_eq, ?_, ?_, hcontents,
    ?_, ?_⟩
  · rw [hpadded.length_eq]
    exact Nat.le_max_right _ _
  · intro index string hmem
    have hindex : index ∈ layout.indices :=
      hfields index (List.mem_flatMap.mpr ⟨_, hmem, List.mem_cons_self⟩)
    have hholds := hpadded.holdsStringAt (List.forall_mem_nil _) hextends.message.fixed hindex
      List.not_mem_nil (hstrings hdistinct index string hmem)
    exact hholds.fromSpan_eq (hplain index string hmem)
  · intro entry hentry
    exact (hpadded.holdsBuffer (List.forall_mem_nil _) (hbuffers entry hentry)).contents
  · intro i hi hnot
    have hkeeps := hextends.keeps.trans (hpadded.keeps.mono fun i =>
      MessageLayout.Written.mono fun _ hf => absurd hf List.not_mem_nil)
    exact hkeeps.get i (by omega) hnot

theorem importResult_buffer_le : 50 ≤ 52 := by decide

theorem importResult_inside : ∀ field ∈ 0 :: 4 :: [20, 24, 28, 32, 36, 40, 44], field + 4 ≤ 50 := by decide

theorem importResult_apart :
    (0 :: 4 :: [20, 24, 28, 32, 36, 40, 44]).Pairwise fun a b => a + 4 ≤ b ∨ b + 4 ≤ a := by decide

/-- `LX_MINI_INIT_IMPORT_RESULT`, with two bytes of padding behind `Buffer`. -/
def importResult : MessageLayout where
  sizeOf := 52
  buffer := 50
  messageType := 0
  messageSize := 4
  indices := [20, 24, 28, 32, 36, 40, 44]
  buffer_le := importResult_buffer_le
  inside := importResult_inside
  apart := importResult_apart

/-- Strings for `FlavorIndex` and `VersionIndex`, and a buffer for `ShortcutIconIndex` and
`ShortcutIconSize`. -/
def importCalls : List Call :=
  [.writeStringAt 20 (ascii "a"), .span, .insertBufferSized 28 [0, 1] 32, .writeStringAt 24 (ascii "13")]

theorem distinctIndices_importCalls : DistinctIndices importCalls := ⟨by decide, by decide⟩

theorem importCalls_plain :
    ∀ index string, .writeStringAt index string ∈ importCalls → 0 ∉ string := by
  intro index string hmem
  simp only [importCalls, List.mem_cons, Call.writeStringAt.injEq, reduceCtorEq, List.not_mem_nil,
    or_false, false_or] at hmem
  rcases hmem with ⟨-, rfl⟩ | ⟨-, rfl⟩
  · decide
  · decide

/-- The result of an import, of type 34. -/
theorem run_importResult :
    ∃ start last inserted final, importResult.create 34 = some start ∧
      run importResult importCalls start = some (last, inserted) ∧
      importResult.span last = some (final, ⟨0, final.length⟩) ∧
      leAt 4 4 final = final.length ∧ 52 ≤ final.length ∧
      (∀ index string, .writeStringAt index string ∈ importCalls →
        (fromSpan final (leAt index 4 final)).map CreateProcess.cString = some string) ∧
      inserted.map Prod.snd = [[0, 1]] ∧
      (∀ entry ∈ inserted, slice entry.1.offset entry.1.count final = entry.2) ∧
      ∀ i < 50, ¬ importResult.Written (importCalls.flatMap Call.fields) i → final[i]? = start[i]? :=
  run_create_spec importResult 34 importCalls (by decide) distinctIndices_importCalls importCalls_plain
    (by decide)

end WslFreeBSD.Reference.MessageWriter
