import WslFreeBSD.Plan9.Handler

/-!
# Parts of a handler, step by step

What a part of a handler comes to where nothing is asked of the system. The triples say what holds of all
runs of a handler; these equations say what the run is.
-/

namespace WslFreeBSD.Plan9

open Lib

variable {h : Handler} {b : Bytes} {w : MessageResponse}

/-! ## Reading -/

theorem read_run {n : Nat} (hle : n ≤ b.length) :
    SpanReader.read n ⟨h, b, w⟩ = pure (.value (b.take n), ⟨h, b.drop n, w⟩) := by
  change (if b.length < n then Action.halt .readPast else _ : Op Context Bytes) ⟨h, b, w⟩ = _
  rw [if_neg (Nat.not_lt.mpr hle)]
  rfl

theorem read_short {n : Nat} (hlt : b.length < n) :
    SpanReader.read n ⟨h, b, w⟩ = pure (.halted .readPast, ⟨h, b, w⟩) := by
  change (if b.length < n then Action.halt .readPast else _ : Op Context Bytes) ⟨h, b, w⟩ = _
  rw [if_pos hlt]
  rfl

theorem uint_run {n : Nat} (hle : n ≤ b.length) :
    SpanReader.uint n ⟨h, b, w⟩ = pure (.value (leAt 0 n b), ⟨h, b.drop n, w⟩) := by
  rw [SpanReader.uint, Action.bind_of_value (read_run hle), leAt_take (by omega)]
  rfl

theorem uint_short {n : Nat} (hlt : b.length < n) :
    SpanReader.uint n ⟨h, b, w⟩ = pure (.halted .readPast, ⟨h, b, w⟩) :=
  Action.bind_of_halted (read_short hlt)

theorem string_run (hb : holdsString b) :
    SpanReader.string ⟨h, b, w⟩ = pure (.value (stringAt b), ⟨h, b.drop (2 + stringLength b), w⟩) := by
  obtain ⟨hlen, hstring⟩ := holdsString_iff.mp hb
  have hrest : leAt 0 2 b ≤ (b.drop 2).length := by
    rw [List.length_drop]
    exact Nat.le_sub_of_add_le' hstring
  rw [SpanReader.string, Action.bind_of_value (uint_run hlen), Action.bind_of_value (read_run hrest),
    List.drop_drop]
  rfl

theorem string_short (hb : ¬ holdsString b) :
    ∃ c, SpanReader.string ⟨h, b, w⟩ = pure (.halted .readPast, c) := by
  by_cases hlen : 2 ≤ b.length
  · have hrest : (b.drop 2).length < leAt 0 2 b := by
      rw [List.length_drop]
      by_contra hle
      exact hb (holdsString_iff.mpr ⟨hlen, by rw [stringLength]; omega⟩)
    exact ⟨_, (Action.bind_of_value (uint_run hlen)).trans (Action.bind_of_halted (read_short hrest))⟩
  · exact ⟨_, Action.bind_of_halted (uint_short (Nat.lt_of_not_le hlen))⟩

theorem name_run (hb : holdsString b) (hname : isName (stringAt b)) :
    SpanReader.name ⟨h, b, w⟩ = pure (.value (stringAt b), ⟨h, b.drop (2 + stringLength b), w⟩) := by
  rw [SpanReader.name, Action.bind_of_value (string_run hb), if_pos hname]
  rfl

theorem name_short (hb : ¬ holdsString b) :
    ∃ c, SpanReader.name ⟨h, b, w⟩ = pure (.halted .readPast, c) := by
  obtain ⟨c, hc⟩ := string_short hb
  exact ⟨c, Action.bind_of_halted hc⟩

/-! ## Fids -/

theorem lookupFid_run {fid : Nat} {item : Fid} (hfid : h.fids fid = some item) :
    lookupFid fid ⟨h, b, w⟩ = pure (.value item, ⟨h, b, w⟩) := by
  rw [lookupFid, Action.bind_of_value rfl, hfid]
  rfl

theorem lookupFile_run {fid : Nat} {f : File} {error : Int} (hfid : h.fids fid = some (.file f)) :
    lookupFile fid error ⟨h, b, w⟩ = pure (.value f, ⟨h, b, w⟩) := by
  rw [lookupFile, Action.bind_of_value (lookupFid_run hfid)]
  rfl

/-! ## Fields of a body -/

theorem holds_int {n : Nat} {fields : List Field} :
    holds (.int n :: fields) b ↔ n ≤ b.length ∧ holds fields (b.drop n) := by
  rw [holds, Bool.and_eq_true, decide_eq_true_eq]

theorem holds_string {fields : List Field} :
    holds (.string :: fields) b ↔ holdsString b ∧ holds fields (b.drop (2 + stringLength b)) := by
  rw [holds, Bool.and_eq_true]

theorem holds_name {fields : List Field} : holds (.name :: fields) b ↔
    holdsString b ∧ (isName (stringAt b) → holds fields (b.drop (2 + stringLength b))) := by
  rw [holds, Bool.and_eq_true, Bool.or_eq_true, Bool.not_eq_true', ← Bool.not_eq_true, imp_iff_not_or]

variable {α : Type}

theorem uint_then_run {n : Nat} {fields : List Field} {k : Nat → Op Context α}
    (hb : holds (.int n :: fields) b) :
    (SpanReader.uint n >>= k) ⟨h, b, w⟩ = k (leAt 0 n b) ⟨h, b.drop n, w⟩ :=
  Action.bind_of_value (uint_run (holds_int.mp hb).1)

/-! ## Writing -/

theorem ensureSize_run {t : MessageType} {extra : Nat}
    (hnegotiated : getMessageSize t + extra ≤ h.negotiatedSize)
    (hsize : getMessageSize t + extra ≤ w.size) :
    ensureSize t extra ⟨h, b, w⟩ = pure (.value (), ⟨h, b, w⟩) := by
  change (if h.negotiatedSize < getMessageSize t + extra then Action.throw einval
    else if w.size < getMessageSize t + extra then _ else pure () : Op Context Unit) ⟨h, b, w⟩ = _
  rw [if_neg (Nat.not_lt.mpr hnegotiated), if_neg (Nat.not_lt.mpr hsize)]
  rfl

theorem write_run {data : Bytes} (hfits : headerSize + (w.written ++ data).length ≤ w.size) :
    SpanWriter.write data ⟨h, b, w⟩ =
      pure (.value (), ⟨h, b, { w with written := w.written ++ data, fits := hfits }⟩) := by
  rw [SpanWriter.write, Action.bind_of_value rfl, MessageResponse.next, dif_pos hfits]
  rfl

theorem write_past {data : Bytes} (hfits : ¬ headerSize + (w.written ++ data).length ≤ w.size) :
    SpanWriter.write data ⟨h, b, w⟩ = pure (.halted .writePast, ⟨h, b, w⟩) := by
  rw [SpanWriter.write, Action.bind_of_value rfl, MessageResponse.next, dif_neg hfits]
  rfl

theorem write_then_past {m : Op Context Unit} {data : Bytes}
    (hm : ∀ w' : MessageResponse, w'.size = w.size → w'.written.length = w.written.length + data.length →
      ∃ c, m ⟨h, b, w'⟩ = pure (.halted .writePast, c)) :
    ∃ c, (SpanWriter.write data >>= fun _ => m) ⟨h, b, w⟩ = pure (.halted .writePast, c) := by
  by_cases hfits : headerSize + (w.written ++ data).length ≤ w.size
  · rw [Action.bind_of_value (write_run hfits)]
    exact hm _ rfl List.length_append
  · exact ⟨_, Action.bind_of_halted (write_past hfits)⟩

/-! ## Messages -/

def handlerOf (m : Bytes) : Op Context Unit :=
  match messageType (leAt 4 1 m) with
  | some t => handleMessage (leAt 5 2 m) t
  | none => handleNotSupported

theorem handlerOf_eq {m : Bytes} {t : MessageType} (ht : messageType (leAt 4 1 m) = some t) :
    handlerOf m = handleMessage (leAt 5 2 m) t := by
  rw [handlerOf, ht]

/-- What is done behind the handler of a message: an error is written to a response that starts anew. -/
def finishMessage (m : Bytes) (errorWriter : MessageResponse) : Except Int Unit → Op Context Reply
  | .ok () => do return .answer (leAt 4 1 m) (leAt 5 2 m) (← Action.get).response
  | .error e => do
    Action.modify fun c => { c with response := errorWriter }
    SpanWriter.uint 4 ((-e) % 2 ^ 32).toNat
    return .rlerror ((-e) % 2 ^ 32).toNat (leAt 5 2 m) (← Action.get).response

theorem processMessage_run {m : Bytes} (hm : headerSize ≤ m.length) : processMessage ⟨h, m, w⟩ =
    ((handlerOf m).attempt >>= finishMessage m w) ⟨h, m.drop headerSize, w⟩ := by
  have hlength (k n : Nat) (hk : k + n ≤ headerSize) : n ≤ (m.drop k).length := by
    rw [List.length_drop]
    omega
  have hcode := uint_run (h := h) (w := w) (hlength 4 1 (by decide))
  have htag := uint_run (h := h) (w := w) (hlength 5 2 (by decide))
  rw [leAt_drop, List.drop_drop] at hcode htag
  rw [processMessage, Action.bind_of_value (uint_run (le_trans (by decide) hm)),
    Action.bind_of_value hcode, Action.bind_of_value htag]
  refine congrFun (congrArg (Action.bind (handlerOf m).attempt) (funext fun r => ?_)) _
  cases r <;> rfl

end WslFreeBSD.Plan9
