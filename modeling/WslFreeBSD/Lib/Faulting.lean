import WslFreeBSD.Lib.CBuffer

/-!
# Programs that can fault

A program on a state ends with a value and the next state, or with a fault, behind which nothing is
known of it. `Completes` says that there is no fault, and is settled from the front of the program
(`completes_bind`); `Yields` also says what holds behind the program.

The accesses to an array are such programs on their own: a read and a write outside of it are faults,
and so is the use of what nobody has written.
-/

namespace WslFreeBSD.Lib

/-- A program on states of the type `σ`. -/
def Faulting (ε σ α : Type) := σ → Except ε (α × σ)

namespace Faulting

variable {ε σ α β : Type}

instance : Monad (Faulting ε σ) where
  pure a := fun s => .ok (a, s)
  bind x f := fun s =>
    match x s with
    | .ok r => f r.1 r.2
    | .error e => .error e

/-- A computation that does not look at the state. -/
def lift (x : Except ε α) : Faulting ε σ α := fun s => x.map fun a => (a, s)

def get : Faulting ε σ σ := fun s => .ok (s, s)

def modify (f : σ → σ) : Faulting ε σ Unit := fun s => .ok ((), f s)

variable {x : Faulting ε σ α} {f : α → Faulting ε σ β} {s s' : σ} {a : α} {e : ε}

@[simp] theorem pure_apply : (pure a : Faulting ε σ α) s = .ok (a, s) := rfl

@[simp] theorem get_apply : (get : Faulting ε σ σ) s = .ok (s, s) := rfl

@[simp] theorem modify_apply (g : σ → σ) : (modify g : Faulting ε σ Unit) s = .ok ((), g s) := rfl

theorem bind_apply : (x >>= f) s =
    match x s with
    | .ok r => f r.1 r.2
    | .error e => .error e := rfl

theorem bind_of_ok (h : x s = .ok (a, s')) : (x >>= f) s = f a s' := by rw [bind_apply, h]

theorem bind_of_error (h : x s = .error e) : (x >>= f) s = .error e := by rw [bind_apply, h]

theorem bind_congr_left {y : Faulting ε σ α} (h : x s = y s) : (x >>= f) s = (y >>= f) s := by
  rw [bind_apply, bind_apply, h]

theorem bind_eq_ok_iff {r : β × σ} :
    (x >>= f) s = .ok r ↔ ∃ a s', x s = .ok (a, s') ∧ f a s' = .ok r := by
  cases h : x s with
  | ok p =>
    rw [bind_of_ok h]
    constructor
    · exact fun hr => ⟨p.1, p.2, rfl, hr⟩
    · rintro ⟨a, s', hp, hr⟩
      cases hp
      exact hr
  | error e =>
    rw [bind_of_error h]
    constructor
    · intro hr
      cases hr
    · rintro ⟨a, s', hp, -⟩
      cases hp

theorem lift_ok : (lift (.ok a : Except ε α) : Faulting ε σ α) s = .ok (a, s) := rfl

theorem lift_error : (lift (.error e : Except ε α) : Faulting ε σ α) s = .error e := rfl

/-! ## No fault -/

def Completes (x : Faulting ε σ α) (s : σ) : Prop := ∃ r, x s = .ok r

theorem completes_of_ok {r : α × σ} (h : x s = .ok r) : Completes x s := ⟨r, h⟩

theorem completes_congr {y : Faulting ε σ α} (h : x s = y s) : Completes x s ↔ Completes y s := by
  unfold Completes
  rw [h]

theorem completes_pure : Completes (pure a : Faulting ε σ α) s := ⟨_, rfl⟩

theorem not_completes_of_error (h : x s = .error e) : ¬ Completes x s := by
  rintro ⟨r, hr⟩
  rw [h] at hr
  cases hr

theorem completes_bind :
    Completes (x >>= f) s ↔ ∃ a s', x s = .ok (a, s') ∧ Completes (f a) s' := by
  unfold Completes
  simp only [bind_eq_ok_iff]
  constructor
  · rintro ⟨r, a, s', hx, hf⟩
    exact ⟨a, s', hx, r, hf⟩
  · rintro ⟨a, s', hx, r, hf⟩
    exact ⟨r, a, s', hx, hf⟩

theorem completes_bind_of_ok (h : x s = .ok (a, s')) : Completes (x >>= f) s ↔ Completes (f a) s' := by
  unfold Completes
  rw [bind_of_ok h]

theorem completes_lift {x : Except ε α} : Completes (lift x : Faulting ε σ α) s ↔ ∃ a, x = .ok a := by
  cases x with
  | ok a => exact iff_of_true ⟨_, rfl⟩ ⟨a, rfl⟩
  | error e =>
    refine iff_of_false (not_completes_of_error rfl) ?_
    rintro ⟨a, ha⟩
    cases ha

theorem completes_lift_bind {x : Except ε α} :
    Completes (lift x >>= f) s ↔ ∃ a, x = .ok a ∧ Completes (f a) s := by
  cases x with
  | ok a =>
    rw [completes_bind_of_ok lift_ok]
    refine ⟨fun h => ⟨a, rfl, h⟩, ?_⟩
    rintro ⟨b, hb, hf⟩
    cases hb
    exact hf
  | error e =>
    refine iff_of_false (not_completes_of_error (bind_of_error lift_error)) ?_
    rintro ⟨a, ha, -⟩
    cases ha

def Total (x : Faulting ε σ α) : Prop := ∀ s, Completes x s

theorem total_pure : Total (pure a : Faulting ε σ α) := fun _ => completes_pure

theorem total_get : Total (get : Faulting ε σ σ) := fun s => ⟨(s, s), rfl⟩

theorem total_modify (g : σ → σ) : Total (modify g : Faulting ε σ Unit) := fun s => ⟨((), g s), rfl⟩

theorem Total.bind (hx : Total x) (hf : ∀ a, Total (f a)) : Total (x >>= f) := by
  intro s
  obtain ⟨⟨a, s'⟩, hs⟩ := hx s
  exact (completes_bind_of_ok hs).mpr (hf a s')

theorem Total.ite {c : Prop} [Decidable c] {y : Faulting ε σ α} (hx : Total x) (hy : Total y) :
    Total (if c then x else y) := by
  split
  · exact hx
  · exact hy

theorem completes_bind_of_total (hf : ∀ a, Total (f a)) : Completes (x >>= f) s ↔ Completes x s := by
  rw [Faulting.completes_bind]
  constructor
  · rintro ⟨a, s', hx, -⟩
    exact completes_of_ok hx
  · rintro ⟨⟨a, s'⟩, hx⟩
    exact ⟨a, s', hx, hf a s'⟩

/-! ## What holds behind it -/

/-- There is no fault, and `Q` holds of the value and the next state. -/
def Yields (x : Faulting ε σ α) (s : σ) (Q : α → σ → Prop) : Prop := ∃ a s', x s = .ok (a, s') ∧ Q a s'

variable {Q Q' : α → σ → Prop} {R : β → σ → Prop}

theorem yields_pure (h : Q a s) : Yields (pure a : Faulting ε σ α) s Q := ⟨a, s, rfl, h⟩

theorem Yields.congr {y : Faulting ε σ α} (h : x s = y s) (hy : Yields y s Q) : Yields x s Q := by
  obtain ⟨a, s', hy, hQ⟩ := hy
  exact ⟨a, s', h.trans hy, hQ⟩

theorem yields_of_ok (h : x s = .ok (a, s')) (hQ : Q a s') : Yields x s Q := ⟨a, s', h, hQ⟩

theorem Yields.bind (hx : Yields x s Q) (hf : ∀ a s', Q a s' → Yields (f a) s' R) :
    Yields (x >>= f) s R := by
  obtain ⟨a, s', hx, hQ⟩ := hx
  obtain ⟨b, t, hfb, hR⟩ := hf a s' hQ
  exact ⟨b, t, (bind_of_ok hx).trans hfb, hR⟩

theorem yields_bind_of_ok (h : x s = .ok (a, s')) (hf : Yields (f a) s' R) : Yields (x >>= f) s R := by
  obtain ⟨b, t, hfb, hR⟩ := hf
  exact ⟨b, t, (bind_of_ok h).trans hfb, hR⟩

theorem Total.yields_bind (hx : Total x) (hf : ∀ a s', x s = .ok (a, s') → Yields (f a) s' R) :
    Yields (x >>= f) s R := by
  obtain ⟨⟨a, s'⟩, hs⟩ := hx s
  exact yields_bind_of_ok hs (hf a s' hs)

theorem Yields.mono (hx : Yields x s Q) (h : ∀ a s', Q a s' → Q' a s') : Yields x s Q' := by
  obtain ⟨a, s', hx, hQ⟩ := hx
  exact ⟨a, s', hx, h a s' hQ⟩

theorem Yields.completes (hx : Yields x s Q) : Completes x s := by
  obtain ⟨a, s', hx, -⟩ := hx
  exact ⟨(a, s'), hx⟩

/-! ## What a program leaves as it is -/

/-- If `P` holds before the program, it holds behind it. -/
def Keeps (P : σ → Prop) (x : Faulting ε σ α) : Prop := ∀ s a s', P s → x s = .ok (a, s') → P s'

variable {P : σ → Prop}

theorem keeps_pure : Keeps P (pure a : Faulting ε σ α) := by
  intro s b s' hs h
  cases h
  exact hs

theorem keeps_lift {x : Except ε α} : Keeps P (lift x : Faulting ε σ α) := by
  intro s b s' hs h
  cases x with
  | ok a =>
    cases h
    exact hs
  | error e => cases h

theorem Keeps.bind (hx : Keeps P x) (hf : ∀ a, Keeps P (f a)) : Keeps P (x >>= f) := by
  intro s b t hs h
  obtain ⟨a, s', hx', hf'⟩ := bind_eq_ok_iff.mp h
  exact hf a s' b t (hx s a s' hs hx') hf'

theorem Keeps.ite {c : Prop} [Decidable c] {y : Faulting ε σ α} (hx : Keeps P x) (hy : Keeps P y) :
    Keeps P (if c then x else y) := by
  split
  · exact hx
  · exact hy

theorem Keeps.yields (h : Keeps P x) (hx : Completes x s) (hs : P s) : Yields x s fun _ s' => P s' := by
  obtain ⟨⟨a, s'⟩, hx⟩ := hx
  exact ⟨a, s', hx, h s a s' hs hx⟩

end Faulting

/-! ## Accesses to arrays -/

/-- What an access can do wrong. -/
inductive MemFault where
  | readOutside
  | writeOutside
  | uninitialised
  deriving DecidableEq, Repr

def readBytes (cells : Bytes) (off n : Nat) : Except MemFault Bytes :=
  if off + n ≤ cells.length then .ok ((cells.drop off).take n) else .error .readOutside

def readLE (cells : Bytes) (off n : Nat) : Except MemFault Nat := (readBytes cells off n).map leValue

/-- `memcpy` into an array. -/
def writeBytes (cells : Bytes) (off : Nat) (data : Bytes) : Except MemFault Bytes :=
  match store cells off data with
  | some cells' => .ok cells'
  | none => .error .writeOutside

/-- Bytes written behind the others that an array of this capacity holds. -/
def push (capacity : Nat) (cells data : Bytes) : Except MemFault Bytes :=
  if cells.length + data.length ≤ capacity then .ok (cells ++ data) else .error .writeOutside

def initialised {α : Type} : Option α → Except MemFault α
  | some a => .ok a
  | none => .error .uninitialised

variable {cells data : Bytes} {off n capacity : Nat}

theorem readBytes_eq (h : off + n ≤ cells.length) : readBytes cells off n = .ok ((cells.drop off).take n) :=
  if_pos h

theorem readLE_eq (h : off + n ≤ cells.length) : readLE cells off n = .ok (leAt off n cells) := by
  rw [readLE, readBytes_eq h]
  rfl

theorem writeBytes_eq (h : off + data.length ≤ cells.length) :
    writeBytes cells off data = .ok (cells.take off ++ data ++ cells.drop (off + data.length)) := by
  rw [writeBytes, store_eq h]

theorem writeBytes_spec (h : off + data.length ≤ cells.length) :
    ∃ cells', writeBytes cells off data = .ok cells' ∧ cells'.length = cells.length :=
  ⟨_, writeBytes_eq h, length_of_store (store_eq h)⟩

theorem writeBytes_error (h : cells.length < off + data.length) :
    writeBytes cells off data = .error .writeOutside := by
  rw [writeBytes, store_eq_none h]

theorem foldlM_push_eq {pieces : List Bytes}
    (h : cells.length + (pieces.map List.length).sum ≤ capacity) :
    pieces.foldlM (push capacity) cells = .ok (cells ++ pieces.flatten) := by
  induction pieces generalizing cells with
  | nil =>
    rw [List.flatten_nil, List.append_nil]
    rfl
  | cons piece pieces ih =>
    rw [List.map_cons, List.sum_cons] at h
    have hpiece : push capacity cells piece = .ok (cells ++ piece) := if_pos (by omega)
    have hroom : (cells ++ piece).length + (pieces.map List.length).sum ≤ capacity := by
      rw [List.length_append]
      omega
    rw [List.foldlM_cons, hpiece, List.flatten_cons, ← List.append_assoc]
    exact ih hroom

theorem foldlM_push_error {pieces : List Bytes}
    (h : capacity < cells.length + (pieces.map List.length).sum) (hcells : cells.length ≤ capacity) :
    pieces.foldlM (push capacity) cells = .error .writeOutside := by
  induction pieces generalizing cells with
  | nil => simp at h; omega
  | cons piece pieces ih =>
    rw [List.map_cons, List.sum_cons] at h
    rw [List.foldlM_cons]
    by_cases hpiece : cells.length + piece.length ≤ capacity
    · have hroom : capacity < (cells ++ piece).length + (pieces.map List.length).sum := by
        rw [List.length_append]
        omega
      rw [push, if_pos hpiece]
      exact ih hroom (by rwa [List.length_append])
    · rw [push, if_neg hpiece]
      rfl

theorem push_eq (h : cells.length + data.length ≤ capacity) : push capacity cells data = .ok (cells ++ data) :=
  if_pos h

end WslFreeBSD.Lib
