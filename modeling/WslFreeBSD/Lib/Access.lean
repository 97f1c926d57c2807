import Mathlib.Data.List.TakeWhile
import Mathlib.Data.Set.Defs
import WslFreeBSD.Lib.Bytes

/-!
# Code that reads memory

A piece of code that is handed an address reads bytes from there on, and how far it reads can
depend on what it finds. An `Access` computes a value from a memory together with the addresses it
reads; there is no value when it reads outside the memory. Its run depends on nothing but the bytes
it reads; this is a field of the structure, so that it holds of every access put together with
`pure` and `bind`.

`Inside` says that a run stays below an address. A run that stays inside the first `n` bytes of a
memory is the same in every memory that starts with these bytes (`Inside.run_eq`). What the three
primitive accesses need to stay inside is stated once for each of them: `inside_field`,
`inside_string` and `inside_bounded`.
-/

namespace WslFreeBSD.Lib

/-- The value and the addresses read. -/
structure Access (α : Type) where
  run : Bytes → Option α × List Nat
  only_reads : ∀ {m m' : Bytes}, (∀ j ∈ (run m).2, m[j]? = m'[j]?) → run m' = run m

/-! ## Lists that agree at the start -/

theorem take_eq_of_agree {l l' : Bytes} {k : Nat} (h : ∀ i < k, l[i]? = l'[i]?) :
    l'.take k = l.take k := by
  apply List.ext_getElem?
  intro i
  by_cases hi : i < k
  · rw [List.getElem?_take_of_lt hi, List.getElem?_take_of_lt hi, h i hi]
  · have hk : k ≤ i := Nat.le_of_not_lt hi
    rw [List.getElem?_eq_none ((List.length_take_le k l').trans hk),
      List.getElem?_eq_none ((List.length_take_le k l).trans hk)]

theorem lt_length_iff_of_eq {l l' : Bytes} {i : Nat} (h : l[i]? = l'[i]?) :
    i < l'.length ↔ i < l.length := by
  rw [← not_iff_not, Nat.not_lt, Nat.not_lt, ← List.getElem?_eq_none_iff,
    ← List.getElem?_eq_none_iff, h]

theorem takeWhile_eq_of_agree {l l' : Bytes}
    (h : ∀ i ≤ (l.takeWhile (· ≠ 0)).length, l[i]? = l'[i]?) :
    l'.takeWhile (· ≠ 0) = l.takeWhile (· ≠ 0) := by
  induction l generalizing l' with
  | nil =>
    cases l' with
    | nil => rfl
    | cons c l' =>
      have h0 := h 0 (Nat.zero_le _)
      simp at h0
  | cons b l ih =>
    cases l' with
    | nil =>
      have h0 := h 0 (Nat.zero_le _)
      simp at h0
    | cons c l' =>
      have h0 : b = c := by simpa using h 0 (Nat.zero_le _)
      subst h0
      by_cases hb : b = 0
      · simp [hb]
      · have hcons : ∀ l : Bytes, (b :: l).takeWhile (· ≠ 0) = b :: l.takeWhile (· ≠ 0) :=
          fun l => by simp [hb]
        rw [hcons, List.length_cons] at h
        rw [hcons, hcons, ih fun i hi => by simpa using h (i + 1) (Nat.succ_le_succ hi)]

theorem agree_drop {m m' : Bytes} {off k : Nat} (h : ∀ j ∈ List.range' off k, m[j]? = m'[j]?)
    {i : Nat} (hi : i < k) : (m.drop off)[i]? = (m'.drop off)[i]? := by
  rw [List.getElem?_drop, List.getElem?_drop]
  exact h _ (List.mem_range'_1.mpr ⟨by omega, by omega⟩)

namespace Access

variable {α β : Type}

/-! ## Putting accesses together -/

protected def pure (a : α) : Access α where
  run _ := (some a, [])
  only_reads _ := rfl

/-- The run of `bind`: nothing is read after an access outside the memory. -/
def bindRun (x : Access α) (f : α → Access β) (m : Bytes) : Option β × List Nat :=
  match (x.run m).1 with
  | none => (none, (x.run m).2)
  | some a => (((f a).run m).1, (x.run m).2 ++ ((f a).run m).2)

protected def bind (x : Access α) (f : α → Access β) : Access β where
  run := x.bindRun f
  only_reads {m m'} h := by
    unfold bindRun at h ⊢
    cases hx : (x.run m).1 with
    | none =>
      simp only [hx] at h ⊢
      rw [x.only_reads h, hx]
    | some a =>
      simp only [hx] at h ⊢
      have hrun := x.only_reads fun j hj => h j (List.mem_append_left _ hj)
      have hrest := (f a).only_reads fun j hj => h j (List.mem_append_right _ hj)
      simp only [hrun, hx, hrest]

instance : Monad Access where
  pure := Access.pure
  bind := Access.bind

@[simp] theorem run_pure (a : α) (m : Bytes) : (pure a : Access α).run m = (some a, []) := rfl

theorem run_bind_some {x : Access α} {m : Bytes} {a : α} (h : (x.run m).1 = some a)
    (f : α → Access β) :
    (x >>= f).run m = (((f a).run m).1, (x.run m).2 ++ ((f a).run m).2) := by
  change x.bindRun f m = _
  rw [bindRun, h]

theorem value_bind {x : Access α} {m : Bytes} {a : α} (h : (x.run m).1 = some a)
    (f : α → Access β) : ((x >>= f).run m).1 = ((f a).run m).1 := by
  rw [run_bind_some h]

theorem run_bind_none {x : Access α} {m : Bytes} (h : (x.run m).1 = none) (f : α → Access β) :
    (x >>= f).run m = (none, (x.run m).2) := by
  change x.bindRun f m = _
  rw [bindRun, h]

/-! ## Primitive accesses -/

/-- A field of `k` bytes. -/
def field (off k : Nat) : Access Nat where
  run m := (if k ≤ (m.drop off).length then some (leAt off k m) else none, List.range' off k)
  only_reads {m m'} h := by
    have htake := take_eq_of_agree fun i hi => agree_drop h hi
    have hlen : k ≤ (m'.drop off).length ↔ k ≤ (m.drop off).length := by
      cases k with
      | zero => simp
      | succ k => exact lt_length_iff_of_eq (agree_drop h (Nat.lt_succ_self k))
    simp only [hlen, leAt, htake]

/-- A C string: the bytes up to the first NUL, and the NUL (`strlen`, `strdup`, `%s`). -/
def string (off : Nat) : Access Bytes where
  run m :=
    (if (cString m off).length < (m.drop off).length then some (cString m off) else none,
      List.range' off ((cString m off).length + 1))
  only_reads {m m'} h := by
    have hs : cString m' off = cString m off :=
      takeWhile_eq_of_agree fun i hi => agree_drop h (Nat.lt_succ_of_le hi)
    have hlen := lt_length_iff_of_eq (agree_drop h (Nat.lt_succ_self (cString m off).length))
    simp only [hs, hlen]

/-- The C string at an address, cut off after `size` bytes. -/
def cut (m : Bytes) (off size : Nat) : Bytes := ((m.drop off).take size).takeWhile (· ≠ 0)

def cutReads (m : Bytes) (off size : Nat) : Nat := min ((cut m off size).length + 1) size

/-- A C string of at most `size` bytes (`strnlen`, `strndup`). -/
def bounded (off size : Nat) : Access Bytes where
  run m :=
    (if cutReads m off size ≤ (m.drop off).length then some (cut m off size) else none,
      List.range' off (cutReads m off size))
  only_reads {m m'} h := by
    have hcut : cut m' off size = cut m off size := by
      refine takeWhile_eq_of_agree fun i hi => ?_
      by_cases hsize : i < size
      · rw [List.getElem?_take_of_lt hsize, List.getElem?_take_of_lt hsize]
        exact agree_drop h (lt_min (Nat.lt_succ_of_le hi) hsize)
      · have hle : size ≤ i := Nat.le_of_not_lt hsize
        rw [List.getElem?_eq_none ((List.length_take_le size _).trans hle),
          List.getElem?_eq_none ((List.length_take_le size _).trans hle)]
    have hreads : cutReads m' off size = cutReads m off size := by rw [cutReads, cutReads, hcut]
    have hlen : cutReads m off size ≤ (m'.drop off).length ↔
        cutReads m off size ≤ (m.drop off).length := by
      cases hk : cutReads m off size with
      | zero => simp
      | succ k =>
        rw [hk] at h
        exact lt_length_iff_of_eq (agree_drop h (Nat.lt_succ_self k))
    simp only [hcut, hreads, hlen]

/-! ## Staying inside -/

/-- In this memory, all addresses read are below `n`. -/
def Inside (x : Access α) (m : Bytes) (n : Nat) : Prop := ∀ j ∈ (x.run m).2, j < n

section Inside

variable {x : Access α} {f : α → Access β} {m m' : Bytes} {n : Nat}

theorem Inside.run_eq (h : x.Inside m n) (htake : m'.take n = m.take n) : x.run m' = x.run m := by
  refine x.only_reads fun j hj => ?_
  have hlt := h j hj
  rw [← List.getElem?_take_of_lt hlt, ← htake, List.getElem?_take_of_lt hlt]

theorem inside_pure (a : α) : (pure a : Access α).Inside m n := by
  simp [Inside]

theorem inside_bind : (x >>= f).Inside m n ↔
    x.Inside m n ∧ ∀ a, (x.run m).1 = some a → (f a).Inside m n := by
  unfold Inside
  cases hx : (x.run m).1 with
  | none =>
    rw [run_bind_none hx]
    simp
  | some a =>
    rw [run_bind_some hx]
    simp only [List.forall_mem_append, Option.some.injEq, forall_eq']

theorem inside_range' {off k : Nat} : (∀ j ∈ List.range' off k, j < n) ↔ k = 0 ∨ off + k ≤ n := by
  constructor
  · intro h
    cases k with
    | zero => exact .inl rfl
    | succ k => exact .inr (h (off + k) (List.mem_range'_1.mpr ⟨by omega, by omega⟩))
  · intro h j hj
    have := List.mem_range'_1.mp hj
    omega

end Inside

section Primitive

variable {msg rest : Bytes} {off k : Nat}

theorem inside_field (h : off + k ≤ msg.length) : (field off k).Inside (msg ++ rest) msg.length :=
  inside_range'.mpr (.inr h)

theorem run_field (h : off + k ≤ msg.length) :
    ((field off k).run (msg ++ rest)).1 = some (leAt off k msg) := by
  change (if k ≤ ((msg ++ rest).drop off).length then some (leAt off k (msg ++ rest)) else none) = _
  rw [if_pos (by simp; omega), leAt_append_of_le h]

theorem inside_field_bind {f : Nat → Access α} (h : off + k ≤ msg.length) :
    (field off k >>= f).Inside (msg ++ rest) msg.length ↔
      (f (leAt off k msg)).Inside (msg ++ rest) msg.length := by
  rw [inside_bind, run_field h]
  simp [inside_field h]

/-- The string at an offset is terminated before the end of the message. -/
def Terminated (msg : Bytes) (off : Nat) : Prop := 0 ∈ msg.drop off

instance (msg : Bytes) (off : Nat) : Decidable (Terminated msg off) :=
  inferInstanceAs (Decidable (0 ∈ msg.drop off))

theorem length_takeWhile_lt_iff (l : Bytes) : (l.takeWhile (· ≠ 0)).length < l.length ↔ 0 ∈ l := by
  induction l with
  | nil => simp
  | cons b l ih =>
    by_cases hb : b = 0
    · simp [hb]
    · have hb' : (0 : UInt8) ≠ b := fun h => hb h.symm
      simp only [List.takeWhile_cons, hb, ne_eq, not_false_eq_true, decide_true, if_true,
        List.length_cons, Nat.add_lt_add_iff_right, List.mem_cons, hb', false_or]
      exact ih

theorem takeWhile_append_of_mem {l : Bytes} (h : 0 ∈ l) (l' : Bytes) :
    (l ++ l').takeWhile (· ≠ 0) = l.takeWhile (· ≠ 0) := by
  rw [List.takeWhile_append, if_neg]
  have := (length_takeWhile_lt_iff l).mpr h
  omega

theorem Terminated.lt (h : Terminated msg off) : off < msg.length := by
  have := List.length_pos_of_mem h
  simpa using this

theorem Terminated.cString (h : Terminated msg off) : cString (msg ++ rest) off = cString msg off := by
  have hdrop : (msg ++ rest).drop off = msg.drop off ++ rest :=
    List.drop_append_of_le_length h.lt.le
  rw [Lib.cString, hdrop, takeWhile_append_of_mem h, Lib.cString]

theorem inside_string : (string off).Inside (msg ++ rest) msg.length ↔ Terminated msg off := by
  refine inside_range'.trans ⟨fun h => ?_, fun h => .inr ?_⟩
  · have hlt : off + (cString (msg ++ rest) off).length < msg.length := by omega
    by_contra hnone
    have hdrop : (msg ++ rest).drop off = msg.drop off ++ rest :=
      List.drop_append_of_le_length (by omega)
    have hlen : (msg.drop off).length ≤ (cString (msg ++ rest) off).length := by
      have hall : (msg.drop off).takeWhile (· ≠ 0) = msg.drop off := by
        refine List.takeWhile_eq_self_iff.mpr fun c hc => decide_eq_true ?_
        rintro rfl
        exact hnone hc
      rw [cString, hdrop, List.takeWhile_append, hall, if_pos rfl, List.length_append]
      omega
    rw [List.length_drop] at hlen
    omega
  · have hlt := (length_takeWhile_lt_iff _).mpr h
    rw [List.length_drop] at hlt
    rw [h.cString]
    unfold Lib.cString
    omega

theorem run_string (h : Terminated msg off) :
    ((string off).run (msg ++ rest)).1 = some (cString msg off) := by
  change (if _ < ((msg ++ rest).drop off).length then some (Lib.cString (msg ++ rest) off) else none) = _
  rw [h.cString, if_pos]
  have hlt := (length_takeWhile_lt_iff _).mpr h
  have hle : (msg.drop off).length ≤ ((msg ++ rest).drop off).length := by
    simp
    omega
  exact lt_of_lt_of_le hlt hle

theorem inside_string_bind {f : Bytes → Access α} :
    (string off >>= f).Inside (msg ++ rest) msg.length ↔
      Terminated msg off ∧ (f (cString msg off)).Inside (msg ++ rest) msg.length := by
  rw [inside_bind, inside_string]
  refine and_congr_right fun h => ?_
  rw [run_string h]
  simp

theorem cutReads_le (m : Bytes) (off size : Nat) : cutReads m off size ≤ size := min_le_right _ _

theorem inside_bounded {size : Nat} (h : off + size ≤ msg.length) :
    (bounded off size).Inside (msg ++ rest) msg.length := by
  refine inside_range'.mpr (.inr ?_)
  have := cutReads_le (msg ++ rest) off size
  omega

theorem not_inside_bounded {m : Bytes} {size n : Nat} (hoff : n ≤ off) (hsize : 0 < size) :
    ¬ (bounded off size).Inside m n := by
  intro h
  have hpos : 0 < cutReads m off size := lt_min (Nat.succ_pos _) hsize
  have hmem : off ∈ List.range' off (cutReads m off size) :=
    List.mem_range'_1.mpr ⟨Nat.le_refl off, Nat.lt_add_of_pos_right hpos⟩
  exact absurd (h off hmem) (Nat.not_lt.mpr hoff)

theorem run_bounded {size : Nat} (h : off + size ≤ msg.length) :
    ((bounded off size).run (msg ++ rest)).1 = some (cut msg off size) := by
  have hcut : cut (msg ++ rest) off size = cut msg off size := by
    rw [cut, cut, List.drop_append_of_le_length (by omega),
      List.take_append_of_le_length (by simp; omega)]
  have hreads : cutReads (msg ++ rest) off size ≤ ((msg ++ rest).drop off).length := by
    have := cutReads_le (msg ++ rest) off size
    simp
    omega
  change (if _ then some (cut (msg ++ rest) off size) else none) = _
  rw [if_pos hreads, hcut]

theorem inside_bounded_bind {size : Nat} {f : Bytes → Access α} (h : off + size ≤ msg.length) :
    (bounded off size >>= f).Inside (msg ++ rest) msg.length ↔
      (f (cut msg off size)).Inside (msg ++ rest) msg.length := by
  rw [inside_bind, run_bounded h]
  simp [inside_bounded h]

end Primitive

/-! ## Somewhere in memory -/

/-- In this memory, all addresses read are in a set. -/
def Within (x : Access α) (m : Bytes) (S : Set Nat) : Prop := ∀ j ∈ (x.run m).2, j ∈ S

section Within

variable {x : Access α} {f : α → Access β} {m : Bytes} {S : Set Nat}

theorem within_pure (a : α) : (pure a : Access α).Within m S := by
  simp [Within]

theorem within_bind : (x >>= f).Within m S ↔
    x.Within m S ∧ ∀ a, (x.run m).1 = some a → (f a).Within m S := by
  unfold Within
  cases hx : (x.run m).1 with
  | none =>
    rw [run_bind_none hx]
    simp
  | some a =>
    rw [run_bind_some hx]
    simp only [List.forall_mem_append, Option.some.injEq, forall_eq']

theorem within_bind_some {a : α} (h : (x.run m).1 = some a) :
    (x >>= f).Within m S ↔ x.Within m S ∧ (f a).Within m S := by
  rw [within_bind, h]
  simp

variable {before buf after : Bytes} {off k : Nat}

theorem run_field_array (h : off + k ≤ buf.length) :
    ((field (before.length + off) k).run (before ++ buf ++ after)).1 = some (leAt off k buf) := by
  have hdrop : (before ++ buf ++ after).drop (before.length + off) = buf.drop off ++ after := by
    rw [List.append_assoc, List.drop_append, List.drop_of_length_le (by omega), List.nil_append,
      Nat.add_sub_cancel_left, List.drop_append_of_le_length (by omega)]
  have hvalue : leAt (before.length + off) k (before ++ buf ++ after) = leAt off k buf := by
    rw [leAt, hdrop, leAt, List.take_append_of_le_length (by simp; omega)]
  change (if k ≤ ((before ++ buf ++ after).drop (before.length + off)).length then some _ else none) = _
  rw [hdrop, hvalue, if_pos (by simp; omega)]

def cellsOf (base len : Nat) : Set Nat := { j | base ≤ j ∧ j < base + len }

theorem within_field_array (hk : 0 < k) {base len : Nat} :
    (field (base + off) k).Within m (cellsOf base len) ↔ off + k ≤ len := by
  constructor
  · intro h
    have hlast := (h (base + off + (k - 1)) (List.mem_range'_1.mpr ⟨by omega, by omega⟩)).2
    omega
  · intro h j hj
    have := List.mem_range'_1.mp hj
    exact ⟨by omega, by omega⟩

/-- The access has a value, and the addresses read are in a set. -/
def Completes (x : Access α) (m : Bytes) (S : Set Nat) : Prop :=
  x.Within m S ∧ ∃ a, (x.run m).1 = some a

theorem completes_pure (a : α) : (pure a : Access α).Completes m S := ⟨within_pure a, a, rfl⟩

theorem Completes.bind (hx : x.Completes m S) (hf : ∀ a, (f a).Completes m S) :
    (x >>= f).Completes m S := by
  obtain ⟨hwithin, a, ha⟩ := hx
  obtain ⟨hrest, b, hb⟩ := hf a
  exact ⟨(within_bind_some ha).mpr ⟨hwithin, hrest⟩, b, by rw [value_bind ha, hb]⟩

theorem within_field_array_bind {f : Nat → Access β} (hk : 0 < k) :
    (field (before.length + off) k >>= f).Within (before ++ buf ++ after)
        (cellsOf before.length buf.length) ↔
      off + k ≤ buf.length ∧ (f (leAt off k buf)).Within (before ++ buf ++ after)
        (cellsOf before.length buf.length) := by
  rw [within_bind, within_field_array hk]
  refine and_congr_right fun h => ?_
  rw [run_field_array h]
  simp

theorem completes_field_array_bind {f : Nat → Access β} (hk : 0 < k) :
    (field (before.length + off) k >>= f).Completes (before ++ buf ++ after)
        (cellsOf before.length buf.length) ↔
      off + k ≤ buf.length ∧ (f (leAt off k buf)).Completes (before ++ buf ++ after)
        (cellsOf before.length buf.length) := by
  rw [Completes, Completes, within_field_array_bind hk, and_assoc]
  refine and_congr_right fun h => ?_
  rw [value_bind (run_field_array h)]

end Within

end Access

end WslFreeBSD.Lib
