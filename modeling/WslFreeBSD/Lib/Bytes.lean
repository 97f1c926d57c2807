import Mathlib.Data.List.Basic
import Mathlib.Algebra.Order.Ring.Nat
import Mathlib.Tactic.Ring

/-!
# Byte strings and little-endian fields

Wire structures are byte strings whose integer fields are stored least significant byte
first. `leBytes n v` writes the `n` low bytes of `v`, `leValue` reads a whole byte string,
and `leAt off n` reads the field of `n` bytes at an offset. Writing and reading are inverse
on the values that fit (`leValue_leBytes`, `leBytes_leValue`), and a field of a longer
string only depends on the bytes it covers (`leAt_append_of_le`).
-/

namespace WslFreeBSD.Lib

abbrev Bytes := List UInt8

/-- What is asked of the bytes of a string is decided for these, not for all 256. -/
instance (priority := 1100) decidableForallBytes (s : Bytes) (P : UInt8 → Prop) [DecidablePred P] :
    Decidable (∀ c ∈ s, P c) := List.decidableBAll P s

instance (priority := 1100) decidableForallByte (o : Option UInt8) (P : UInt8 → Prop) [DecidablePred P] :
    Decidable (∀ c ∈ o, P c) := Option.decidableForallMem o

def leValue : Bytes → Nat
  | [] => 0
  | b :: bs => b.toNat + 256 * leValue bs

/-- The `n` low bytes of `v`, least significant first. -/
def leBytes : Nat → Nat → Bytes
  | 0, _ => []
  | n + 1, v => UInt8.ofNat v :: leBytes n (v / 256)

/-- The `n`-byte field at offset `off`. -/
def leAt (off n : Nat) (mem : Bytes) : Nat := leValue ((mem.drop off).take n)

def be16 (n : Nat) : Bytes := [UInt8.ofNat (n / 256), UInt8.ofNat n]

/-- The 16-bit number in network byte order at the start of a byte string. -/
def be16Value : Bytes → Nat
  | b :: b' :: _ => 256 * b.toNat + b'.toNat
  | _ => 0

def ascii (s : String) : Bytes := s.toList.map fun c => UInt8.ofNat c.toNat

/-- The C string at an offset: the bytes up to the first NUL. -/
def cString (mem : Bytes) (off : Nat) : Bytes := (mem.drop off).takeWhile (· ≠ 0)

@[simp] theorem length_leBytes (n v : Nat) : (leBytes n v).length = n := by
  induction n generalizing v with
  | zero => rfl
  | succ n ih => simp [leBytes, ih]

theorem leValue_leBytes_mod (n v : Nat) : leValue (leBytes n v) = v % 256 ^ n := by
  induction n generalizing v with
  | zero => simp [leBytes, leValue, Nat.mod_one]
  | succ n ih =>
    have hsplit : v % (256 * 256 ^ n) = v % 256 + 256 * (v / 256 % 256 ^ n) := Nat.mod_mul
    simp only [leBytes, leValue, ih, UInt8.toNat_ofNat', pow_succ']
    exact hsplit.symm

theorem leValue_leBytes {n v : Nat} (h : v < 256 ^ n) : leValue (leBytes n v) = v := by
  rw [leValue_leBytes_mod, Nat.mod_eq_of_lt h]

theorem leValue_lt (bs : Bytes) : leValue bs < 256 ^ bs.length := by
  induction bs with
  | nil => simp [leValue]
  | cons b bs ih =>
    have hb : b.toNat < 256 := b.toNat_lt
    simp only [leValue, List.length_cons, pow_succ]
    omega

theorem leAt_lt (off n : Nat) (mem : Bytes) : leAt off n mem < 256 ^ n := by
  have hlen : ((mem.drop off).take n).length ≤ n := by simp
  exact lt_of_lt_of_le (leValue_lt _) (Nat.pow_le_pow_right (by decide) hlen)

theorem leBytes_leValue (bs : Bytes) : leBytes bs.length (leValue bs) = bs := by
  induction bs with
  | nil => rfl
  | cons b bs ih =>
    have hb : b.toNat < 256 := b.toNat_lt
    have hdiv : (b.toNat + 256 * leValue bs) / 256 = leValue bs := by omega
    have hmod : UInt8.ofNat (b.toNat + 256 * leValue bs) = b := by
      apply UInt8.toNat_inj.mp
      rw [UInt8.toNat_ofNat']
      omega
    simp only [leValue, List.length_cons, leBytes, hdiv, hmod, ih]

theorem leBytes_inj_iff (n a b : Nat) :
    leBytes n a = leBytes n b ↔ a % 256 ^ n = b % 256 ^ n := by
  constructor
  · intro h
    rw [← leValue_leBytes_mod, ← leValue_leBytes_mod, h]
  · intro h
    rw [← leBytes_leValue (leBytes n a), ← leBytes_leValue (leBytes n b),
      leValue_leBytes_mod, leValue_leBytes_mod, h, length_leBytes, length_leBytes]

theorem leAt_append_of_le {off n : Nat} {l : Bytes} (h : off + n ≤ l.length) (l' : Bytes) :
    leAt off n (l ++ l') = leAt off n l := by
  unfold leAt
  rw [List.drop_append_of_le_length (by omega), List.take_append_of_le_length (by simp; omega)]

theorem leAt_drop (off n k : Nat) (l : Bytes) : leAt off n (l.drop k) = leAt (k + off) n l := by
  rw [leAt, List.drop_drop, leAt]

theorem leAt_take {off n k : Nat} {l : Bytes} (hk : off + n ≤ k) :
    leAt off n (l.take k) = leAt off n l := by
  unfold leAt
  rw [List.drop_take, List.take_take, Nat.min_eq_left (by omega)]

/-- A field written after a byte string of length `off` is read back at `off`. -/
theorem leAt_append_leBytes {off n v : Nat} {l : Bytes} (hl : l.length = off) (hv : v < 256 ^ n)
    (l' : Bytes) : leAt off n (l ++ (leBytes n v ++ l')) = v := by
  unfold leAt
  rw [List.drop_append_of_le_length (by omega), List.drop_eq_nil_of_le (by omega), List.nil_append,
    List.take_append_of_le_length (by simp), List.take_of_length_le (by simp),
    leValue_leBytes hv]

/-- The fields of a structure, given by their widths and values. -/
def structBytes (fields : List (Nat × Nat)) : Bytes := fields.flatMap fun f => leBytes f.1 f.2

theorem length_structBytes (fields : List (Nat × Nat)) :
    (structBytes fields).length = (fields.map Prod.fst).sum := by
  induction fields with
  | nil => rfl
  | cons f fields ih =>
    rw [structBytes, List.flatMap_cons, List.length_append, length_leBytes, List.map_cons,
      List.sum_cons]
    exact congrArg (f.1 + ·) ih

theorem leAt_structBytes {fields : List (Nat × Nat)} (k : Nat) {n v off : Nat} {l : Bytes}
    (hk : fields[k]? = some (n, v)) (hoff : l.length + ((fields.take k).map Prod.fst).sum = off)
    (hv : v < 256 ^ n) (l' : Bytes) : leAt off n (l ++ structBytes fields ++ l') = v := by
  obtain ⟨hlt, hget⟩ := List.getElem?_eq_some_iff.mp hk
  have hfields : fields = fields.take k ++ (n, v) :: fields.drop (k + 1) := by
    rw [← hget, ← List.drop_eq_getElem_cons hlt, List.take_append_drop]
  have hsplit : l ++ structBytes fields ++ l' = (l ++ structBytes (fields.take k)) ++
      (leBytes n v ++ (structBytes (fields.drop (k + 1)) ++ l')) := by
    nth_rewrite 1 [hfields]
    simp [structBytes]
  rw [hsplit]
  exact leAt_append_leBytes (by rw [List.length_append, length_structBytes, hoff]) hv _

theorem be16Value_append {l : Bytes} (h : 2 ≤ l.length) (l' : Bytes) :
    be16Value (l ++ l') = be16Value l := by
  match l, h with
  | b :: b' :: l, _ => rfl

theorem be16Value_lt (l : Bytes) : be16Value l < 65536 := by
  unfold be16Value
  split
  · rename_i b b' _
    have := b.toNat_lt
    have := b'.toNat_lt
    omega
  · decide

end WslFreeBSD.Lib
