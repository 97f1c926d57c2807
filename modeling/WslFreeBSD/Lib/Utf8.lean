import WslFreeBSD.Lib.CText

/-!
# UTF-8

A text of characters as bytes. The first byte of a character says how many bytes follow, and those are
from 0x80 to 0xbf, so that the bytes at which characters start can be told from the others.
-/

namespace WslFreeBSD.Lib

def utf8 (text : List Char) : Bytes := text.flatMap String.utf8EncodeChar

@[simp] theorem utf8_nil : utf8 [] = [] := rfl

theorem utf8_cons (c : Char) (text : List Char) : utf8 (c :: text) = String.utf8EncodeChar c ++ utf8 text := rfl

def Continues (b : UInt8) : Prop := 0x80 ≤ b ∧ b < 0xc0

theorem continues_ofNat {n : Nat} (h : n < 64) : Continues (UInt8.ofNat (n + 0x80)) := by
  have hall : ∀ n < 64, 0x80 ≤ UInt8.ofNat (n + 0x80) ∧ UInt8.ofNat (n + 0x80) < 0xc0 := by decide
  exact hall n h

theorem Continues.ne {b c : UInt8} (hb : Continues b) (hc : c < 0x80 ∨ 0xc0 ≤ c) : b ≠ c := by
  rintro rfl
  obtain ⟨hlow, hhigh⟩ := hb
  rcases hc with hc | hc
  · exact absurd (UInt8.lt_of_lt_of_le hc hlow) (UInt8.lt_irrefl b)
  · exact absurd (UInt8.lt_of_lt_of_le hhigh hc) (UInt8.lt_irrefl b)

/-- The bytes of a character. -/
inductive Encoded (c : Char) : Bytes → Prop where
  | one (h : c.toNat < 0x80) : Encoded c [UInt8.ofNat c.toNat]
  | two (h : 0x80 ≤ c.toNat) (hc : c.toNat < 0x800) :
      Encoded c [UInt8.ofNat (c.toNat / 64 % 32 + 0xc0), UInt8.ofNat (c.toNat % 64 + 0x80)]
  | three (h : 0x800 ≤ c.toNat) (hc : c.toNat < 0x10000) :
      Encoded c [UInt8.ofNat (c.toNat / 4096 % 16 + 0xe0), UInt8.ofNat (c.toNat / 64 % 64 + 0x80),
        UInt8.ofNat (c.toNat % 64 + 0x80)]
  | four (h : 0x10000 ≤ c.toNat) :
      Encoded c [UInt8.ofNat (c.toNat / 262144 % 8 + 0xf0), UInt8.ofNat (c.toNat / 4096 % 64 + 0x80),
        UInt8.ofNat (c.toNat / 64 % 64 + 0x80), UInt8.ofNat (c.toNat % 64 + 0x80)]

theorem encoded (c : Char) : Encoded c (String.utf8EncodeChar c) := by
  unfold String.utf8EncodeChar
  dsimp only
  split
  · next h => exact .one (Nat.lt_succ_of_le h)
  · next h =>
    split
    · next h' => exact .two (Nat.lt_of_not_le h) (Nat.lt_succ_of_le h')
    · next h' =>
      split
      · next h'' => exact .three (Nat.lt_of_not_le h') (Nat.lt_succ_of_le h'')
      · next h'' => exact .four (Nat.lt_of_not_le h'')

theorem Encoded.shape {c : Char} {bytes : Bytes} (h : Encoded c bytes) :
    ∃ first rest, bytes = first :: rest ∧ ∀ b ∈ rest, Continues b := by
  have hmod (n : Nat) : n % 64 < 64 := Nat.mod_lt n (by decide)
  cases h with
  | one _ => exact ⟨_, [], rfl, fun b hb => absurd hb List.not_mem_nil⟩
  | two _ _ =>
    refine ⟨_, _, rfl, fun b hb => ?_⟩
    obtain rfl := List.mem_singleton.mp hb
    exact continues_ofNat (hmod _)
  | three _ _ =>
    refine ⟨_, _, rfl, fun b hb => ?_⟩
    simp only [List.mem_cons, List.not_mem_nil, or_false] at hb
    rcases hb with rfl | rfl <;> exact continues_ofNat (hmod _)
  | four _ =>
    refine ⟨_, _, rfl, fun b hb => ?_⟩
    simp only [List.mem_cons, List.not_mem_nil, or_false] at hb
    rcases hb with rfl | rfl | rfl <;> exact continues_ofNat (hmod _)

theorem Encoded.zero_mem {c : Char} {bytes : Bytes} (h : Encoded c bytes) : 0 ∈ bytes ↔ c.toNat = 0 := by
  have hone : ∀ n < 0x80, UInt8.ofNat n = 0 ↔ n = 0 := by decide
  have htwo : ∀ n < 32, UInt8.ofNat (n + 0xc0) ≠ 0 := by decide
  have hthree : ∀ n < 16, UInt8.ofNat (n + 0xe0) ≠ 0 := by decide
  have hfour : ∀ n < 8, UInt8.ofNat (n + 0xf0) ≠ 0 := by decide
  have hcontinues : ∀ n, UInt8.ofNat (n % 64 + 0x80) ≠ 0 := fun n =>
    (continues_ofNat (Nat.mod_lt n (by decide))).ne (Or.inl (by decide))
  cases h with
  | one hc =>
    rw [List.mem_singleton, eq_comm]
    exact hone _ hc
  | two hc _ =>
    simp only [List.mem_cons, List.not_mem_nil, or_false, eq_comm (a := (0 : UInt8)), hcontinues,
      htwo _ (Nat.mod_lt _ (by decide : 0 < 32)), false_iff]
    omega
  | three hc _ =>
    simp only [List.mem_cons, List.not_mem_nil, or_false, eq_comm (a := (0 : UInt8)), hcontinues,
      hthree _ (Nat.mod_lt _ (by decide : 0 < 16)), false_iff]
    omega
  | four hc =>
    simp only [List.mem_cons, List.not_mem_nil, or_false, eq_comm (a := (0 : UInt8)), hcontinues,
      hfour _ (Nat.mod_lt _ (by decide : 0 < 8)), false_iff]
    omega

theorem utf8_takeWhile (text : List Char) :
    (utf8 text).takeWhile (· ≠ 0) = utf8 (text.takeWhile (·.toNat ≠ 0)) := by
  induction text with
  | nil => rfl
  | cons c text ih =>
    have hzero := (encoded c).zero_mem
    rw [utf8_cons]
    by_cases hc : c.toNat = 0
    · have hchar : String.utf8EncodeChar c = [0] := by
        have h := encoded c
        generalize String.utf8EncodeChar c = bytes at h
        cases h with
        | one _ => rw [hc]; rfl
        | two h _ => omega
        | three h _ => omega
        | four h => omega
      rw [hchar, List.takeWhile_cons_of_neg (by simp [hc])]
      rfl
    · have hall : ∀ b ∈ String.utf8EncodeChar c, decide (b ≠ 0) = true := fun b hb =>
        decide_eq_true (ne_of_mem_of_not_mem hb (mt hzero.mp hc))
      rw [List.takeWhile_append_of_pos hall, ih, List.takeWhile_cons_of_pos (by simpa using hc), utf8_cons]

end WslFreeBSD.Lib
