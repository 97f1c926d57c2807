import Mathlib.Data.List.TakeWhile
import WslFreeBSD.Lib.CText

/-!
# `sscanf`

The conversions of `sscanf` that read hexadecimal columns: `%*d`, `%Nx`, `%N[0-9A-Fa-f]` and
ordinary characters. A format is a list of directives; `sscanf` stops at the first directive that
does not match and returns the values stored until then.

A directive that meets its own text consumes exactly that text: `scan_hexFormat`,
`scan_hexSet`, `scan_skipInt`.
-/

namespace WslFreeBSD.Lib

/-- A directive of a format; `keep` is `false` for a conversion with `*`. -/
inductive Directive where
  | space
  | char (c : UInt8)
  | skipInt
  | hex (width : Nat) (keep : Bool)
  | hexSet (width : Nat) (keep : Bool)
  deriving DecidableEq, Repr

/-- A stored value. -/
inductive Value where
  | number (n : Nat)
  | text (s : Bytes)
  deriving DecidableEq, Repr

def isHexDigit (c : UInt8) : Bool := (hexVal c).isSome

/-- `%*d`. -/
def scanInt (s : Bytes) : Option Bytes :=
  let body := (dropSign (s.dropWhile isSpace)).2
  if body.takeWhile isDecDigit = [] then none else some (body.dropWhile isDecDigit)

/-- `%Nx`: the sign and the mark `0x` count for the width; the value is an `unsigned int`. -/
def scanHex (width : Nat) (s : Bytes) : Option (Nat × Bytes) :=
  let s := s.dropWhile isSpace
  let signed := dropSign (s.take width)
  let body := dropHexMark signed.2
  let digits := body.takeWhile isHexDigit
  if digits = [] then none
  else
    let n := hexAcc 0 digits % 2 ^ 32
    some (if signed.1 then (2 ^ 32 - n) % 2 ^ 32 else n,
      body.dropWhile isHexDigit ++ s.drop width)

def Directive.scan : Directive → Bytes → Option (List Value × Bytes)
  | .space, s => some ([], s.dropWhile isSpace)
  | .char c, s => if s.head? = some c then some ([], s.tail) else none
  | .skipInt, s => (scanInt s).map ([], ·)
  | .hex width keep, s =>
    (scanHex width s).map fun r => (if keep then [.number r.1] else [], r.2)
  | .hexSet width keep, s =>
    let t := (s.take width).takeWhile isHexDigit
    if t = [] then none else some (if keep then [.text t] else [], s.drop t.length)

/-- `sscanf`: the values that are stored. -/
def sscanf : List Directive → Bytes → List Value
  | [], _ => []
  | d :: ds, s =>
    match d.scan s with
    | none => []
    | some (values, s) => values ++ sscanf ds s

/-! ## Directives that match -/

theorem sscanf_cons {d : Directive} {s s' : Bytes} {values : List Value}
    (h : d.scan s = some (values, s')) (ds : List Directive) :
    sscanf (d :: ds) s = values ++ sscanf ds s' := by
  rw [sscanf, h]

theorem isHexDigit_of_mem {k n : Nat} {c : UInt8} (h : c ∈ hexFormat k n) : isHexDigit c = true := by
  obtain ⟨d, hd, rfl⟩ := mem_hexFormat h
  rw [isHexDigit, (hexDigit_spec hd).1]
  rfl

/-- `%Nx` on a number printed with `N` digits. -/
theorem scan_hexFormat (k n : Nat) (keep : Bool) (rest : Bytes) :
    (Directive.hex (k + 2) keep).scan (hexFormat (k + 2) n ++ rest) =
      some (if keep then [.number (n % 16 ^ (k + 2) % 2 ^ 32)] else [], rest) := by
  obtain ⟨hskip, -, -⟩ := hexFormat_plain k n rest
  obtain ⟨-, hsign, hmark⟩ := hexFormat_plain k n []
  rw [List.append_nil] at hsign hmark
  have hall : ∀ c ∈ hexFormat (k + 2) n, isHexDigit c = true := fun c => isHexDigit_of_mem
  have htake : (hexFormat (k + 2) n).takeWhile isHexDigit = hexFormat (k + 2) n :=
    List.takeWhile_eq_self_iff.mpr hall
  have hdrop : (hexFormat (k + 2) n).dropWhile isHexDigit = [] :=
    List.dropWhile_eq_nil_iff.mpr hall
  have hacc : hexAcc 0 (hexFormat (k + 2) n) = n % 16 ^ (k + 2) := by
    have h := hexAcc_hexFormat 0 (k + 2) n endsNumber_nil
    rwa [List.append_nil, Nat.zero_mul, Nat.zero_add] at h
  have hne : hexFormat (k + 2) n ≠ [] := List.cons_ne_nil _ _
  have hscan : scanHex (k + 2) (hexFormat (k + 2) n ++ rest) =
      some (n % 16 ^ (k + 2) % 2 ^ 32, rest) := by
    unfold scanHex
    dsimp only
    rw [hskip, List.take_left' (length_hexFormat _ _), List.drop_left' (length_hexFormat _ _), hsign]
    dsimp only
    rw [hmark, htake, hdrop, hacc, if_neg hne]
    rfl
  rw [Directive.scan, hscan]
  rfl

/-- `%N[0-9A-Fa-f]` on `N` digits. -/
theorem scan_hexSet {width : Nat} {t : Bytes} (hlen : t.length = width) (hne : t ≠ [])
    (ht : ∀ c ∈ t, isHexDigit c = true) (keep : Bool) (rest : Bytes) :
    (Directive.hexSet width keep).scan (t ++ rest) =
      some (if keep then [.text t] else [], rest) := by
  have htake : ((t ++ rest).take width).takeWhile isHexDigit = t := by
    rw [List.take_left' hlen, List.takeWhile_eq_self_iff.mpr ht]
  unfold Directive.scan
  dsimp only
  rw [htake, if_neg hne, List.drop_left' rfl]

theorem scan_char (c : UInt8) (rest : Bytes) :
    (Directive.char c).scan (c :: rest) = some ([], rest) := by
  simp [Directive.scan]

theorem scan_space {pad : Nat} {s : Bytes} (h : ∀ c ∈ s.head?, isSpace c = false) :
    Directive.space.scan (List.replicate pad 32 ++ s) = some ([], s) := by
  rw [Directive.scan, List.dropWhile_append_of_pos]
  · cases s with
    | nil => rfl
    | cons c s =>
      have hc : isSpace c = false := h c rfl
      rw [List.dropWhile_cons, hc]
      rfl
  · intro b hb
    rw [List.eq_of_mem_replicate hb]
    rfl

theorem decDigit_spec (d : Fin 10) : isDecDigit (decDigit d) = true ∧ isSpace (decDigit d) = false ∧
    decDigit d ≠ 43 ∧ decDigit d ≠ 45 := by
  revert d
  decide

/-- `%*d` on digits that are followed by a colon. -/
theorem scan_skipInt (d : Fin 10) (ds : List (Fin 10)) (rest : Bytes) :
    Directive.skipInt.scan ((d :: ds).map (decDigit ·.val) ++ 58 :: rest) =
      some ([], 58 :: rest) := by
  obtain ⟨hdec, hspace, hplus, hminus⟩ := decDigit_spec d
  have hall : ∀ c ∈ (d :: ds).map (decDigit ·.val), isDecDigit c = true := by
    intro c hc
    obtain ⟨d', -, rfl⟩ := List.mem_map.mp hc
    exact (decDigit_spec d').1
  have hskip : ((d :: ds).map (decDigit ·.val) ++ 58 :: rest).dropWhile isSpace =
      (d :: ds).map (decDigit ·.val) ++ 58 :: rest := by
    rw [List.map_cons, List.cons_append, List.dropWhile_cons, hspace]
    rfl
  have hsign : dropSign ((d :: ds).map (decDigit ·.val) ++ 58 :: rest) =
      (false, (d :: ds).map (decDigit ·.val) ++ 58 :: rest) := by
    rw [List.map_cons, List.cons_append]
    unfold dropSign
    split
    · rename_i heq
      exact absurd (List.cons.inj heq).1 hplus
    · rename_i heq
      exact absurd (List.cons.inj heq).1 hminus
    · rfl
  have hscan : scanInt ((d :: ds).map (decDigit ·.val) ++ 58 :: rest) = some (58 :: rest) := by
    unfold scanInt
    dsimp only
    rw [hskip, hsign]
    dsimp only
    rw [List.takeWhile_append_of_pos hall, List.dropWhile_append_of_pos hall, if_neg (by simp)]
    simp [isDecDigit]
  rw [Directive.scan, hscan]
  rfl

end WslFreeBSD.Lib
