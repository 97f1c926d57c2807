import WslFreeBSD.Lib.Strtoul

/-!
# Background colours

`tn_parse_color` reads the forms `rgb:R/G/B`, `#RRGGBB` and `#RGB`. It leaves the reading of the
components to `strtoul` and does not look at what `strtoul` skips or leaves over, so it takes more
than the documented forms for colours. `parsesAsDocumented_iff` says which texts these are.
-/

namespace WslFreeBSD.Terminal

open Lib

structure Color where
  r : Nat
  g : Nat
  b : Nat
  deriving DecidableEq, Repr

/-! ## `tn_parse_color` -/

/-- `(unsigned)strtoul(s, NULL, 16)`; without digits the result is zero. -/
def component (s : Bytes) : Nat := ((strtoulHex s).map (·.1)).getD 0 % 2 ^ 32

/-- A component of `rgb:` and the text behind the slash that ends it. -/
def componentThenSlash (p : Bytes) : Option (Nat × Bytes) :=
  match strtoulHex p with
  | some (val, 47 :: p) => some (val % 256, p)
  | _ => none

/-- `tn_parse_color`: what it stores when it returns 1. -/
def tnParseColor (str : Bytes) : Option Color :=
  if (ascii "rgb:").isPrefixOf str then do
    let (r, p) ← componentThenSlash (str.drop 4)
    let (g, p) ← componentThenSlash p
    let (val, _) ← strtoulHex p
    some ⟨r, g, val % 256⟩
  else
    match str with
    | [35, r, r', g, g', b, b'] => some ⟨component [r, r'], component [g, g'], component [b, b']⟩
    | [35, r, g, b] => some ⟨component [r, r], component [g, g], component [b, b]⟩
    | _ => none

/-! ## The documented forms -/

/-- The documented forms of a colour, with the digits of its components. -/
inductive DocumentedColor : Bytes → HexNumber → HexNumber → HexNumber → Prop where
  | rgb (r g b : HexNumber) :
    DocumentedColor (ascii "rgb:" ++ (r.digits ++ 47 :: (g.digits ++ 47 :: b.digits))) r g b
  | pairs {r g b : HexNumber} (hr : r.digits.length = 2) (hg : g.digits.length = 2)
    (hb : b.digits.length = 2) : DocumentedColor (35 :: (r.digits ++ g.digits ++ b.digits)) r g b
  | doubled {r g b : HexNumber} {x y z : UInt8} (hr : r.digits = [x, x]) (hg : g.digits = [y, y])
    (hb : b.digits = [z, z]) : DocumentedColor [35, x, y, z] r g b

/-- The documented forms, and no others, are colours, with components between 0 and 255 that have
the value of their digits where there are no more than two. -/
structure ParsesAsDocumented (s : Bytes) : Prop where
  accepted : (∃ c, tnParseColor s = some c) ↔ ∃ r g b, DocumentedColor s r g b
  range : ∀ c, tnParseColor s = some c → c.r < 256 ∧ c.g < 256 ∧ c.b < 256
  value : ∀ c r g b, tnParseColor s = some c → DocumentedColor s r g b →
    (r.digits.length ≤ 2 → c.r = r.value) ∧ (g.digits.length ≤ 2 → c.g = g.value) ∧
      (b.digits.length ≤ 2 → c.b = b.value)

/-- The other texts that are taken for colours: with something in front of the digits of a component,
or something behind those of the last one, and six or three characters that are not all digits. -/
inductive Misread : Bytes → Prop where
  | rgb {l₁ l₂ l₃ tail : Bytes} (r g b : HexNumber) (h₁ : NumberLead l₁) (h₂ : NumberLead l₂)
    (h₃ : NumberLead l₃) (htail : EndsNumber tail) (hextra : l₁ ++ l₂ ++ l₃ ++ tail ≠ []) :
    Misread (ascii "rgb:" ++ (l₁ ++ r.digits ++ 47 :: (l₂ ++ g.digits ++ 47 ::
      (l₃ ++ b.digits ++ tail))))
  | hash {cs : Bytes} (hlen : cs.length = 6 ∨ cs.length = 3)
    (hnot : ∃ c ∈ cs, isHexDigit c = false) : Misread (35 :: cs)

/-! ## Reading a documented form -/

theorem endsNumber_slash (p : Bytes) : EndsNumber (47 :: p) := by
  intro c hc
  obtain rfl : 47 = c := by simpa using hc
  rfl

theorem slash_not_mark (p : Bytes) : ∀ c ∈ (47 :: p : Bytes).head?, c ≠ 120 ∧ c ≠ 88 := by
  intro c hc
  obtain rfl : 47 = c := by simpa using hc
  decide

theorem isPrefixOf_rgb (p : Bytes) : (ascii "rgb:").isPrefixOf (ascii "rgb:" ++ p) = true :=
  List.isPrefixOf_iff_prefix.mpr (List.prefix_append _ _)

theorem componentThenSlash_eq {s p : Bytes} {v : Nat} (h : strtoulHex s = some (v, 47 :: p)) :
    componentThenSlash s = some (v % 256, p) := by
  unfold componentThenSlash
  rw [h]
  rfl

theorem tnParseColor_rgb {p p' p'' rest : Bytes} {r g b : Nat}
    (hr : strtoulHex p = some (r, 47 :: p')) (hg : strtoulHex p' = some (g, 47 :: p''))
    (hb : strtoulHex p'' = some (b, rest)) :
    tnParseColor (ascii "rgb:" ++ p) = some ⟨r % 256, g % 256, b % 256⟩ := by
  have hdrop : (ascii "rgb:" ++ p).drop 4 = p := rfl
  unfold tnParseColor
  rw [if_pos (isPrefixOf_rgb p), hdrop, componentThenSlash_eq hr, Option.bind_eq_bind,
    Option.bind_some]
  dsimp only
  rw [componentThenSlash_eq hg, Option.bind_some, hb]
  rfl

theorem component_digits (n : HexNumber) : component n.digits = saturated n.value % 2 ^ 32 := by
  have h := strtoulHex_digits n endsNumber_nil (fun c hc => absurd hc (Option.not_mem_none c))
  rw [List.append_nil] at h
  rw [component, h]
  rfl

theorem saturated_mod {n : HexNumber} (h : n.digits.length ≤ 2) {m : Nat} (hm : 256 ≤ m) :
    saturated n.value % m = n.value := by
  have hlt : n.value < 256 := by
    calc n.value < 16 ^ n.digits.length := n.value_lt
      _ ≤ 16 ^ 2 := Nat.pow_le_pow_right (by decide) h
  rw [saturated_of_lt (by omega), Nat.mod_eq_of_lt (by omega)]

theorem value_lt_of_length {n : HexNumber} (h : n.digits.length = 2) : n.value < 256 := by
  have hlt := n.value_lt
  rwa [h] at hlt

theorem tnParseColor_documented {s : Bytes} {r g b : HexNumber} (h : DocumentedColor s r g b) :
    ∃ c, tnParseColor s = some c ∧ (c.r < 256 ∧ c.g < 256 ∧ c.b < 256) ∧
      (r.digits.length ≤ 2 → c.r = r.value) ∧ (g.digits.length ≤ 2 → c.g = g.value) ∧
        (b.digits.length ≤ 2 → c.b = b.value) := by
  have hpair : ∀ n : HexNumber, n.digits.length = 2 → component n.digits = n.value := by
    intro n hn
    rw [component_digits, saturated_mod (le_of_eq hn) (by decide)]
  have hbyte : ∀ n : HexNumber, n.digits.length = 2 → component n.digits < 256 := by
    intro n hn
    rw [hpair n hn]
    exact value_lt_of_length hn
  cases h with
  | rgb =>
    have hr := strtoulHex_digits r (endsNumber_slash (g.digits ++ 47 :: b.digits)) (slash_not_mark _)
    have hg := strtoulHex_digits g (endsNumber_slash b.digits) (slash_not_mark _)
    have hb := strtoulHex_digits b endsNumber_nil (fun c hc => absurd hc (Option.not_mem_none c))
    rw [List.append_nil] at hb
    refine ⟨_, tnParseColor_rgb hr hg hb, ?_, ?_⟩
    · exact ⟨Nat.mod_lt _ (by decide), Nat.mod_lt _ (by decide), Nat.mod_lt _ (by decide)⟩
    · exact ⟨fun h => saturated_mod h le_rfl, fun h => saturated_mod h le_rfl,
        fun h => saturated_mod h le_rfl⟩
  | pairs hr hg hb =>
    obtain ⟨x, x', hx⟩ := List.length_eq_two.mp hr
    obtain ⟨y, y', hy⟩ := List.length_eq_two.mp hg
    obtain ⟨z, z', hz⟩ := List.length_eq_two.mp hb
    refine ⟨⟨component r.digits, component g.digits, component b.digits⟩, ?_,
      ⟨hbyte r hr, hbyte g hg, hbyte b hb⟩, fun _ => hpair r hr, fun _ => hpair g hg,
      fun _ => hpair b hb⟩
    rw [hx, hy, hz]
    rfl
  | doubled hr hg hb =>
    rename_i x y z
    have hlen : ∀ {n : HexNumber} {c : UInt8}, n.digits = [c, c] → n.digits.length = 2 := by
      intro n c hn
      rw [hn]
      rfl
    refine ⟨⟨component r.digits, component g.digits, component b.digits⟩, ?_,
      ⟨hbyte r (hlen hr), hbyte g (hlen hg), hbyte b (hlen hb)⟩, fun _ => hpair r (hlen hr),
      fun _ => hpair g (hlen hg), fun _ => hpair b (hlen hb)⟩
    rw [hr, hg, hb]
    rfl

/-! ## Reading another text -/

theorem split_unique {a a' s s' : Bytes} (ha : 47 ∉ a) (ha' : 47 ∉ a')
    (h : a ++ 47 :: s = a' ++ 47 :: s') : a = a' ∧ s = s' := by
  induction a generalizing a' with
  | nil =>
    cases a' with
    | nil => exact ⟨rfl, (List.cons.inj h).2⟩
    | cons c a' => exact absurd ((List.cons.inj h).1 ▸ List.mem_cons_self) ha'
  | cons c a ih =>
    cases a' with
    | nil => exact absurd ((List.cons.inj h).1 ▸ List.mem_cons_self) ha
    | cons c' a' =>
      obtain ⟨rfl, hrest⟩ := List.cons.inj h
      obtain ⟨rfl, hs⟩ := ih (fun hc => ha (List.mem_cons_of_mem _ hc))
        (fun hc => ha' (List.mem_cons_of_mem _ hc)) hrest
      exact ⟨rfl, hs⟩

theorem tnParseColor_misread {s : Bytes} (h : Misread s) : ∃ c, tnParseColor s = some c := by
  cases h with
  | @rgb l₁ l₂ l₃ tail r g b h₁ h₂ h₃ htail hextra =>
    obtain ⟨vb, rest, hb⟩ := strtoulHex_isSome h₃ b tail
    obtain ⟨vg, hg⟩ := strtoulHex_of_parts h₂ g (endsNumber_slash (l₃ ++ b.digits ++ tail))
      (slash_not_mark _)
    obtain ⟨vr, hr⟩ := strtoulHex_of_parts h₁ r
      (endsNumber_slash (l₂ ++ g.digits ++ 47 :: (l₃ ++ b.digits ++ tail))) (slash_not_mark _)
    exact ⟨_, tnParseColor_rgb hr hg hb⟩
  | @hash cs hlen hnot =>
    have hrgb : (ascii "rgb:").isPrefixOf (35 :: cs) = false := rfl
    unfold tnParseColor
    rw [hrgb, if_neg Bool.false_ne_true]
    rcases hlen with hlen | hlen
    · match cs, hlen with
      | [r, r', g, g', b, b'], _ => exact ⟨_, rfl⟩
    · match cs, hlen with
      | [r, g, b], _ => exact ⟨_, rfl⟩

theorem slash_not_mem_digits (n : HexNumber) : 47 ∉ n.digits := fun h =>
  absurd (n.hex 47 h) (by decide)

theorem slash_not_mem_component {lead : Bytes} (h : NumberLead lead) (n : HexNumber) :
    47 ∉ lead ++ n.digits := fun hmem =>
  (List.mem_append.mp hmem).elim h.slash_not_mem (slash_not_mem_digits n)

theorem lead_eq_nil {lead : Bytes} (h : NumberLead lead) {n m : HexNumber}
    (heq : lead ++ n.digits = m.digits) : lead = [] :=
  h.eq_nil fun c hc => m.hex c (heq ▸ List.mem_append_left _ hc)

theorem not_documented_of_misread {s : Bytes} (h : Misread s) (r g b : HexNumber) :
    ¬ DocumentedColor s r g b := by
  intro hdoc
  cases h with
  | @rgb l₁ l₂ l₃ tail r' g' b' h₁ h₂ h₃ htail hextra =>
    generalize hs : ascii "rgb:" ++ (l₁ ++ r'.digits ++ 47 :: (l₂ ++ g'.digits ++ 47 ::
      (l₃ ++ b'.digits ++ tail))) = s at hdoc
    cases hdoc with
    | rgb =>
      obtain ⟨hr, hrest⟩ := split_unique (slash_not_mem_component h₁ r') (slash_not_mem_digits r)
        (List.append_cancel_left hs)
      obtain ⟨hg, hb⟩ := split_unique (slash_not_mem_component h₂ g') (slash_not_mem_digits g) hrest
      have hhex : ∀ c ∈ l₃ ++ b'.digits ++ tail, isHexDigit c = true := fun c hc =>
        b.hex c (hb ▸ hc)
      have hl₃ : l₃ = [] := h₃.eq_nil fun c hc => hhex c (by simp [hc])
      have htail' : tail = [] := by
        cases tail with
        | nil => rfl
        | cons c t =>
          have hc : hexVal c = none := htail c rfl
          have hdigit := hhex c (by simp)
          rw [isHexDigit, hc] at hdigit
          cases hdigit
      refine hextra ?_
      rw [lead_eq_nil h₁ hr, lead_eq_nil h₂ hg, hl₃, htail']
      rfl
    | pairs => exact absurd (List.cons.inj hs).1 (by decide)
    | doubled => exact absurd (List.cons.inj hs).1 (by decide)
  | @hash cs hlen hnot =>
    obtain ⟨c, hc, hdigit⟩ := hnot
    generalize hs : 35 :: cs = s at hdoc
    have hhex : isHexDigit c = true := by
      cases hdoc with
      | rgb => exact absurd (List.cons.inj hs).1 (by decide)
      | pairs =>
        rw [(List.cons.inj hs).2] at hc
        rcases List.mem_append.mp hc with hc | hc
        · exact (List.mem_append.mp hc).elim (r.hex c) (g.hex c)
        · exact b.hex c hc
      | @doubled _ _ _ x y z hr hg hb =>
        rw [(List.cons.inj hs).2] at hc
        rcases List.mem_cons.mp hc with rfl | hc
        · exact r.hex c (by simp [hr])
        rcases List.mem_cons.mp hc with rfl | hc
        · exact g.hex c (by simp [hg])
        obtain rfl := List.mem_singleton.mp hc
        exact b.hex c (by simp [hb])
    rw [hhex] at hdigit
    cases hdigit

/-! ## What is taken for a colour -/

theorem strtoulHex_of_componentThenSlash {p p' : Bytes} {v : Nat}
    (h : componentThenSlash p = some (v, p')) : ∃ n, strtoulHex p = some (n, 47 :: p') := by
  unfold componentThenSlash at h
  split at h
  · rename_i n t heq
    obtain ⟨-, rfl⟩ := by simpa only [Option.some.injEq, Prod.mk.injEq] using h
    exact ⟨n, heq⟩
  · cases h

theorem documented_or_misread_rgb {p : Bytes} {c : Color}
    (h : tnParseColor (ascii "rgb:" ++ p) = some c) :
    (∃ r g b, DocumentedColor (ascii "rgb:" ++ p) r g b) ∨ Misread (ascii "rgb:" ++ p) := by
  unfold tnParseColor at h
  rw [if_pos (isPrefixOf_rgb p), show (ascii "rgb:" ++ p).drop 4 = p from rfl] at h
  obtain ⟨⟨vr, p'⟩, hr, h⟩ := Option.bind_eq_some_iff.mp h
  obtain ⟨⟨vg, p''⟩, hg, h⟩ := Option.bind_eq_some_iff.mp h
  obtain ⟨⟨vb, tail⟩, hb, -⟩ := Option.bind_eq_some_iff.mp h
  obtain ⟨nr, hr⟩ := strtoulHex_of_componentThenSlash hr
  obtain ⟨ng, hg⟩ := strtoulHex_of_componentThenSlash hg
  obtain ⟨l₁, r, rfl, h₁, -, -⟩ := strtoulHex_parts hr
  obtain ⟨l₂, g, rfl, h₂, -, -⟩ := strtoulHex_parts hg
  obtain ⟨l₃, b, rfl, h₃, htail, -⟩ := strtoulHex_parts hb
  by_cases hextra : l₁ ++ l₂ ++ l₃ ++ tail = []
  · left
    obtain ⟨⟨⟨rfl, rfl⟩, rfl⟩, rfl⟩ := by simpa only [List.append_eq_nil_iff] using hextra
    refine ⟨r, g, b, ?_⟩
    simp only [List.nil_append, List.append_nil]
    exact .rgb r g b
  · exact Or.inr (.rgb r g b h₁ h₂ h₃ htail hextra)

def digitPair {x y : UInt8} (hx : isHexDigit x = true) (hy : isHexDigit y = true) : HexNumber where
  digits := [x, y]
  nonempty := List.cons_ne_nil _ _
  hex := by
    intro c hc
    rcases List.mem_cons.mp hc with rfl | hc
    · exact hx
    · rw [List.mem_singleton.mp hc]
      exact hy

theorem documented_or_misread_hash {cs : Bytes} {c : Color} (h : tnParseColor (35 :: cs) = some c) :
    (∃ r g b, DocumentedColor (35 :: cs) r g b) ∨ Misread (35 :: cs) := by
  have hrgb : (ascii "rgb:").isPrefixOf (35 :: cs) = false := rfl
  have hlen : cs.length = 6 ∨ cs.length = 3 := by
    unfold tnParseColor at h
    rw [hrgb, if_neg Bool.false_ne_true] at h
    split at h
    · rename_i heq
      exact Or.inl (by rw [(List.cons.inj heq).2]; rfl)
    · rename_i heq
      exact Or.inr (by rw [(List.cons.inj heq).2]; rfl)
    · cases h
  by_cases hnot : ∃ c ∈ cs, isHexDigit c = false
  · exact Or.inr (.hash hlen hnot)
  · left
    have hhex : ∀ c ∈ cs, isHexDigit c = true := by
      intro c hc
      by_contra hdigit
      exact hnot ⟨c, hc, Bool.eq_false_iff.mpr hdigit⟩
    rcases hlen with hlen | hlen
    · match cs, hlen with
      | [r, r', g, g', b, b'], _ =>
        let red := digitPair (hhex r (by simp)) (hhex r' (by simp))
        let green := digitPair (hhex g (by simp)) (hhex g' (by simp))
        let blue := digitPair (hhex b (by simp)) (hhex b' (by simp))
        exact ⟨red, green, blue, DocumentedColor.pairs (r := red) (g := green) (b := blue) rfl rfl rfl⟩
    · match cs, hlen with
      | [r, g, b], _ =>
        exact ⟨digitPair (hhex r (by simp)) (hhex r (by simp)),
          digitPair (hhex g (by simp)) (hhex g (by simp)),
          digitPair (hhex b (by simp)) (hhex b (by simp)), .doubled rfl rfl rfl⟩

theorem documented_or_misread {s : Bytes} {c : Color} (h : tnParseColor s = some c) :
    (∃ r g b, DocumentedColor s r g b) ∨ Misread s := by
  by_cases hrgb : (ascii "rgb:").isPrefixOf s = true
  · obtain ⟨p, rfl⟩ := List.isPrefixOf_iff_prefix.mp hrgb
    exact documented_or_misread_rgb h
  · have hhash : ∃ cs, s = 35 :: cs := by
      unfold tnParseColor at h
      rw [if_neg hrgb] at h
      split at h
      · exact ⟨_, rfl⟩
      · exact ⟨_, rfl⟩
      · cases h
    obtain ⟨cs, rfl⟩ := hhash
    exact documented_or_misread_hash h

/-- A text is read as documented exactly if it is not misread. -/
theorem parsesAsDocumented_iff (s : Bytes) : ParsesAsDocumented s ↔ ¬ Misread s := by
  constructor
  · intro h hmisread
    obtain ⟨r, g, b, hdoc⟩ := h.accepted.mp (tnParseColor_misread hmisread)
    exact not_documented_of_misread hmisread r g b hdoc
  · intro hnot
    have hdoc : ∀ c, tnParseColor s = some c → ∃ r g b, DocumentedColor s r g b := fun c hc =>
      (documented_or_misread hc).resolve_right hnot
    refine ⟨⟨fun ⟨c, hc⟩ => hdoc c hc, ?_⟩, ?_, ?_⟩
    · rintro ⟨r, g, b, h⟩
      obtain ⟨c, hc, -⟩ := tnParseColor_documented h
      exact ⟨c, hc⟩
    · intro c hc
      obtain ⟨r, g, b, h⟩ := hdoc c hc
      obtain ⟨c', hc', hrange, -⟩ := tnParseColor_documented h
      obtain rfl := Option.some.inj (hc.symm.trans hc')
      exact hrange
    · intro c r g b hc h
      obtain ⟨c', hc', -, hvalue⟩ := tnParseColor_documented h
      obtain rfl := Option.some.inj (hc.symm.trans hc')
      exact hvalue

/-- `#zzzzzz` is taken for black. -/
theorem letters_are_black : ¬ ∀ s, ParsesAsDocumented s := by
  intro h
  have hcolor : tnParseColor (ascii "#zzzzzz") = some ⟨0, 0, 0⟩ := by decide
  have hmisread : Misread (ascii "#zzzzzz") := .hash (Or.inl rfl) ⟨122, by decide, by decide⟩
  obtain ⟨r, g, b, hdoc⟩ := (h (ascii "#zzzzzz")).accepted.mp ⟨_, hcolor⟩
  exact not_documented_of_misread hmisread r g b hdoc

end WslFreeBSD.Terminal
