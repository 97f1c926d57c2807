import WslFreeBSD.Gns.Json

/-!
# Copies of nested objects

`gns_json_get_subobject` copies the text of an object up to the brace that closes it. It leaves its
loops in the same way when the object is complete and when the buffer is full, and looks at the room
before an escape but not between its two bytes. So the copy is whole, and inside the buffer, exactly if
the object with its NUL fits (`copiesWhole_iff`).
-/

namespace WslFreeBSD.Gns

open Lib

/-! ## The text of an object -/

/-- The rest of a string behind its opening quote. -/
inductive StringTail : Bytes → Prop where
  | close : StringTail [34]
  | escape {t : Bytes} (e : UInt8) (h : StringTail t) : StringTail (92 :: e :: t)
  | char {c : UInt8} {t : Bytes} (hquote : c ≠ 34) (hescape : c ≠ 92) (h : StringTail t) :
    StringTail (c :: t)

/-- A text in which the braces outside of strings match. -/
inductive Balanced : Bytes → Prop where
  | nil : Balanced []
  | char {c : UInt8} {t : Bytes} (hc : c ≠ 34 ∧ c ≠ 123 ∧ c ≠ 125) (h : Balanced t) :
    Balanced (c :: t)
  | string {s t : Bytes} (hs : StringTail s) (h : Balanced t) : Balanced (34 :: (s ++ t))
  | object {inner t : Bytes} (hinner : Balanced inner) (h : Balanced t) :
    Balanced (123 :: (inner ++ 125 :: t))

def ObjectText (t : Bytes) : Prop := ∃ inner, Balanced inner ∧ t = 123 :: (inner ++ [125])

/-! ## The copy -/

/-- What `gns_json_get_subobject` stores in `out`, with the NUL, from `out[0]` on. -/
def storedBytes (json : Bytes) (key : String) (outSize : Nat) : Bytes :=
  match gnsJsonFindValue json key with
  | some (123 :: v) => copyObject false 0 outSize (123 :: v) ++ [0]
  | _ => []

/-- Nothing is stored behind the end of the buffer, and what is returned is the complete text of the
object. -/
structure CopiesWhole (json : Bytes) (key : String) (outSize : Nat) : Prop where
  inBounds : (storedBytes json key outSize).length ≤ outSize
  whole : ∀ out, gnsJsonGetSubobject json key outSize = some out →
    ObjectText out ∧ ∃ v, gnsJsonFindValue json key = some v ∧ out <+: v

theorem copyObject_outside (depth : Int) (room : Nat) (c : UInt8) (v : Bytes) :
    copyObject false depth room (c :: v) =
      if room ≤ 1 then []
      else if c = 123 then c :: copyObject false (depth + 1) (room - 1) v
      else if c = 125 then
        if depth - 1 = 0 then [c] else c :: copyObject false (depth - 1) (room - 1) v
      else c :: copyObject (c = 34) depth (room - 1) v := by
  rw [copyObject]
  · rfl
  · intro e v' h
    cases h

theorem copyObject_inside (depth : Int) (room : Nat) {c : UInt8} (hc : c ≠ 92) (v : Bytes) :
    copyObject true depth room (c :: v) =
      if room ≤ 1 then [] else c :: copyObject (c ≠ 34) depth (room - 1) v := by
  rw [copyObject]
  · rfl
  · intro e v' _ h
    exact absurd h hc

theorem copyObject_string {s : Bytes} (hs : StringTail s) {depth : Int} {room : Nat}
    (hroom : s.length < room) (rest : Bytes) :
    copyObject true depth room (s ++ rest) = s ++ copyObject false depth (room - s.length) rest := by
  induction hs generalizing room with
  | close =>
    have hone : ¬ room ≤ 1 := Nat.not_le.mpr hroom
    rw [List.singleton_append, copyObject_inside _ _ (by decide), if_neg hone]
    rfl
  | @escape t e _ ih =>
    simp only [List.length_cons] at hroom ⊢
    have hone : ¬ room ≤ 1 := by omega
    have hsub : room - (t.length + 1 + 1) = room - 2 - t.length := by omega
    rw [List.cons_append, List.cons_append, copyObject, if_neg hone, ih (by omega), hsub]
    rfl
  | @char c t hquote hescape _ ih =>
    rw [List.length_cons] at hroom ⊢
    have hone : ¬ room ≤ 1 := by omega
    have hin : (decide (c ≠ 34)) = true := decide_eq_true hquote
    have hsub : room - (t.length + 1) = room - 1 - t.length := by omega
    rw [List.cons_append, copyObject_inside _ _ hescape, if_neg hone, hin, ih (by omega), hsub]
    rfl

theorem copyObject_balanced {t : Bytes} (ht : Balanced t) {depth : Int} (hdepth : 0 < depth)
    {room : Nat} (hroom : t.length < room) (rest : Bytes) :
    copyObject false depth room (t ++ rest) = t ++ copyObject false depth (room - t.length) rest := by
  induction ht generalizing depth room rest with
  | nil => rfl
  | @char c t hc _ ih =>
    rw [List.length_cons] at hroom ⊢
    have hone : ¬ room ≤ 1 := by omega
    have hout : (decide (c = 34)) = false := decide_eq_false hc.1
    have hsub : room - (t.length + 1) = room - 1 - t.length := by omega
    rw [List.cons_append, copyObject_outside, if_neg hone, if_neg hc.2.1, if_neg hc.2.2, hout,
      ih hdepth (by omega), hsub]
    rfl
  | @string s t hs _ ih =>
    rw [List.length_cons, List.length_append] at hroom ⊢
    have hone : ¬ room ≤ 1 := by omega
    have hsub : room - (s.length + t.length + 1) = room - 1 - s.length - t.length := by omega
    calc copyObject false depth room (34 :: (s ++ t) ++ rest)
        = 34 :: copyObject true depth (room - 1) (s ++ (t ++ rest)) := by
          rw [List.cons_append, copyObject_outside, if_neg hone, List.append_assoc]
          rfl
      _ = 34 :: (s ++ (t ++ copyObject false depth (room - 1 - s.length - t.length) rest)) := by
          rw [copyObject_string hs (by omega), ih hdepth (by omega)]
      _ = _ := by rw [hsub, List.cons_append, List.append_assoc]
  | @object inner t _ _ ihinner ih =>
    simp only [List.length_cons, List.length_append] at hroom ⊢
    have hone : ¬ room ≤ 1 := by omega
    have hone' : ¬ room - 1 - inner.length ≤ 1 := by omega
    have hopen : ¬ depth + 1 - 1 = 0 := by omega
    have hsub : room - (inner.length + (t.length + 1) + 1) =
        room - 1 - inner.length - 1 - t.length := by omega
    calc copyObject false depth room (123 :: (inner ++ 125 :: t) ++ rest)
        = 123 :: copyObject false (depth + 1) (room - 1) (inner ++ 125 :: (t ++ rest)) := by
          rw [List.cons_append, copyObject_outside, if_neg hone, if_pos rfl, List.append_assoc]
          rfl
      _ = 123 :: (inner ++
            copyObject false (depth + 1) (room - 1 - inner.length) (125 :: (t ++ rest))) := by
          rw [ihinner (by omega) (by omega)]
      _ = 123 :: (inner ++ 125 ::
            copyObject false depth (room - 1 - inner.length - 1) (t ++ rest)) := by
          rw [copyObject_outside, if_neg hone', if_neg (by decide), if_pos rfl, if_neg hopen,
            Int.add_sub_cancel]
      _ = 123 :: (inner ++ 125 :: (t ++
            copyObject false depth (room - 1 - inner.length - 1 - t.length) rest)) := by
          rw [ih hdepth (by omega)]
      _ = _ := by rw [hsub, List.cons_append, List.append_assoc, List.cons_append]

theorem copyObject_objectText {t : Bytes} (ht : ObjectText t) {room : Nat} (hroom : t.length < room)
    (rest : Bytes) : copyObject false 0 room (t ++ rest) = t := by
  obtain ⟨inner, hinner, rfl⟩ := ht
  rw [List.length_cons, List.length_append, List.length_singleton] at hroom
  have hone : ¬ room ≤ 1 := by omega
  have hone' : ¬ room - 1 - inner.length ≤ 1 := by omega
  have hform : 123 :: (inner ++ [125]) ++ rest = 123 :: (inner ++ 125 :: rest) := by
    rw [List.cons_append, List.append_assoc, List.singleton_append]
  rw [hform, copyObject_outside, if_neg hone, if_pos rfl,
    copyObject_balanced hinner (by decide) (by omega), copyObject_outside, if_neg hone',
    if_neg (by decide), if_pos rfl, if_pos (by decide)]

theorem ObjectText.unique {t t' v : Bytes} (ht : ObjectText t) (ht' : ObjectText t') (h : t <+: v)
    (h' : t' <+: v) : t = t' := by
  obtain ⟨rest, rfl⟩ := h
  obtain ⟨rest', heq⟩ := h'
  have hroom : t.length < t.length + t'.length + 1 := by omega
  have hroom' : t'.length < t.length + t'.length + 1 := by omega
  rw [← copyObject_objectText ht hroom rest, ← heq, copyObject_objectText ht' hroom' rest']

/-! ## Whole copies -/

theorem ObjectText.exists_cons {t : Bytes} (h : ObjectText t) : ∃ u, t = 123 :: u := by
  obtain ⟨inner, -, rfl⟩ := h
  exact ⟨_, rfl⟩

theorem getSubobject_object {json v : Bytes} {key : String} (outSize : Nat)
    (hfind : gnsJsonFindValue json key = some (123 :: v)) :
    storedBytes json key outSize = copyObject false 0 outSize (123 :: v) ++ [0] ∧
      gnsJsonGetSubobject json key outSize =
        if copyObject false 0 outSize (123 :: v) = [] then none
        else some (copyObject false 0 outSize (123 :: v)) := by
  unfold storedBytes gnsJsonGetSubobject
  rw [hfind]
  exact ⟨rfl, rfl⟩

theorem getSubobject_other {json : Bytes} {key : String} (outSize : Nat)
    (hfind : ∀ v, gnsJsonFindValue json key ≠ some (123 :: v)) :
    storedBytes json key outSize = [] ∧ gnsJsonGetSubobject json key outSize = none := by
  unfold storedBytes gnsJsonGetSubobject
  cases hv : gnsJsonFindValue json key with
  | none => exact ⟨rfl, rfl⟩
  | some v =>
    cases v with
    | nil => exact ⟨rfl, rfl⟩
    | cons c v =>
      have hc : c ≠ 123 := by
        rintro rfl
        exact hfind v hv
      constructor
      · split
        · rename_i heq
          exact absurd (List.cons.inj (Option.some.inj heq)).1 hc
        · rfl
      · split
        · rename_i heq
          exact absurd (List.cons.inj (Option.some.inj heq)).1 hc
        · rfl

/-- A copy is whole, and stays in its buffer, exactly if there is no object to copy, no room for any of
its bytes, or room for all of it. -/
theorem copiesWhole_iff (json : Bytes) (key : String) {outSize : Nat} (hsize : 1 ≤ outSize) :
    CopiesWhole json key outSize ↔
      outSize = 1 ∨ ∀ v, gnsJsonFindValue json key = some (123 :: v) →
        ∃ t, ObjectText t ∧ t <+: 123 :: v ∧ t.length < outSize := by
  by_cases hobject : ∃ v, gnsJsonFindValue json key = some (123 :: v)
  · obtain ⟨v, hfind⟩ := hobject
    obtain ⟨hstored, hget⟩ := getSubobject_object outSize hfind
    constructor
    · intro h
      by_cases hone : outSize = 1
      · exact Or.inl hone
      · right
        intro v' hfind'
        obtain rfl : v = v' := by simpa only [hfind, Option.some.injEq, List.cons.injEq, true_and]
          using hfind'
        -- the first byte is stored, so the copy counts as the object
        have hne : copyObject false 0 outSize (123 :: v) ≠ [] := by
          rw [copyObject_outside, if_neg (by omega), if_pos rfl]
          exact List.cons_ne_nil _ _
        rw [if_neg hne] at hget
        obtain ⟨hwhole, w, hw, hpre⟩ := h.whole _ hget
        have hbounds := h.inBounds
        rw [hstored, List.length_append, List.length_singleton] at hbounds
        rw [hfind] at hw
        cases hw
        exact ⟨_, hwhole, hpre, hbounds⟩
    · rintro (rfl | h)
      · have hnil : copyObject false 0 1 (123 :: v) = [] := by
          rw [copyObject_outside, if_pos (Nat.le_refl _)]
        rw [hnil] at hstored hget
        refine ⟨by rw [hstored]; exact Nat.le_refl _, fun out hout => ?_⟩
        rw [hget, if_pos rfl] at hout
        cases hout
      · obtain ⟨t, ht, hpre, hlen⟩ := h v hfind
        obtain ⟨rest, hrest⟩ := hpre
        have hcopy : copyObject false 0 outSize (123 :: v) = t := by
          rw [← hrest, copyObject_objectText ht hlen]
        obtain ⟨u, hu⟩ := ht.exists_cons
        rw [hcopy] at hstored hget
        refine ⟨?_, fun out hout => ?_⟩
        · rw [hstored, List.length_append, List.length_singleton]
          exact hlen
        · rw [hget, if_neg (by rw [hu]; exact List.cons_ne_nil _ _)] at hout
          cases hout
          exact ⟨ht, _, hfind, rest, hrest⟩
  · have hother : ∀ v, gnsJsonFindValue json key ≠ some (123 :: v) := fun v hv => hobject ⟨v, hv⟩
    obtain ⟨hstored, hget⟩ := getSubobject_other outSize hother
    constructor
    · exact fun _ => Or.inr fun v hv => absurd hv (hother v)
    · intro _
      refine ⟨by rw [hstored]; exact Nat.zero_le _, fun out hout => ?_⟩
      rw [hget] at hout
      cases hout

theorem copiesWhole_settings : CopiesWhole (ascii "\x7b\"S\":\x7b\"a\":\"\x7d\"\x7d\x7d") "S" 1024 := by
  refine (copiesWhole_iff _ _ (by decide)).mpr (Or.inr fun v hv => ?_)
  have hfind : gnsJsonFindValue (ascii "\x7b\"S\":\x7b\"a\":\"\x7d\"\x7d\x7d") "S" =
      some (ascii "\x7b\"a\":\"\x7d\"\x7d\x7d") := by decide
  obtain rfl : ascii "\"a\":\"\x7d\"\x7d\x7d" = v := by
    rw [hfind] at hv
    exact (List.cons.inj (Option.some.inj hv)).2
  refine ⟨ascii "\x7b\"a\":\"\x7d\"\x7d", ⟨ascii "\"a\":\"\x7d\"", ?_, rfl⟩, ⟨ascii "\x7d", rfl⟩, by decide⟩
  have hkey : StringTail (ascii "a\"") := .char (by decide) (by decide) .close
  have hvalue : StringTail (ascii "\x7d\"") := .char (by decide) (by decide) .close
  exact .string hkey (.char (by decide) (.string hvalue .nil))

/-- The escape is the end of the buffer, and the NUL comes behind it. -/
theorem escape_overflows :
    ¬ ∀ (json : Bytes) (key : String) (outSize : Nat), 1 ≤ outSize → CopiesWhole json key outSize := by
  intro h
  have hbounds := (h (ascii "\x7b\"S\":\x7b\"\\\"\":1\x7d\x7d") "S" 4 (by decide)).inBounds
  have hlen : (storedBytes (ascii "\x7b\"S\":\x7b\"\\\"\":1\x7d\x7d") "S" 4).length = 5 := by decide
  omega

end WslFreeBSD.Gns
