import WslFreeBSD.Lib.CText

/-!
# The JSON extractor of the GNS engine

`gns_json_find_value` and the functions built on it (`gns_engine.h`). They look for `"key"`
followed by a colon anywhere in the text, without parsing it. Texts are C strings: byte strings
without their NUL; a pointer into the text is the rest of the text from there on.
-/

namespace WslFreeBSD.Gns

open Lib

def isBlank (c : UInt8) : Bool := c = 32 || c = 9

/-- The loop of `gns_json_find_value` from a position on. Every pass moves past an occurrence of
the pattern, so the length of the text is enough fuel. -/
def findValueLoop (pat : Bytes) : Nat → Bytes → Option Bytes
  | 0, _ => none
  | fuel + 1, p =>
    match strstr pat p with
    | none => none
    | some q =>
      let p := (q.drop pat.length).dropWhile isBlank
      if p.head? = some 58 then some (p.tail.dropWhile isBlank)
      else findValueLoop pat fuel p

/-- `gns_json_find_value`; the pattern has to fit into 64 bytes. -/
def gnsJsonFindValue (json : Bytes) (key : String) : Option Bytes :=
  let pat := 34 :: (ascii key ++ [34])
  if 64 ≤ pat.length then none else findValueLoop pat (json.length + 1) json

/-- The characters that `gns_json_get_string` stores, with `room` bytes left in the buffer. -/
def copyString : Nat → Bytes → Bytes
  | _, [] => []
  | room, 92 :: c :: v => if room ≤ 1 then [] else c :: copyString (room - 1) v
  | room, c :: v => if c = 34 ∨ room ≤ 1 then [] else c :: copyString (room - 1) v

/-- `gns_json_get_string`; `none` leaves the buffer as it is. -/
def gnsJsonGetString (json : Bytes) (key : String) (outSize : Nat) : Option Bytes :=
  match gnsJsonFindValue json key with
  | some (34 :: v) => some (copyString outSize v)
  | _ => none

def stringField (json : Bytes) (key : String) (outSize : Nat) : Bytes :=
  (gnsJsonGetString json key outSize).getD []

/-- `gns_json_get_int`. -/
def gnsJsonGetInt (json : Bytes) (key : String) (default : Int) : Int :=
  match gnsJsonFindValue json key with
  | none => default
  | some v => strtolDec v

/-- `gns_json_get_bool`. -/
def gnsJsonGetBool (json : Bytes) (key : String) (default : Bool) : Bool :=
  match gnsJsonFindValue json key with
  | none => default
  | some v =>
    if (ascii "true").isPrefixOf v then true
    else if (ascii "false").isPrefixOf v then false
    else default

/-- The loops of `gns_json_get_subobject`: the bytes that are stored from a position on, inside
or outside a string literal, with `room` bytes left in the buffer. The second byte of an escape
is stored without a look at the room. -/
def copyObject : Bool → Int → Nat → Bytes → Bytes
  | _, _, _, [] => []
  | true, depth, room, 92 :: e :: v =>
    if room ≤ 1 then [] else 92 :: e :: copyObject true depth (room - 2) v
  | inString, depth, room, c :: v =>
    if room ≤ 1 then []
    else if inString then c :: copyObject (c ≠ 34) depth (room - 1) v
    else if c = 123 then c :: copyObject false (depth + 1) (room - 1) v
    else if c = 125 then
      if depth - 1 = 0 then [c] else c :: copyObject false (depth - 1) (room - 1) v
    else c :: copyObject (c = 34) depth (room - 1) v

/-- `gns_json_get_subobject`: what is stored in front of the NUL. -/
def gnsJsonGetSubobject (json : Bytes) (key : String) (outSize : Nat) : Option Bytes :=
  match gnsJsonFindValue json key with
  | some (123 :: v) =>
    let out := copyObject false 0 outSize (123 :: v)
    if out = [] then none else some out
  | _ => none

end WslFreeBSD.Gns
