import LayeredDiagram.Json.Token

namespace LayeredDiagram.Json

-- A container that is still open. Items stand in reverse.
inductive Frame where
  | array (items : List Json)
  | object (fields : Record Json)
  | field (fields : Record Json) (key : String)

-- What may come next: a value, a first item or the end of its array, a key, a first key or the
-- end of its object, the colon after a key, the comma or the end after a value, or nothing.
inductive Expected where
  | value
  | firstItem
  | key
  | firstKey
  | colon
  | next
  | nothing (result : Json)

-- The containers that are still open are on a stack, so nesting has no limit. Of a repeated key the
-- last value counts, in the place of the first.
structure Reader where
  frames : List Frame := []
  expected : Expected := .value

namespace Reader

-- A complete value goes where the innermost open container wants it.
def accept (frames : List Frame) (j : Json) : Option Reader :=
  match frames with
  | [] => some ⟨[], .nothing j⟩
  | .array items :: rest => some ⟨.array (j :: items) :: rest, .next⟩
  | .field fields key :: rest => some ⟨.object (fields.put key j) :: rest, .next⟩
  | .object _ :: _ => none

def value? (frames : List Frame) : Token → Option Reader
  | .text s => accept frames (.str s)
  | .scalar j => accept frames j
  | .openArray => some ⟨.array [] :: frames, .firstItem⟩
  | .openObject => some ⟨.object [] :: frames, .firstKey⟩
  | _ => none

def close? (frames : List Frame) : Token → Option Reader
  | .closeArray =>
    match frames with
    | .array items :: rest => accept rest (.arr items.reverse)
    | _ => none
  | .closeObject =>
    match frames with
    | .object fields :: rest => accept rest (.obj fields)
    | _ => none
  | _ => none

def key? (frames : List Frame) : Token → Option Reader
  | .text s =>
    match frames with
    | .object fields :: rest => some ⟨.field fields s :: rest, .colon⟩
    | _ => none
  | _ => none

def comma? (frames : List Frame) : Option Reader :=
  match frames with
  | .array _ :: _ => some ⟨frames, .value⟩
  | .object _ :: _ => some ⟨frames, .key⟩
  | _ => none

def step? (r : Reader) (t : Token) : Option Reader :=
  match r.expected, t with
  | .value, t => value? r.frames t
  | .firstItem, .closeArray => close? r.frames .closeArray
  | .firstItem, t => value? r.frames t
  | .key, t => key? r.frames t
  | .firstKey, .closeObject => close? r.frames .closeObject
  | .firstKey, t => key? r.frames t
  | .colon, .colon => some ⟨r.frames, .value⟩
  | .colon, _ => none
  | .next, .comma => comma? r.frames
  | .next, t => close? r.frames t
  | .nothing _, _ => none

def run? (r : Reader) : List Token → Option Json
  | [] =>
    match r.expected with
    | .nothing j => some j
    | _ => none
  | t :: ts =>
    match r.step? t with
    | some r => r.run? ts
    | none => none

end Reader

def ofTokens? (ts : List Token) : Option Json :=
  Reader.run? {} ts

def parse? (s : String) : Option Json :=
  (Token.ofText? s.toList).bind ofTokens?

end LayeredDiagram.Json
