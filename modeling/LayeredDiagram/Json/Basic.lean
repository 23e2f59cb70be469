import LayeredDiagram.Record

namespace LayeredDiagram

-- Values as they travel in documents: request bodies, configuration, log lines.
inductive Json where
  | null
  | bool (b : Bool)
  | num (x : Float)
  | str (s : String)
  | arr (items : List Json)
  | obj (fields : List (String × Json))
deriving Inhabited

namespace Json

def ofNat (n : Nat) : Json :=
  num (Float.ofNat n)

def strings (ss : List String) : Json :=
  arr (ss.map str)

def get? (j : Json) (key : String) : Option Json :=
  match j with
  | obj fields => Record.get? fields key
  | _ => none

def string? : Json → Option String
  | str s => some s
  | _ => none

def number? : Json → Option Float
  | num x => some x
  | _ => none

def items : Json → List Json
  | arr items => items
  | _ => []

def fields : Json → Record Json
  | obj fields => fields
  | _ => []

-- A field that must be text; a document that passed its schema has it.
def text (j : Json) (key : String) : String :=
  ((j.get? key).bind string?).getD ""

def text? (j : Json) (key : String) : Option String :=
  (j.get? key).bind string?

def number (j : Json) (key : String) : Float :=
  ((j.get? key).bind number?).getD 0.0

-- A field that is left out where there is no value.
def optional (key : String) : Option Json → Record Json
  | some j => [(key, j)]
  | none => []

end Json

end LayeredDiagram
