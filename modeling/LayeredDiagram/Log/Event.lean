import LayeredDiagram.Fault
import LayeredDiagram.Log.Level

namespace LayeredDiagram.Log

inductive Value where
  | json (j : Json)
  | fault (f : Fault)
  -- How long the reported call took.
  | elapsed
  -- Set to nothing: hides what was set before, and is not written.
  | missing

namespace Value

def str (s : String) : Value := json (.str s)

def nat (n : Nat) : Value := json (.ofNat n)

-- What counts as present where an empty value means that there is none.
def isPresent : Value → Bool
  | json .null => false
  | json (.bool b) => b
  | json (.num x) => !(x.isNaN || x == 0)
  | json (.str s) => s != ""
  | missing => false
  | _ => true

def isNull : Value → Bool
  | json .null | missing => true
  | _ => false

-- An object that brings a `toString` of its own cannot be turned into text: what is data is not
-- called.
def noText : Fault :=
  .foreign "TypeError" "Cannot convert object to primitive value"

mutual

-- A value as plain text: lists are joined by commas, without their nulls.
def plain : Json → Except Fault String
  | .null => .ok "null"
  | .bool b => .ok (if b then "true" else "false")
  | .num x => .ok (Number.text x)
  | .str s => .ok s
  | .arr items => do
    let texts ← plainItems items
    return ",".intercalate texts
  | .obj fields => if Record.has fields "toString" then .error noText else .ok "[object Object]"

def plainItems : List Json → Except Fault (List String)
  | [] => .ok []
  | j :: rest => do
    let text ← plain j
    let texts ← plainItems rest
    return (if (json j).isNull then "" else text) :: texts

end

def toJson? (elapsed : Float) : Value → Option Json
  | json j => some j
  | fault f => some (.obj f.fields)
  | .elapsed => some (.str (Number.fixed elapsed))
  | missing => none

end Value

-- A message under the name of the part that reports it. The errors that are reported are faults, so
-- that there is no event without a text.
structure Event where
  module : String
  level : Level
  message : String
  fields : Record Value := []
  fault : ∀ j, fields.get? "error" ≠ some (.json j) := by rintro _ ⟨⟩

end LayeredDiagram.Log
