import LayeredDiagram.Json.Basic
import LayeredDiagram.Number.Written

namespace LayeredDiagram

inductive PathPart where
  | key (name : String)
  | index (i : Nat)
deriving DecidableEq, Repr

-- What a bound counts.
inductive Measure where
  | characters
  | number
  | elements
deriving DecidableEq, Repr

inductive Complaint where
  | wrongType (expected received : String)
  | tooSmall (measure : Measure) (least : Nat)
  | tooBig (measure : Measure) (most : Nat)
  | wrongForm
  | notFinite
  | notListed (options : List String) (received : String)
  | custom
deriving DecidableEq, Repr

-- What is wrong with a document, and where in it.
structure Issue where
  path : List PathPart := []
  complaint : Complaint
  -- Stands in for the complaint's own words.
  wording : Option String := none
deriving DecidableEq, Repr

namespace PathPart

def text : PathPart → String
  | key name => name
  | index i => toString i

def toJson : PathPart → Json
  | key name => .str name
  | index i => .ofNat i

end PathPart

namespace Measure

def name : Measure → String
  | characters => "string"
  | number => "number"
  | elements => "array"

end Measure

-- The values of a list as they are named in messages.
def quotedOptions (options : List String) : String :=
  " | ".intercalate (options.map fun o => "'" ++ o ++ "'")

namespace Complaint

def message : Complaint → String
  | wrongType expected received =>
    if received == "undefined" then "Required"
    else "Expected " ++ expected ++ ", received " ++ received
  | tooSmall .characters n => "String must contain at least " ++ toString n ++ " character(s)"
  | tooSmall .number n => "Number must be greater than or equal to " ++ toString n
  | tooSmall .elements n => "Array must contain at least " ++ toString n ++ " element(s)"
  | tooBig .characters n => "String must contain at most " ++ toString n ++ " character(s)"
  | tooBig .number n => "Number must be less than or equal to " ++ toString n
  | tooBig .elements n => "Array must contain at most " ++ toString n ++ " element(s)"
  | wrongForm => "Invalid"
  | notFinite => "Number must be finite"
  | notListed options received =>
    "Invalid enum value. Expected " ++ quotedOptions options ++ ", received '" ++ received ++ "'"
  | custom => "Invalid input"

def bounded (bound : String) (measure : Measure) (n : Nat) : Record Json :=
  [(bound, .ofNat n), ("type", .str measure.name), ("inclusive", .bool true),
    ("exact", .bool false)]

def fields : Complaint → Record Json
  | wrongType expected received =>
    [("code", .str "invalid_type"), ("expected", .str expected), ("received", .str received)]
  | tooSmall measure n => ("code", .str "too_small") :: bounded "minimum" measure n
  | tooBig measure n => ("code", .str "too_big") :: bounded "maximum" measure n
  | wrongForm => [("validation", .str "regex"), ("code", .str "invalid_string")]
  | notFinite => [("code", .str "not_finite")]
  | notListed options received =>
    [("received", .str received), ("code", .str "invalid_enum_value"),
      ("options", .strings options)]
  | custom => [("code", .str "custom")]

-- A check of a value that is of the right type brings its message along, so that the path comes
-- after it. Other complaints are worded last.
def isOfCheck : Complaint → Bool
  | wrongType expected _ => expected == "integer"
  | notListed .. => false
  | _ => true

end Complaint

namespace Issue

def message (i : Issue) : String :=
  i.wording.getD i.complaint.message

def under (part : PathPart) (i : Issue) : Issue :=
  { i with path := part :: i.path }

def place (i : Issue) : String :=
  ".".intercalate (i.path.map PathPart.text)

def toJson (i : Issue) : Json :=
  let message : Record Json := [("message", .str i.message)]
  let path : Record Json := [("path", .arr (i.path.map PathPart.toJson))]
  .obj (i.complaint.fields ++ if i.complaint.isOfCheck then message ++ path else path ++ message)

-- The place in front of the message, unless it is the document itself.
def describe (i : Issue) : String :=
  if i.path.isEmpty then i.message else i.place ++ ": " ++ i.message

def describeAll (issues : List Issue) : String :=
  "; ".intercalate (issues.map describe)

def allToJson (issues : List Issue) : Json :=
  .arr (issues.map toJson)

end Issue

end LayeredDiagram
