import LayeredDiagram.Number.Exact
import LayeredDiagram.Schema.Issue
import LayeredDiagram.Text.Units

namespace LayeredDiagram

inductive TextTest where
  | atLeast (n : Nat) (wording : Option String := none)
  | atMost (n : Nat)
  | form (test : List Char → Bool) (wording : String)
  | accepts (test : List Char → Bool) (wording : String)

inductive NumberTest where
  | finite
  | whole
  | atLeast (n : Nat)
  | atMost (n : Nat)

inductive Schema where
  | text (tests : List TextTest)
  | number (tests : List NumberTest)
  | listed (options : List String)
  -- Text that is read as a number; a default stands in where there is none.
  | numeral (default : Option String) (read : List Char → Float) (tests : List NumberTest)
  | array (item : Schema) (most : Nat)
  | record (keys : List TextTest) (value : Schema)
  | object (fields : List (String × Schema))
  | optional (inner : Schema)
  | withDefault (inner : Schema) (default : Json)
  | refined (inner : Schema) (test : Json → Bool) (wording : String)

-- What is left of a value.
inductive Kept where
  | nothing
  | missing
  | value (j : Json)

structure Verdict where
  kept : Kept
  issues : List Issue

namespace Verdict

def refuse (c : Complaint) : Verdict :=
  ⟨.nothing, [{ complaint := c }]⟩

def under (part : PathPart) (v : Verdict) : Verdict :=
  { v with issues := v.issues.map (Issue.under part) }

def isNothing (v : Verdict) : Bool :=
  match v.kept with
  | .nothing => true
  | _ => false

def value? (v : Verdict) : Option Json :=
  match v.kept with
  | .value j => some j
  | _ => none

end Verdict

namespace TextTest

def issue? (s : List Char) : TextTest → Option Issue
  | atLeast n wording =>
    if Text.units s < n then some { complaint := .tooSmall .characters n, wording } else none
  | atMost n => if n < Text.units s then some { complaint := .tooBig .characters n } else none
  | form test wording =>
    if test s then none else some { complaint := .wrongForm, wording := some wording }
  | accepts test wording =>
    if test s then none else some { complaint := .custom, wording := some wording }

def issues (tests : List TextTest) (s : String) : List Issue :=
  tests.filterMap (issue? s.toList)

end TextTest

namespace NumberTest

def issue? (x : Float) : NumberTest → Option Issue
  | finite => if x.isFinite then none else some { complaint := .notFinite }
  | whole => if Number.isWhole x then none else some { complaint := .wrongType "integer" "float" }
  | atLeast n => if x < Float.ofNat n then some { complaint := .tooSmall .number n } else none
  | atMost n => if Float.ofNat n < x then some { complaint := .tooBig .number n } else none

end NumberTest

namespace Schema

def reservedKey : String := "__proto__"

def typeName : Option Json → String
  | none => "undefined"
  | some .null => "null"
  | some (.bool _) => "boolean"
  | some (.num x) => if x.isNaN then "nan" else "number"
  | some (.str _) => "string"
  | some (.arr _) => "array"
  | some (.obj _) => "object"

def wrongType (expected : String) (data : Option Json) : Verdict :=
  .refuse (.wrongType expected (typeName data))

def checkText (tests : List TextTest) (data : Option Json) : Verdict :=
  match data with
  | some (.str s) => ⟨.value (.str s), TextTest.issues tests s⟩
  | _ => wrongType "string" data

def checkNumber (tests : List NumberTest) (data : Option Json) : Verdict :=
  match data with
  | some (.num x) =>
    if x.isNaN then wrongType "number" data
    else ⟨.value (.num x), tests.filterMap (NumberTest.issue? x)⟩
  | _ => wrongType "number" data

def checkListed (options : List String) (data : Option Json) : Verdict :=
  match data with
  | some (.str s) =>
    if options.contains s then ⟨.value (.str s), []⟩ else .refuse (.notListed options s)
  | _ => wrongType (quotedOptions options) data

-- Where a default stands in: nothing is there, or null.
def orDefault (default : Option String) (data : Option Json) : Option Json :=
  match default, data with
  | some s, none => some (.str s)
  | some s, some .null => some (.str s)
  | _, data => data

def checkNumeral (read : List Char → Float) (tests : List NumberTest) (data : Option Json) :
    Verdict :=
  match data with
  | some (.str s) => checkNumber tests (some (.num (read s.toList)))
  | _ => wrongType "string" data

def tooMany (most : Nat) (items : List Json) : List Issue :=
  if most < items.length then [{ complaint := .tooBig .elements most }] else []

def gatherItems (most : Nat) (items : List Json) (verdicts : List Verdict) : Verdict :=
  { kept :=
      if verdicts.any Verdict.isNothing then .nothing
      else .value (.arr (verdicts.filterMap Verdict.value?))
    issues := tooMany most items ++ verdicts.flatMap Verdict.issues }

def keptFields (verdicts : List (String × Verdict)) : Record Json :=
  verdicts.filterMap fun (key, v) =>
    if key == reservedKey then none else v.value?.map (key, ·)

def gatherFields (verdicts : List (String × Verdict)) : Verdict :=
  { kept :=
      if verdicts.any (·.2.isNothing) then .nothing
      else .value (.obj (keptFields verdicts))
    issues := verdicts.flatMap (·.2.issues) }

-- The issues of a key come before those of its value.
def withKey (keys : List TextTest) (key : String) (v : Verdict) : String × Verdict :=
  (key, Verdict.under (.key key) { v with issues := TextTest.issues keys key ++ v.issues })

def refine (test : Json → Bool) (wording : String) (v : Verdict) : Verdict :=
  match v.kept with
  | .value j =>
    if test j then v
    else { v with issues := v.issues ++ [{ complaint := .custom, wording := some wording }] }
  | _ => v

mutual

-- All tests of a value report. A value of the wrong type is given up; one that only fails a test is
-- kept, so that what surrounds it can be tested as well. Keys that an object does not name are
-- dropped, and so is the reserved key of objects and records.
def check : Schema → Option Json → Verdict
  | text tests, data => checkText tests data
  | number tests, data => checkNumber tests data
  | listed options, data => checkListed options data
  | numeral default read tests, data => checkNumeral read tests (orDefault default data)
  | array item most, data =>
    match data with
    | some (.arr items) =>
      gatherItems most items (items.mapIdx fun i j => (item.check (some j)).under (.index i))
    | _ => wrongType "array" data
  | record keys value, data =>
    match data with
    | some (.obj fields) =>
      gatherFields ((Record.inOrder fields).map fun (key, j) =>
        withKey keys key (value.check (some j)))
    | _ => wrongType "object" data
  | object fields, data =>
    match data with
    | some (.obj given) => gatherFields (checkFields fields given)
    | _ => wrongType "object" data
  | optional inner, data =>
    match data with
    | none => ⟨.missing, []⟩
    | some j => inner.check (some j)
  | withDefault inner default, data => inner.check (some (data.getD default))
  | refined inner test wording, data => refine test wording (inner.check data)

def checkFields : List (String × Schema) → Record Json → List (String × Verdict)
  | [], _ => []
  | (key, s) :: rest, given =>
    (key, (s.check (given.get? key)).under (.key key)) :: checkFields rest given

end

-- What is kept of a document without issues.
def validate (s : Schema) (data : Option Json) : Except (List Issue) Json :=
  let v := s.check data
  if v.issues.isEmpty then .ok (v.value?.getD .null) else .error v.issues

end Schema

end LayeredDiagram
