namespace LayeredDiagram

-- Why a figure document is refused.
inductive SpecFault where
  | noNodes
  | badNode (line : String)
  | badEdge (line : String)
  | repeatedNode (id : String)
deriving DecidableEq, Repr

-- A fault, and the number of its line where it is known.
structure SpecError where
  fault : SpecFault
  line : Option Nat := none
deriving DecidableEq, Repr

def SpecFault.message : SpecFault → String
  | noNodes => "A figure specification must include a 'Nodes' section."
  | badNode line => "Invalid node line: \"" ++ line ++ "\""
  | badEdge line => "Invalid edge line: \"" ++ line ++ "\""
  | repeatedNode id => "Duplicate node identifier \"" ++ id ++ "\""

-- Where the line is known, a message begins with it.
def atLine (reason : String) : Option String → String
  | some line => "Line " ++ line ++ ": " ++ reason
  | none => reason

def SpecError.message (e : SpecError) : String :=
  atLine e.fault.message (e.line.map toString)

end LayeredDiagram
