import LayeredDiagram.Figure.Plan
import LayeredDiagram.Number.Written

namespace LayeredDiagram

-- Why a plan cannot be laid out.
inductive LayoutError where
  | duplicateNode (id : String)
  -- The edge names a node that the plan does not declare.
  | unknownNode (id : String) (edge : Edge)
  | notSettled (cap : Float)
  | failed (reason : String)
deriving Repr

namespace LayoutError

def code : LayoutError → String
  | duplicateNode _ => "DUPLICATE_NODE"
  | unknownNode .. => "UNKNOWN_NODE_REFERENCE"
  | notSettled _ => "LAYOUT_DID_NOT_CONVERGE"
  | failed _ => "LAYOUT_FAILED"

def message : LayoutError → String
  | duplicateNode id => "Node identifier \"" ++ id ++ "\" is declared more than once"
  | unknownNode id edge => "Edge " ++ edge.describe ++ " references unknown node \"" ++ id ++ "\""
  | notSettled cap =>
    "Layer assignment did not settle within " ++ Number.text cap ++ " iterations"
  | failed reason => reason

end LayoutError

end LayeredDiagram
