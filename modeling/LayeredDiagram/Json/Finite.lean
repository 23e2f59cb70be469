import LayeredDiagram.Json.Basic
import LayeredDiagram.Number.Reader

namespace LayeredDiagram.Json

-- A finite number, or the finite number that a text begins with.
def finite? : Json → Option Float
  | num x => if x.isFinite then some x else none
  | str s => (Number.leading? s.toList).filter (·.isFinite)
  | _ => none

def finiteOr (fallback : Float) (j : Option Json) : Float :=
  (j.bind finite?).getD fallback

end LayeredDiagram.Json
