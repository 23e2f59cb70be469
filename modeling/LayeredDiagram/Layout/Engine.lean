import LayeredDiagram.Graph.Layering
import LayeredDiagram.Layout.Placement

namespace LayeredDiagram.Plan

-- In any numbers that positions can be computed in.
def arrange {K : Type} [Scalar K] (p : Plan) (canvas : Canvas K) (spacing : Spacing K)
    (cap : Option Float := none) : Except LayoutError (Layout K) := do
  let layers ← p.layers cap
  let nodes ← Layout.placeNodes p.nodes layers canvas spacing
  return { width := canvas.width, height := canvas.height, nodes, edges := p.edges }

-- Layers first, positions from them.
def layout (p : Plan) (o : LayoutOptions := {}) : Except LayoutError (Layout Float) :=
  p.arrange o.canvas o.spacing o.cap

end LayeredDiagram.Plan
