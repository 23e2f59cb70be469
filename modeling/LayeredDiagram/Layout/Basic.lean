import LayeredDiagram.Figure.Plan
import LayeredDiagram.Layout.Scalar

namespace LayeredDiagram

structure Canvas (K : Type) where
  width : K
  height : K

structure Spacing (K : Type) where
  -- Between neighbouring columns.
  horizontal : K
  -- Between nodes stacked in a column.
  vertical : K
  -- Left of the first column, and the least distance from the top.
  margin : K

-- A node and the centre of its box.
structure Placed (K : Type) extends Node where
  x : K
  y : K

structure Layout (K : Type) where
  width : K
  height : K
  nodes : List (Placed K)
  edges : List Edge

def standardCanvas : Canvas Float := ⟨800, 600⟩

def standardSpacing : Spacing Float := ⟨200, 140, 60⟩

-- The box that is drawn for a node.
def boxWidth : Nat := 160

def boxHeight : Nat := 60

-- A length is usable if it is finite and not negative.
def usableLength? (length : Option Float) : Option Float :=
  length.filter fun x => x.isFinite && !(x < 0)

def lengthOr (default : Float) (length : Option Float) : Float :=
  (usableLength? length).getD default

-- What a caller asks for; lengths that are left out or unusable take their standard values.
structure LayoutOptions where
  width : Option Float := none
  height : Option Float := none
  horizontal : Option Float := none
  vertical : Option Float := none
  margin : Option Float := none
  cap : Option Float := none

namespace LayoutOptions

def canvas (o : LayoutOptions) : Canvas Float :=
  { width := lengthOr standardCanvas.width o.width
    height := lengthOr standardCanvas.height o.height }

def spacing (o : LayoutOptions) : Spacing Float :=
  { horizontal := lengthOr standardSpacing.horizontal o.horizontal
    vertical := lengthOr standardSpacing.vertical o.vertical
    margin := lengthOr standardSpacing.margin o.margin }

end LayoutOptions

namespace Placed

def toJson (n : Placed Float) : Json :=
  .obj (n.fieldsJson ++ [("x", .num n.x), ("y", .num n.y)])

end Placed

namespace Layout

def toJson (l : Layout Float) : Json :=
  .obj [("width", .num l.width), ("height", .num l.height),
    ("nodes", .arr (l.nodes.map Placed.toJson)), ("edges", .arr (l.edges.map Edge.toJson))]

end Layout

end LayeredDiagram
