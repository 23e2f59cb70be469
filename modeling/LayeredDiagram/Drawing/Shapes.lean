import LayeredDiagram.Drawing.Label
import LayeredDiagram.Layout.Basic
import LayeredDiagram.Markup.Element
import LayeredDiagram.Style.Table
import Std.Data.HashMap

namespace LayeredDiagram

structure RenderError where
  message : String
deriving DecidableEq, Repr

namespace Drawing

open Element (attributes)

def fontFamily : String := "Inter, Helvetica, Arial, sans-serif"

def edgeColor : String := "#334155"

-- Two decimals; what is not finite is drawn at zero.
def coordinate (x : Float) : String :=
  Number.fixed (if x.isFinite then x else 0)

def length (n : Nat) : Float :=
  Float.ofNat n

def nodeBox (n : Placed Float) (s : ShapeStyle) : Element :=
  .node "rect"
    (attributes [
      ("x", coordinate (n.x - length boxWidth / 2)),
      ("y", coordinate (n.y - length boxHeight / 2)),
      ("width", coordinate (length boxWidth)),
      ("height", coordinate (length boxHeight)),
      ("rx", "12"),
      ("ry", "12"),
      ("fill", s.fill),
      ("stroke", s.stroke)] ++ [("stroke-width", .number s.strokeWidth)])
    none []

-- All lines but the first stand a little lower than the one before.
def labelLine (x : String) (line : List Char × Nat) : Element :=
  .node "tspan" (attributes [("x", x), ("dy", if line.2 == 0 then "0" else "1.2em")])
    (some (String.ofList line.1)) []

def nodeLabel (n : Placed Float) (s : ShapeStyle) : Element :=
  let x := coordinate n.x
  let place := attributes [
    ("x", x),
    ("y", coordinate n.y),
    ("fill", s.textColor),
    ("font-family", fontFamily),
    ("font-size", "16px"),
    ("text-anchor", "middle"),
    ("dominant-baseline", "middle")]
  match wrapLabel n.label.toList with
  | [line] => .node "text" place (some (String.ofList line)) []
  | lines => .node "text" place none (lines.zipIdx.map (labelLine x))

def nodeElements (t : StyleTable) (n : Placed Float) : List Element :=
  let s := t.style n.kind
  [nodeBox n s, nodeLabel n s]

-- An empty label is no label.
def edgeLabel? (e : Edge) : Option String :=
  e.label.filter (· != "")

def edgeLine (e : Edge) (source target : Placed Float) : Element :=
  .node "line"
    (attributes ([
      ("x1", coordinate source.x),
      ("y1", coordinate source.y),
      ("x2", coordinate target.x),
      ("y2", coordinate target.y),
      ("stroke", edgeColor),
      ("stroke-width", "2"),
      ("marker-end", "url(#arrow)")] ++
      ((edgeLabel? e).map fun label => ("data-label", label)).toList))
    none []

def edgeText (label : String) (source target : Placed Float) : Element :=
  .node "text"
    (attributes [
      ("class", "edge-label"),
      ("x", coordinate ((source.x + target.x) / 2)),
      ("y", coordinate ((source.y + target.y) / 2 - 8)),
      ("fill", edgeColor),
      ("font-family", fontFamily),
      ("font-size", "12px"),
      ("text-anchor", "middle")])
    (some label) []

-- Of two nodes with one identifier the later counts.
abbrev PlacedNodes := Std.HashMap String (Placed Float)

def placedNodes (nodes : List (Placed Float)) : PlacedNodes :=
  nodes.foldl (fun m n => m.insert n.id n) {}

def unplaced (e : Edge) (id : String) : RenderError :=
  ⟨"Edge " ++ e.describe ++ " references unplaced node \"" ++ id ++ "\""⟩

def edgeElements (nodes : PlacedNodes) (e : Edge) : Except RenderError (List Element) :=
  match nodes[e.source]?, nodes[e.target]? with
  | some source, some target =>
    .ok (edgeLine e source target :: ((edgeLabel? e).map (edgeText · source target)).toList)
  | some _, none => .error (unplaced e e.target)
  | none, _ => .error (unplaced e e.source)

end Drawing

-- A box and a label for each node, then a line and perhaps a label for each edge.
def Layout.elements (l : Layout Float) (t : StyleTable) : Except RenderError (List Element) := do
  let edges ← l.edges.mapM (Drawing.edgeElements (Drawing.placedNodes l.nodes))
  return l.nodes.flatMap (Drawing.nodeElements t) ++ edges.flatten

end LayeredDiagram
