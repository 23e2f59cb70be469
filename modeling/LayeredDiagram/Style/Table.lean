import LayeredDiagram.Figure.Plan
import LayeredDiagram.Json.Basic
import LayeredDiagram.Style.Color

namespace LayeredDiagram

structure ShapeStyle where
  fill : String
  stroke : String
  strokeWidth : Float := 2
  textColor : String := "#0f172a"
deriving Repr

structure StyleOverride where
  fill : Option String := none
  stroke : Option String := none
  strokeWidth : Option Float := none
  textColor : Option String := none
deriving Repr

abbrev StyleTable := Record ShapeStyle

namespace ShapeStyle

def process : ShapeStyle := { fill := "#e0f2fe", stroke := "#0284c7" }

def io : ShapeStyle := { fill := "#ede9fe", stroke := "#7c3aed" }

def decision : ShapeStyle := { fill := "#fef3c7", stroke := "#f59e0b" }

def widthOr (base : Float) (width : Option Float) : Float :=
  match width with
  | some x => if x.isFinite && 0 ≤ x then x else base
  | none => base

def override (base : ShapeStyle) (o : StyleOverride) : ShapeStyle :=
  { fill := Color.sanitize o.fill base.fill
    stroke := Color.sanitize o.stroke base.stroke
    strokeWidth := widthOr base.strokeWidth o.strokeWidth
    textColor := Color.sanitize o.textColor base.textColor }

def toJson (s : ShapeStyle) : Json :=
  .obj [("fill", .str s.fill), ("stroke", .str s.stroke), ("strokeWidth", .num s.strokeWidth),
    ("textColor", .str s.textColor)]

end ShapeStyle

namespace StyleOverride

def ofJson (j : Json) : StyleOverride :=
  { fill := j.text? "fill"
    stroke := j.text? "stroke"
    strokeWidth := (j.get? "strokeWidth").bind Json.number?
    textColor := j.text? "textColor" }

-- A record of overrides, in the order in which they apply.
def recordOfJson (j : Json) : Record StyleOverride :=
  (Record.inOrder j.fields).map fun (kind, o) => (kind, ofJson o)

end StyleOverride

namespace StyleTable

def standard : StyleTable :=
  [("process", .process), ("io", .io), ("decision", .decision)]

-- The one key that no table holds.
def reserved : String := "__proto__"

def add (t : StyleTable) (o : String × StyleOverride) : StyleTable :=
  let (kind, override) := o
  if kind == reserved then t
  else t.put kind (((t.get? kind).getD .process).override override)

-- Overrides are laid over the standard table one after another, each of their colours checked
-- against the style that it replaces.
def resolve (overrides : Record StyleOverride) : StyleTable :=
  overrides.foldl add standard

-- A kind without a style of its own is drawn like a process.
def style (t : StyleTable) (kind : String) : ShapeStyle :=
  ((t.get? kind).or (t.get? defaultKind)).getD .process

end StyleTable

end LayeredDiagram
