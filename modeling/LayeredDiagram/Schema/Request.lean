import LayeredDiagram.Figure.Plan
import LayeredDiagram.Number.Reader
import LayeredDiagram.Schema.Basic
import LayeredDiagram.Style.Color

namespace LayeredDiagram

namespace Limits

def id : Nat := 100
def label : Nat := 1000
def kind : Nat := 100
def title : Nat := 500
def description : Nat := 5000
def spec : Nat := 200000
def metadataKeys : Nat := 50
def nodes : Nat := 1000
def edges : Nat := 5000
def styles : Nat := 50
def canvasLeast : Nat := 1
def canvasMost : Nat := 10000

end Limits

namespace Schema

open Text

def nodeId : Schema :=
  text [.atLeast 1, .atMost Limits.id,
    .form isIdentifier "Identifiers may contain letters, digits, '_' and '-'"]

-- Hexadecimal digits, or a name that is not looked up.
def looksLikeColor (cs : List Char) : Bool :=
  Color.isHex cs || (!cs.isEmpty && cs.all Char.isAlpha)

def color : Schema :=
  text [.accepts looksLikeColor
    "Invalid color format. Use hex (#RGB, #RRGGBB, #RRGGBBAA) or CSS color name"]

def canvas : Schema :=
  let length := number [.atLeast Limits.canvasLeast, .atMost Limits.canvasMost]
  object [("width", length), ("height", length)]

def shapeStyle : Schema :=
  object [
    ("fill", color),
    ("stroke", color),
    ("strokeWidth", optional (number [.atLeast 0, .atMost 50])),
    ("textColor", optional color)]

def hasAtMost (n : Nat) (j : Json) : Bool :=
  j.fields.length ≤ n

def styleOverrides : Schema :=
  refined (record [.atLeast 1, .atMost Limits.kind] shapeStyle) (hasAtMost Limits.styles)
    ("At most " ++ toString Limits.styles ++ " style overrides are allowed")

def metadata : Schema :=
  refined (record [.atMost Limits.id] (text [.atMost Limits.label]))
    (hasAtMost Limits.metadataKeys)
    ("At most " ++ toString Limits.metadataKeys ++ " metadata keys are allowed")

def node : Schema :=
  object [
    ("id", nodeId),
    ("label", text [.atMost Limits.label]),
    ("type", withDefault (text [.atLeast 1, .atMost Limits.kind]) (.str defaultKind)),
    ("metadata", withDefault metadata (.obj []))]

def edge : Schema :=
  object [
    ("source", nodeId),
    ("target", nodeId),
    ("label", optional (text [.atMost Limits.label]))]

-- Repeated identifiers and edges to nowhere are left to the layout.
def plan : Schema :=
  object [
    ("nodes", array node Limits.nodes),
    ("edges", withDefault (array edge Limits.edges) (.arr [])),
    ("title", optional (text [.atMost Limits.title])),
    ("description", optional (text [.atMost Limits.description]))]

def parseRequest : Schema :=
  object [("spec", text [.atLeast 1 "Spec text is required", .atMost Limits.spec])]

def layoutRequest : Schema :=
  object [("plan", plan), ("canvas", optional canvas)]

def oneSourceWording : String := "Provide exactly one of 'spec' or 'plan'"

def hasOneSource (j : Json) : Bool :=
  (j.get? "spec").isSome != (j.get? "plan").isSome

def renderRequest : Schema :=
  refined
    (object [
      ("spec", optional (text [.atLeast 1, .atMost Limits.spec])),
      ("plan", optional plan),
      ("canvas", optional canvas),
      ("styles", optional styleOverrides)])
    hasOneSource oneSourceWording

def lengthOption (default : String) : Schema :=
  numeral (some default) Number.whole
    [.finite, .atLeast Limits.canvasLeast, .atMost Limits.canvasMost]

def commandLine : Schema :=
  object [
    ("spec", text [.atLeast 1 "A spec file path is required"]),
    ("out", withDefault (text [.atLeast 1]) (.str "figure.svg")),
    ("width", lengthOption "960"),
    ("height", lengthOption "640")]

end Schema

end LayeredDiagram
