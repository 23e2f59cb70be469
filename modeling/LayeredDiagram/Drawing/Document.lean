import LayeredDiagram.Drawing.Shapes

namespace LayeredDiagram

namespace Drawing

open Element (attributes)

def arrowHead : Element :=
  .node "defs" [] none [
    .node "marker"
      [("id", .text "arrow"), ("markerWidth", .number 10), ("markerHeight", .number 7),
        ("refX", .number 10), ("refY", .number 3.5), ("orient", .text "auto"),
        ("markerUnits", .text "strokeWidth")]
      none
      [.node "path" (attributes [("d", "M0,0 L0,7 L10,3.5 z"), ("fill", edgeColor)]) none []]]

-- A length of the whole drawing; an unusable one is zero.
def dimension (x : Float) : String :=
  Number.text (if x.isFinite && 0 ≤ x then x else 0)

def openLine (width height : String) : String :=
  "<svg xmlns=\"http://www.w3.org/2000/svg\" width=\"" ++ width ++ "\" height=\"" ++ height ++
    "\" viewBox=\"0 0 " ++ width ++ " " ++ height ++ "\">"

-- An empty title is no title.
def titleElements (title : Option String) : List Element :=
  ((title.filter (· != "")).map fun t => .node "title" [] (some t) []).toList

def body (title : Option String) (elements : List Element) : List Element :=
  titleElements title ++ [arrowHead] ++ elements

-- An outer element around the title, the arrow head and the shapes, one a line.
def document (l : Layout Float) (title : Option String) (elements : List Element) : List Char :=
  let first := (openLine (dimension l.width) (dimension l.height)).toList
  let lines := (body title elements).map fun e => [' ', ' '] ++ e.render
  ['\n'].intercalate ([first] ++ lines ++ ["</svg>".toList])

end Drawing

def Layout.render (l : Layout Float) (overrides : Record StyleOverride := [])
    (title : Option String := none) : Except RenderError String := do
  let elements ← l.elements (StyleTable.resolve overrides)
  return String.ofList (Drawing.document l title elements)

end LayeredDiagram
