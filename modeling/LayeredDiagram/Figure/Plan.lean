import LayeredDiagram.Json.Basic

namespace LayeredDiagram

structure Node where
  id : String
  label : String
  kind : String
  metadata : Record String := []
deriving DecidableEq, Repr

structure Edge where
  source : String
  target : String
  label : Option String := none
deriving DecidableEq, Repr

-- A figure before it has positions: nodes, edges between them, and the words around them.
structure Plan where
  nodes : List Node
  edges : List Edge
  title : Option String := none
  description : Option String := none
deriving DecidableEq, Repr

-- The kind of a node that names none.
def defaultKind : String := "process"

namespace Edge

def describe (e : Edge) : String :=
  e.source ++ " -> " ++ e.target

def toJson (e : Edge) : Json :=
  .obj ([("source", .str e.source), ("target", .str e.target)] ++
    Json.optional "label" (e.label.map .str))

def ofJson (j : Json) : Edge :=
  { source := j.text "source", target := j.text "target", label := j.text? "label" }

end Edge

namespace Node

def fieldsJson (n : Node) : Record Json :=
  [("id", .str n.id), ("label", .str n.label), ("type", .str n.kind),
    ("metadata", .obj (n.metadata.map fun (key, value) => (key, .str value)))]

def toJson (n : Node) : Json :=
  .obj n.fieldsJson

def metadataOfJson (j : Json) : Record String :=
  j.fields.filterMap fun (key, value) => value.string?.map (key, ·)

def ofJson (j : Json) : Node :=
  { id := j.text "id"
    label := j.text "label"
    kind := j.text "type"
    metadata := ((j.get? "metadata").map metadataOfJson).getD [] }

end Node

namespace Plan

def toJson (p : Plan) : Json :=
  .obj ([("nodes", .arr (p.nodes.map Node.toJson)), ("edges", .arr (p.edges.map Edge.toJson))] ++
    Json.optional "title" (p.title.map .str) ++
    Json.optional "description" (p.description.map .str))

def ofJson (j : Json) : Plan :=
  { nodes := (((j.get? "nodes").map Json.items).getD []).map Node.ofJson
    edges := (((j.get? "edges").map Json.items).getD []).map Edge.ofJson
    title := j.text? "title"
    description := j.text? "description" }

end Plan

end LayeredDiagram
