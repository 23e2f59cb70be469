import LayeredDiagram.Layout.Error
import Std.Data.HashMap

namespace LayeredDiagram

-- A plan as a graph on indices. Nodes are numbered in plan order, and every node lists the targets
-- of its edges in edge order, repeated edges included.
structure Graph where
  ids : Array String := #[]
  index : Std.HashMap String Nat := {}
  outgoing : Array (Array Nat) := #[]
  -- How many edges end at each node.
  incoming : Array Nat := #[]

namespace Graph

def size (g : Graph) : Nat :=
  g.ids.size

def targets (g : Graph) (u : Nat) : List Nat :=
  (g.outgoing[u]?.getD #[]).toList

def edgeCount (g : Graph) : Nat :=
  g.outgoing.foldl (fun n vs => n + vs.size) 0

def declare (g : Graph) (n : Node) : Except LayoutError Graph :=
  let position := g.size
  if g.index.contains n.id then .error (.duplicateNode n.id)
  else .ok {
    ids := g.ids.push n.id
    index := g.index.insert n.id position
    outgoing := g.outgoing.push #[]
    incoming := g.incoming.push 0 }

def connect (g : Graph) (e : Edge) : Except LayoutError Graph :=
  match g.index[e.source]? with
  | none => .error (.unknownNode e.source e)
  | some u =>
    match g.index[e.target]? with
    | none => .error (.unknownNode e.target e)
    | some v => .ok { g with
        outgoing := g.outgoing.modify u (·.push v)
        incoming := g.incoming.modify v (· + 1) }

-- All nodes are declared before the first edge is drawn.
def ofPlan (p : Plan) : Except LayoutError Graph := do
  let g ← p.nodes.foldlM declare {}
  p.edges.foldlM connect g

-- The nodes where no edge ends, or the first node if edges end at all of them.
def seeds (g : Graph) : List Nat :=
  let sources := (List.range g.size).filter fun u => g.incoming[u]?.getD 0 == 0
  if sources.isEmpty then (List.range g.size).take 1 else sources

end Graph

end LayeredDiagram
