import LayeredDiagram.Graph.Basic

namespace LayeredDiagram.Graph

inductive Colour where
  | white
  | grey
  | black
deriving DecidableEq, Repr

-- A node on the stack, and the targets that it still has to read.
structure Frame where
  node : Nat
  rest : List Nat
deriving DecidableEq, Repr

-- A depth-first search as a machine with a stack of its own. Each step reads one edge or leaves one
-- node. A node is grey while it is on the stack and black once all its targets are read. An edge to
-- a grey node closes a cycle and is dropped, every other one is kept.
structure Search where
  colours : Array Colour
  kept : Array (Array Nat)
  stack : List Frame := []
deriving Repr

namespace Search

def start (g : Graph) : Search :=
  { colours := Array.replicate g.size .white, kept := Array.replicate g.size #[] }

-- There is nothing to see outside the graph.
def colour (s : Search) (u : Nat) : Colour :=
  s.colours[u]?.getD .black

def enter (g : Graph) (u : Nat) (s : Search) : Search :=
  { s with
    colours := s.colours.setIfInBounds u .grey
    stack := ⟨u, g.targets u⟩ :: s.stack }

def leave (u : Nat) (below : List Frame) (s : Search) : Search :=
  { s with colours := s.colours.setIfInBounds u .black, stack := below }

def keep (u v : Nat) (s : Search) : Search :=
  { s with kept := s.kept.modify u (·.push v) }

def step (g : Graph) (s : Search) : Search :=
  match s.stack with
  | [] => s
  | ⟨u, []⟩ :: below => s.leave u below
  | ⟨u, v :: rest⟩ :: below =>
    let s := { s with stack := ⟨u, rest⟩ :: below }
    match s.colour v with
    | .grey => s
    | .white => (s.keep u v).enter g v
    | .black => s.keep u v

-- Steps until the stack is empty, at most as many as there is fuel.
def drain (g : Graph) : Nat → Search → Search
  | 0, s => s
  | fuel + 1, s => if s.stack.isEmpty then s else drain g fuel (s.step g)

def visit (g : Graph) (fuel : Nat) (s : Search) (root : Nat) : Search :=
  if s.colour root = .white then drain g fuel (s.enter g root) else s

-- The search starts from the given roots and then from every node that is still white. The fuel
-- suffices, since each node is left once and each edge read once.
def run (g : Graph) (roots : List Nat) : Search :=
  (roots ++ List.range g.size).foldl (visit g (g.size + g.edgeCount)) (start g)

end Search

-- The kept targets of every node, in edge order.
def forward (g : Graph) (roots : List Nat) : Array (Array Nat) :=
  (Search.run g roots).kept

end LayeredDiagram.Graph
