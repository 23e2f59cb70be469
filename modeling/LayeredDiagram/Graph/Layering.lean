import LayeredDiagram.Graph.Forward
import LayeredDiagram.Graph.Queue

namespace LayeredDiagram.Graph

-- A limit on how many nodes may be taken. The search settles within the one that is derived from
-- the graph, but a smaller one may be given.
inductive Cap where
  | derived (pops : Nat)
  | given (cap : Float)

namespace Cap

def isExceededBy (c : Cap) (pops : Nat) : Bool :=
  match c with
  | derived n => n < pops
  | given x => Number.exceeds pops x

def value : Cap → Float
  | derived n => Float.ofNat n
  | given x => x

end Cap

-- The layers so far. The seeds start in layer 0. A node taken from the queue raises its targets to
-- the layer after its own, and every target that is raised joins the queue again.
structure Relaxation where
  layers : Array (Option Nat)
  queue : Queue Nat := {}

namespace Relaxation

def start (g : Graph) : Relaxation :=
  let seeds := g.seeds
  { layers := seeds.foldl (fun layers u => layers.setIfInBounds u (some 0))
      (Array.replicate g.size none)
    queue := .ofList seeds }

def layer? (r : Relaxation) (u : Nat) : Option Nat :=
  r.layers[u]?.getD none

def isBelow (layer? : Option Nat) (proposed : Nat) : Bool :=
  match layer? with
  | none => true
  | some layer => layer < proposed

def raise (proposed : Nat) (r : Relaxation) (v : Nat) : Relaxation :=
  if isBelow (r.layer? v) proposed then
    { layers := r.layers.setIfInBounds v (some proposed), queue := r.queue.push v }
  else r

def relax (forward : Array (Array Nat)) (u : Nat) (r : Relaxation) : Relaxation :=
  (forward[u]?.getD #[]).foldl (raise ((r.layer? u).getD 0 + 1)) r

-- Takes nodes until the queue is empty, at most as many as there is fuel.
def run (forward : Array (Array Nat)) (cap : Cap) :
    (fuel pops : Nat) → Relaxation → Except LayoutError Relaxation
  | 0, _, r => .ok r
  | fuel + 1, pops, r =>
    match r.queue.pop? with
    | none => .ok r
    | some (u, queue) =>
      if cap.isExceededBy (pops + 1) then .error (.notSettled cap.value)
      else run forward cap fuel (pops + 1) (relax forward u { r with queue })

end Relaxation

-- A layer per node. What no seed reaches stays in layer 0.
def layers (g : Graph) (cap : Cap) : Except LayoutError (List (String × Nat)) := do
  let forward := g.forward g.seeds
  let r ← Relaxation.run forward cap (g.size * g.size + 1) 0 (.start g)
  return g.ids.toList.zip (r.layers.toList.map (·.getD 0))

end Graph

namespace Plan

def cap (p : Plan) (given : Option Float) : Graph.Cap :=
  match given with
  | some x => .given x
  | none => .derived (p.nodes.length * p.nodes.length + p.edges.length + 1)

def layers (p : Plan) (cap : Option Float := none) : Except LayoutError (List (String × Nat)) := do
  let g ← Graph.ofPlan p
  g.layers (p.cap cap)

end Plan

end LayeredDiagram
