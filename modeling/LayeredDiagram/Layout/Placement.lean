import LayeredDiagram.Layout.Basic
import LayeredDiagram.Layout.Columns
import LayeredDiagram.Layout.Error
import Std.Data.HashMap

namespace LayeredDiagram.Layout

open Scalar

variable {K : Type} [Scalar K]

-- The first of `count` stacked nodes. There is one gap less than there are nodes.
def columnStart (count height : K) (s : Spacing K) : K :=
  let span := s.vertical * larger (ofNat 0) (count - ofNat 1)
  larger s.margin ((height - span) / ofNat 2)

def position (c : Canvas K) (s : Spacing K) (column count row : Nat) : K × K :=
  let start := columnStart (ofNat count) c.height s
  (s.margin + ofNat column * s.horizontal, start + ofNat row * s.vertical)

-- Every identifier with its position, column by column and from top to bottom. Columns stand side
-- by side from the margin on, whatever numbers their layers have. Each is centred on the canvas,
-- but never starts above the margin.
def positions (c : Canvas K) (s : Spacing K) (columns : List (List String)) :
    List (String × K × K) :=
  columns.zipIdx.flatMap fun (ids, column) =>
    let count := ids.length
    ids.zipIdx.map fun (id, row) => (id, position c s column count row)

-- Of two nodes with one identifier the later counts.
def nodesById (nodes : List Node) : Std.HashMap String Node :=
  nodes.foldl (fun m n => m.insert n.id n) {}

def place (nodes : Std.HashMap String Node) (spot : String × K × K) :
    Except LayoutError (Placed K) :=
  let (id, x, y) := spot
  match nodes[id]? with
  | some n => .ok { n with x, y }
  | none => .error (.failed ("Layer assigned to undeclared node \"" ++ id ++ "\""))

def placeNodes {L : Type} [Ranked L] (nodes : List Node) (layers : List (String × L))
    (c : Canvas K) (s : Spacing K) : Except LayoutError (List (Placed K)) :=
  let byId := nodesById nodes
  (positions c s (columns layers)).mapM (place byId)

end LayeredDiagram.Layout
