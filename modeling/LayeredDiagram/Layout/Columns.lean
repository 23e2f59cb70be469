import LayeredDiagram.Number.Exact
import LayeredDiagram.RunSort
import LayeredDiagram.Text.Units

namespace LayeredDiagram

-- Layers are compared by an integer that orders them, those that compare at all.
class Ranked (L : Type) where
  rank? : L → Option Int

instance : Ranked Nat where
  rank? n := some (Int.ofNat n)

instance : Ranked Float where
  rank? := Number.rank?

namespace Layout

-- Ranks ascending, none of them last, and identifiers within a rank.
def isOrdered (a b : String × Option Int) : Bool :=
  match a.2, b.2 with
  | some m, some n => m < n || (m == n && a.1.precedes b.1)
  | some _, none => true
  | none, some _ => false
  | none, none => a.1.precedes b.1

def shareColumn (a b : String × Option Int) : Bool :=
  a.2 == b.2

def isBelow : Option Int → Option Int → Bool
  | some m, some n => m < n
  | _, _ => false

-- The column of a rank among all columns.
def column? (columns : List (List (String × Option Int))) (rank : Option Int) :
    Option (List (String × Option Int)) :=
  columns.find? fun c => c.head?.any (·.2 == rank)

-- Columns in the order that their ranks take from where they first appear.
def settled (layers : List (String × Option Int)) (columns : List (List (String × Option Int))) :
    List (List (String × Option Int)) :=
  (RunSort.sort isBelow (layers.map (·.2)).eraseDups).filterMap (column? columns)

-- The nodes of each layer, layers ascending and identifiers in the order of their units. A layer
-- without a rank compares with no other and stays about where it first appears: the layers are then
-- sorted by their runs, to which it looks equal to every neighbour.
def columns {L : Type} [Ranked L] (layers : List (String × L)) : List (List String) :=
  let ranked := layers.map fun (id, l) => (id, Ranked.rank? l)
  let columns := (ranked.mergeSort isOrdered).splitBy shareColumn
  let columns := if ranked.all (·.2.isSome) then columns else settled ranked columns
  columns.map (·.map (·.1))

end Layout

end LayeredDiagram
