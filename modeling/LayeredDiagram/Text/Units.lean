import LayeredDiagram.Text.Half

namespace LayeredDiagram.Text

def unitsOf (c : Char) : List Nat :=
  if c.toNat < 0x10000 || isHalf c then [pointOf c] else [highOf c.toNat, lowOf c.toNat]

-- Limits, line budgets and the order of identifiers all count UTF-16 units: a character beyond
-- U+FFFF is two of them, and its first unit sorts before the characters from U+E000 to U+FFFF.
def unitWidth (c : Char) : Nat :=
  if c.toNat < 0x10000 || isHalf c then 1 else 2

def units (cs : List Char) : Nat :=
  cs.foldl (fun n c => n + unitWidth c) 0

-- The order of lists of units, first difference first.
def precedesUnits : List Nat → List Nat → Bool
  | [], _ => true
  | _ :: _, [] => false
  | m :: ms, n :: ns => m < n || (m == n && precedesUnits ms ns)

def precedes (as bs : List Char) : Bool :=
  precedesUnits (as.flatMap unitsOf) (bs.flatMap unitsOf)

end LayeredDiagram.Text

namespace String

-- The length of a text in UTF-16 units.
def units (s : String) : Nat :=
  LayeredDiagram.Text.units s.toList

def precedes (s t : String) : Bool :=
  LayeredDiagram.Text.precedes s.toList t.toList

end String
