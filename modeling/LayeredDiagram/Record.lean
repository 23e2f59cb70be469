namespace LayeredDiagram

-- Fields in the order in which their keys were first set. Setting a key again keeps its place.
abbrev Record (α : Type) := List (String × α)

namespace Record

variable {α β : Type}

def get? (r : Record α) (key : String) : Option α :=
  (r.find? (·.1 == key)).map (·.2)

def has (r : Record α) (key : String) : Bool :=
  r.any (·.1 == key)

def put (r : Record α) (key : String) (value : α) : Record α :=
  match r with
  | [] => [(key, value)]
  | e :: r => if e.1 == key then (key, value) :: r else e :: put r key value

def erase (r : Record α) (key : String) : Record α :=
  r.filter (·.1 != key)

-- The fields of `s` set one after another over those of `r`.
def merge (r s : Record α) : Record α :=
  s.foldl (fun r e => r.put e.1 e.2) r

def ofPairs (pairs : List (String × α)) : Record α :=
  merge [] pairs

def keys (r : Record α) : List String :=
  r.map (·.1)

-- One more than the largest index of a list.
def indexLimit : Nat := 4294967295

-- The index that a key spells, in its one canonical form.
def index? (key : String) : Option Nat :=
  let cs := key.toList
  if cs.isEmpty || !cs.all Char.isDigit || 10 < cs.length then none
  else
    let n := cs.foldl (fun n c => 10 * n + (c.toNat - '0'.toNat)) 0
    if n < indexLimit && Nat.toDigits 10 n == cs then some n else none

-- The fields as they are listed: keys that read as indices come first, in numeric order.
def inOrder (r : Record α) : List (String × α) :=
  let indexed := r.filterMap fun e => (index? e.1).map (·, e)
  (indexed.mergeSort (fun a b => a.1 ≤ b.1)).map (·.2) ++ r.filter (fun e => (index? e.1).isNone)

end Record

end LayeredDiagram
