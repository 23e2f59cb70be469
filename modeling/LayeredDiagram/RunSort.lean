namespace LayeredDiagram.RunSort

variable {α : Type} (less : α → α → Bool)

-- Where the positions that stay in front end, between `low` and `high`.
def search (stays : Nat → Bool) : (fuel low high : Nat) → Nat
  | 0, low, _ => low
  | fuel + 1, low, high =>
    if low < high then
      let middle := low + (high - low) / 2
      if stays middle then search stays fuel (middle + 1) high else search stays fuel low middle
    else low

-- The last step that still goes on, and the first that does not. Steps double.
def leap (goesOn : Nat → Bool) (limit : Nat) : (fuel last step : Nat) → Nat × Nat
  | 0, last, step => (last, min step limit)
  | fuel + 1, last, step =>
    if step < limit && goesOn step then leap goesOn limit fuel step (2 * step + 1)
    else (last, min step limit)

-- The same place, found by leaps from `start`.
def gallop (stays : Nat → Bool) (length start : Nat) : Nat :=
  if stays start then
    let (last, step) := leap (fun n => stays (start + n)) (length - start) length 0 1
    search stays length (start + last + 1) (start + step)
  else
    let (last, step) := leap (fun n => !stays (start - n)) (start + 1) length 0 1
    search stays length (start + 1 - step) (start - last)

-- Elements that stay in front of an equal key.
def isUpTo (run : List α) (key : α) (i : Nat) : Bool :=
  match run[i]? with
  | some x => !less key x
  | none => false

-- Elements that stay in front only if they are less than the key.
def isBelow (run : List α) (key : α) (i : Nat) : Bool :=
  match run[i]? with
  | some x => less x key
  | none => false

-- `run` stands in reverse and ends with `last`.
def takeRun (follows : α → α → Bool) (last : α) (run : List α) : List α → List α × List α
  | [] => (run, [])
  | x :: xs => if follows last x then takeRun follows x (x :: run) xs else (run, x :: xs)

-- The run at the beginning, and the rest. A run that strictly descends is turned round.
def firstRun : List α → List α × List α
  | x :: y :: xs =>
    if less y x then takeRun (fun last next => less next last) y [y, x] xs
    else
      let (run, rest) := takeRun (fun last next => !less next last) y [y, x] xs
      (run.reverse, rest)
  | xs => (xs, [])

def insert (run : List α) (x : α) : List α :=
  let i := search (isUpTo less run x) run.length 0 run.length
  run.take i ++ x :: run.drop i

-- Runs shorter than this are lengthened: all of a short list, between 32 and 64 of a long one.
def leastRun (n : Nat) : Nat :=
  go n n 0
where
  go : (fuel n carry : Nat) → Nat
    | 0, n, carry => n + carry
    | fuel + 1, n, carry =>
      if n < 64 then n + carry else go fuel (n / 2) (max carry (n % 2))

def nextRun (least : Nat) (xs : List α) : List α × List α :=
  let (run, rest) := firstRun less xs
  let short := least - run.length
  ((rest.take short).foldl (insert less) run, rest.drop short)

-- The end at which a merge begins.
inductive Side where
  | front
  | back
deriving DecidableEq, Repr

-- How many elements of a run come next: on the front those that stay before a key, on the back
-- those that do not. `stays` takes positions counted from that end.
def Side.wins (side : Side) (stays : Nat → Bool) (length : Nat) : Nat :=
  match side with
  | .front => gallop stays length 0
  | .back => length - gallop (fun i => stays (length - 1 - i)) length (length - 1)

-- What is left of two runs, from the end at which the merge began, and what is merged of them, the
-- latest first. As many wins in a row as `patience` make a merge leap.
structure Merge (α : Type) where
  earlier : List α
  later : List α
  merged : List α := []
  patience : Nat

namespace Merge

def takeEarlier (m : Merge α) (n : Nat) : Merge α :=
  { m with earlier := m.earlier.drop n, merged := (m.earlier.take n).reverseAux m.merged }

def takeLater (m : Merge α) (n : Nat) : Merge α :=
  { m with later := m.later.drop n, merged := (m.later.take n).reverseAux m.merged }

def atMostOne : List α → Bool
  | _ :: _ :: _ => false
  | _ => true

-- The outermost element of one run is known to come last of all that are left.
def isOver (m : Merge α) : Side → Bool
  | .front => m.later.isEmpty || atMostOne m.earlier
  | .back => m.earlier.isEmpty || atMostOne m.later

def finish (m : Merge α) : Side → List α
  | .front => m.merged.reverse ++ m.later ++ m.earlier
  | .back => m.later.reverse ++ m.earlier.reverse ++ m.merged

-- How many elements of the earlier run come next.
def earlierWins (m : Merge α) (side : Side) : Nat :=
  match m.later with
  | [] => 0
  | key :: _ => side.wins (isUpTo less m.earlier key) m.earlier.length

-- How many elements of the later run come next.
def laterWins (m : Merge α) (side : Side) : Nat :=
  match m.earlier with
  | [] => 0
  | key :: _ => side.wins (isBelow less m.later key) m.later.length

-- Does the later run win the next element? On the front the lesser element wins, on the back the
-- greater one.
def laterIsNext (m : Merge α) (side : Side) : Bool :=
  match m.earlier, m.later with
  | x :: _, y :: _ => if side == .front then less y x else !less y x
  | _, _ => false

-- How a merge goes on: the wins in a row of either run, or by leaps.
inductive Pace where
  | single (earlier later : Nat)
  | leaps (first : Bool)

-- So many elements must come in a row for a merge to go on by leaps.
def leastLeap : Nat := 7

-- One round of leaps: elements of the earlier run, one of the later, elements of the later run,
-- one of the earlier.
def round (m : Merge α) (side : Side) : Merge α × Option Pace :=
  let wins := m.earlierWins less side
  let m := m.takeEarlier wins
  if m.isOver side then (m, none)
  else
    let m := m.takeLater 1
    if m.isOver side then (m, none)
    else
      let losses := m.laterWins less side
      let m := m.takeLater losses
      if m.isOver side then (m, none)
      else
        let m := m.takeEarlier 1
        if m.isOver side then (m, none)
        else if leastLeap ≤ wins || leastLeap ≤ losses then (m, some (.leaps false))
        else ({ m with patience := m.patience + 1 }, some (.single 0 0))

def step (m : Merge α) (side : Side) : Pace → Merge α × Option Pace
  | .single wins losses =>
    let (m, wins, losses) :=
      if m.laterIsNext less side then (m.takeLater 1, 0, losses + 1)
      else (m.takeEarlier 1, wins + 1, 0)
    if m.isOver side then (m, none)
    else if m.patience ≤ wins || m.patience ≤ losses then (m, some (.leaps true))
    else (m, some (.single wins losses))
  | .leaps first =>
    let patience := if first then m.patience else max 1 (m.patience - 1)
    round less { m with patience } side

def run (side : Side) : (fuel : Nat) → Merge α → Option Pace → Merge α
  | 0, m, _ => m
  | _, m, none => m
  | fuel + 1, m, some pace =>
    let (m, pace) := m.step less side pace
    run side fuel m pace

-- The element that begins is known: the ends that are in place already have been cut off.
def complete (m : Merge α) (side : Side) : List α × Nat :=
  let fuel := m.earlier.length + m.later.length
  let m := match side with
    | .front => m.takeLater 1
    | .back => { m with earlier := m.earlier.reverse, later := m.later.reverse }.takeEarlier 1
  let m := run less side fuel m (if m.isOver side then none else some (.single 0 0))
  (m.finish side, m.patience)

end Merge

-- Two runs as one, and the patience that is left.
def mergeRuns (earlier later : List α) (patience : Nat) : List α × Nat :=
  match later.head? with
  | none => (earlier, patience)
  | some first =>
    let i := gallop (isUpTo less earlier first) earlier.length 0
    match earlier.getLast?, earlier.drop i with
    | some last, x :: rest =>
      let j := gallop (isBelow less later last) later.length (later.length - 1)
      let m : Merge α := { earlier := x :: rest, later := later.take j, patience }
      let (merged, patience) :=
        if j == 0 then (x :: rest, patience)
        else m.complete less (if m.earlier.length ≤ j then .front else .back)
      (earlier.take i ++ merged ++ later.drop j, patience)
    | _, _ => (earlier ++ later, patience)

-- Runs that are still to be merged, the last one first.
structure Pending (α : Type) where
  runs : List (List α) := []
  patience : Nat := Merge.leastLeap

namespace Pending

-- Merges the last two runs.
def mergeLast (p : Pending α) : Pending α :=
  match p.runs with
  | c :: b :: runs =>
    let (run, patience) := mergeRuns less b c p.patience
    ⟨run :: runs, patience⟩
  | _ => p

-- Merges the two runs before the last one.
def mergeBefore (p : Pending α) : Pending α :=
  match p.runs with
  | c :: b :: a :: runs =>
    let (run, patience) := mergeRuns less a b p.patience
    ⟨c :: run :: runs, patience⟩
  | _ => p

-- The last run goes with the shorter of its neighbours.
def mergeShort (p : Pending α) : Pending α :=
  match p.runs with
  | c :: _ :: a :: _ => if a.length < c.length then p.mergeBefore less else p.mergeLast less
  | _ => p.mergeLast less

-- Is each of the last runs but one longer than the two after it together?
def isSteep : List (List α) → Bool
  | c :: b :: a :: z :: _ =>
    b.length + c.length < a.length && a.length + b.length < z.length
  | [c, b, a] => b.length + c.length < a.length
  | _ => true

-- Merges until lengths fall steeply.
def settle : (fuel : Nat) → Pending α → Pending α
  | 0, p => p
  | fuel + 1, p =>
    match p.runs with
    | c :: b :: _ =>
      if !isSteep p.runs then settle fuel (p.mergeShort less)
      else if b.length ≤ c.length then settle fuel (p.mergeLast less)
      else p
    | _ => p

def push (p : Pending α) (run : List α) : Pending α :=
  let p := { p with runs := run :: p.runs }
  settle less p.runs.length p

def mergeAll : (fuel : Nat) → Pending α → Pending α
  | 0, p => p
  | fuel + 1, p => if p.runs.length ≤ 1 then p else mergeAll fuel (p.mergeShort less)

end Pending

def collect (least : Nat) : (fuel : Nat) → Pending α → List α → Pending α
  | 0, p, _ => p
  | _, p, [] => p
  | fuel + 1, p, xs =>
    let (run, rest) := nextRun less least xs
    collect least fuel (p.push less run) rest

-- A merge sort over the runs that a list already has. Under an order it sorts, and equal elements
-- keep their places. Where some elements compare with none, what comes out depends on which pairs
-- are compared, so every comparison has its place here: runs are lengthened by binary insertion,
-- and merged as soon as their lengths call for it, one element at a time until one run wins so
-- often that its next elements are counted by leaps.
def sort (xs : List α) : List α :=
  let p := collect less (leastRun xs.length) xs.length {} xs
  (p.mergeAll less p.runs.length).runs.flatten

end LayeredDiagram.RunSort
