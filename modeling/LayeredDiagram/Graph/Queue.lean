namespace LayeredDiagram

-- What leaves next stands in front, what came last stands first behind.
structure Queue (α : Type) where
  front : List α := []
  back : List α := []

namespace Queue

variable {α : Type}

def toList (q : Queue α) : List α :=
  q.front ++ q.back.reverse

def push (q : Queue α) (a : α) : Queue α :=
  { q with back := a :: q.back }

def pop? (q : Queue α) : Option (α × Queue α) :=
  match q.front with
  | a :: front => some (a, { q with front })
  | [] =>
    match q.back.reverse with
    | a :: front => some (a, ⟨front, []⟩)
    | [] => none

def ofList (as : List α) : Queue α :=
  ⟨as, []⟩

end Queue

end LayeredDiagram
