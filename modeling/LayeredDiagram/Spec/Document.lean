import LayeredDiagram.Spec.Entry
import LayeredDiagram.Spec.Section
import Std.Data.HashSet

namespace LayeredDiagram

namespace Spec

open Text

-- The lines of a section that say something: trimmed, neither blank nor comments.
def entries (lines : List Line) : List Line :=
  (lines.map fun l => { l with text := trim l.text }).filter fun l =>
    match l.text with
    | [] => false
    | c :: _ => c != '#'

def atLine (line : Nat) (e : SpecError) : SpecError :=
  match e.line with
  | some _ => e
  | none => { e with line := some line }

def readEntry {α : Type} (read : List Char → Except SpecError α) (l : Line) :
    Except SpecError (α × Nat) :=
  match read l.text with
  | .ok a => .ok (a, l.number)
  | .error e => .error (atLine l.number e)

def readEntries {α : Type} (read : List Char → Except SpecError α) (lines : List Line) :
    Except SpecError (List (α × Nat)) :=
  (entries lines).mapM (readEntry read)

-- The first entry whose key an earlier one has.
def firstRepeat? (keys : List (String × Nat)) : Option (String × Nat) :=
  go {} keys
where
  go (seen : Std.HashSet String) : List (String × Nat) → Option (String × Nat)
    | [] => none
    | (key, line) :: rest =>
      if seen.contains key then some (key, line) else go (seen.insert key) rest

def requireDistinct (nodes : List (Node × Nat)) : Except SpecError Unit :=
  match firstRepeat? (nodes.map fun (n, line) => (n.id, line)) with
  | some (id, line) => .error ⟨.repeatedNode id, some line⟩
  | none => .ok ()

def requireNodes (sections : Sections) : Except SpecError (List Line) :=
  match sections.get? "nodes" with
  | some lines => if (joined? lines).isSome then .ok lines else .error ⟨.noNodes, none⟩
  | none => .error ⟨.noNodes, none⟩

def title? (sections : Sections) : Option String :=
  ((sections.get? "title").bind joined?).map String.ofList

-- The body describes the figure where no section does.
def description? (sections : Sections) : Option String :=
  (((sections.get? "description").or (sections.get? "body")).bind joined?).map String.ofList

end Spec

open Spec in
-- Nodes are read before edges, and both before identifiers are compared, so the first fault of that
-- order is the one reported.
def Plan.ofSpec (defaultKind text : List Char) : Except SpecError Plan := do
  let sections := sections text
  let nodeLines ← requireNodes sections
  let nodes ← readEntries (Node.ofLine defaultKind) nodeLines
  let edges ← readEntries Edge.ofLine ((sections.get? "edges").getD [])
  requireDistinct nodes
  return {
    nodes := nodes.map (·.1)
    edges := edges.map (·.1)
    title := title? sections
    description := description? sections }

end LayeredDiagram
