import LayeredDiagram.Figure.Plan
import LayeredDiagram.Spec.Error
import LayeredDiagram.Text.Blank

namespace LayeredDiagram.Spec

open Text

def afterBullet? : List Char → Option (List Char)
  | '-' :: cs => some cs
  | '*' :: cs => some cs
  | _ => none

-- An identifier with blanks around it.
def identifier? (cs : List Char) : Option String :=
  let id := trim cs
  if isIdentifier id then some (String.ofList id) else none

-- A bullet in front of an identifier.
def bulleted? (cs : List Char) : Option String :=
  (afterBullet? cs).bind identifier?

-- What stands before the first `c` and what stands after it.
def cutAt? (c : Char) (cs : List Char) : Option (List Char × List Char) :=
  match cs.dropWhile (· != c) with
  | _ :: after => some (cs.takeWhile (· != c), after)
  | [] => none

end Spec

namespace Node

open Text Spec

-- Bars part the line, so neither label nor type holds one; neither may be left out between bars.
def ofLine? (defaultKind line : List Char) : Option Node :=
  match line.splitOn '|' with
  | [head, label] =>
    if label.isEmpty then none
    else (bulleted? head).map fun id =>
      { id, label := String.ofList (trim label), kind := String.ofList (trim defaultKind) }
  | [head, label, kind] =>
    if label.isEmpty || kind.isEmpty then none
    else (bulleted? head).map fun id =>
      { id, label := String.ofList (trim label), kind := String.ofList (trim kind) }
  | _ => none

-- A node is `- id | label` or `- id | label | type`. The bullet is a dash or an asterisk.
def ofLine (defaultKind line : List Char) : Except SpecError Node :=
  match ofLine? defaultKind line with
  | some n => .ok n
  | none => .error ⟨.badNode (String.ofList line), none⟩

end Node

namespace Edge

open Text Spec

-- A label lies on one line, once blanks around it are gone, and is dropped if nothing is left.
def labelOf? (cs : List Char) : Option (Option String) :=
  let label := trim cs
  if cs.all isLineEnd || label.any isLineEnd then none
  else if label.isEmpty then some none
  else some (some (String.ofList label))

def endsOf? (before target : List Char) : Option (String × String) :=
  if before.getLast? == some '-' then
    (bulleted? before.dropLast).bind fun source => (identifier? target).map (source, ·)
  else none

-- Identifiers hold no `>`, so the first one belongs to the arrow.
def ofLine? (line : List Char) : Option Edge :=
  (cutAt? '>' line).bind fun (before, after) =>
    match cutAt? '|' after with
    | none => (endsOf? before after).map fun (source, target) => { source, target }
    | some (target, label) =>
      (endsOf? before target).bind fun (source, target) =>
        (labelOf? label).map fun label => { source, target, label }

-- An edge is `- source -> target` or `- source -> target | label`.
def ofLine (line : List Char) : Except SpecError Edge :=
  match ofLine? line with
  | some e => .ok e
  | none => .error ⟨.badEdge (String.ofList line), none⟩

end Edge

end LayeredDiagram
