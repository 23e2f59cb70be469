import LayeredDiagram.Text.Blank
import LayeredDiagram.Text.Units

namespace LayeredDiagram.Drawing

open Text

-- Finished lines and the words of the current one, both in reverse, with the units of the current
-- line: its words joined by single blanks.
structure Wrapping where
  lines : List (List (List Char)) := []
  current : List (List Char) := []
  width : Nat := 0

namespace Wrapping

-- The units of the current line with one more word.
def widthWith (w : Wrapping) (word : List Char) : Nat :=
  if w.current.isEmpty then units word else w.width + 1 + units word

-- Words fill a line while it stays within the budget. A word that is too long for any line has one
-- of its own.
def add (fits : Nat → Bool) (w : Wrapping) (word : List Char) : Wrapping :=
  let width := w.widthWith word
  if fits width then { w with current := word :: w.current, width }
  else match w.current with
    | [] => { w with lines := [word] :: w.lines }
    | current => ⟨current :: w.lines, [word], units word⟩

def finish (w : Wrapping) : List (List (List Char)) :=
  let lines := match w.current with
    | [] => w.lines
    | current => current :: w.lines
  (lines.map List.reverse).reverse

end Wrapping

-- Lines of words; `fits` says which lengths are within the budget.
def wrapWords (fits : Nat → Bool) (words : List (List Char)) : List (List (List Char)) :=
  (words.foldl (Wrapping.add fits) {}).finish

def joinWords (words : List (List Char)) : List Char :=
  [' '].intercalate words

-- A label without words is one empty line.
def wrap (fits : Nat → Bool) (label : List Char) : List (List Char) :=
  match words label with
  | [] => [[]]
  | ws => (wrapWords fits ws).map joinWords

def labelBudget : Nat := 22

def wrapLabel (label : List Char) : List (List Char) :=
  wrap (· ≤ labelBudget) label

end LayeredDiagram.Drawing
