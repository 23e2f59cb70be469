import LayeredDiagram.Record
import LayeredDiagram.Text.Blank
import LayeredDiagram.Text.LowerCase

namespace LayeredDiagram.Spec

open Text

structure Line where
  text : List Char
  -- Counted from one within the document.
  number : Nat
deriving DecidableEq, Repr

def withoutReturn (line : List Char) : List Char :=
  if line.getLast? == some '\r' then line.dropLast else line

-- Lines end with a line feed, or with a carriage return and a line feed.
def splitLines (cs : List Char) : List (List Char) :=
  let parts := cs.splitOn '\n'
  parts.dropLast.map withoutReturn ++ parts.getLast?.toList

def numberedLines (cs : List Char) : List Line :=
  (splitLines cs).mapIdx fun i text => ⟨text, i + 1⟩

-- `## Name` opens the section of that name, in lower case. `# Heading` opens the title section and
-- makes the heading its only content. What stands before any heading belongs to the body.
inductive Heading where
  | opens (name : String)
  | title (text : List Char)
deriving DecidableEq, Repr

def Heading.ofLine? (line : List Char) : Option Heading :=
  match trim line with
  | '#' :: '#' :: ' ' :: rest => some (.opens (String.ofList (lower (trim rest))))
  | '#' :: ' ' :: rest => some (.title (trim rest))
  | _ => none

abbrev Sections := Record (List Line)

-- The section that the next line goes to, and the sections so far, their lines in reverse.
structure Splitter where
  current : String := "body"
  sections : Sections := [("body", [])]

namespace Splitter

def lines (s : Splitter) (name : String) : List Line :=
  (s.sections.get? name).getD []

def step (s : Splitter) (line : Line) : Splitter :=
  match Heading.ofLine? line.text with
  | some (.opens name) => ⟨name, s.sections.put name (s.lines name)⟩
  | some (.title text) => ⟨"title", s.sections.put "title" [⟨text, line.number⟩]⟩
  | none => { s with sections := s.sections.put s.current (line :: s.lines s.current) }

end Splitter

def sections (cs : List Char) : Sections :=
  let done := (numberedLines cs).foldl Splitter.step {}
  done.sections.map fun (name, lines) => (name, lines.reverse)

-- The lines of a section as one trimmed text, unless nothing is left.
def joined? (lines : List Line) : Option (List Char) :=
  let text := trim (['\n'].intercalate (lines.map (·.text)))
  if text.isEmpty then none else some text

end LayeredDiagram.Spec
