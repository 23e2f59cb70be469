import LayeredDiagram.CommandLine.Arguments
import LayeredDiagram.CommandLine.FileError
import LayeredDiagram.Figure.Generator
import LayeredDiagram.Schema.Request

namespace LayeredDiagram.CommandLine

open Log (Event)

def usage : String :=
  "Usage: figure <spec> [--out figure.svg] [--width 960] [--height 640]"

-- What the command needs from where it runs.
structure Host (m : Type → Type) where
  read : String → m (Except FileError String)
  write : String → String → m (Except FileError Unit)
  stdout : String → m Unit
  stderr : String → m Unit
  log : Event → m Unit

structure Options where
  spec : String
  out : String
  width : Float
  height : Float

namespace Options

def ofJson (j : Json) : Options :=
  { spec := j.text "spec", out := j.text "out", width := j.number "width",
    height := j.number "height" }

-- The complaint about arguments that are no options.
def ofArgs (args : List String) : Except String Options :=
  match Arguments.ofArgs args with
  | .error e => .error e.message
  | .ok a =>
    match Schema.commandLine.validate (some a.toJson) with
    | .error issues => .error ("Invalid arguments: " ++ Issue.describeAll issues)
    | .ok j => .ok (ofJson j)

def generator (o : Options) (s : Settings) : Generator :=
  (Generator.ofSettings s).withCanvas (some ⟨o.width, o.height⟩)

end Options

def fileFault (e : FileError) : Fault :=
  .foreign e.name e.message

def failed (o : Options) (f : Fault) : Event :=
  { module := "cli", level := .error, message := "Figure generation failed"
    fields := [("spec", .str o.spec), ("out", .str o.out), ("error", .fault f)] }

section

variable {m : Type → Type} [Monad m]

def fail (h : Host m) (o : Options) (f : Fault) : m Nat := do
  h.log (failed o f)
  h.stderr ("Error: " ++ f.message)
  return 1

def save (h : Host m) (o : Options) (svg : String) : m Nat := do
  match ← h.write o.out svg with
  | .error e => fail h o (fileFault e)
  | .ok _ =>
    h.stdout ("Saved SVG to " ++ o.out)
    return 0

def draw (h : Host m) (s : Settings) (o : Options) (spec : String) : m Nat := do
  let report := (o.generator s).generate spec
  report.events.forM h.log
  match report.outcome with
  | .error f => fail h o f
  | .ok svg => save h o svg

-- Reads a document, draws it and saves the drawing. Nothing is written before the drawing is
-- complete. What is returned is the exit code.
def run (h : Host m) (s : Settings) (args : List String) : m Nat := do
  match Options.ofArgs args with
  | .error complaint =>
    h.stderr complaint
    h.stderr usage
    return 1
  | .ok o =>
    match ← h.read o.spec with
    | .error e => fail h o (fileFault e)
    | .ok spec => draw h s o spec

end

end LayeredDiagram.CommandLine
