import LayeredDiagram.Drawing.Document
import LayeredDiagram.Layout.Engine
import LayeredDiagram.Log.Report
import LayeredDiagram.Settings
import LayeredDiagram.Spec.Document

namespace LayeredDiagram

open Log (Event Report Value)

structure Generator where
  canvasWidth : Float
  canvasHeight : Float
  defaultKind : String
  cap : Option Float := none
  styles : Option (Record StyleOverride) := none

namespace Generator

def ofSettings (s : Settings) : Generator :=
  { canvasWidth := s.canvasWidth
    canvasHeight := s.canvasHeight
    defaultKind := s.defaultKind
    cap := s.cap }

def withCanvas (g : Generator) (c : Option (Canvas Float)) : Generator :=
  match c with
  | some c => { g with canvasWidth := c.width, canvasHeight := c.height }
  | none => g

def withStyles (g : Generator) (styles : Option (Record StyleOverride)) : Generator :=
  match styles with
  | some styles => { g with styles := some styles }
  | none => g

def options (g : Generator) : LayoutOptions :=
  { width := some g.canvasWidth, height := some g.canvasHeight, cap := g.cap }

def parsed (p : Plan) : Event :=
  { module := "parser", level := .debug, message := "Parsed figure spec"
    fields := [("nodes", .nat p.nodes.length), ("edges", .nat p.edges.length)] }

def generated (p : Plan) (svg : String) : Event :=
  { module := "figure", level := .info, message := "Figure generated"
    fields := [("nodes", .nat p.nodes.length), ("edges", .nat p.edges.length),
      ("bytes", .nat svg.units), ("durationMs", .elapsed)] }

def parse (g : Generator) (spec : String) : Report Plan := do
  let p ← Report.ofExcept Fault.ofSpec (Plan.ofSpec g.defaultKind.toList spec.toList)
  Report.say (parsed p)
  return p

def layout (g : Generator) (p : Plan) : Except LayoutError (Layout Float) :=
  p.layout g.options

def render (g : Generator) (l : Layout Float) (title : Option String) :
    Except RenderError String :=
  l.render (g.styles.getD []) title

-- A plan drawn under its own title.
def draw (g : Generator) (p : Plan) : Report String := do
  let l ← Report.ofExcept Fault.layout (g.layout p)
  Report.ofExcept Fault.render (g.render l p.title)

def generate (g : Generator) (spec : String) : Report String := do
  let p ← g.parse spec
  let svg ← g.draw p
  Report.say (generated p svg)
  return svg

end Generator

-- A plan without a layout, as a part of the program reports it.
def LayoutError.warning (e : LayoutError) (module message : String) : Event :=
  { module, level := .warn, message
    fields := [("code", .str e.code), ("error", .fault (.layout e))] }

namespace Plan

def laidOut (l : Layout Float) : Event :=
  { module := "layout", level := .debug, message := "Layered layout completed"
    fields := [("nodes", .nat l.nodes.length), ("edges", .nat l.edges.length),
      ("durationMs", .elapsed)] }

def rejected (e : LayoutError) : Event :=
  e.warning "layout" "Layered layout rejected"

-- A layout whose failure is part of the result.
def tryLayout (p : Plan) (o : LayoutOptions := {}) :
    List Event × Except LayoutError (Layout Float) :=
  match p.layout o with
  | .ok l => ([laidOut l], .ok l)
  | .error e => ([rejected e], .error e)

end Plan

end LayeredDiagram
