import LayeredDiagram.Drawing.Shapes
import LayeredDiagram.Layout.Error
import LayeredDiagram.Spec.Error

namespace LayeredDiagram

-- Everything that can go wrong, as callers and logs see it.
inductive Fault where
  | spec (message : String) (line : Option Float)
  | layout (e : LayoutError)
  | render (e : RenderError)
  | validation (message : String) (details : Option Json)
  | configuration (message : String)
  -- A failure outside the figure itself, under its own name.
  | foreign (name message : String)

namespace Fault

def ofSpec (e : SpecError) : Fault :=
  spec e.message (e.line.map Float.ofNat)

def name : Fault → String
  | spec .. => "FigureParseError"
  | layout (.failed _) => "LayoutError"
  | layout (.unknownNode ..) => "UnknownNodeReferenceError"
  | layout (.duplicateNode _) => "DuplicateNodeError"
  | layout (.notSettled _) => "LayoutDidNotConvergeError"
  | render _ => "RenderError"
  | validation .. => "ValidationError"
  | configuration _ => "ConfigurationError"
  | foreign name _ => name

def message : Fault → String
  | spec message _ => message
  | layout e => e.message
  | render e => e.message
  | validation message _ => message
  | configuration message => message
  | foreign _ message => message

-- What a fault carries besides its message, in the order in which it is listed.
def fields (f : Fault) : Record Json :=
  match f with
  | spec _ line =>
    Json.optional "line" (line.map .num) ++ [("code", .str "PARSE_ERROR"), ("name", .str f.name)]
  | layout e =>
    [("code", .str e.code), ("name", .str f.name)] ++
      match e with
      | .failed _ => []
      | .unknownNode id edge => [("nodeId", .str id), ("edge", edge.toJson)]
      | .duplicateNode id => [("nodeId", .str id)]
      | .notSettled cap => [("maxIterations", .num cap)]
  | render _ => [("code", .str "RENDER_FAILED"), ("name", .str f.name)]
  | validation _ details =>
    Json.optional "details" details ++
      [("code", .str "VALIDATION_ERROR"), ("status", .num 400), ("name", .str f.name)]
  | configuration _ => [("name", .str f.name)]
  | foreign .. => []

end Fault

end LayeredDiagram
