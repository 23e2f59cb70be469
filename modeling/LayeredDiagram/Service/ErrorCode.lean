import LayeredDiagram.Json.Basic

namespace LayeredDiagram.Service

-- The errors that the service answers with.
structure ErrorDefinition where
  code : String
  status : Nat
  message : String
deriving DecidableEq, Repr

namespace ErrorDefinition

def invalidJson : ErrorDefinition :=
  ⟨"INVALID_JSON", 400, "Invalid JSON in request body"⟩

def validation : ErrorDefinition :=
  ⟨"VALIDATION_ERROR", 400, "Validation failed"⟩

def parse : ErrorDefinition :=
  ⟨"PARSE_ERROR", 400, "Figure specification could not be parsed"⟩

def notFound : ErrorDefinition :=
  ⟨"NOT_FOUND", 404, "Resource not found"⟩

def tooLarge : ErrorDefinition :=
  ⟨"PAYLOAD_TOO_LARGE", 413, "Request body too large"⟩

def unknownNode : ErrorDefinition :=
  ⟨"UNKNOWN_NODE_REFERENCE", 422, "An edge references a node that does not exist"⟩

def duplicateNode : ErrorDefinition :=
  ⟨"DUPLICATE_NODE", 422, "A node identifier is declared more than once"⟩

def notSettled : ErrorDefinition :=
  ⟨"LAYOUT_DID_NOT_CONVERGE", 422, "Layer assignment did not settle"⟩

def internal : ErrorDefinition :=
  ⟨"INTERNAL_ERROR", 500, "Internal server error"⟩

def layoutFailed : ErrorDefinition :=
  ⟨"LAYOUT_FAILED", 500, "Failed to lay out figure"⟩

def renderFailed : ErrorDefinition :=
  ⟨"RENDER_FAILED", 500, "Failed to render figure"⟩

def all : List ErrorDefinition :=
  [invalidJson, validation, parse, notFound, tooLarge, unknownNode, duplicateNode, notSettled,
    internal, layoutFailed, renderFailed]

def ofCode? (code : String) : Option ErrorDefinition :=
  all.find? (·.code == code)

def toJson (e : ErrorDefinition) : Json :=
  .obj [("code", .str e.code), ("status", .ofNat e.status), ("message", .str e.message)]

end ErrorDefinition

end LayeredDiagram.Service
