import LayeredDiagram.Json.Writer
import LayeredDiagram.Service.ErrorCode

namespace LayeredDiagram.Service

-- An envelope around data, an envelope around an error, or a drawing with headers that keep it from
-- running scripts.
structure Response where
  status : Nat
  -- Names in lower case.
  headers : Record String := []
  body : String := ""

namespace Response

def setHeaders (r : Response) (headers : Record String) : Response :=
  { r with headers := r.headers.merge headers }

def json (status : Nat) (j : Json) : Response :=
  { status, headers := [("content-type", "application/json")], body := j.compact }

-- Meta information without fields is left out.
def resource (data : Option Json) (info : Option (Record Json) := none) : Response :=
  json 200 (.obj (Json.optional "data" data ++
    Json.optional "meta" ((info.filter (!·.isEmpty)).map .obj)))

def error (code message : String) (status : Nat := 400) (details : Option Json := none) :
    Response :=
  json status (.obj [("error",
    .obj ([("code", .str code), ("message", .str message)] ++ Json.optional "details" details))])

def validationError (message : String) (details : Option Json := none) : Response :=
  error ErrorDefinition.validation.code message 400 details

def ofDefinition (e : ErrorDefinition) (message : Option String := none)
    (details : Option Json := none) : Response :=
  error e.code (message.getD e.message) e.status details

end Response

-- The headers that go with a drawing, as they are spelled when listed.
def drawingHeaders : Record String := [
  ("X-Content-Type-Options", "nosniff"),
  ("Content-Security-Policy",
    "default-src 'none'; style-src 'unsafe-inline'; img-src 'self' data:; frame-ancestors 'none'"),
  ("X-Frame-Options", "DENY"),
  ("Content-Type", "image/svg+xml")]

def Response.svg (svg : String) : Response :=
  { status := 200
    headers := drawingHeaders.map fun (name, v) => (name.toLower, v)
    body := Text.mended svg }

end LayeredDiagram.Service
