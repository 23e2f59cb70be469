import LayeredDiagram.Figure.Generator
import LayeredDiagram.Json.Reader
import LayeredDiagram.Schema.Request
import LayeredDiagram.Service.Request
import LayeredDiagram.Service.Response

namespace LayeredDiagram.Service

open Log (Event Report)

-- What surrounds the handling of one request.
structure Context where
  settings : Settings := {}
  -- The identifier of a request that brings none of its own.
  generatedId : String
  elapsed : Float := 0

def withoutMark (s : String) : String :=
  match s.toList with
  | '\uFEFF' :: cs => String.ofList cs
  | _ => s

def badJson : Fault :=
  .foreign "SyntaxError" "Invalid JSON"

def readJson (r : Request) : Report Json :=
  match r.body with
  | .none => Report.fail badJson
  | .broken f => Report.fail f
  | .text s =>
    match Json.parse? (withoutMark s) with
    | some j => pure j
    | none => Report.fail badJson

def requireValid (s : Schema) (data : Option Json) : Report Json :=
  match s.validate data with
  | .ok j => pure j
  | .error issues =>
    Report.fail (.validation (Issue.describeAll issues) (some (Issue.allToJson issues)))

def receive (s : Schema) (r : Request) : Report Json := do
  requireValid s (some (← readJson r))

def canvas? (j : Json) : Option (Canvas Float) :=
  (j.get? "canvas").map fun c => ⟨c.number "width", c.number "height"⟩

def health : Report Response :=
  pure (.resource (some (.obj [("status", .str "ok")])))

def parse (c : Context) (r : Request) : Report Response := do
  let request ← receive Schema.parseRequest r
  let p ← (Generator.ofSettings c.settings).parse (request.text "spec")
  return .resource (some p.toJson)

def layoutRefused (e : LayoutError) : Response :=
  .ofDefinition ((ErrorDefinition.ofCode? e.code).getD .layoutFailed) (some e.message)

-- Uses the standard canvas of layouts unless the request has its own.
def layout (c : Context) (r : Request) : Report Response := do
  let request ← receive Schema.layoutRequest r
  let p := Plan.ofJson ((request.get? "plan").getD .null)
  let size := canvas? request
  let (events, outcome) := p.tryLayout
    { width := size.map (·.width), height := size.map (·.height), cap := c.settings.cap }
  let answer := match outcome with
    | .ok l => Response.resource (some l.toJson) (some [("durationMs", .num c.elapsed)])
    | .error e => layoutRefused e
  ⟨events, .ok answer⟩

def rendered (p : Plan) (svg : String) : Event :=
  { module := "web", level := .info, message := "Figure rendered"
    fields := [("nodes", .nat p.nodes.length), ("bytes", .nat svg.units)] }

def generatorFor (c : Context) (request : Json) : Generator :=
  ((Generator.ofSettings c.settings).withCanvas (canvas? request)).withStyles
    ((request.get? "styles").map StyleOverride.recordOfJson)

def planFor (g : Generator) (request : Json) : Report (Option Plan) :=
  match request.text? "spec" with
  | some spec => do return some (← g.parse spec)
  | none => pure ((request.get? "plan").map Plan.ofJson)

def render (c : Context) (r : Request) : Report Response := do
  let request ← receive Schema.renderRequest r
  let g := generatorFor c request
  match ← planFor g request with
  | none => return .validationError Schema.oneSourceWording
  | some p =>
    let svg ← g.draw p
    Report.say (rendered p svg)
    return .svg svg

def notFound (r : Request) : Response :=
  .ofDefinition .notFound (some ("API endpoint not found: " ++ r.method ++ " " ++ r.path))

-- A request for the headers alone is handled like one for everything.
def routeMethod (r : Request) : String :=
  if r.method == "HEAD" then "GET" else r.method

def route (c : Context) (r : Request) : Report Response :=
  match routeMethod r, r.path with
  | "GET", "/api/health" => health
  | "POST", "/api/parse" => parse c r
  | "POST", "/api/layout" => layout c r
  | "POST", "/api/render" => render c r
  | _, _ => pure (notFound r)

def layoutRejected (e : LayoutError) : Event :=
  e.warning "web" "Layout rejected"

def unexpected (r : Request) (f : Fault) : Event :=
  { module := "web", level := .error, message := "API error"
    fields := [("method", .str r.method), ("path", .str r.path), ("error", .fault f)] }

-- In production the message of an unexpected fault stays inside.
def detailsOf (c : Context) (f : Fault) : Option Json :=
  if c.settings.isProduction then none else some (.str f.message)

-- A fault of any handler becomes an error envelope in one place.
def recover (c : Context) (r : Request) (f : Fault) : List Event × Response :=
  match f with
  | .validation message details => ([], .ofDefinition .validation (some message) details)
  | .spec message line =>
    ([], .ofDefinition .parse (some message) (line.map fun x => .obj [("line", .num x)]))
  | .layout e => ([layoutRejected e], layoutRefused e)
  | .foreign "SyntaxError" _ => ([], .ofDefinition .invalidJson)
  | .render e => ([unexpected r f], .ofDefinition .renderFailed (some e.message))
  | f => ([unexpected r f], .ofDefinition .internal none (detailsOf c f))

def handle (c : Context) (r : Request) : List Event × Response :=
  let answer := route c r
  match answer.outcome with
  | .ok response => (answer.events, response)
  | .error f =>
    let (events, response) := recover c r f
    (answer.events ++ events, response)

def tooLarge : Response :=
  .ofDefinition .tooLarge (some ("Request body too large. Max: " ++
    toString (Request.maxBodyBytes / 1024) ++ "KB"))

def limitBody (c : Context) (r : Request) : List Event × Response :=
  if r.isApi && r.hasBody && r.isTooLarge then ([], tooLarge) else handle c r

-- Any origin may call, and may read the two headers that every answer has.
def sharedHeaders : Record String := [
  ("access-control-allow-origin", "*"),
  ("access-control-expose-headers", "X-Request-Id,X-Response-Time")]

def preflight : Response :=
  { status := 204
    headers := [
      ("access-control-allow-methods", "GET,POST,OPTIONS"),
      ("access-control-allow-headers", "Content-Type,X-Request-Id"),
      ("access-control-max-age", "86400"),
      ("vary", "Access-Control-Request-Headers")] }

def shareOrigins (c : Context) (r : Request) : List Event × Response :=
  if r.isApi then
    let (events, response) := if r.method == "OPTIONS" then ([], preflight) else limitBody c r
    (events, response.setHeaders sharedHeaders)
  else limitBody c r

def completed (r : Request) (status : Nat) : Event :=
  { module := "request", level := .debug, message := "Request completed"
    fields := [("method", .str r.method), ("path", .str r.path),
      ("status", .nat status), ("durationMs", .elapsed)] }

def elapsedHeader (elapsed : Float) : String :=
  Number.fixed elapsed ++ "ms"

-- What goes back to the caller: a request for the headers alone gets no body.
def deliver (r : Request) (response : Response) : Response :=
  if r.method == "HEAD" then { response with body := "" } else response

structure Exchange where
  id : String
  events : List Event
  response : Response

-- Every answer carries a request identifier and the time it took.
def respond (c : Context) (r : Request) : Exchange :=
  let id := r.idOr c.generatedId
  let (events, response) := shareOrigins c r
  let response := response.setHeaders
    [("x-request-id", id), ("x-response-time", elapsedHeader c.elapsed)]
  { id, events := events ++ [completed r response.status], response := deliver r response }

end LayeredDiagram.Service
