import LayeredDiagram.Log.Session
import LayeredDiagram.Service.Basic

namespace LayeredDiagram.Service

-- What generated identifiers end with.
structure Token where
  text : String
  length_eq : text.toList.length = 12
  isName : text.toList.all Text.isName

def Token.requestId (t : Token) : String :=
  "req-" ++ t.text

-- A request, what surrounds it, and what happens to the log before it comes.
structure Visit where
  request : Request
  settings : Settings := {}
  token : Token
  elapsed : Float := 0
  before : List Log.Step := []

namespace Visit

def exchange (v : Visit) : Exchange :=
  respond
    { settings := v.settings, generatedId := v.token.requestId, elapsed := v.elapsed } v.request

def scope (v : Visit) : Log.RequestScope :=
  { id := v.exchange.id, path := v.request.path, method := v.request.method }

-- Each request is handled in a scope of its own, so that what is reported on the way goes to the
-- log under its identifier. Between requests anything may happen to the log.
def steps (v : Visit) : List Log.Step :=
  v.before ++ [.handle v.scope [.report none v.exchange.events]]

end Visit

def serve (ambient : Option String) (s : Log.Session) (visits : List Visit) :
    Log.Session × List Log.Answer :=
  s.runSteps ambient (visits.flatMap Visit.steps)

end LayeredDiagram.Service
