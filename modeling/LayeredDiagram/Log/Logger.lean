import LayeredDiagram.Json.Writer
import LayeredDiagram.Log.Event

namespace LayeredDiagram.Log

-- A logger carries context fields, which its children inherit and extend.
structure Logger where
  context : Record Value := []

structure Call where
  level : Level
  message : String
  fields : Record Value := []

-- Where a line goes, by the level that it ends up with.
inductive Channel where
  | log
  | warn
  | error
deriving DecidableEq, Repr

structure Line where
  channel : Channel
  text : String
deriving DecidableEq, Repr

structure Journal where
  threshold : Level := .info
  pretty : Bool := false
  service : String := "figureforge"
  timestamp : String
  elapsed : Float := 0

namespace Logger

def child (l : Logger) (context : Record Value) : Logger :=
  ⟨l.context.merge context⟩

def forModule (name : String) : Logger :=
  child {} [("module", .str name)]

end Logger

namespace Call

-- The lines are those of a log without stacks (LOG_INCLUDE_STACK is false), so a fault is its name
-- and its message.
def spellOut : Value → Except Fault (Record Value)
  | .fault f => .ok [("errorName", .str f.name), ("errorMessage", .str f.message)]
  | .json j => do
    let text ← Value.plain j
    return [("errorValue", .str text)]
  | .elapsed => .ok [("errorValue", .elapsed)]
  | .missing => .ok []

-- The fields that a call adds to its line. What it reports as `error` is spelled out, and the call
-- fails if that cannot be done.
def metadata (c : Call) : Except Fault (Record Value) :=
  match c.fields.get? "error" with
  | none => .ok c.fields
  | some v => do
    let spelled ← spellOut v
    return (c.fields.erase "error").merge spelled

end Call

def Event.call (e : Event) : Call :=
  ⟨e.level, e.message, e.fields⟩

def field (key : String) : Option Value → Record Value
  | some v => if v.isPresent then [(key, v)] else []
  | none => []

-- A logger's own identifier comes before the one of the surrounding block.
def correlation (l : Logger) (ambient : Option String) : Option Value :=
  match l.context.get? "correlationId" with
  | some v => if v.isNull then ambient.map .str else some v
  | none => ambient.map .str

def channelOf (entry : Record Value) : Channel :=
  match entry.get? "level" with
  | some (.json (.str "error")) => .error
  | some (.json (.str "warn")) => .warn
  | _ => .log

namespace Journal

def admits (j : Journal) (level : Level) : Bool :=
  j.threshold.rank ≤ level.rank

-- The time, the level, the message and the service, then the module and the identifier where there
-- are any, then the rest of the context and the fields of the call. A field that is set again keeps
-- its place.
def entry (j : Journal) (ambient : Option String) (l : Logger) (c : Call)
    (metadata : Record Value) : Record Value :=
  let head : Record Value :=
    [("timestamp", .str j.timestamp), ("level", .str c.level.name), ("message", .str c.message),
      ("service", .str j.service)] ++
    field "module" (l.context.get? "module") ++
    field "correlationId" (correlation l ambient)
  (head.merge ((l.context.erase "module").erase "correlationId")).merge metadata

-- The fields of a line. Those that are set to nothing are left out.
def fields (j : Journal) (entry : Record Value) : Record Json :=
  entry.filterMap fun (key, v) => (v.toJson? j.elapsed).map (key, ·)

def write (j : Journal) (entry : Record Value) : Line :=
  let document : Json := .obj (j.fields entry)
  { channel := channelOf entry
    text := if j.pretty then document.pretty else document.compact }

-- A call that is not admitted does not fail, whatever it reports.
def line? (j : Journal) (ambient : Option String) (l : Logger) (c : Call) :
    Except Fault (Option Line) :=
  if j.admits c.level then do
    let metadata ← c.metadata
    return some (j.write (j.entry ambient l c metadata))
  else .ok none

-- Nothing is lost here: the calls of events do not fail.
def lines (j : Journal) (ambient : Option String) (events : List Event) : List Line :=
  events.filterMap fun e => (j.line? ambient (.forModule e.module) e.call).toOption.join

end Journal

end LayeredDiagram.Log
