import LayeredDiagram.Log.Logger

namespace LayeredDiagram.Log

-- A request that is being handled: its identifier, path and method.
structure RequestScope where
  id : String
  path : String
  method : String

inductive Step where
  | threshold (level : Level)
  | pretty (on : Bool)
  | service (name : String)
  | create (name module : String)
  | child (name : String) (parent : Option String) (context : Record Value)
  | log (logger : Option String) (call : Call)
  | currentId
  | elapsed
  | within (id : String) (steps : List Step)
  | handle (scope : RequestScope) (steps : List Step)
  -- A call into another part: how it failed, if it did, and what it reported.
  | report (failure : Option Fault) (events : List Event)

instance : Inhabited Step := ⟨.currentId⟩

inductive Answer where
  | lines (lines : List Line)
  | currentId (id : Option String)
  | elapsed (ms : Float)
  | entered
  | handling (scope : RequestScope) (start : Float)
  | left
  | failed (f : Fault)

namespace Answer

def ofLine : Except Fault (Option Line) → Answer
  | .ok line => .lines line.toList
  | .error f => .failed f

def failure? : Answer → Option Fault
  | failed f => some f
  | _ => none

end Answer

structure Session where
  journal : Journal
  loggers : Record Logger := []

namespace Session

-- The root logger goes without a name.
def logger (s : Session) (name : Option String) : Logger :=
  ((name.bind s.loggers.get?).getD {})

def addLogger (s : Session) (name : String) (l : Logger) : Session :=
  { s with loggers := s.loggers.put name l }

mutual

-- Settings change, loggers are made and used, and blocks bind an identifier for what runs inside
-- them. Each step is answered by itself: where one fails, the next one is taken all the same.
def runStep (ambient : Option String) (s : Session) : Step → Session × List Answer
  | .threshold level => ({ s with journal := { s.journal with threshold := level } }, [.lines []])
  | .pretty on => ({ s with journal := { s.journal with pretty := on } }, [.lines []])
  | .service name => ({ s with journal := { s.journal with service := name } }, [.lines []])
  | .create name module => (s.addLogger name (.forModule module), [.lines []])
  | .child name parent context =>
    (s.addLogger name ((s.logger parent).child context), [.lines []])
  | .log name call =>
    (s, [.ofLine (s.journal.line? ambient (s.logger name) call)])
  | .currentId => (s, [.currentId ambient])
  | .elapsed => (s, [.elapsed s.journal.elapsed])
  | .within id steps =>
    let (s, answers) := runSteps (some id) s steps
    (s, .entered :: answers ++ [.left])
  | .handle scope steps =>
    let (s, answers) := runSteps (some scope.id) s steps
    (s, .handling scope 0 :: answers ++ [.left])
  | .report failure events =>
    (s, (failure.map .failed).toList ++ [.lines (s.journal.lines ambient events)])

def runSteps (ambient : Option String) (s : Session) : List Step → Session × List Answer
  | [] => (s, [])
  | step :: steps =>
    let (s, first) := runStep ambient s step
    let (s, rest) := runSteps ambient s steps
    (s, first ++ rest)

end

end Session

end LayeredDiagram.Log
