namespace LayeredDiagram.Log

-- How important a line is.
inductive Level where
  | debug
  | info
  | warn
  | error
deriving DecidableEq, Repr

namespace Level

def all : List Level := [debug, info, warn, error]

def name : Level → String
  | debug => "debug"
  | info => "info"
  | warn => "warn"
  | error => "error"

def rank : Level → Nat
  | debug => 0
  | info => 1
  | warn => 2
  | error => 3

def ofName? (name : String) : Option Level :=
  all.find? (·.name == name)

end Level

end LayeredDiagram.Log
