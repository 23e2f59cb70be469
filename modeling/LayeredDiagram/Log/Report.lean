import LayeredDiagram.Log.Event

namespace LayeredDiagram.Log

-- A result together with what was reported on the way to it.
structure Report (α : Type) where
  events : List Event := []
  outcome : Except Fault α

namespace Report

variable {α β : Type}

def bind (r : Report α) (f : α → Report β) : Report β :=
  match r.outcome with
  | .ok a =>
    let next := f a
    ⟨r.events ++ next.events, next.outcome⟩
  | .error e => ⟨r.events, .error e⟩

instance : Monad Report where
  pure a := ⟨[], .ok a⟩
  bind := bind

def say (e : Event) : Report Unit :=
  ⟨[e], .ok ()⟩

def fail (f : Fault) : Report α :=
  ⟨[], .error f⟩

def ofExcept {ε : Type} (toFault : ε → Fault) : Except ε α → Report α
  | .ok a => pure a
  | .error e => fail (toFault e)

end Report

end LayeredDiagram.Log
