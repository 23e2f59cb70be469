import LayeredDiagram.Log.Session
import LayeredDiagram.Proofs.Log.Entry

namespace LayeredDiagram.Log

variable {j : Journal} {e : Event} {events : List Event} {id : String}
  {line : Line}

-- The line names `id`.
def Journal.Carries (j : Journal) (id : String) (line : Line) : Prop :=
  ∃ entry, line = j.write entry ∧ entry.get? "correlationId" = some (.str id)

-- What is reported leaves it to its surroundings to say what it belongs to.
def Event.IsUnbound (e : Event) : Prop :=
  e.fields.get? "correlationId" = none

-- A line carries the identifier that surrounds it, as long as neither its logger nor the call
-- itself brings another one.
theorem carries_of_mem_lines (he : ∀ e ∈ events, e.IsUnbound) (hid : id ≠ "")
    (h : line ∈ j.lines (some id) events) : j.Carries id line := by
  obtain ⟨e, hm, hl⟩ := List.mem_filterMap.mp h
  obtain ⟨metadata, hc, hline⟩ :=
    j.line?_of_hasText (some id) (.forModule e.module) e.hasText_call
  rw [hline] at hl
  split at hl
  case isTrue  =>
    refine ⟨_, (Option.some.inj hl).symm, ?_⟩
    rw [Journal.get?_correlationId_entry Logger.identifies_forModule hc (he e hm),
      Logger.boundId?_forModule]
    simp [Option.filter, hid]
  case isFalse => nomatch hl

namespace Session

variable {ambient : Option String} {s : Session} {steps steps' : List Step}

theorem runSteps_append : s.runSteps ambient (steps ++ steps') =
    let (t, answers) := s.runSteps ambient steps
    let (u, answers') := t.runSteps ambient steps'
    (u, answers ++ answers') := by
  induction steps generalizing s with
  | nil => simp [runSteps]
  | cons step steps hi => simp [runSteps, hi]

end Session

end LayeredDiagram.Log
