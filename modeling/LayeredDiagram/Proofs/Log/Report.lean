import LayeredDiagram.Log.Report

namespace LayeredDiagram.Log.Report

variable {α β ε : Type} {x : Except ε α} {toFault : ε → Fault} {a : α}

@[simp]
theorem outcome_bind (r : Report α) (f : α → Report β) :
    (r >>= f).outcome = r.outcome >>= fun a => (f a).outcome := by
  obtain ⟨events, _ | _⟩ := r <;> rfl

theorem outcome_bind_of_ok {r : Report α} {f : α → Report β} (h : r.outcome = .ok a) :
    (r >>= f).outcome = (f a).outcome := by
  rw [outcome_bind, h]
  rfl

theorem outcome_bind_of_error {r : Report α} {f : α → Report β} {e : Fault}
    (h : r.outcome = .error e) : (r >>= f).outcome = .error e := by
  rw [outcome_bind, h]
  rfl

@[simp]
theorem outcome_pure : (pure a : Report α).outcome = pure a :=
  rfl

@[simp]
theorem outcome_say (event : Event) : (say event).outcome = pure () :=
  rfl

@[simp]
theorem outcome_fail (f : Fault) : (fail f : Report α).outcome = .error f :=
  rfl

@[simp]
theorem outcome_ofExcept : (ofExcept toFault x).outcome = x.mapError toFault := by
  cases x <;> rfl

-- All that is reported is of one kind.
def Says (P : Event → Prop) (r : Report α) : Prop :=
  ∀ event ∈ r.events, P event

variable {P : Event → Prop} {r : Report α} {f : α → Report β} {event : Event}

theorem says_pure : (pure a : Report α).Says P :=
  nofun

theorem says_fail {e : Fault} : (fail e : Report α).Says P :=
  nofun

theorem says_ofExcept : (ofExcept toFault x).Says P := by
  cases x <;> nofun

theorem says_say (h : P event) : (say event).Says P :=
  List.forall_mem_singleton.mpr h

theorem Says.bind (h : r.Says P) (hf : ∀ a, (f a).Says P) : (r >>= f).Says P := by
  obtain ⟨events, _ | a⟩ := r
  case error => exact h
  case ok    => exact fun event he => (List.mem_append.mp he).elim (h event) (hf a event)

end LayeredDiagram.Log.Report
