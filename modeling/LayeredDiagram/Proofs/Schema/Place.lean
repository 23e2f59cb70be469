import LayeredDiagram.Proofs.Schema.Acceptance

namespace LayeredDiagram

variable {x : Float} {cs : List Char} {i : Issue}

theorem TextTest.path_of_issue? {t : TextTest} (h : t.issue? cs = some i) : i.path = [] := by
  cases t <;> rw [issue?] at h <;> split at h <;> cases h <;> rfl

theorem NumberTest.path_of_issue? {t : NumberTest} (h : t.issue? x = some i) : i.path = [] := by
  cases t <;> rw [issue?] at h <;> split at h <;> cases h <;> rfl

theorem Issue.place_under {key : String} (h : i.path = []) : (i.under (.key key)).place = key := by
  simp [under, place, h, PathPart.text]

namespace Schema

-- What such a schema accepts has no parts.
def IsFlat : Schema → Prop
  | text _ | number _ | listed _ | numeral .. => True
  | optional inner | withDefault inner _ => inner.IsFlat
  | _ => False

variable {data : Option Json} {given : Record Json} {fields : List (String × Schema)}

theorem path_checkNumber {tests : List NumberTest} (h : i ∈ (checkNumber tests data).issues) :
    i.path = [] := by
  unfold checkNumber at h
  split at h
  case h_1 =>
    split at h
    case isTrue  => rw [List.mem_singleton.mp h]
    case isFalse =>
      obtain ⟨_, _, h⟩ := List.mem_filterMap.mp h
      exact NumberTest.path_of_issue? h
  case h_2 => rw [List.mem_singleton.mp h]

theorem path_eq_nil : ∀ (s : Schema) {data : Option Json}, s.IsFlat → i ∈ (s.check data).issues →
    i.path = []
  | text _, _, _, h => by
    unfold check checkText at h
    split at h
    case h_1 =>
      obtain ⟨_, _, h⟩ := List.mem_filterMap.mp h
      exact TextTest.path_of_issue? h
    case h_2 => rw [List.mem_singleton.mp h]
  | number _, _, _, h => by
    unfold check at h
    exact path_checkNumber h
  | listed _, _, _, h => by
    unfold check checkListed at h
    split at h
    case h_1 =>
      split at h
      case isTrue  => nomatch h
      case isFalse => rw [List.mem_singleton.mp h]
    case h_2 => rw [List.mem_singleton.mp h]
  | numeral _ _ _, _, _, h => by
    unfold check checkNumeral at h
    split at h
    case h_1 => exact path_checkNumber h
    case h_2 => rw [List.mem_singleton.mp h]
  | optional inner, none, _, h => by
    unfold check at h
    nomatch h
  | optional inner, some _, hs, h => by
    unfold check at h
    exact path_eq_nil inner hs h
  | withDefault inner _, _, hs, h => by
    unfold check at h
    exact path_eq_nil inner hs h

-- All fields that are wrong are named, not just the first one.
theorem exists_place_iff {key : String} (hf : ∀ f ∈ fields, f.2.IsFlat) :
    (∃ i ∈ ((object fields).check (some (.obj given))).issues, i.place = key) ↔
      ∃ s, (key, s) ∈ fields ∧ ¬s.Accepts (given.get? key) := by
  simp only [check, gatherFields, checkFields_eq, List.mem_flatMap, List.mem_map]
  constructor
  case mp =>
    rintro ⟨i, ⟨_, ⟨⟨name, s⟩, hs, rfl⟩, hi⟩, rfl⟩
    obtain ⟨i, hc, rfl⟩ := List.mem_map.mp hi
    rw [Issue.place_under (path_eq_nil s (hf _ hs) hc)]
    exact ⟨s, hs, List.ne_nil_of_mem hc⟩
  case mpr =>
    rintro ⟨s, hs, hn⟩
    obtain ⟨i, hi⟩ := List.exists_mem_of_ne_nil _ hn
    exact ⟨_, ⟨_, ⟨_, hs, rfl⟩, List.mem_map_of_mem hi⟩,
      Issue.place_under (path_eq_nil s (hf _ hs) hi)⟩

end Schema

end LayeredDiagram
