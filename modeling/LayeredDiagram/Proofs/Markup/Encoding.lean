import LayeredDiagram.Proofs.Markup.Escape

namespace LayeredDiagram.Markup

variable {c : Char} {cs ds rest : List Char}

-- Entities give way to what they stand for, from left to right. All else stays.
def restore : List Char → List Char
  | [] => []
  | c :: cs =>
    match entityAt? (c :: cs) with
    | some (name, d) => d :: restore (cs.drop (name.length - 1))
    | none => c :: restore cs
termination_by cs => cs.length

-- What can be read back at all is what remains of it.
theorem restore_of_unescape? (h : unescape? cs = some ds) : restore cs = ds := by
  fun_induction unescape? cs generalizing ds with
  | case1 =>
    cases h
    rw [restore]
  | case2 c cs name d ha hi =>
    obtain ⟨ds, hd, rfl⟩ := Option.map_eq_some_iff.mp h
    rw [restore, ha]
    exact congrArg (d :: ·) (hi hd)
  | case3 => exact absurd h (Option.some_ne_none _).symm
  | case4 c cs ha hc hi =>
    obtain ⟨ds, hd, rfl⟩ := Option.map_eq_some_iff.mp h
    rw [restore, ha]
    exact congrArg (c :: ·) (hi hd)

theorem restore_escape : restore (escape cs) = cs :=
  restore_of_unescape? unescape?_escape

theorem escape_inj (h : escape cs = escape ds) : cs = ds := by
  have hr : restore (escape cs) = ds := by rw [h, restore_escape]
  rwa [restore_escape] at hr

-- A character is replaced by the entity that stands for it, if there is one.
theorem escape_singleton (c : Char) :
    escape [c] = ((entities.find? (·.2 = c)).map (·.1)).getD [c] := by
  rw [escape_cons, escape, List.flatMap_nil, List.append_nil]
  by_cases hc : IsMark c
  case pos => obtain rfl | rfl | rfl | rfl | rfl := hc <;> decide
  case neg =>
    have hmarks : ∀ e ∈ entities, IsMark e.2 := by decide
    have hnone : entities.find? (·.2 = c) = none := List.find?_eq_none.mpr fun e he h =>
      hc (of_decide_eq_true h ▸ hmarks e he)
    rw [entity_of_not_isMark hc, hnone]
    rfl

-- The only marks that an escaped text holds are the ampersands with which its entities begin.
theorem exists_of_suffix_escape (hc : IsMark c) (h : c :: rest <:+ escape cs) :
    c = '&' ∧ ∃ e ∈ entities, e.1 <+: c :: rest := by
  obtain ⟨front, he⟩ := h
  exact exists_of_escape_eq he.symm hc

theorem eq_ampersand_of_mem_escape (hc : IsMark c) (h : c ∈ escape cs) : c = '&' := by
  obtain ⟨front, rest, he⟩ := List.append_of_mem h
  exact (exists_of_escape_eq he hc).left

-- Replacing the five marks one after another is replacing each for itself, and can be undone.
theorem escape_encodes (cs : List Char) :
    replaceEach entities cs = escape cs ∧
    (∀ c, escape [c] = ((entities.find? (·.2 = c)).map (·.1)).getD [c]) ∧
    (∀ ds, escape (cs ++ ds) = escape cs ++ escape ds) ∧
    (∀ c ∈ escape cs, c ≠ '<' ∧ c ≠ '>' ∧ c ≠ '"' ∧ c ≠ '\'') ∧
    (∀ rest, '&' :: rest <:+ escape cs → ∃ e ∈ entities, e.1 <+: '&' :: rest) ∧
    restore (escape cs) = cs ∧
    ∀ ds, escape ds = escape cs → ds = cs := by
  refine ⟨replaceEach_entities, escape_singleton, fun _ => escape_append, fun c hc => ?marks,
    fun rest hr => ?entities, restore_escape, fun _ => escape_inj⟩
  case marks =>
    have hmark (hd : c ≠ '&') : ¬IsMark c := fun hm => hd (eq_ampersand_of_mem_escape hm hc)
    refine ⟨?_, ?_, ?_, ?_⟩ <;> rintro rfl <;> exact hmark (by decide) (by decide)
  case entities => exact (exists_of_suffix_escape (.inl rfl) hr).right

-- An entity that the text already holds is encoded once more.
theorem escape_encodes_entity : escape "&lt;\"".toList = "&amp;lt;&quot;".toList ∧
    '&' ∈ escape "&lt;\"".toList ∧ ('&' ≠ '<' ∧ '&' ≠ '>' ∧ '&' ≠ '"' ∧ '&' ≠ '\'') ∧
    "&quot;".toList <:+ escape "&lt;\"".toList ∧ (∃ e ∈ entities, e.1 <+: "&quot;".toList) ∧
    restore "&amp;lt;&quot;".toList = "&lt;\"".toList ∧
    escape "<\"".toList ≠ escape "&lt;\"".toList := by
  have ⟨_, _, _, hmarks, hentities, hrestore, hinj⟩ := escape_encodes "&lt;\"".toList
  have he : escape "&lt;\"".toList = "&amp;lt;&quot;".toList := by decide
  have hmem : '&' ∈ escape "&lt;\"".toList := by decide
  have hend : '&' :: "quot;".toList <:+ escape "&lt;\"".toList := ⟨"&amp;lt;".toList, by decide⟩
  exact ⟨he, hmem, hmarks _ hmem, hend, hentities _ hend, he ▸ hrestore,
    fun h => absurd (hinj _ h) (by decide)⟩

end LayeredDiagram.Markup
