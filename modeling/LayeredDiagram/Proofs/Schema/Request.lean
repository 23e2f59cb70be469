import LayeredDiagram.Proofs.Schema.Plan

namespace LayeredDiagram

namespace Json

-- What a document has under the keys that matter to a drawing.
structure Asks (j : Json) (spec : Option String) (plan canvas styles : Option Json) : Prop where
  spec   : j.get? "spec" = spec.map .str
  plan   : j.get? "plan" = plan
  canvas : j.get? "canvas" = canvas
  styles : j.get? "styles" = styles

variable {j : Json}

theorem Asks.exists_fields {spec : Option String} {plan canvas styles : Option Json}
    (h : j.Asks spec plan canvas styles) (one : spec.isSome ≠ plan.isSome) :
    ∃ fields, j = .obj fields := by
  cases j with
  | obj fields => exact ⟨fields, rfl⟩
  | _          =>
    obtain rfl := Option.map_eq_none_iff.mp h.spec.symm
    obtain rfl := h.plan
    exact absurd rfl one

end Json

namespace Schema

variable {j : Json} {spec : Option String} {given size looks : Option Json}

theorem isSome_keep?_optional {s : Schema} (h : (optional s).Accepts given) :
    ((optional s).keep? given).isSome = given.isSome := by
  cases given with
  | none   => rw [keep?_optional_none]
  | some j => exact h.isSome_keep?

theorem exists_validate_layoutRequest (h : layoutRequest.Accepts (some j)) :
    ∃ given k, j.get? "plan" = some given ∧ plan.Accepts (some given) ∧
      plan.keep? (some given) = some k ∧ (optional canvas).Accepts (j.get? "canvas") ∧
      ∃ kept, layoutRequest.validate (some j) = .ok kept ∧ kept.get? "plan" = some k ∧
        kept.get? "canvas" = (optional canvas).keep? (j.get? "canvas") := by
  have ⟨ha, kept, hk, hf⟩ := exists_keep?_object h (by decide) (by decide)
  simp only [List.forall_mem_cons, List.not_mem_nil, false_implies, implies_true, and_true] at ha hf
  obtain ⟨hplan, hsize⟩ := ha
  obtain ⟨given, hgiven⟩ := exists_of_accepts_object hplan
  rw [hgiven] at hplan hf
  obtain ⟨k, hkeep⟩ := Option.isSome_iff_exists.mp hplan.isSome_keep?
  exact ⟨_, k, hgiven, hplan, hkeep, hsize, kept, validate_of_accepts h hk,
    hf.left.trans hkeep, hf.right⟩

-- The parts of a request for a drawing.
def renderFields : List (String × Schema) := [
  ("spec", optional (text [.atLeast 1, .atMost Limits.spec])),
  ("plan", optional plan),
  ("canvas", optional canvas),
  ("styles", optional styleOverrides)]

theorem accepts_renderFields (h : j.Asks spec given size looks)
    (hs : ∀ s, spec = some s → 1 ≤ s.units ∧ s.units ≤ 200000)
    (hp : (optional plan).Accepts given) (hc : (optional canvas).Accepts size)
    (hl : (optional styleOverrides).Accepts looks) (one : spec.isSome ≠ given.isSome) :
    (object renderFields).Accepts (some j) := by
  have hs : (optional (text [.atLeast 1, .atMost Limits.spec])).Accepts (spec.map .str) := by
    cases spec with
    | none   => exact accepts_optional_none
    | some s => exact accepts_optional_some.mpr (accepts_between_iff.mpr (hs s rfl))
  refine accepts_object_of_forall (h.exists_fields one) ?_
  simp only [renderFields, List.forall_mem_cons, List.not_mem_nil, false_implies, implies_true,
    and_true, h.spec, h.plan, h.canvas, h.styles]
  exact ⟨hs, hp, hc, hl⟩

theorem exists_keep?_renderFields (h : j.Asks spec given size looks)
    (ha : (object renderFields).Accepts (some j)) :
    ∃ kept, (object renderFields).keep? (some j) = some kept ∧
      kept.Asks spec ((optional plan).keep? given) ((optional canvas).keep? size)
        ((optional styleOverrides).keep? looks) := by
  have ⟨_, kept, hk, hf⟩ := exists_keep?_object ha (by decide) (by decide)
  simp only [renderFields, List.forall_mem_cons, List.not_mem_nil, false_implies, implies_true,
    and_true, h.spec, h.plan, h.canvas, h.styles, keep?_optionalText] at hf
  have ⟨hspec, hplan, hcanvas, hstyles⟩ := hf
  exact ⟨kept, hk, hspec, hplan, hcanvas, hstyles⟩

-- A request that has one source, and accepted parts, is accepted.
theorem exists_validate_renderRequest (h : j.Asks spec given size looks)
    (hs : ∀ s, spec = some s → 1 ≤ s.units ∧ s.units ≤ 200000)
    (hp : (optional plan).Accepts given) (hc : (optional canvas).Accepts size)
    (hl : (optional styleOverrides).Accepts looks) (one : spec.isSome ≠ given.isSome) :
    ∃ kept, renderRequest.validate (some j) = .ok kept ∧
      kept.Asks spec ((optional plan).keep? given) ((optional canvas).keep? size)
        ((optional styleOverrides).keep? looks) := by
  have ha := accepts_renderFields h hs hp hc hl one
  have ⟨kept, hk, hasks⟩ := exists_keep?_renderFields h ha
  have hone : hasOneSource kept := by
    simpa [hasOneSource, hasks.spec, hasks.plan, isSome_keep?_optional hp] using one
  have hr : renderRequest.Accepts (some j) := by
    refine accepts_refined_iff.mpr ⟨ha, fun k hkept => ?_⟩
    obtain rfl := Option.some.inj (hk.symm.trans hkept)
    exact hone
  exact ⟨kept, validate_of_accepts hr (keep?_refined.trans hk), hasks⟩

theorem validate_parseRequest {kept : Json} (h : parseRequest.validate (some j) = .ok kept) :
    ∃ spec, j.get? "spec" = some (.str spec) ∧ kept.get? "spec" = some (.str spec) := by
  have ⟨hacc, hf⟩ := fields_of_validate h (by decide) (by decide)
  rw [List.forall_mem_singleton] at hacc hf
  obtain ⟨spec, hspec, _⟩ := accepts_text_iff.mp hacc
  rw [hspec, keep?_text] at hf
  exact ⟨spec, hspec, hf⟩

-- What is kept of a request for a drawing has its text or its plan.
theorem source_of_validate {kept : Json} (h : renderRequest.validate (some j) = .ok kept) :
    (∃ spec, j.get? "spec" = some (.str spec) ∧ kept.get? "spec" = some (.str spec)) ∨
    kept.get? "spec" = none ∧ ∃ given k, j.get? "plan" = some given ∧
      plan.keep? (some given) = some k ∧ kept.get? "plan" = some k := by
  have ⟨hobj, hone⟩ := validate_of_refined h
  have ⟨hacc, hf⟩ := fields_of_validate hobj (by decide) (by decide)
  simp only [List.forall_mem_cons, List.not_mem_nil, false_implies, implies_true, and_true]
    at hacc hf
  cases hspec : j.get? "spec" with
  | some s =>
    rw [hspec, keep?_optional_some] at hf
    rw [hspec, accepts_optional_some] at hacc
    obtain ⟨spec, hs, _⟩ := accepts_text_iff.mp hacc.left
    cases hs
    exact .inl ⟨spec, rfl, hf.left⟩
  | none =>
    rw [hspec, keep?_optional_none] at hf
    cases hplan : j.get? "plan" with
    | none => simp [hasOneSource, hf.left, hf.right.left, hplan] at hone
    | some given =>
      rw [hplan, accepts_optional_some] at hacc
      rw [hplan, keep?_optional_some] at hf
      obtain ⟨k, hkeep⟩ := Option.isSome_iff_exists.mp hacc.right.left.isSome_keep?
      exact .inr ⟨hf.left, given, k, rfl, hkeep, hf.right.left.trans hkeep⟩

end Schema

end LayeredDiagram
