import LayeredDiagram.Figure.Generator
import LayeredDiagram.Proofs.Drawing.Elements
import LayeredDiagram.Proofs.Log.Report
import LayeredDiagram.Proofs.Spec.Outcome

namespace LayeredDiagram

namespace Plan

theorem distinct_of_ofSpec {p : Plan} {defaultKind text : List Char}
    (h : Plan.ofSpec defaultKind text = .ok p) : p.ids.Nodup := by
  cases outcome_of_ofSpec h with
  | plan _ _ _ distinct => exact distinct

end Plan

namespace Generator

variable {g : Generator} {spec : String} {p : Plan}

-- The outcome of a document. There is no case for a repeated identifier, for a layer of a node that
-- is not declared, or for an edge whose nodes have not been placed.
inductive Outcome (g : Generator) (spec : String) : Except Fault String → Prop where
  | refused {e : SpecError} (h : Plan.ofSpec g.defaultKind.toList spec.toList = .error e) :
    Outcome g spec (.error (.ofSpec e))
  | undeclared {p : Plan} {id : String} {e : Edge}
    (h : Plan.ofSpec g.defaultKind.toList spec.toList = .ok p) (he : p.FirstUndeclared id e) :
    Outcome g spec (.error (.layout (.unknownNode id e)))
  | notSettled {p : Plan} {x : Float}
    (h : Plan.ofSpec g.defaultKind.toList spec.toList = .ok p) (valid : p.Valid)
    (cap : g.cap = some x) (below : Number.LessThan x (p.nodes.length * p.nodes.length)) :
    Outcome g spec (.error (.layout (.notSettled x)))
  | drawn {p : Plan} {l : Layout Float} {svg : String}
    (h : Plan.ofSpec g.defaultKind.toList spec.toList = .ok p) (valid : p.Valid)
    (layout : g.layout p = .ok l) (nodes : (l.nodes.map (·.toNode)).Perm p.nodes)
    (edges : l.edges = p.edges) (drawing : g.render l p.title = .ok svg) :
    Outcome g spec (.ok svg)

theorem outcome_parse : (g.parse spec).outcome =
    (Plan.ofSpec g.defaultKind.toList spec.toList).mapError .ofSpec := by
  simp [parse]

theorem outcome_generate : (g.generate spec).outcome =
    (Plan.ofSpec g.defaultKind.toList spec.toList).mapError .ofSpec >>= fun p =>
      (g.draw p).outcome := by
  simp [generate, outcome_parse]

theorem outcome_draw : (g.draw p).outcome =
    (g.layout p).mapError .layout >>= fun l => (g.render l p.title).mapError .render := by
  simp [draw]

theorem outcome_generate_of_error {e : SpecError}
    (h : Plan.ofSpec g.defaultKind.toList spec.toList = .error e) :
    (g.generate spec).outcome = .error (.ofSpec e) := by
  rw [outcome_generate, h]
  rfl

theorem outcome_generate_of_ok (h : Plan.ofSpec g.defaultKind.toList spec.toList = .ok p) :
    (g.generate spec).outcome = (g.draw p).outcome := by
  rw [outcome_generate, h]
  rfl

theorem outcome_draw_of_error {e : LayoutError} (h : g.layout p = .error e) :
    (g.draw p).outcome = .error (.layout e) := by
  rw [outcome_draw, h]
  rfl

theorem outcome_draw_of_ok {l : Layout Float} {svg : String} (h : g.layout p = .ok l)
    (hs : g.render l p.title = .ok svg) : (g.draw p).outcome = .ok svg := by
  rw [outcome_draw, h]
  change (g.render l p.title).mapError Fault.render = _
  rw [hs]
  rfl

-- The edges of a layout join nodes that have been placed, so every layout has a drawing.
theorem exists_render {l : Layout Float} (h : g.layout p = .ok l) :
    ∃ svg, g.render l p.title = .ok svg := by
  have hlaid : p.Laid g.options (g.layout p) := p.laid_layout g.options
  rw [h] at hlaid
  exact l.render_of_joined hlaid.joined (g.styles.getD []) p.title

theorem outcome_of_generate (g : Generator) (spec : String) :
    g.Outcome spec (g.generate spec).outcome := by
  cases h : Plan.ofSpec g.defaultKind.toList spec.toList with
  | error e =>
    rw [outcome_generate_of_error h]
    exact .refused h
  | ok p =>
    rw [outcome_generate_of_ok h]
    have hlaid : p.Laid g.options (g.layout p) := p.laid_layout g.options
    cases hl : g.layout p with
    | error e =>
      rw [outcome_draw_of_error hl]
      rw [hl] at hlaid
      cases hlaid with
      | repeated hr               => exact absurd (Plan.distinct_of_ofSpec h) hr.not_nodup
      | undeclared _ he           => exact .undeclared h he
      | notSettled valid cap below => exact .notSettled h valid cap below
    | ok l =>
      rw [hl] at hlaid
      have ⟨svg, hs⟩ := exists_render hl
      rw [outcome_draw_of_ok hl hs]
      cases hlaid with
      | placed valid _ _ nodes edges => exact .drawn h valid hl nodes edges hs

theorem exists_drawing (hp : Plan.ofSpec g.defaultKind.toList spec.toList = .ok p) (hv : p.Valid)
    (hc : ∀ x, g.cap = some x → ¬Number.LessThan x (p.nodes.length * p.nodes.length)) :
    ∃ svg, (g.generate spec).outcome = .ok svg := by
  have h := outcome_of_generate g spec
  generalize (g.generate spec).outcome = r at h ⊢
  cases h with
  | refused h =>
    rw [hp] at h
    nomatch h
  | undeclared h he =>
    obtain rfl := Except.ok.inj (hp.symm.trans h)
    exact absurd hv he.not_valid
  | notSettled h _ cap below =>
    obtain rfl := Except.ok.inj (hp.symm.trans h)
    exact absurd below (hc _ cap)
  | drawn => exact ⟨_, rfl⟩

-- The outcome of a figure, for every document and every generator. A fault of the document and an
-- edge that names an undeclared node are reported whenever there is one. Without either there is a
-- drawing, unless a cap is below the square of the number of nodes.
theorem generate_outcome (g : Generator) (spec : String) :
    g.Outcome spec (g.generate spec).outcome ∧
    (∀ message line, (g.generate spec).outcome = .error (.spec message line) ↔
      ∃ e, Plan.ofSpec g.defaultKind.toList spec.toList = .error e ∧
        Fault.ofSpec e = .spec message line) ∧
    (∀ id e, (g.generate spec).outcome = .error (.layout (.unknownNode id e)) ↔
      ∃ p, Plan.ofSpec g.defaultKind.toList spec.toList = .ok p ∧ p.FirstUndeclared id e) ∧
    ∀ p, Plan.ofSpec g.defaultKind.toList spec.toList = .ok p → p.Valid →
      (∀ x, g.cap = some x → ¬Number.LessThan x (p.nodes.length * p.nodes.length)) →
      ∃ svg, (g.generate spec).outcome = .ok svg := by
  have h := outcome_of_generate g spec
  refine ⟨h, fun message line => ⟨fun he => ?_, fun ⟨e, he, hf⟩ => ?_⟩,
    fun id e => ⟨fun he => ?_, fun ⟨p, hp, hu⟩ => ?_⟩, fun p hp hv hc => ?_⟩
  case refine_1 =>
    rw [he] at h
    cases h with
    | refused h => exact ⟨_, h, rfl⟩
  case refine_2 => rw [outcome_generate_of_error he, hf]
  case refine_3 =>
    rw [he] at h
    cases h with
    | undeclared h he => exact ⟨_, h, he⟩
  case refine_4 =>
    have hg := Graph.ofPlan_of_firstUndeclared (Plan.distinct_of_ofSpec hp) hu
    rw [outcome_generate_of_ok hp, outcome_draw_of_error (Plan.layout_of_ofPlan_eq_error hg)]
  case refine_5 => exact exists_drawing hp hv hc

end Generator

end LayeredDiagram
