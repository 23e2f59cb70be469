import LayeredDiagram.Proofs.Schema.Request

namespace LayeredDiagram

open Text

namespace Schema

variable {tests : List TextTest} {data : Option Json} {k j : Json} {key : String} {item : Schema}
  {most : Nat}

section Kept

theorem issue?_text_of_keep? (h : (text tests).Accepts data)
    (hk : k.get? key = (text tests).keep? data) :
    ∀ t ∈ tests, t.issue? (k.text key).toList = none := by
  obtain ⟨content, rfl, ht⟩ := accepts_text_iff.mp h
  rwa [Json.text, hk, keep?_text]

theorem issue?_text?_of_keep? (h : (optional (text tests)).Accepts data)
    (hk : k.get? key = (optional (text tests)).keep? data) :
    ∀ content, k.text? key = some content → ∀ t ∈ tests, t.issue? content.toList = none := by
  cases data with
  | none   => simp [Json.text?, hk]
  | some j =>
    obtain ⟨content, hj, ht⟩ := accepts_text_iff.mp (accepts_optional_some.mp h)
    obtain rfl := Option.some.inj hj
    rw [Json.text?, hk, keep?_optional_some, keep?_text]
    rintro _ ⟨⟩
    exact ht

-- Of a list, those items are kept that are kept of its own.
theorem forall_items_of_keep? {α : Type} {ofJson : Json → α} {P : α → Prop}
    (h : (array item most).Accepts data)
    (hP : ∀ j k, item.Accepts (some j) → item.keep? (some j) = some k → P (ofJson k)) :
    let items := ((((array item most).keep? data).map Json.items).getD []).map ofJson
    items.length ≤ most ∧ ∀ a ∈ items, P a := by
  obtain ⟨items, rfl⟩ := exists_of_accepts_array h
  have ⟨hlength, hitems⟩ := accepts_array_iff.mp h
  rw [keep?_array h]
  constructor
  case left =>
    rw [List.length_map]
    exact (List.length_filterMap_le _ _).trans hlength
  case right =>
    intro a ha
    obtain ⟨k, hk, rfl⟩ := List.mem_map.mp ha
    obtain ⟨j, hj, hkeep⟩ := List.mem_filterMap.mp hk
    exact hP j k (hitems j hj) hkeep

end Kept

end Schema

open Schema

variable {j k : Json}

theorem Node.fits_of_keep? (h : Schema.node.Accepts (some j))
    (hk : Schema.node.keep? (some j) = some k) : (Node.ofJson k).Fits := by
  have ⟨ha, hf⟩ := fields_of_keep? h hk (by decide) (by decide)
  simp only [List.forall_mem_cons, List.not_mem_nil, false_implies, implies_true, and_true,
    accepts_withDefault_iff, keep?_withDefault] at ha hf
  have hid := issue?_text_of_keep? ha.left hf.left
  have hlabel := issue?_text_of_keep? ha.right.left hf.right.left
  have hkind := issue?_text_of_keep? ha.right.right.left hf.right.right.left
  simp only [List.forall_mem_cons, List.not_mem_nil, false_implies, implies_true, and_true,
    TextTest.issue?_atLeast, TextTest.issue?_atMost] at hid hlabel hkind
  exact ⟨hid.right.left, hlabel, hkind⟩

theorem Edge.fits_of_keep? (h : Schema.edge.Accepts (some j))
    (hk : Schema.edge.keep? (some j) = some k) : (Edge.ofJson k).Fits := by
  have ⟨ha, hf⟩ := fields_of_keep? h hk (by decide) (by decide)
  simp only [List.forall_mem_cons, List.not_mem_nil, false_implies, implies_true, and_true] at ha hf
  have hsource := issue?_text_of_keep? ha.left hf.left
  have htarget := issue?_text_of_keep? ha.right.left hf.right.left
  have hlabel := issue?_text?_of_keep? ha.right.right hf.right.right
  simp only [List.forall_mem_cons, List.not_mem_nil, false_implies, implies_true, and_true,
    TextTest.issue?_atLeast, TextTest.issue?_atMost] at hsource htarget hlabel
  exact ⟨hsource.right.left, htarget.right.left, hlabel⟩

-- Whatever else a document says, the plan that is kept of it is within all limits.
theorem Plan.fits_of_keep? (h : Schema.plan.Accepts (some j))
    (hk : Schema.plan.keep? (some j) = some k) : (Plan.ofJson k).Fits := by
  have ⟨ha, hf⟩ := fields_of_keep? h hk (by decide) (by decide)
  simp only [List.forall_mem_cons, List.not_mem_nil, false_implies, implies_true, and_true,
    accepts_withDefault_iff, keep?_withDefault] at ha hf
  obtain ⟨hnodes, hedges, htitle, hdescription⟩ := ha
  obtain ⟨knodes, kedges, ktitle, kdescription⟩ := hf
  have ⟨nodeCount, nodes⟩ := forall_items_of_keep? hnodes fun _ _ => Node.fits_of_keep?
  have ⟨edgeCount, edges⟩ := forall_items_of_keep? hedges fun _ _ => Edge.fits_of_keep?
  have title := issue?_text?_of_keep? htitle ktitle
  have description := issue?_text?_of_keep? hdescription kdescription
  rw [← knodes] at nodeCount nodes
  rw [← kedges] at edgeCount edges
  simp only [List.forall_mem_singleton, TextTest.issue?_atMost] at title description
  exact { nodeCount, edgeCount, nodes, edges, title, description }

namespace Schema

variable {kept : Json}

theorem units_le_of_validate_parseRequest (h : parseRequest.validate (some j) = .ok kept) :
    (kept.text "spec").units ≤ Limits.spec := by
  have ⟨hacc, hf⟩ := fields_of_validate h (by decide) (by decide)
  rw [List.forall_mem_singleton] at hacc hf
  have ht := issue?_text_of_keep? hacc hf
  simp only [List.forall_mem_cons, List.not_mem_nil, false_implies, implies_true, and_true,
    TextTest.issue?_atMost] at ht
  exact ht.right

-- The text and the plan that are kept of a request for a drawing.
theorem sources_of_validate_renderRequest (h : renderRequest.validate (some j) = .ok kept) :
    (∀ spec, kept.text? "spec" = some spec → spec.units ≤ Limits.spec) ∧
    ∀ k, kept.get? "plan" = some k → (Plan.ofJson k).Fits := by
  obtain ⟨hobj, _⟩ := validate_of_refined h
  obtain ⟨hacc, hf⟩ := fields_of_validate hobj (by decide) (by decide)
  simp only [List.forall_mem_cons, List.not_mem_nil, false_implies, implies_true, and_true]
    at hacc hf
  constructor
  case left =>
    intro spec hspec
    have ht := issue?_text?_of_keep? hacc.left hf.left spec hspec
    simp only [List.forall_mem_cons, List.not_mem_nil, false_implies, implies_true, and_true,
      TextTest.issue?_atMost] at ht
    exact ht.right
  case right =>
    intro k hkeep
    rw [hf.right.left] at hkeep
    cases hplan : j.get? "plan" with
    | none       => simp [hplan] at hkeep
    | some given =>
      rw [hplan, keep?_optional_some] at hkeep
      rw [hplan, accepts_optional_some] at hacc
      exact Plan.fits_of_keep? hacc.right.left hkeep

end Schema

end LayeredDiagram
