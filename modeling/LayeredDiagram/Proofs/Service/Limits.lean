import LayeredDiagram.Proofs.Schema.Given
import LayeredDiagram.Proofs.Service.Agreement
import LayeredDiagram.Proofs.Spec.Extent
import LayeredDiagram.Proofs.Spec.RoundTrip

namespace LayeredDiagram

-- What a text of so many units has room for, where this kind stands in for kinds left out.
structure Plan.HasRoom (p : Plan) (standard : String) (units : Nat) : Prop where
  extent : p.extent standard ≤ units + 1
  count  : 5 * p.nodes.length + 6 * p.edges.length ≤ units + 1

theorem Plan.hasRoom_of_ofSpec {p : Plan} {defaultKind text : List Char}
    (h : Plan.ofSpec defaultKind text = .ok p) :
    p.HasRoom (String.ofList (Text.trim defaultKind)) (Text.units text) := by
  have hplain := plain_of_ofSpec h
  have he := extent_le_of_ofSpec h
  refine ⟨he, (count_le_extent (fun n hn => ?_) fun e he => ?_).trans he⟩
  case refine_1 => exact (hplain.nodes n hn).id
  case refine_2 => exact ⟨(hplain.edges e he).source, (hplain.edges e he).target⟩

namespace Service

open Log (Report)

-- The plan of an accepted document that is posted to this path, to be returned or to be drawn, and
-- the text that it is read from unless it is given.
inductive Enters (c : Context) (j : Json) : String → Option String → Plan → Prop where
  | parsed {kept : Json} {p : Plan} (valid : Schema.parseRequest.validate (some j) = .ok kept)
    (h : ((Generator.ofSettings c.settings).parse (kept.text "spec")).outcome = .ok p) :
    Enters c j "/api/parse" (some (kept.text "spec")) p
  | drawn {kept : Json} {p : Plan} (valid : Schema.renderRequest.validate (some j) = .ok kept)
    (h : (planFor (generatorFor c kept) kept).outcome = .ok (some p)) :
    Enters c j "/api/render" (kept.text? "spec") p

-- What holds of such a plan.
def Limited (standard : String) (p : Plan) : Option String → Prop
  | none => p.Fits
  | some spec => spec.units ≤ Limits.spec ∧ p.HasRoom standard spec.units

variable {c : Context} {j : Json} {path : String} {spec? : Option String} {p : Plan} {r : Request}

theorem ofSpec_of_outcome_parse {g : Generator} {spec : String}
    (h : (g.parse spec).outcome = .ok p) :
    Plan.ofSpec g.defaultKind.toList spec.toList = .ok p := by
  rw [Generator.outcome_parse] at h
  cases hp : Plan.ofSpec g.defaultKind.toList spec.toList with
  | ok q    =>
    rw [hp] at h
    obtain rfl := Except.ok.inj h
    rfl
  | error e =>
    rw [hp] at h
    nomatch h

theorem outcome_planFor_of_text {g : Generator} {kept : Json} {spec : String}
    (h : kept.text? "spec" = some spec) :
    (planFor g kept).outcome = (g.parse spec).outcome.map some := by
  rw [planFor, h]
  dsimp only
  rw [Report.outcome_bind]
  cases (g.parse spec).outcome <;> rfl

theorem outcome_planFor_of_not_text {g : Generator} {kept : Json} (h : kept.text? "spec" = none) :
    (planFor g kept).outcome = .ok ((kept.get? "plan").map Plan.ofJson) := by
  rw [planFor, h]
  rfl

-- What comes in is what is answered.
theorem Enters.answers (h : Enters c j path spec? p) (hr : r.Posts path j) :
    path = "/api/parse" ∧ Answers c r (.resource (some p.toJson)) ∨
    path = "/api/render" ∧ ∃ g a, Drawn g p a ∧ Answers c r a := by
  cases h with
  | parsed valid h =>
    refine .inl ⟨rfl, hr.answers_of_ok ?_⟩
    rw [hr.route_parse, parse, Report.outcome_bind_of_ok (hr.outcome_receive valid),
      Report.outcome_bind_of_ok h]
    rfl
  | @drawn kept p valid h =>
    have ⟨a, ha⟩ := exists_drawn (generatorFor c kept) p
    exact .inr ⟨rfl, _, a, ha, hr.answers_of_drawn valid h ha⟩

theorem Enters.limited (h : Enters c j path spec? p) :
    Limited (String.ofList (Text.trim c.settings.defaultKind.toList)) p spec? := by
  cases h with
  | @parsed kept p valid h =>
    have hspec := Schema.units_le_of_validate_parseRequest valid
    have hroom := Plan.hasRoom_of_ofSpec (ofSpec_of_outcome_parse h)
    exact ⟨hspec, hroom⟩
  | @drawn kept p valid h =>
    obtain ⟨hspec, hplan⟩ := Schema.sources_of_validate_renderRequest valid
    cases ht : kept.text? "spec" with
    | none =>
      rw [outcome_planFor_of_not_text ht] at h
      obtain ⟨k, hk, rfl⟩ := Option.map_eq_some_iff.mp (Except.ok.inj h)
      exact hplan k hk
    | some spec =>
      refine ⟨hspec spec ht, ?_⟩
      rw [outcome_planFor_of_text ht] at h
      cases hp : ((generatorFor c kept).parse spec).outcome with
      | error e => rw [hp] at h; nomatch h
      | ok q    =>
        rw [hp] at h
        obtain rfl := Option.some.inj (Except.ok.inj h)
        rw [← defaultKind_generatorFor c kept]
        exact Plan.hasRoom_of_ofSpec (ofSpec_of_outcome_parse hp)

-- A document that is posted without anything else.
def bodyOf (spec : String) : Json :=
  .obj [("spec", .str spec)]

theorem validate_bodyOf {spec : String} (hl : 1 ≤ spec.units) (hm : spec.units ≤ Limits.spec) :
    Schema.parseRequest.validate (some (bodyOf spec)) = .ok (bodyOf spec) := by
  have ha : Schema.parseRequest.Accepts (some (bodyOf spec)) := by
    rw [Schema.parseRequest, bodyOf, Schema.accepts_object_iff]
    simpa [Record.get?_cons, Schema.accepts_text_iff] using ⟨hl, hm⟩
  refine Schema.validate_of_accepts ha ?_
  rw [Schema.parseRequest, bodyOf] at ha ⊢
  rw [Schema.keep?_object ha]
  simp [Schema.keepFields, Schema.reservedKey, Record.get?_cons]

theorem enters_document (c : Context) (h : p.Writable) (hu : p.document.units ≤ Limits.spec)
    (hp : path ∈ ["/api/parse", "/api/render"]) :
    Enters c (bodyOf p.document) path (some p.document) p := by
  have hread (defaultKind : List Char) : Plan.ofSpec defaultKind p.document.toList = .ok p :=
    Plan.ofSpec_of_outcome (h.outcome_document defaultKind)
  have hl : 1 ≤ p.document.units := Text.one_le_units (Plan.ne_nil_of_ofSpec (hread []))
  obtain rfl | rfl := List.mem_pair.mp hp
  case inl =>
    refine .parsed (validate_bodyOf hl hu) ?_
    rw [Generator.outcome_parse]
    exact congrArg (Except.mapError Fault.ofSpec) (hread _)
  case inr =>
    have hasks : (bodyOf p.document).Asks (some p.document) none none none :=
      ⟨rfl, rfl, rfl, rfl⟩
    obtain ⟨kept, valid, hkept⟩ := Schema.exists_validate_renderRequest hasks
      (by rintro _ ⟨⟩; exact ⟨hl, hu⟩) Schema.accepts_optional_none Schema.accepts_optional_none
      Schema.accepts_optional_none nofun
    have ht : kept.text? "spec" = some p.document := by rw [Json.text?, hkept.spec]; rfl
    exact ht ▸ .drawn valid (planFor_spec hkept.spec (hread _))

-- A plan that is given fits, and one that is read has room in its text. No more can be said: all
-- that can be written in a text that is short enough comes in, be it within the limits or not.
theorem limits_of_enters (c : Context) :
    (∀ j path spec? p, Enters c j path spec? p →
      (∀ r, r.Posts path j → path = "/api/parse" ∧ Answers c r (.resource (some p.toJson)) ∨
        path = "/api/render" ∧ ∃ g a, Drawn g p a ∧ Answers c r a) ∧
      Limited (String.ofList (Text.trim c.settings.defaultKind.toList)) p spec?) ∧
    ∀ p path, p.Writable → p.document.units ≤ Limits.spec → path ∈ ["/api/parse", "/api/render"] →
      Enters c (bodyOf p.document) path (some p.document) p :=
  ⟨fun _ _ _ _ h => ⟨fun _ => h.answers, h.limited⟩, fun _ _ => enters_document c⟩

-- An identifier of one letter more than a plan may give.
def longId : Plan where
  nodes := [⟨String.ofList (List.replicate 101 'a'), "A", "process", []⟩]
  edges := []

def longIdPost : Request where
  method := "POST"
  path   := "/api/parse"
  body   := .text ("\x7b\"spec\":\"## Nodes\\n- " ++ String.ofList (List.replicate 101 'a') ++
    " | A | process\\n## Edges\"\x7d")

set_option maxRecDepth 4000 in
theorem posts_longId : longIdPost.Posts "/api/parse" (bodyOf longId.document) :=
  .of_text (by rfl) (by decide +kernel) (by decide +kernel)

theorem writable_longId : longId.Writable := by
  decide +kernel

theorem units_longId : longId.document.units ≤ Limits.spec := by
  decide +kernel

theorem enters_boxFromPlan : Enters early boxFromPlan "/api/render" none box := by
  have hplain := Plan.plain_of_ofSpec ofSpec_boxSpec
  have hplan := Schema.accepts_optional_some.mpr ((Plan.accepts_toJson_iff hplain).mpr box_fits)
  have hasks : boxFromPlan.Asks none (some box.toJson) (some boxSize) (some boxLooks) :=
    ⟨rfl, rfl, rfl, rfl⟩
  obtain ⟨kept, valid, hkept⟩ := Schema.exists_validate_renderRequest hasks nofun hplan
    accepts_boxSize accepts_boxLooks nofun
  rw [Schema.keep?_optional_some, Plan.keep?_toJson hplain box_fits] at hkept
  have ht : kept.text? "spec" = none := by rw [Json.text?, hkept.spec]; rfl
  have hp := planFor_plan (g := generatorFor early kept) hkept.spec hkept.plan
  rw [Plan.ofJson_toJson] at hp
  exact ht ▸ .drawn valid hp

theorem limits_of_enters_longId :
    (Enters early boxFromPlan "/api/render" none box ∧ box.Fits) ∧
    longId.Writable ∧ longId.document.units ≤ Limits.spec ∧
    Enters early (bodyOf longId.document) "/api/parse" (some longId.document) longId ∧
    Answers early longIdPost (.resource (some longId.toJson)) ∧
    longId.HasRoom "process" longId.document.units := by
  obtain ⟨hlimits, hwritten⟩ := limits_of_enters early
  have ⟨_, hfits⟩ := hlimits _ _ _ _ enters_boxFromPlan
  have h := hwritten longId "/api/parse" writable_longId units_longId (by decide)
  obtain ⟨hanswers, _, hroom⟩ := hlimits _ _ _ _ h
  obtain ⟨_, ha⟩ | ⟨hp, _⟩ := hanswers longIdPost posts_longId
  case inl => exact ⟨⟨enters_boxFromPlan, hfits⟩, writable_longId, units_longId, h, ha, hroom⟩
  case inr => exact absurd hp (by decide)

theorem enters_longId :
    Enters early (bodyOf longId.document) "/api/parse" (some longId.document) longId ∧
    Answers early longIdPost (.resource (some longId.toJson)) ∧
    ¬∀ n ∈ longId.nodes, n.id.units ≤ Limits.id := by
  have h : Enters early (bodyOf longId.document) "/api/parse" (some longId.document) longId :=
    enters_document early writable_longId units_longId (by decide)
  obtain ⟨_, ha⟩ | ⟨hp, _⟩ := h.answers posts_longId
  case inl => exact ⟨h, ha, by decide +kernel⟩
  case inr => exact absurd hp (by decide)

end Service

end LayeredDiagram
