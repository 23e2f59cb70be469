import LayeredDiagram.Proofs.Schema.Request
import LayeredDiagram.Proofs.Service.Handling

namespace LayeredDiagram

namespace Generator

variable {g : Generator} {size : Option (Canvas Float)} {looks : Option (Record StyleOverride)}

@[simp]
theorem defaultKind_withCanvas : (g.withCanvas size).defaultKind = g.defaultKind := by
  cases size <;> rfl

@[simp]
theorem cap_withCanvas : (g.withCanvas size).cap = g.cap := by
  cases size <;> rfl

@[simp]
theorem styles_withCanvas : (g.withCanvas size).styles = g.styles := by
  cases size <;> rfl

@[simp]
theorem defaultKind_withStyles : (g.withStyles looks).defaultKind = g.defaultKind := by
  cases looks <;> rfl

@[simp]
theorem options_withStyles : (g.withStyles looks).options = g.options := by
  cases looks <;> rfl

@[simp]
theorem styles_withStyles : (g.withStyles looks).styles = looks.or g.styles := by
  cases looks <;> rfl

end Generator

namespace Service

open Schema (optional)

variable {c c' : Context} {r r' : Request} {j j' kept kept' : Json} {p : Plan} {spec : String}
variable {looks : Option Json}

theorem defaultKind_generatorFor (c : Context) (kept : Json) :
    (generatorFor c kept).defaultKind = c.settings.defaultKind := by
  simp [generatorFor, Generator.ofSettings]

theorem cap_generatorFor : (generatorFor c kept).options.cap = c.settings.cap := by
  rw [generatorFor, Generator.options_withStyles]
  simp [Generator.options, Generator.ofSettings]

theorem styles_generatorFor : (generatorFor c kept).styles =
    (kept.get? "styles").map StyleOverride.recordOfJson := by
  simp [generatorFor, Generator.ofSettings]

-- A canvas in the request is the canvas of the layout, whether or not it is to be drawn.
theorem options_generatorFor (hc : c.settings = c'.settings)
    (hs : kept'.get? "canvas" = kept.get? "canvas") (h : (kept.get? "canvas").isSome) :
    (generatorFor c' kept').options = layoutOptions c kept := by
  obtain ⟨size, hsize⟩ := Option.isSome_iff_exists.mp h
  rw [generatorFor, Generator.options_withStyles]
  simp [layoutOptions, canvas?, hs, hsize, hc, Generator.withCanvas, Generator.options,
    Generator.ofSettings]

-- Nothing but settings, canvas and styles tells generators apart.
theorem generatorFor_congr (hc : c.settings = c'.settings)
    (hs : kept.get? "canvas" = kept'.get? "canvas")
    (hl : kept.get? "styles" = kept'.get? "styles") :
    generatorFor c kept = generatorFor c' kept' := by
  simp only [generatorFor, canvas?, hc, hs, hl]

theorem planFor_spec {g : Generator} (h : kept.get? "spec" = some (.str spec))
    (hp : Plan.ofSpec g.defaultKind.toList spec.toList = .ok p) :
    (planFor g kept).outcome = .ok (some p) := by
  have ht : kept.text? "spec" = some spec := by rw [Json.text?, h]; rfl
  rw [planFor, ht]
  simp only [Generator.parse, hp]
  rfl

theorem planFor_spec_of_error {g : Generator} {e : SpecError}
    (h : kept.get? "spec" = some (.str spec))
    (hp : Plan.ofSpec g.defaultKind.toList spec.toList = .error e) :
    (planFor g kept).outcome = .error (.ofSpec e) := by
  have ht : kept.text? "spec" = some spec := by rw [Json.text?, h]; rfl
  rw [planFor, ht]
  simp only [Generator.parse, hp]
  rfl

theorem planFor_plan {g : Generator} (h : kept.get? "spec" = none)
    (hp : kept.get? "plan" = some j) : (planFor g kept).outcome = .ok (some (Plan.ofJson j)) := by
  have ht : kept.text? "spec" = none := by rw [Json.text?, h]; rfl
  rw [planFor, ht, hp]
  rfl

theorem recover_ofSpec {e : SpecError} : (recover c r (.ofSpec e)).2 =
    .ofDefinition .parse (some e.message)
      (e.line.map fun n => .obj [("line", .num (Float.ofNat n))]) := by
  simp [recover, Fault.ofSpec, Function.comp_def]

theorem Request.Posts.answers_of_unparsed {e : SpecError} (hr : r.Posts "/api/render" j)
    (hv : Schema.renderRequest.validate (some j) = .ok kept)
    (hs : kept.get? "spec" = some (.str spec))
    (hp : Plan.ofSpec c.settings.defaultKind.toList spec.toList = .error e) :
    Answers c r (.ofDefinition .parse (some e.message)
      (e.line.map fun n => .obj [("line", .num (Float.ofNat n))])) := by
  have ho : (route c r).outcome = .error (.ofSpec e) := by
    rw [hr.route_render, render, Log.Report.outcome_bind_of_ok (hr.outcome_receive hv)]
    exact Log.Report.outcome_bind_of_error
      (planFor_spec_of_error hs (defaultKind_generatorFor c kept ▸ hp))
  exact recover_ofSpec ▸ hr.answers_of_error ho

-- A document and the plan read from it.
theorem render_spec_as_plan (hc : c.settings = c'.settings)
    (h : Plan.ofSpec c.settings.defaultKind.toList spec.toList = .ok p) :
    (∀ j, Schema.plan.validate (some p.toJson) = .ok j ↔ p.Fits ∧ j = p.toJson) ∧
    Plan.ofJson p.toJson = p ∧
    (p.Fits → spec.units ≤ 200000 → ∀ size looks, (optional Schema.canvas).Accepts size →
      (optional Schema.styleOverrides).Accepts looks → ∀ r r' j j',
      r.Posts "/api/render" j → j.Asks (some spec) none size looks →
      r'.Posts "/api/render" j' → j'.Asks none (some p.toJson) size looks →
      ∃ kept a, Schema.renderRequest.validate (some j) = .ok kept ∧
        Drawn (generatorFor c kept) p a ∧ Answers c r a ∧ Answers c' r' a) := by
  have hplain := Plan.plain_of_ofSpec h
  refine ⟨fun j => Plan.validate_toJson_iff hplain, Plan.ofJson_toJson, ?_⟩
  intro hf hu size looks hsize hlooks r r' j j' hr hj hr' hj'
  have hs : ∀ s, some spec = some s → 1 ≤ s.units ∧ s.units ≤ 200000 := by
    rintro _ ⟨⟩
    exact ⟨Text.one_le_units (Plan.ne_nil_of_ofSpec h), hu⟩
  have hp : (optional Schema.plan).Accepts (some p.toJson) :=
    Schema.accepts_optional_some.mpr ((Plan.accepts_toJson_iff hplain).mpr hf)
  have ⟨kept, hk, hasks⟩ := Schema.exists_validate_renderRequest hj hs
    Schema.accepts_optional_none hsize hlooks nofun
  have ⟨kept', hk', hasks'⟩ := Schema.exists_validate_renderRequest hj' nofun hp hsize hlooks nofun
  rw [Schema.keep?_optional_some, Plan.keep?_toJson hplain hf] at hasks'
  have hg : generatorFor c kept = generatorFor c' kept' :=
    generatorFor_congr hc (hasks.canvas.trans hasks'.canvas.symm)
      (hasks.styles.trans hasks'.styles.symm)
  have ⟨a, hd⟩ := exists_drawn (generatorFor c kept) p
  have hplan : (planFor (generatorFor c kept) kept).outcome = .ok (some p) :=
    planFor_spec hasks.spec (defaultKind_generatorFor .. ▸ h)
  have hplan' : (planFor (generatorFor c' kept') kept').outcome = .ok (some p) := by
    rw [planFor_plan hasks'.spec hasks'.plan, Plan.ofJson_toJson]
  refine ⟨kept, a, hk, hd, ?_, ?_⟩
  case refine_1 => exact hr.answers_of_drawn hk hplan hd
  case refine_2 => exact hr'.answers_of_drawn hk' hplan' (hg ▸ hd)

section Box

-- A node without a label, on a canvas of its own and in a style of its own.
def boxSpec : String := "## Nodes\n- a | | io"

def box : Plan where
  nodes := [⟨"a", "", "io", []⟩]
  edges := []

def boxSize : Json :=
  .obj [("width", .num 300), ("height", .num 200.5)]

def boxLooks : Json :=
  .obj [("io", .obj [("fill", .str "red"), ("stroke", .str "#00f")])]

def boxFromSpec : Json :=
  .obj [("spec", .str boxSpec), ("canvas", boxSize), ("styles", boxLooks)]

def boxFromPlan : Json :=
  .obj [("plan", box.toJson), ("canvas", boxSize), ("styles", boxLooks)]

-- Its parts as they are written in requests.
def boxText : String :=
  "\x7b\"nodes\":[\x7b\"id\":\"a\",\"label\":\"\",\"type\":\"io\",\"metadata\":\x7b\x7d\x7d]," ++
    "\"edges\":[]\x7d"

def boxSizeText : String := "\x7b\"width\":300,\"height\":200.5\x7d"

def boxLooksText : String := "\x7b\"io\":\x7b\"fill\":\"red\",\"stroke\":\"#00f\"\x7d\x7d"

def boxFromSpecPost : Request where
  method := "POST"
  path   := "/api/render"
  body   := .text ("\x7b\"spec\":\"## Nodes\\n- a | | io\",\"canvas\":" ++ boxSizeText ++
    ",\"styles\":" ++ boxLooksText ++ "\x7d")

def boxFromPlanPost : Request where
  method := "POST"
  path   := "/api/render"
  body   := .text ("\x7b\"plan\":" ++ boxText ++ ",\"canvas\":" ++ boxSizeText ++
    ",\"styles\":" ++ boxLooksText ++ "\x7d")

-- Two requests to the service as it is by default, the second of which takes longer.
def early : Context := { generatedId := "1" }

def late : Context := { generatedId := "2", elapsed := 1 }

set_option maxRecDepth 4000 in
theorem posts_boxFromSpec : boxFromSpecPost.Posts "/api/render" boxFromSpec :=
  .of_text (by rfl) (by decide +kernel) (by decide +kernel)

set_option maxRecDepth 4000 in
theorem posts_boxFromPlan : boxFromPlanPost.Posts "/api/render" boxFromPlan :=
  .of_text (by rfl) (by decide +kernel) (by decide +kernel)

theorem ofSpec_boxSpec : Plan.ofSpec "process".toList boxSpec.toList = .ok box :=
  Plan.ofSpec_eq_ok_iff.mpr
    ⟨_, rfl, _, rfl, _, rfl, Spec.requireDistinct_eq_ok_iff.mpr (by decide), rfl⟩

theorem box_fits : box.Fits where
  nodeCount   := by decide
  edgeCount   := by decide
  nodes       := List.forall_mem_singleton.mpr ⟨by decide, by decide, by decide⟩
  edges       := nofun
  title       := nofun
  description := nofun

theorem accepts_boxSize : (optional Schema.canvas).Accepts (some boxSize) := by
  unfold Schema.Accepts
  decide +kernel

theorem accepts_boxLooks : (optional Schema.styleOverrides).Accepts (some boxLooks) := by
  unfold Schema.Accepts
  decide +kernel

theorem render_spec_as_plan_box :
    Plan.ofSpec defaultKind.toList boxSpec.toList = .ok box ∧ box.Fits ∧ boxSpec.units ≤ 200000 ∧
    ∃ kept a, Schema.renderRequest.validate (some boxFromSpec) = .ok kept ∧
      Drawn (generatorFor early kept) box a ∧ Answers early boxFromSpecPost a ∧
      Answers late boxFromPlanPost a := by
  obtain ⟨_, _, h⟩ := @render_spec_as_plan early late box boxSpec rfl ofSpec_boxSpec
  refine ⟨ofSpec_boxSpec, box_fits, by decide, ?_⟩
  exact h box_fits (by decide) (some boxSize) (some boxLooks) accepts_boxSize accepts_boxLooks
    boxFromSpecPost boxFromPlanPost boxFromSpec boxFromPlan
    posts_boxFromSpec ⟨rfl, rfl, rfl, rfl⟩ posts_boxFromPlan ⟨rfl, rfl, rfl, rfl⟩

end Box

-- Whether there is a layout does not depend on the canvas.
theorem layout_eq_error_congr {o o' : LayoutOptions} {e : LayoutError} (h : o.cap = o'.cap) :
    p.layout o = .error e ↔ p.layout o' = .error e := by
  rw [Plan.layout_eq_error_iff, Plan.layout_eq_error_iff, h]

theorem layout_generatorFor_eq_error_iff {e : LayoutError} (hc : c.settings = c'.settings) :
    (generatorFor c' kept').layout p = .error e ↔ p.layout (layoutOptions c kept) = .error e :=
  layout_eq_error_congr (by rw [cap_generatorFor, ← hc]; rfl)

theorem exists_drawn_of_layout {l : Layout Float} (hc : c.settings = c'.settings)
    (hs : kept'.get? "canvas" = kept.get? "canvas") (h : p.layout (layoutOptions c kept) = .ok l) :
    ∃ svg, Drawn (generatorFor c' kept') p (.svg svg) ∧ ((kept.get? "canvas").isSome →
      l.render (((kept'.get? "styles").map StyleOverride.recordOfJson).getD []) p.title =
        .ok svg) := by
  cases hd : (generatorFor c' kept').layout p with
  | error e =>
    rw [(layout_generatorFor_eq_error_iff hc).mp hd] at h
    nomatch h
  | ok l'   =>
    have ⟨svg, hsvg⟩ := Generator.exists_render hd
    refine ⟨svg, .svg hd hsvg, fun hcanvas => ?_⟩
    rw [Generator.layout, options_generatorFor hc hs hcanvas, h] at hd
    obtain rfl := Except.ok.inj hd
    rwa [Generator.render, styles_generatorFor] at hsvg

theorem layoutRefused_of_layout {o : LayoutOptions} {e : LayoutError} (h : p.layout o = .error e) :
    e.code ∈ ["DUPLICATE_NODE", "UNKNOWN_NODE_REFERENCE", "LAYOUT_DID_NOT_CONVERGE"] ∧
    layoutRefused e = .error e.code e.message 422 := by
  have hlaid := p.laid_layout o
  rw [h] at hlaid
  cases hlaid <;> exact ⟨by simp [LayoutError.code], rfl⟩

-- A plan that is laid out and a plan that is drawn. A request without a canvas leaves its size to
-- the settings if it asks for a drawing, and to the standard of layouts if it does not.
theorem render_as_layout (hc : c.settings = c'.settings) (hr : r.Posts "/api/layout" j)
    (ha : Schema.layoutRequest.Accepts (some j)) (hr' : r'.Posts "/api/render" j')
    (hj : j'.Asks none (j.get? "plan") (j.get? "canvas") looks)
    (hl : (optional Schema.styleOverrides).Accepts looks) :
    ∃ kept kept' p, Schema.layoutRequest.validate (some j) = .ok kept ∧
      Schema.renderRequest.validate (some j') = .ok kept' ∧
      (kept.get? "plan").map Plan.ofJson = some p ∧
      ((respond c r).response.status = 200 ↔ (respond c' r').response.status = 200) ∧
      ((∃ l svg, p.layout (layoutOptions c kept) = .ok l ∧
        Answers c r (.resource (some l.toJson) (some [("durationMs", .num c.elapsed)])) ∧
        Answers c' r' (.svg svg) ∧
        ((j.get? "canvas").isSome → l.render
          (((kept'.get? "styles").map StyleOverride.recordOfJson).getD []) p.title = .ok svg)) ∨
      ∃ e, p.layout (layoutOptions c kept) = .error e ∧
        e.code ∈ ["DUPLICATE_NODE", "UNKNOWN_NODE_REFERENCE", "LAYOUT_DID_NOT_CONVERGE"] ∧
        Answers c r (.error e.code e.message 422) ∧
        Answers c' r' (.error e.code e.message 422)) := by
  obtain ⟨given, k, hgiven, hplan, hkeep, hsize, kept, hk, hkp, hkc⟩ :=
    Schema.exists_validate_layoutRequest ha
  rw [hgiven] at hj
  obtain ⟨kept', hk', hasks⟩ := Schema.exists_validate_renderRequest hj nofun
    (Schema.accepts_optional_some.mpr hplan) hsize hl nofun
  rw [Schema.keep?_optional_some, hkeep] at hasks
  have hlay := hr.answers_of_layout (c := c) (p := .ofJson k) hk (by rw [hkp, Option.getD_some])
  have hdraw {a : Response} (h : Drawn (generatorFor c' kept') (.ofJson k) a) : Answers c' r' a :=
    hr'.answers_of_drawn hk' (planFor_plan hasks.spec hasks.plan) h
  refine ⟨kept, kept', .ofJson k, hk, hk', by rw [hkp, Option.map_some], ?_⟩
  cases hp : (Plan.ofJson k).layout (layoutOptions c kept) with
  | error e =>
    have href := hdraw (.refused ((layout_generatorFor_eq_error_iff hc).mpr hp))
    have ⟨hcode, he⟩ := layoutRefused_of_layout hp
    simp only [hp, he] at hlay href
    exact ⟨by rw [hlay.status, href.status], .inr ⟨e, rfl, hcode, hlay, href⟩⟩
  | ok l    =>
    have ⟨svg, hd, hsvg⟩ := exists_drawn_of_layout hc (hasks.canvas.trans hkc.symm) hp
    simp only [hp] at hlay
    refine ⟨iff_of_true hlay.status (hdraw hd).status, .inl ⟨l, svg, rfl, hlay, hdraw hd, ?_⟩⟩
    rwa [← Schema.isSome_keep?_optional hsize, ← hkc]

section Box

def boxLayout : Json :=
  .obj [("plan", box.toJson), ("canvas", boxSize)]

def boxLayoutPost : Request where
  method := "POST"
  path   := "/api/layout"
  body   := .text ("\x7b\"plan\":" ++ boxText ++ ",\"canvas\":" ++ boxSizeText ++ "\x7d")

set_option maxRecDepth 4000 in
theorem posts_boxLayout : boxLayoutPost.Posts "/api/layout" boxLayout :=
  .of_text (by rfl) (by decide +kernel) (by decide +kernel)

theorem accepts_boxLayout : Schema.layoutRequest.Accepts (some boxLayout) := by
  unfold Schema.Accepts
  decide +kernel

theorem render_as_layout_box : Schema.layoutRequest.Accepts (some boxLayout) ∧
    (boxLayout.get? "canvas").isSome ∧
    ∃ (kept kept' : Json) (p : Plan), Schema.layoutRequest.validate (some boxLayout) = .ok kept ∧
      Schema.renderRequest.validate (some boxFromPlan) = .ok kept' ∧
      ((∃ l svg, p.layout (layoutOptions early kept) = .ok l ∧
        Answers early boxLayoutPost (.resource (some l.toJson) (some [("durationMs", .num 0)])) ∧
        Answers late boxFromPlanPost (.svg svg) ∧
        l.render (((kept'.get? "styles").map StyleOverride.recordOfJson).getD []) p.title =
          .ok svg) ∨
      ∃ e, p.layout (layoutOptions early kept) = .error e ∧
        Answers early boxLayoutPost (.error e.code e.message 422) ∧
        Answers late boxFromPlanPost (.error e.code e.message 422)) := by
  obtain ⟨kept, kept', p, hk, hk', _, _, h⟩ := @render_as_layout early late boxLayoutPost
    boxFromPlanPost boxLayout boxFromPlan (some boxLooks) rfl posts_boxLayout accepts_boxLayout
    posts_boxFromPlan ⟨rfl, rfl, rfl, rfl⟩ accepts_boxLooks
  refine ⟨accepts_boxLayout, rfl, kept, kept', p, hk, hk', ?_⟩
  obtain ⟨l, svg, hl, hlay, hdraw, hsvg⟩ | ⟨e, he, _, hlay, hdraw⟩ := h
  case inl => exact .inl ⟨l, svg, hl, hlay, hdraw, hsvg rfl⟩
  case inr => exact .inr ⟨e, he, hlay, hdraw⟩

end Box

end Service

end LayeredDiagram
