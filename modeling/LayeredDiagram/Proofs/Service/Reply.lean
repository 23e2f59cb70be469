import LayeredDiagram.Proofs.Service.Agreement

namespace LayeredDiagram.Service

open Log (Report)

def Request.Holds (r : Request) (j : Json) : Prop :=
  ∃ text, r.body = .text text ∧ Json.parse? (withoutMark text) = some j

-- What documents may be posted to.
def posted : List (String × Schema) := [
  ("/api/parse", .parseRequest),
  ("/api/layout", .layoutRequest),
  ("/api/render", .renderRequest)]

-- The plan of a request: read from a text, or what is kept of the one that is given.
inductive Brings (c : Context) (r : Request) : Plan → Prop where
  | read {j : Json} {spec : String} {p : Plan} (holds : r.Holds j)
    (asks : j.get? "spec" = some (.str spec))
    (h : Plan.ofSpec c.settings.defaultKind.toList spec.toList = .ok p) : Brings c r p
  | given {j given kept : Json} (holds : r.Holds j) (asks : j.get? "plan" = some given)
    (h : Schema.plan.keep? (some given) = some kept) : Brings c r (.ofJson kept)

-- The replies that there are. There is none for a layout that fails in any other way, for a layout
-- without a drawing, or for a request without a plan.
inductive Reply (c : Context) (r : Request) : Response → Prop where
  | tooLarge (h : r.isTooLarge) : Reply c r tooLarge
  | unread (h : ∀ j, ¬r.Holds j) : Reply c r (.ofDefinition .invalidJson)
  | invalid {s : Schema} {j : Json} {issues : List Issue} (schema : (r.path, s) ∈ posted)
    (holds : r.Holds j) (h : s.validate (some j) = .error issues) :
    Reply c r (.ofDefinition .validation (some (Issue.describeAll issues))
      (some (Issue.allToJson issues)))
  | unparsed {j : Json} {spec : String} {e : SpecError} (path : r.path ≠ "/api/layout")
    (holds : r.Holds j) (asks : j.get? "spec" = some (.str spec))
    (h : Plan.ofSpec c.settings.defaultKind.toList spec.toList = .error e) :
    Reply c r (.ofDefinition .parse (some e.message)
      (e.line.map fun n => .obj [("line", .num (Float.ofNat n))]))
  | refused {p : Plan} {o : LayoutOptions} {e : LayoutError} (path : r.path ≠ "/api/parse")
    (brings : Brings c r p) (cap : o.cap = c.settings.cap) (h : p.layout o = .error e) :
    Reply c r (.error e.code e.message 422)
  | parsed {p : Plan} (path : r.path = "/api/parse") (brings : Brings c r p) :
    Reply c r (.resource (some p.toJson))
  | laidOut {p : Plan} {o : LayoutOptions} {l : Layout Float} (path : r.path = "/api/layout")
    (brings : Brings c r p) (cap : o.cap = c.settings.cap) (h : p.layout o = .ok l) :
    Reply c r (.resource (some l.toJson) (some [("durationMs", .num c.elapsed)]))
  | drawn {p : Plan} {g : Generator} {l : Layout Float} {svg : String}
    (path : r.path = "/api/render") (brings : Brings c r p) (cap : g.cap = c.settings.cap)
    (layout : g.layout p = .ok l) (drawing : g.render l p.title = .ok svg) : Reply c r (.svg svg)

-- The codes that posted documents are refused with, and their statuses.
def refusals : List (String × Nat) := [
  ("INVALID_JSON", 400),
  ("VALIDATION_ERROR", 400),
  ("PARSE_ERROR", 400),
  ("PAYLOAD_TOO_LARGE", 413),
  ("UNKNOWN_NODE_REFERENCE", 422),
  ("DUPLICATE_NODE", 422),
  ("LAYOUT_DID_NOT_CONVERGE", 422)]

variable {c : Context} {r : Request} {j kept : Json} {a : Response} {s : Schema}
  {issues : List Issue}

theorem Reply.data_or_svg_or_refusal (h : Reply c r a) :
    (r.path ≠ "/api/render" ∧ ∃ data info, a = .resource (some data) info) ∨
    (r.path = "/api/render" ∧ ∃ svg, a = .svg svg) ∨
    ∃ code status message details, (code, status) ∈ refusals ∧
      a = .error code message status details := by
  cases h with
  | tooLarge => exact .inr (.inr ⟨_, _, _, _, by decide, rfl⟩)
  | unread   => exact .inr (.inr ⟨_, _, _, _, by decide, rfl⟩)
  | invalid  => exact .inr (.inr ⟨_, _, _, _, by decide, rfl⟩)
  | unparsed => exact .inr (.inr ⟨_, _, _, _, by decide, rfl⟩)
  | refused _ _ _ h =>
    have ⟨hcode, _⟩ := layoutRefused_of_layout h
    refine .inr (.inr ⟨_, _, _, _, ?_, rfl⟩)
    simp only [List.mem_cons, List.not_mem_nil, or_false] at hcode
    obtain he | he | he := hcode <;> rw [he] <;> decide
  | parsed path    => exact .inl ⟨by simp [path], _, _, rfl⟩
  | laidOut path _ => exact .inl ⟨by simp [path], _, _, rfl⟩
  | drawn path     => exact .inr (.inl ⟨path, _, rfl⟩)

theorem outcome_receive_of_not_holds (hb : ∀ f, r.body ≠ .broken f) (h : ∀ j, ¬r.Holds j) :
    (receive s r).outcome = .error badJson := by
  have hr : (readJson r).outcome = .error badJson := by
    unfold readJson
    cases hbody : r.body with
    | none      => rfl
    | broken f  => exact absurd hbody (hb f)
    | text text =>
      cases hj : Json.parse? (withoutMark text) with
      | none   => simp [hj]
      | some j => exact absurd ⟨text, hbody, hj⟩ (h j)
  rw [receive, Report.outcome_bind_of_error hr]

namespace Request.Posts

variable {path : String}

theorem holds (h : r.Posts path j) : r.Holds j :=
  h.body

theorem outcome_receive_of_error (h : r.Posts path j) (hv : s.validate (some j) = .error issues) :
    (receive s r).outcome =
      .error (.validation (Issue.describeAll issues) (some (Issue.allToJson issues))) := by
  rw [receive, Report.outcome_bind_of_ok h.outcome_readJson, requireValid, hv]
  rfl

theorem exists_reply_of_error {k : Json → Report Response} (h : r.Posts path j)
    (hroute : route c r = receive s r >>= k) (hs : (path, s) ∈ posted)
    (hv : s.validate (some j) = .error issues) : ∃ a, Answers c r a ∧ Reply c r a := by
  have ho := Report.outcome_bind_of_error (f := k) (h.outcome_receive_of_error hv)
  exact ⟨_, h.answers_of_error (hroute ▸ ho), .invalid (h.path ▸ hs) h.holds hv⟩

theorem exists_reply_parse (h : r.Posts "/api/parse" j) : ∃ a, Answers c r a ∧ Reply c r a := by
  cases hv : Schema.parseRequest.validate (some j) with
  | error issues => exact h.exists_reply_of_error h.route_parse (by simp [posted]) hv
  | ok kept =>
    obtain ⟨spec, hspec, hkept⟩ := Schema.validate_parseRequest hv
    have ht : kept.text "spec" = spec := by rw [Json.text, hkept]; rfl
    have hr : (route c r).outcome = (((Generator.ofSettings c.settings).parse spec) >>= fun p =>
        pure (.resource (some p.toJson))).outcome := by
      rw [h.route_parse, parse, Report.outcome_bind_of_ok (h.outcome_receive hv), ht]
    have hf : ((Generator.ofSettings c.settings).parse spec).outcome =
        (Plan.ofSpec c.settings.defaultKind.toList spec.toList).mapError .ofSpec :=
      Generator.outcome_parse
    cases hp : Plan.ofSpec c.settings.defaultKind.toList spec.toList with
    | error e =>
      rw [hp] at hf
      have ho := hr.trans (Report.outcome_bind_of_error hf)
      exact ⟨_, recover_ofSpec ▸ h.answers_of_error ho,
        .unparsed (by simp [h.path]) h.holds hspec hp⟩
    | ok p =>
      rw [hp] at hf
      have ho := hr.trans (Report.outcome_bind_of_ok hf)
      exact ⟨_, h.answers_of_ok ho, .parsed h.path (.read h.holds hspec hp)⟩

theorem exists_reply_layout (h : r.Posts "/api/layout" j) : ∃ a, Answers c r a ∧ Reply c r a := by
  cases hv : Schema.layoutRequest.validate (some j) with
  | error issues => exact h.exists_reply_of_error h.route_layout (by simp [posted]) hv
  | ok kept =>
    have ⟨given, k, hgiven, _, hkeep, _, kept', hv', hk, _⟩ :=
      Schema.exists_validate_layoutRequest (Schema.validate_eq_ok_iff.mp hv).left
    obtain rfl := Except.ok.inj (hv.symm.trans hv')
    have hb : Brings c r (.ofJson k) := .given h.holds hgiven hkeep
    have ha := h.answers_of_layout (c := c) (p := .ofJson k) hv (by rw [hk, Option.getD_some])
    cases hl : (Plan.ofJson k).layout (layoutOptions c kept) with
    | error e =>
      simp only [hl, (layoutRefused_of_layout hl).right] at ha
      exact ⟨_, ha, .refused (by simp [h.path]) hb rfl hl⟩
    | ok l =>
      simp only [hl] at ha
      exact ⟨_, ha, .laidOut h.path hb rfl hl⟩

theorem exists_reply_render (h : r.Posts "/api/render" j) : ∃ a, Answers c r a ∧ Reply c r a := by
  cases hv : Schema.renderRequest.validate (some j) with
  | error issues => exact h.exists_reply_of_error h.route_render (by simp [posted]) hv
  | ok kept =>
    have hdrawn {p : Plan} (hb : Brings c r p)
        (hp : (planFor (generatorFor c kept) kept).outcome = .ok (some p)) :
        ∃ a, Answers c r a ∧ Reply c r a := by
      have ⟨a, hd⟩ := exists_drawn (generatorFor c kept) p
      refine ⟨a, h.answers_of_drawn hv hp hd, ?_⟩
      cases hd with
      | svg hl hs => exact .drawn h.path hb cap_generatorFor hl hs
      | refused hl =>
        rw [(layoutRefused_of_layout hl).right]
        exact .refused (by simp [h.path]) hb cap_generatorFor hl
    obtain ⟨spec, hspec, hkept⟩ | ⟨hnone, given, k, hgiven, hkeep, hk⟩ :=
      Schema.source_of_validate hv
    case inr => exact hdrawn (.given h.holds hgiven hkeep) (planFor_plan hnone hk)
    case inl =>
      cases hp : Plan.ofSpec c.settings.defaultKind.toList spec.toList with
      | ok p    =>
        exact hdrawn (.read h.holds hspec hp)
          (planFor_spec hkept (defaultKind_generatorFor .. ▸ hp))
      | error e =>
        exact ⟨_, h.answers_of_unparsed hv hkept hp,
          .unparsed (by simp [h.path]) h.holds hspec hp⟩

theorem exists_reply (h : r.Posts path j) (hp : path ∈ posted.map (·.1)) :
    ∃ a, Answers c r a ∧ Reply c r a := by
  simp only [posted, List.map_cons, List.map_nil, List.mem_cons, List.not_mem_nil, or_false] at hp
  obtain rfl | rfl | rfl := hp
  case inl     => exact h.exists_reply_parse
  case inr.inl => exact h.exists_reply_layout
  case inr.inr => exact h.exists_reply_render

end Request.Posts

theorem isApi_of_mem (hp : r.path ∈ posted.map (·.1)) : r.isApi := by
  have ha : ∀ path ∈ posted.map (·.1), "/api/".isPrefixOf path := by decide +kernel
  simp [Request.isApi, ha r.path hp]

theorem outcome_route_of_not_holds (hm : r.method = "POST") (hp : r.path ∈ posted.map (·.1))
    (hb : ∀ f, r.body ≠ .broken f) (h : ∀ j, ¬r.Holds j) :
    (route c r).outcome = .error badJson := by
  simp only [posted, List.map_cons, List.map_nil, List.mem_cons, List.not_mem_nil, or_false] at hp
  obtain hp | hp | hp := hp <;> simp only [route, routeMethod, hm, hp] <;>
    exact Report.outcome_bind_of_error (outcome_receive_of_not_holds hb h)

-- Every document that is posted gets one of the replies, and so does every text that is none.
theorem exists_reply_of_post (c : Context) (hm : r.method = "POST")
    (hp : r.path ∈ posted.map (·.1)) (hb : ∀ f, r.body ≠ .broken f) :
    ∃ a, Answers c r a ∧ Reply c r a ∧
      ((r.path ≠ "/api/render" ∧ ∃ data info, a = .resource (some data) info) ∨
      (r.path = "/api/render" ∧ ∃ svg, a = .svg svg) ∨
      ∃ code status message details, (code, status) ∈ refusals ∧
        a = .error code message status details) := by
  suffices ∃ a, Answers c r a ∧ Reply c r a by
    have ⟨a, ha, hr⟩ := this
    exact ⟨a, ha, hr, hr.data_or_svg_or_refusal⟩
  have ha := answers_limitBody (c := c) hm
  unfold limitBody at ha
  split at ha
  case isTrue hl =>
    simp only [Bool.and_eq_true] at hl
    exact ⟨_, ha, .tooLarge hl.right⟩
  case isFalse hl =>
    by_cases h : ∃ j, r.Holds j
    case neg =>
      have h : ∀ j, ¬r.Holds j := not_exists.mp h
      rw [handle_of_error (outcome_route_of_not_holds hm hp hb h)] at ha
      exact ⟨_, ha, .unread h⟩
    case pos =>
      obtain ⟨j, text, hbody, hj⟩ := h
      have hsmall : r.isTooLarge = false := by
        simpa [isApi_of_mem hp, Request.hasBody, hbody] using hl
      exact Request.Posts.exists_reply ⟨hm, rfl, ⟨text, hbody, hj⟩, hsmall⟩ hp

-- A text that ends too early.
def cutPost : Request where
  method := "POST"
  path   := "/api/layout"
  body   := .text "\x7b\"plan\":"

theorem exists_reply_of_post_cut : cutPost.method = "POST" ∧ cutPost.path ∈ posted.map (·.1) ∧
    (∀ f, cutPost.body ≠ .broken f) ∧ ∃ a, Answers early cutPost a ∧ Reply early cutPost a := by
  have ⟨a, ha, hr, _⟩ := exists_reply_of_post early (r := cutPost) rfl (by decide) nofun
  exact ⟨rfl, by decide, nofun, a, ha, hr⟩

end LayeredDiagram.Service
