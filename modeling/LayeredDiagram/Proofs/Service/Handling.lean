import LayeredDiagram.Proofs.Figure.Outcome
import LayeredDiagram.Proofs.Text.Half
import LayeredDiagram.Service.Basic

namespace LayeredDiagram

namespace Service

open Log (Report)

-- A document that is posted to a path, and is not too large.
structure Request.Posts (r : Request) (path : String) (j : Json) : Prop where
  method : r.method = "POST"
  path   : r.path = path
  body   : ∃ text, r.body = .text text ∧ Json.parse? (withoutMark text) = some j
  small  : r.isTooLarge = false

structure Answers (c : Context) (r : Request) (a : Response) : Prop where
  status : (respond c r).response.status = a.status
  body   : (respond c r).response.body = a.body

variable {c : Context} {r : Request} {path : String} {j kept : Json} {a : Response} {f : Fault}
variable {s : Schema}

theorem handle_of_ok (h : (route c r).outcome = .ok a) : (handle c r).2 = a := by
  simp [handle, h]

theorem handle_of_error (h : (route c r).outcome = .error f) :
    (handle c r).2 = (recover c r f).2 := by
  simp [handle, h]

-- What surrounds a posted request changes neither.
theorem answers_limitBody (h : r.method = "POST") : Answers c r (limitBody c r).2 := by
  have hs : (shareOrigins c r).2.status = (limitBody c r).2.status ∧
      (shareOrigins c r).2.body = (limitBody c r).2.body := by
    have hm : (r.method == "OPTIONS") = false := by simp [h]
    rw [shareOrigins, hm]
    split <;> exact ⟨rfl, rfl⟩
  constructor
  case status => simpa [respond, deliver, h, Response.setHeaders] using hs.left
  case body   => simpa [respond, deliver, h, Response.setHeaders] using hs.right

namespace Request.Posts

theorem answers_handle (h : r.Posts path j) : Answers c r (handle c r).2 := by
  have hl : limitBody c r = handle c r := by simp [limitBody, h.small]
  exact hl ▸ answers_limitBody h.method

theorem answers_of_ok (h : r.Posts path j) (ho : (route c r).outcome = .ok a) : Answers c r a :=
  handle_of_ok ho ▸ h.answers_handle

theorem answers_of_error (h : r.Posts path j) (ho : (route c r).outcome = .error f) :
    Answers c r (recover c r f).2 :=
  handle_of_error ho ▸ h.answers_handle

theorem of_text {text : String} (hj : Json.parse? (withoutMark text) = some j)
    (hh : text.toList.any Text.isHalf = false) (hs : text.utf8ByteSize ≤ maxBodyBytes) :
    Posts { method := "POST", path, body := .text text } path j where
  method := rfl
  path   := rfl
  body   := ⟨text, rfl, hj⟩
  small  := by simpa [isTooLarge, header?, bodyBytes, Text.toCharacters_of_any hh] using hs

theorem outcome_readJson (h : r.Posts path j) : (readJson r).outcome = .ok j := by
  obtain ⟨text, hb, hp⟩ := h.body
  rw [readJson, hb]
  dsimp only
  rw [hp]
  rfl

theorem outcome_receive (h : r.Posts path j) (hv : s.validate (some j) = .ok kept) :
    (receive s r).outcome = .ok kept := by
  rw [receive, Report.outcome_bind_of_ok h.outcome_readJson, requireValid, hv]
  rfl

theorem route_parse (h : r.Posts "/api/parse" j) : route c r = parse c r := by
  simp [route, routeMethod, h.method, h.path]

theorem route_layout (h : r.Posts "/api/layout" j) : route c r = layout c r := by
  simp [route, routeMethod, h.method, h.path]

theorem route_render (h : r.Posts "/api/render" j) : route c r = render c r := by
  simp [route, routeMethod, h.method, h.path]

end Request.Posts

-- How a plan is answered that this generator is to draw.
inductive Drawn (g : Generator) (p : Plan) : Response → Prop where
  | svg {l : Layout Float} {svg : String} (layout : g.layout p = .ok l)
    (drawing : g.render l p.title = .ok svg) : Drawn g p (.svg svg)
  | refused {e : LayoutError} (layout : g.layout p = .error e) : Drawn g p (layoutRefused e)

theorem exists_drawn (g : Generator) (p : Plan) : ∃ a, Drawn g p a := by
  cases hl : g.layout p with
  | error e => exact ⟨_, .refused hl⟩
  | ok l    =>
    have ⟨_, hs⟩ := Generator.exists_render hl
    exact ⟨_, .svg hl hs⟩

-- The options that a plan is laid out with where it is not to be drawn.
def layoutOptions (c : Context) (request : Json) : LayoutOptions :=
  { width := (canvas? request).map (·.width), height := (canvas? request).map (·.height),
    cap := c.settings.cap }

namespace Request.Posts

variable {p : Plan}

theorem answers_of_layout (hr : r.Posts "/api/layout" j)
    (hv : Schema.layoutRequest.validate (some j) = .ok kept)
    (hp : Plan.ofJson ((kept.get? "plan").getD .null) = p) :
    Answers c r (match p.layout (layoutOptions c kept) with
      | .ok l => .resource (some l.toJson) (some [("durationMs", .num c.elapsed)])
      | .error e => layoutRefused e) := by
  apply hr.answers_of_ok
  rw [hr.route_layout, layout, Report.outcome_bind_of_ok (hr.outcome_receive hv)]
  simp only [hp, Plan.tryLayout, layoutOptions]
  generalize p.layout _ = result
  cases result <;> rfl

theorem answers_of_drawn (hr : r.Posts "/api/render" j)
    (hv : Schema.renderRequest.validate (some j) = .ok kept)
    (hp : (planFor (generatorFor c kept) kept).outcome = .ok (some p))
    (ha : Drawn (generatorFor c kept) p a) : Answers c r a := by
  have ho : (route c r).outcome = ((generatorFor c kept).draw p).outcome.map Response.svg := by
    rw [hr.route_render, render, Report.outcome_bind_of_ok (hr.outcome_receive hv),
      Report.outcome_bind_of_ok hp, Report.outcome_bind]
    cases ((generatorFor c kept).draw p).outcome <;> rfl
  cases ha with
  | svg hl hs =>
    rw [Generator.outcome_draw_of_ok hl hs] at ho
    exact hr.answers_of_ok ho
  | refused hl =>
    rw [Generator.outcome_draw_of_error hl] at ho
    exact hr.answers_of_error ho

end Request.Posts

end Service

end LayeredDiagram
