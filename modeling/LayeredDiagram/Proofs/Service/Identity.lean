import LayeredDiagram.Proofs.Log.Journal
import LayeredDiagram.Proofs.Log.Report
import LayeredDiagram.Service.Visit

namespace LayeredDiagram.Service

open Log (Event Journal Report)

-- One to 64 letters, digits, underscores and hyphens.
structure Request.IsId (id : String) : Prop where
  least : 1 ≤ id.toList.length
  most  : id.toList.length ≤ 64
  chars : ∀ c ∈ id.toList, c.isAlphanum ∨ c = '_' ∨ c = '-'

-- Everything that is reported while a request is handled.
inductive Reported (r : Request) : Event → Prop where
  | parsed (p : Plan) : Reported r (Generator.parsed p)
  | laidOut (l : Layout Float) : Reported r (Plan.laidOut l)
  | rejected (e : LayoutError) : Reported r (Plan.rejected e)
  | rendered (p : Plan) (svg : String) : Reported r (Service.rendered p svg)
  | layoutRejected (e : LayoutError) : Reported r (Service.layoutRejected e)
  | unexpected (f : Fault) : Reported r (Service.unexpected r f)
  | completed (status : Nat) : Reported r (Service.completed r status)

variable {c : Context} {r : Request} {s : Schema} {f : Fault} {e : Event} {id : String}

theorem Reported.isUnbound (h : Reported r e) : e.IsUnbound := by
  cases h <;> rfl

section Events

theorem says_receive : (receive s r).Says (Reported r) := by
  refine Report.Says.bind ?_ fun _ => ?_
  case refine_1 =>
    unfold readJson
    split
    case h_1 => exact Report.says_fail
    case h_2 => exact Report.says_fail
    case h_3 => split <;> [exact Report.says_pure; exact Report.says_fail]
  case refine_2 =>
    unfold requireValid
    split <;> [exact Report.says_pure; exact Report.says_fail]

theorem says_parseSpec {g : Generator} {spec : String} : (g.parse spec).Says (Reported r) :=
  Report.says_ofExcept.bind fun p => (Report.says_say (.parsed p)).bind fun _ => Report.says_pure

theorem says_parse : (parse c r).Says (Reported r) :=
  says_receive.bind fun _ => says_parseSpec.bind fun _ => Report.says_pure

theorem reported_tryLayout {p : Plan} {o : LayoutOptions} (he : e ∈ (p.tryLayout o).1) :
    Reported r e := by
  unfold Plan.tryLayout at he
  split at he
  case h_1 => exact List.mem_singleton.mp he ▸ .laidOut _
  case h_2 => exact List.mem_singleton.mp he ▸ .rejected _

theorem says_layout : (layout c r).Says (Reported r) :=
  says_receive.bind fun _ _ he => reported_tryLayout he

theorem says_draw {g : Generator} {p : Plan} : (g.draw p).Says (Reported r) :=
  Report.says_ofExcept.bind fun _ => Report.says_ofExcept

theorem says_planFor {g : Generator} {request : Json} : (planFor g request).Says (Reported r) := by
  unfold planFor
  split
  case h_1 => exact says_parseSpec.bind fun _ => Report.says_pure
  case h_2 => exact Report.says_pure

theorem says_render : (render c r).Says (Reported r) := by
  refine says_receive.bind fun request => says_planFor.bind fun p? => ?_
  cases p? with
  | none   => exact Report.says_pure
  | some p =>
    exact says_draw.bind fun svg =>
      (Report.says_say (.rendered p svg)).bind fun _ => Report.says_pure

theorem says_route : (route c r).Says (Reported r) := by
  unfold route
  split
  case h_1 => exact Report.says_pure
  case h_2 => exact says_parse
  case h_3 => exact says_layout
  case h_4 => exact says_render
  case h_5 => exact Report.says_pure

theorem reported_recover (he : e ∈ (recover c r f).1) : Reported r e := by
  unfold recover at he
  split at he
  all_goals simp only [List.not_mem_nil, List.mem_singleton] at he
  case h_3 => exact he ▸ .layoutRejected _
  case h_5 => exact he ▸ .unexpected _
  case h_6 => exact he ▸ .unexpected _

theorem reported_handle (he : e ∈ (handle c r).1) : Reported r e := by
  have hroute := says_route (c := c) (r := r)
  simp only [handle] at he
  split at he
  case h_1 => exact hroute e he
  case h_2 => exact (List.mem_append.mp he).elim (hroute e) reported_recover

theorem reported_limitBody (he : e ∈ (limitBody c r).1) : Reported r e := by
  unfold limitBody at he
  split at he
  case isTrue  => nomatch he
  case isFalse => exact reported_handle he

theorem reported_shareOrigins (he : e ∈ (shareOrigins c r).1) : Reported r e := by
  unfold shareOrigins at he
  split at he
  case isFalse => exact reported_limitBody he
  case isTrue  =>
    dsimp only at he
    split at he
    case isTrue  => nomatch he
    case isFalse => exact reported_limitBody he

theorem reported_respond (he : e ∈ (respond c r).events) : Reported r e := by
  obtain he | he := List.mem_append.mp he
  case inl => exact reported_shareOrigins he
  case inr => exact List.mem_singleton.mp he ▸ .completed _

end Events

theorem isRequestId_iff : Request.isRequestId id ↔ Request.IsId id := by
  simp only [Request.isRequestId, Text.isIdentifier, Bool.and_eq_true, Bool.not_eq_true',
    List.isEmpty_eq_false_iff, decide_eq_true_eq, List.all_eq_true, Text.isName, Text.isWord,
    Bool.or_eq_true, beq_iff_eq, or_assoc]
  constructor
  case mp  => exact fun ⟨⟨hne, hc⟩, hm⟩ => ⟨List.length_pos_iff.mpr hne, hm, hc⟩
  case mpr => exact fun h => ⟨⟨List.length_pos_iff.mp h.least, h.chars⟩, h.most⟩

theorem Token.isId (t : Token) : Request.IsId t.requestId := by
  have hlist : t.requestId.toList = "req-".toList ++ t.text.toList := String.toList_append
  have hlen : t.requestId.toList.length = 16 := by
    rw [hlist, List.length_append, t.length_eq]
    rfl
  have hall : t.requestId.toList.all Text.isName := by
    rw [hlist, List.all_append, t.isName]
    rfl
  rw [← isRequestId_iff, Request.isRequestId, Text.isIdentifier, hall, hlen, hlist]
  rfl

-- The identifier of an answer, and where it comes from.
structure Identified (r : Request) (t : Token) (x : Exchange) : Prop where
  named     : x.response.headers.get? "x-request-id" = some x.id
  isId      : Request.IsId x.id
  own       : ∀ id, r.header? "X-Request-Id" = some id → Request.IsId id → x.id = id
  generated : (∀ id, r.header? "X-Request-Id" = some id → ¬Request.IsId id) →
    x.id = "req-" ++ t.text

variable {v : Visit}

-- Both headers are set last, and a request for the headers alone gets them as well.
theorem headers_respond : (respond c r).response.headers = (shareOrigins c r).2.headers.merge
    [("x-request-id", r.idOr c.generatedId), ("x-response-time", elapsedHeader c.elapsed)] := by
  unfold respond deliver
  dsimp only
  split <;> rfl

theorem get?_requestId :
    (respond c r).response.headers.get? "x-request-id" = some (r.idOr c.generatedId) := by
  rw [headers_respond]
  simp [Record.merge, Record.get?_put]

theorem get?_responseTime :
    (respond c r).response.headers.get? "x-response-time" = some (elapsedHeader c.elapsed) := by
  rw [headers_respond]
  simp [Record.merge, Record.get?_put]

theorem identified_exchange (v : Visit) : Identified v.request v.token v.exchange := by
  have hid : v.exchange.id = v.request.idOr v.token.requestId := rfl
  have hown (id : String) (hh : v.request.header? "X-Request-Id" = some id)
      (hi : Request.IsId id) : v.exchange.id = id := by
    rw [hid, Request.idOr, hh, Option.filter_some, if_pos (isRequestId_iff.mpr hi),
      Option.getD_some]
  have hgenerated (hn : ∀ id, v.request.header? "X-Request-Id" = some id → ¬Request.IsId id) :
      v.exchange.id = v.token.requestId := by
    rw [hid, Request.idOr]
    cases hh : v.request.header? "X-Request-Id" with
    | none    => rfl
    | some id =>
      rw [Option.filter_some, if_neg (mt isRequestId_iff.mp (hn id hh)), Option.getD_none]
  refine ⟨get?_requestId, ?_, hown, hgenerated⟩
  by_cases h : ∃ id, v.request.header? "X-Request-Id" = some id ∧ Request.IsId id
  case pos =>
    have ⟨id, hh, hi⟩ := h
    exact hown id hh hi ▸ hi
  case neg =>
    have hn := hgenerated fun id hh hi => h ⟨id, hh, hi⟩
    exact hn ▸ v.token.isId

theorem exchange_id_ne (v : Visit) : v.exchange.id ≠ "" := by
  intro h
  have hl := (identified_exchange v).isId.least
  rw [h] at hl
  exact absurd hl (by decide)

-- What the log answers while requests are served: each of them has lines of its own, and all of
-- them carry its identifier.
inductive Served (ambient : Option String) :
    Log.Session → List Visit → List Log.Answer → Prop where
  | nil {s : Log.Session} : Served ambient s [] []
  | cons {s t : Log.Session} {v : Visit} {vs : List Visit} {before after : List Log.Answer}
    {lines : List Log.Line} (hb : s.runSteps ambient v.before = (t, before))
    (own : ∀ line ∈ lines, t.journal.Carries v.exchange.id line)
    (rest : Served ambient t vs after) :
    Served ambient s (v :: vs) (before ++ (.handling v.scope 0 :: .lines lines :: .left :: after))

theorem carries_of_mem_lines {j : Journal} {line : Log.Line}
    (h : line ∈ j.lines (some v.exchange.id) v.exchange.events) : j.Carries v.exchange.id line :=
  Log.carries_of_mem_lines (fun _ he => (reported_respond he).isUnbound) (exchange_id_ne v) h

theorem runSteps_steps (ambient : Option String) (s : Log.Session) (v : Visit) :
    s.runSteps ambient v.steps =
      let (t, before) := s.runSteps ambient v.before
      (t, before ++ [.handling v.scope 0,
        .lines (t.journal.lines (some v.exchange.id) v.exchange.events), .left]) := by
  rw [Visit.steps, Log.Session.runSteps_append]
  simp [Log.Session.runSteps, Log.Session.runStep, Visit.scope]

theorem served_serve (ambient : Option String) (s : Log.Session) (visits : List Visit) :
    Served ambient s visits (serve ambient s visits).2 := by
  induction visits generalizing s with
  | nil => exact .nil
  | cons v vs hi =>
    have hs : (serve ambient s (v :: vs)).2 =
        (s.runSteps ambient v.steps).2 ++ (serve ambient (s.runSteps ambient v.steps).1 vs).2 := by
      rw [serve, List.flatMap_cons, Log.Session.runSteps_append]
      rfl
    rw [hs, runSteps_steps, List.append_assoc]
    exact .cons rfl (fun _ => carries_of_mem_lines) (hi _)

-- Whatever is asked for, and however it ends.
theorem serve_identified (ambient : Option String) (s : Log.Session) (visits : List Visit) :
    (∀ v ∈ visits, Identified v.request v.token v.exchange ∧
      v.exchange.response.headers.get? "x-response-time" = some (elapsedHeader v.elapsed)) ∧
    Served ambient s visits (serve ambient s visits).2 :=
  ⟨fun v _ => ⟨identified_exchange v, get?_responseTime⟩, served_serve ambient s visits⟩

section Visits

def token : Token where
  text      := "V1StGXR8_Z5j"
  length_eq := by decide
  isName    := by decide

-- A body is missing, but the request has a name.
def named : Visit where
  request := { method := "POST", path := "/api/parse", headers := [("X-Request-Id", " trace-1 ")] }
  token   := token

-- What it brings is no identifier, and nothing is asked for but permission.
def unnamed : Visit where
  request :=
    { method := "OPTIONS", path := "/api/render", headers := [("X-Request-Id", "no name")] }
  token   := token

def verbose : Log.Session :=
  { journal := { threshold := .debug, timestamp := "now" } }

theorem serve_identified_named : named ∈ [named, unnamed] ∧ unnamed ∈ [named, unnamed] ∧
    named.exchange.response.headers.get? "x-request-id" = some "trace-1" ∧
    unnamed.exchange.response.headers.get? "x-request-id" = some "req-V1StGXR8_Z5j" ∧
    Served none verbose [named, unnamed] (serve none verbose [named, unnamed]).2 := by
  have ⟨hvisits, hserved⟩ := serve_identified none verbose [named, unnamed]
  have hm : named ∈ [named, unnamed] := List.mem_cons_self
  have hm' : unnamed ∈ [named, unnamed] := List.mem_cons_of_mem _ List.mem_cons_self
  have ⟨hnamed, _⟩ := hvisits named hm
  have ⟨hunnamed, _⟩ := hvisits unnamed hm'
  have hid : named.exchange.id = "trace-1" :=
    hnamed.own _ (by decide +kernel) (isRequestId_iff.mp (by decide))
  have hid' : unnamed.exchange.id = "req-V1StGXR8_Z5j" := hunnamed.generated fun id hh => by
    have hs : unnamed.request.header? "X-Request-Id" = some "no name" := by decide +kernel
    obtain rfl := Option.some.inj (hs.symm.trans hh)
    exact mt isRequestId_iff.mpr (by decide)
  exact ⟨hm, hm', hid ▸ hnamed.named, hid' ▸ hunnamed.named, hserved⟩

end Visits

end LayeredDiagram.Service
