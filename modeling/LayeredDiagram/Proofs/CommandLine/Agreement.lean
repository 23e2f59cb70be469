import LayeredDiagram.Proofs.CommandLine.Folder
import LayeredDiagram.Proofs.CommandLine.Run
import LayeredDiagram.Proofs.Service.Agreement

namespace LayeredDiagram.CommandLine

open Service

variable {c : Context} {r : Request} {j size kept : Json} {folder : Folder}
  {args rest : List String} {path out w h text : String}

theorem generator_eq_generatorFor {o : Options} (hc : canvas? kept = some ⟨o.width, o.height⟩)
    (hs : kept.get? "styles" = none) : o.generator c.settings = generatorFor c kept := by
  rw [generatorFor, hc, hs]
  rfl

-- How a run ends and the request is answered.
inductive EndsAlike (c : Context) (r : Request) (folder : Folder) (out : String) :
    Nat × Desk → Prop where
  | saved {svg : String} {desk : Desk} (answer : Answers c r (.svg svg))
    (written : folder.write out (Text.mended svg) = .ok desk.folder)
    (quiet : desk.complaints = []) : EndsAlike c r folder out (0, desk)
  | failed {code message : String} {status : Nat} {details : Option Json} {desk : Desk}
    (answer : Answers c r (.error code message status details)) (refused : status ≠ 200)
    (untouched : desk.folder = folder) (complaint : desk.complaints = ["Error: " ++ message]) :
    EndsAlike c r folder out (1, desk)

section Runs

variable {o : Options} {f : Fault} {svg code message : String} {status : Nat}
  {details : Option Json}

theorem complaints_log {folder : Folder} {events : List Log.Event} {said : List Utterance} :
    Desk.complaints ⟨folder, events.map .log ++ said⟩ = said.filterMap Utterance.complaint? := by
  simp [Desk.complaints, List.filterMap_map, Function.comp_def, Utterance.complaint?]

theorem endsAlike_of_error (ho : Options.ofArgs args = .ok o) (hr : folder.read o.spec = .ok text)
    (hg : ((o.generator c.settings).generate text).outcome = .error f)
    (ha : Answers c r (.error code f.message status details)) (hs : status ≠ 200) :
    EndsAlike c r folder o.out (runIn folder c.settings args) := by
  rw [runIn_of_error ho hr hg]
  exact .failed ha hs rfl complaints_log

theorem endsAlike_of_ok (ho : Options.ofArgs args = .ok o) (hr : folder.read o.spec = .ok text)
    (hg : ((o.generator c.settings).generate text).outcome = .ok svg)
    (hw : ∃ after, folder.write o.out svg = .ok after) (ha : Answers c r (.svg svg)) :
    EndsAlike c r folder o.out (runIn folder c.settings args) := by
  have ⟨after, hw⟩ := hw
  rw [runIn_of_ok ho hr hg hw]
  exact .saved ha (Folder.write_mended hw) complaints_log

end Runs

-- Whatever the document is, both read it alike, and draw or refuse its plan alike.
theorem endsAlike_runIn {o : Options} (ho : Options.ofArgs args = .ok o)
    (hread : folder.read o.spec = .ok text)
    (hwrite : ∀ svg, ∃ after, folder.write o.out svg = .ok after)
    (hr : r.Posts "/api/render" j) (hv : Schema.renderRequest.validate (some j) = .ok kept)
    (hs : kept.get? "spec" = some (.str text)) (hg : o.generator c.settings = generatorFor c kept) :
    EndsAlike c r folder o.out (runIn folder c.settings args) := by
  have hk : (o.generator c.settings).defaultKind = c.settings.defaultKind := rfl
  cases hp : Plan.ofSpec c.settings.defaultKind.toList text.toList with
  | error e =>
    have hgen := Generator.outcome_generate_of_error (hk.symm ▸ hp)
    exact endsAlike_of_error ho hread hgen (hr.answers_of_unparsed hv hs hp) (by decide)
  | ok p =>
    have hgen := Generator.outcome_generate_of_ok (hk.symm ▸ hp)
    have hplan : (planFor (generatorFor c kept) kept).outcome = .ok (some p) :=
      planFor_spec hs (defaultKind_generatorFor c kept ▸ hp)
    have ⟨a, hd⟩ := exists_drawn (generatorFor c kept) p
    have ha := hr.answers_of_drawn hv hplan hd
    rw [← hg] at hd
    cases hd with
    | svg hl hsvg =>
      exact endsAlike_of_ok ho hread (hgen.trans (Generator.outcome_draw_of_ok hl hsvg))
        (hwrite _) ha
    | refused hl =>
      rw [(layoutRefused_of_layout hl).right] at ha
      exact endsAlike_of_error ho hread (hgen.trans (Generator.outcome_draw_of_error hl)) ha
        (by decide)

-- A document in a file and in a request, with one size in each way of writing it.
theorem run_as_render
    (hargs : Arguments.ofArgs args = .ok ⟨path :: rest, some out, some w, some h⟩)
    (hread : folder.read path = .ok text)
    (hwrite : ∀ svg, ∃ after, folder.write out svg = .ok after)
    (hu : 1 ≤ text.units ∧ text.units ≤ 200000)
    (hx : IsLength (Number.whole w.toList)) (hy : IsLength (Number.whole h.toList))
    (hr : r.Posts "/api/render" j) (hj : j.Asks (some text) none (some size) none)
    (hw : size.get? "width" = some (.num (Number.whole w.toList)))
    (hh : size.get? "height" = some (.num (Number.whole h.toList))) :
    ∃ exit desk, runIn folder c.settings args = (exit, desk) ∧
      (exit = 0 ↔ (respond c r).response.status = 200) ∧
      ((exit = 0 ∧ (∃ svg, Answers c r (.svg svg)) ∧
        folder.write out (respond c r).response.body = .ok desk.folder ∧
        (Folder.place out ≠ .sink → desk.folder.read out = .ok (respond c r).response.body) ∧
        desk.complaints = []) ∨
      exit = 1 ∧ desk.folder = folder ∧ ∃ code message status details,
        Answers c r (.error code message status details) ∧
        desk.complaints = ["Error: " ++ message]) := by
  have ⟨_, hout⟩ := hwrite ""
  have ho := Options.ofArgs_eq_ok hargs (Folder.ne_empty_of_read hread)
    (Folder.ne_empty_of_write hout) hx hy
  have hs : ∀ s, some text = some s → 1 ≤ s.units ∧ s.units ≤ 200000 := by
    rintro _ ⟨⟩
    exact hu
  have ⟨kept, hv, hasks⟩ := Schema.exists_validate_renderRequest hj hs
    Schema.accepts_optional_none
    (Schema.accepts_optional_some.mpr (Schema.accepts_canvas hw hh hx hy))
    Schema.accepts_optional_none nofun
  have ⟨canvas, hcanvas, hwidth, hheight⟩ := Schema.exists_keep?_canvas hw hh hx hy
  rw [Schema.keep?_optional_some, hcanvas, Schema.keep?_optional_none] at hasks
  have hsize : canvas? kept = some ⟨Number.whole w.toList, Number.whole h.toList⟩ := by
    rw [canvas?, hasks.canvas, Option.map_some, Json.number, Json.number, hwidth, hheight]
    rfl
  have hg := generator_eq_generatorFor (c := c) (o := ⟨path, out, _, _⟩) hsize hasks.styles
  have hends := endsAlike_runIn (c := c) ho hread hwrite hr hv hasks.spec hg
  generalize runIn folder c.settings args = result at hends
  cases hends with
  | @saved svg desk answer written quiet =>
    have hbody : (respond c r).response.body = Text.mended svg := answer.body
    refine ⟨0, desk, rfl, iff_of_true rfl answer.status, .inl ⟨rfl, ⟨svg, answer⟩, ?_, ?_, quiet⟩⟩
    case refine_1 => rw [hbody, written]
    case refine_2 =>
      intro hp
      rw [hbody, Folder.read_of_write written hp, Text.mended_mended]
  | failed answer refused untouched complaint =>
    have hne : (respond c r).response.status ≠ 200 := answer.status.symm ▸ refused
    exact ⟨1, _, rfl, iff_of_false (by decide) hne,
      .inr ⟨rfl, untouched, _, _, _, _, answer, complaint⟩⟩

section Box

def boxFolder : Folder where
  files := [({ names := ["box.md"] }, boxSpec)]

-- The width is written in another way than in the request.
def boxArgs : List String :=
  ["box.md", "--out", "box.svg", "--width", " 3e2", "--height=200.5"]

def boxAsked : Json :=
  .obj [("spec", .str boxSpec), ("canvas", boxSize)]

def boxPost : Request where
  method := "POST"
  path   := "/api/render"
  body   := .text ("\x7b\"spec\":\"## Nodes\\n- a | | io\",\"canvas\":" ++ boxSizeText ++ "\x7d")

set_option maxRecDepth 4000 in
theorem posts_boxPost : boxPost.Posts "/api/render" boxAsked :=
  .of_text (by rfl) (by decide +kernel) (by decide +kernel)

theorem read_box : boxFolder.read "box.md" = .ok boxSpec :=
  Folder.read_of_isName (by constructor <;> decide +kernel) rfl rfl

theorem exists_write_box (svg : String) : ∃ after, boxFolder.write "box.svg" svg = .ok after :=
  Folder.exists_write_of_isName (by constructor <;> decide +kernel) rfl svg

theorem ofArgs_box : Arguments.ofArgs boxArgs =
    .ok ⟨["box.md"], some "box.svg", some " 3e2", some "200.5"⟩ := by
  decide +kernel

theorem width_box : Number.whole " 3e2".toList = 300 := by
  decide +kernel

theorem height_box : Number.whole "200.5".toList = 200.5 := by
  decide +kernel

theorem run_as_render_box :
    Arguments.ofArgs boxArgs = .ok ⟨["box.md"], some "box.svg", some " 3e2", some "200.5"⟩ ∧
    boxFolder.read "box.md" = .ok boxSpec ∧ boxPost.Posts "/api/render" boxAsked ∧
    ∃ exit desk, runIn boxFolder early.settings boxArgs = (exit, desk) ∧
      (exit = 0 ↔ (respond early boxPost).response.status = 200) := by
  have hx : IsLength (Number.whole " 3e2".toList) := by
    rw [width_box]
    exact ⟨by decide, by decide⟩
  have hy : IsLength (Number.whole "200.5".toList) := by
    rw [height_box]
    exact ⟨by decide, by decide⟩
  have hw : boxSize.get? "width" = some (.num (Number.whole " 3e2".toList)) := by
    rw [width_box]
    rfl
  have hh : boxSize.get? "height" = some (.num (Number.whole "200.5".toList)) := by
    rw [height_box]
    rfl
  have ⟨exit, desk, h, hexit, _⟩ := run_as_render (c := early) ofArgs_box read_box exists_write_box
    (by decide) hx hy posts_boxPost ⟨rfl, rfl, rfl, rfl⟩ hw hh
  exact ⟨ofArgs_box, read_box, posts_boxPost, exit, desk, h, hexit⟩

end Box

end LayeredDiagram.CommandLine
