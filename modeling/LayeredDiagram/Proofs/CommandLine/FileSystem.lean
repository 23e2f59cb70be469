import LayeredDiagram.Proofs.CommandLine.Folder
import LayeredDiagram.Proofs.CommandLine.Options
import LayeredDiagram.Proofs.Figure.Outcome

namespace LayeredDiagram.CommandLine

open Log (Event)

-- Files as the command comes upon them. What can be read or written, and which file it is, depends
-- on the state of all of them.
structure FileSystem where
  State    : Type
  File     : Type
  read     : State → String → Except FileError String
  write    : State → String → String → Except FileError State
  -- The file that a path leads to; none where nothing that is written is kept.
  file?    : State → String → Option File
  content? : State → File → Option String
  content?_write {s s' : State} {path text : String} {f : File} :
    write s path text = .ok s' → file? s path = some f → content? s' f = some (Text.mended text)
  content?_write_of_ne {s s' : State} {path text : String} {f : File} :
    write s path text = .ok s' → file? s path ≠ some f → content? s' f = content? s f

-- The sink is at a place of its own, but it is no file.
def Folder.fileSystem : FileSystem where
  State    := Folder
  File     := Place
  read     := Folder.read
  write    := Folder.write
  file? _ path := if Folder.place path = .sink then none else some (Folder.place path)
  content? := Folder.content?
  content?_write hw hf := by
    split_ifs at hf with hs
    rw [← Option.some.inj hf, ← Folder.write_eq_put hw, Folder.content?_put hs]
  content?_write_of_ne hw hf := by
    rw [← Folder.write_eq_put hw]
    split_ifs at hf with hs
    case pos => rw [hs, Folder.put_sink]
    case neg => exact Folder.content?_put_of_ne fun he => hf (congrArg some he.symm)

namespace Utterance

def printed? : Utterance → Option String
  | .stdout line => some line
  | _            => none

def complaint? : Utterance → Option String
  | .stderr line => some line
  | _            => none

end Utterance

namespace FileSystem

variable {F : FileSystem}

structure Session (F : FileSystem) where
  state      : F.State
  transcript : List Utterance := []

namespace Session

def printed (d : F.Session) : List String :=
  d.transcript.filterMap Utterance.printed?

def complaints (d : F.Session) : List String :=
  d.transcript.filterMap Utterance.complaint?

def hear (u : Utterance) : StateM F.Session Unit :=
  modify fun d => { d with transcript := d.transcript ++ [u] }

def write (path text : String) : StateM F.Session (Except FileError Unit) := do
  let d ← get
  match F.write d.state path text with
  | .error e => return .error e
  | .ok state =>
    set { d with state }
    return .ok ()

end Session

def host (F : FileSystem) : Host (StateM F.Session) where
  read path := do return F.read (← get).state path
  write     := Session.write
  stdout    := Session.hear ∘ .stdout
  stderr    := Session.hear ∘ .stderr
  log       := Session.hear ∘ .log

-- One run of the command: its exit code, what it said, and the files after it.
def run (F : FileSystem) (start : F.State) (s : Settings) (args : List String) : Nat × F.Session :=
  (CommandLine.run F.host s args).run { state := start }

-- What is said about a fault, and what has been said before the drawing is done or has failed.
def refusal (o : Options) (f : Fault) : List Utterance :=
  [.log (failed o f), .stderr ("Error: " ++ f.message)]

def reports (s : Settings) (o : Options) (text : String) : List Utterance :=
  ((o.generator s).generate text).events.map .log

variable {start after : F.State} {s : Settings} {args : List String} {o : Options} {d : F.Session}
  {events : List Event} {complaint text svg : String} {e : FileError} {f : Fault}

theorem run_forM_log : (events.forM F.host.log).run d =
    ((), { d with transcript := d.transcript ++ events.map .log }) := by
  induction events generalizing d with
  | nil => rw [List.map_nil, List.append_nil]; rfl
  | cons event events hi =>
    have hc : ((event :: events).forM F.host.log).run d =
        (events.forM F.host.log).run { d with transcript := d.transcript ++ [.log event] } := rfl
    rw [hc, hi, List.map_cons, List.append_assoc]
    rfl

theorem run_of_misused (ho : Options.ofArgs args = .error complaint) :
    F.run start s args = (1, ⟨start, [.stderr complaint, .stderr usage]⟩) := by
  simp only [run, CommandLine.run, ho]
  rfl

theorem run_of_read (ho : Options.ofArgs args = .ok o) : F.run start s args =
    (match F.read start o.spec with
      | .error e => fail F.host o (fileFault e)
      | .ok text => draw F.host s o text).run { state := start } := by
  simp only [run, CommandLine.run, ho]
  rfl

theorem run_of_unread (ho : Options.ofArgs args = .ok o) (hr : F.read start o.spec = .error e) :
    F.run start s args = (1, ⟨start, refusal o (fileFault e)⟩) := by
  rw [run_of_read ho, hr]
  rfl

theorem run_draw : (draw F.host s o text).run { state := start } =
    (match ((o.generator s).generate text).outcome with
      | .error f => fail F.host o f
      | .ok svg => save F.host o svg).run ⟨start, reports s o text⟩ := by
  rw [draw, StateT.run_bind, run_forM_log]
  rfl

theorem run_of_undrawn (ho : Options.ofArgs args = .ok o) (hr : F.read start o.spec = .ok text)
    (hg : ((o.generator s).generate text).outcome = .error f) :
    F.run start s args = (1, ⟨start, reports s o text ++ refusal o f⟩) := by
  rw [run_of_read ho, hr, run_draw, hg, refusal, List.append_cons]
  rfl

theorem run_save : (save F.host o svg).run d =
    (match F.write d.state o.out svg with
      | .error e => (1, { d with transcript := d.transcript ++ refusal o (fileFault e) })
      | .ok after => (0, ⟨after, d.transcript ++ [.stdout ("Saved SVG to " ++ o.out)]⟩)) := by
  rw [save, StateT.run_bind]
  change ((Session.write o.out svg).run d >>= _) = _
  cases hw : F.write d.state o.out svg with
  | error e =>
    have hd : (Session.write o.out svg).run d = (.error e, d) := by
      simp [Session.write, hw]
      rfl
    rw [hd]
    dsimp only
    rw [refusal, List.append_cons]
    rfl
  | ok after =>
    have hd : (Session.write o.out svg).run d = (.ok (), { d with state := after }) := by
      simp [Session.write, hw]
      rfl
    rw [hd]
    rfl

theorem run_of_unwritten (ho : Options.ofArgs args = .ok o) (hr : F.read start o.spec = .ok text)
    (hg : ((o.generator s).generate text).outcome = .ok svg)
    (hw : F.write start o.out svg = .error e) :
    F.run start s args = (1, ⟨start, reports s o text ++ refusal o (fileFault e)⟩) := by
  simp only [run_of_read ho, hr, run_draw, hg, run_save, hw]

theorem run_of_saved (ho : Options.ofArgs args = .ok o) (hr : F.read start o.spec = .ok text)
    (hg : ((o.generator s).generate text).outcome = .ok svg)
    (hw : F.write start o.out svg = .ok after) : F.run start s args =
      (0, ⟨after, reports s o text ++ [.stdout ("Saved SVG to " ++ o.out)]⟩) := by
  simp only [run_of_read ho, hr, run_draw, hg, run_save, hw]

-- How a run ends. One that does not end well has not written anything, for the drawing is written
-- last and in one piece.
inductive Ends (F : FileSystem) (start : F.State) (s : Settings) (args : List String) :
    Nat × F.Session → Prop where
  | misused {complaint : String} (ho : Options.ofArgs args = .error complaint) :
    Ends F start s args (1, ⟨start, [.stderr complaint, .stderr usage]⟩)
  | unread {o : Options} {e : FileError} (ho : Options.ofArgs args = .ok o)
    (hr : F.read start o.spec = .error e) :
    Ends F start s args (1, ⟨start, refusal o (fileFault e)⟩)
  | undrawn {o : Options} {text : String} {f : Fault} (ho : Options.ofArgs args = .ok o)
    (hr : F.read start o.spec = .ok text)
    (hg : ((o.generator s).generate text).outcome = .error f) :
    Ends F start s args (1, ⟨start, reports s o text ++ refusal o f⟩)
  | unwritten {o : Options} {text svg : String} {e : FileError} (ho : Options.ofArgs args = .ok o)
    (hr : F.read start o.spec = .ok text)
    (hg : ((o.generator s).generate text).outcome = .ok svg)
    (hw : F.write start o.out svg = .error e) :
    Ends F start s args (1, ⟨start, reports s o text ++ refusal o (fileFault e)⟩)
  | saved {o : Options} {text svg : String} {after : F.State} (ho : Options.ofArgs args = .ok o)
    (hr : F.read start o.spec = .ok text)
    (hg : ((o.generator s).generate text).outcome = .ok svg)
    (hw : F.write start o.out svg = .ok after) :
    Ends F start s args (0, ⟨after, reports s o text ++ [.stdout ("Saved SVG to " ++ o.out)]⟩)

theorem ends_run (F : FileSystem) (start : F.State) (s : Settings) (args : List String) :
    F.Ends start s args (F.run start s args) := by
  cases ho : Options.ofArgs args with
  | error complaint => exact run_of_misused ho ▸ .misused ho
  | ok o =>
    cases hr : F.read start o.spec with
    | error e => exact run_of_unread ho hr ▸ .unread ho hr
    | ok text =>
      cases hg : ((o.generator s).generate text).outcome with
      | error f => exact run_of_undrawn ho hr hg ▸ .undrawn ho hr hg
      | ok svg  =>
        cases hw : F.write start o.out svg with
        | error e  => exact run_of_unwritten ho hr hg hw ▸ .unwritten ho hr hg hw
        | ok after => exact run_of_saved ho hr hg hw ▸ .saved ho hr hg hw

theorem printed_reports (said : List Utterance) :
    Session.printed (F := F) ⟨after, reports s o text ++ said⟩ =
      said.filterMap Utterance.printed? := by
  simp [Session.printed, reports, List.filterMap_map, Function.comp_def, Utterance.printed?]

theorem complaints_reports (said : List Utterance) :
    Session.complaints (F := F) ⟨after, reports s o text ++ said⟩ =
      said.filterMap Utterance.complaint? := by
  simp [Session.complaints, reports, List.filterMap_map, Function.comp_def, Utterance.complaint?]

-- The arguments stand for `o`, and the document that they name has the drawing `svg`.
structure Draws (F : FileSystem) (start : F.State) (s : Settings) (args : List String)
    (o : Options) (svg : String) : Prop where
  options : ∃ a, Arguments.ofArgs args = .ok a ∧ o.IsOf a
  drawing : ∃ text, F.read start o.spec = .ok text ∧
    ((o.generator s).generate text).outcome = .ok svg

-- The drawing is where it should be, and no other file has changed.
structure Saves (F : FileSystem) (start : F.State) (o : Options) (svg : String)
    (d : F.Session) : Prop where
  written    : F.write start o.out svg = .ok d.state
  content    : ∀ f, F.file? start o.out = some f → F.content? d.state f = some (Text.mended svg)
  rest       : ∀ f, F.file? start o.out ≠ some f → F.content? d.state f = F.content? start f
  printed    : d.printed = ["Saved SVG to " ++ o.out]
  complaints : d.complaints = []

-- There are complaints, and every file is as it was.
structure Refuses (F : FileSystem) (start : F.State) (d : F.Session) : Prop where
  untouched  : d.state = start
  printed    : d.printed = []
  complaints : d.complaints ≠ []

theorem saves_of_write (hw : F.write start o.out svg = .ok after) :
    F.Saves start o svg ⟨after, reports s o text ++ [.stdout ("Saved SVG to " ++ o.out)]⟩ where
  written    := hw
  content _  := F.content?_write hw
  rest _     := F.content?_write_of_ne hw
  printed    := printed_reports _
  complaints := complaints_reports _

theorem refuses_of_refusal : F.Refuses start ⟨start, reports s o text ++ refusal o f⟩ where
  untouched  := rfl
  printed    := printed_reports _
  complaints := by
    rw [complaints_reports]
    exact List.cons_ne_nil _ _

-- Whatever the arguments, the settings and the files are, the command saves the drawing or changes
-- nothing, and it does save it wherever it can.
theorem run_saves_or_refuses (F : FileSystem) (start : F.State) (s : Settings)
    (args : List String) : ∃ exit d, F.run start s args = (exit, d) ∧
      ((exit = 0 ∧ ∃ o svg, F.Draws start s args o svg ∧ F.Saves start o svg d) ∨
        (exit = 1 ∧ F.Refuses start d)) ∧
      (exit = 0 ↔ ∃ o svg after, F.Draws start s args o svg ∧
        F.write start o.out svg = .ok after) := by
  have hends := ends_run F start s args
  have hsaved (o : Options) (svg : String) (after : F.State) (hd : F.Draws start s args o svg)
      (hw : F.write start o.out svg = .ok after) : (F.run start s args).1 = 0 := by
    have ⟨ho, text, hr, hg⟩ := hd
    rw [run_of_saved (Options.ofArgs_eq_ok_iff.mpr ho) hr hg hw]
  generalize F.run start s args = result at hends hsaved
  obtain ⟨exit, d⟩ := result
  refine ⟨exit, d, rfl, ?_, fun hexit => ?_,
    fun ⟨o, svg, after, hd, hw⟩ => hsaved o svg after hd hw⟩
  case refine_1 =>
    cases hends with
    | misused           => exact .inr ⟨rfl, rfl, rfl, List.cons_ne_nil _ _⟩
    | unread            => exact .inr ⟨rfl, rfl, rfl, List.cons_ne_nil _ _⟩
    | undrawn           => exact .inr ⟨rfl, refuses_of_refusal⟩
    | unwritten         => exact .inr ⟨rfl, refuses_of_refusal⟩
    | saved ho hr hg hw =>
      exact .inl ⟨rfl, _, _, ⟨Options.ofArgs_eq_ok_iff.mp ho, _, hr, hg⟩, saves_of_write hw⟩
  case refine_2 =>
    cases hends with
    | saved ho hr hg hw => exact ⟨_, _, _, ⟨Options.ofArgs_eq_ok_iff.mp ho, _, hr, hg⟩, hw⟩
    | _                 => nomatch hexit

section Shelf

def boxText : String := "## Nodes\n- a | A"

-- Two documents, of which one has no nodes, and an older drawing where a new one goes.
def shelf : Folder where
  files := [({ names := ["title.md"] }, "# Title only"), ({ names := ["box.md"] }, boxText),
    ({ names := ["figure.svg"] }, "<svg/>")]

theorem ofArgs_title : Arguments.ofArgs ["title.md"] = .ok { positionals := ["title.md"] } := by
  decide +kernel

theorem read_title : shelf.read "title.md" = .ok "# Title only" :=
  Folder.read_of_isName (by constructor <;> decide +kernel) rfl rfl

theorem ofSpec_title : Plan.ofSpec "process".toList "# Title only".toList =
    .error { fault := .noNodes } := by
  decide +kernel

def boxOptions : Options where
  spec   := "box.md"
  out    := "figure.svg"
  width  := 960
  height := 640

theorem ofArgs_boxOptions : Options.ofArgs ["box.md"] = .ok boxOptions := by
  have ha : Arguments.ofArgs ["box.md"] = .ok { positionals := ["box.md"] } := by decide +kernel
  exact Options.ofArgs_eq_ok_iff.mpr
    ⟨_, ha, rfl, by decide, rfl, by decide, rfl, rfl, ⟨by decide, by decide⟩,
      ⟨by decide, by decide⟩⟩

theorem read_boxText : shelf.read "box.md" = .ok boxText :=
  Folder.read_of_isName (by constructor <;> decide +kernel) rfl rfl

theorem ofSpec_boxText : Plan.ofSpec "process".toList boxText.toList =
    .ok { nodes := [{ id := "a", label := "A", kind := "process" }], edges := [] } :=
  Plan.ofSpec_eq_ok_iff.mpr
    ⟨_, rfl, _, rfl, _, rfl, Spec.requireDistinct_eq_ok_iff.mpr (by decide), rfl⟩

theorem exists_drawing_boxText :
    ∃ svg, ((boxOptions.generator {}).generate boxText).outcome = .ok svg :=
  Generator.exists_drawing ofSpec_boxText (by decide) nofun

theorem isName_figure : Folder.IsName "figure.svg" := by
  constructor <;> decide +kernel

theorem exists_write_shelf (svg : String) : ∃ after, shelf.write "figure.svg" svg = .ok after :=
  Folder.exists_write_of_isName isName_figure rfl svg

theorem file?_figure : Folder.fileSystem.file? shelf boxOptions.out =
    some ({ names := ["figure.svg"] } : Place) := by
  change (if Folder.place "figure.svg" = .sink then none
    else some (Folder.place "figure.svg")) = _
  rw [Folder.place_of_isName isName_figure]
  rfl

-- The older drawing is replaced, and a document without nodes leaves it alone.
theorem run_saves_or_refuses_shelf :
    (∃ d svg, Folder.fileSystem.run shelf {} ["box.md"] = (0, d) ∧
      ((boxOptions.generator {}).generate boxText).outcome = .ok svg ∧
      Folder.content? d.state { names := ["figure.svg"] } = some (Text.mended svg) ∧
      (∀ p ≠ { names := ["figure.svg"] }, Folder.content? d.state p = shelf.content? p) ∧
      d.printed = ["Saved SVG to figure.svg"] ∧ d.complaints = []) ∧
    ∃ d, Folder.fileSystem.run shelf {} ["title.md"] = (1, d) ∧ d.state = shelf ∧
      d.printed = [] ∧ d.complaints ≠ [] := by
  constructor
  case left =>
    have ⟨exit, d, h, hor, hiff⟩ := run_saves_or_refuses Folder.fileSystem shelf {} ["box.md"]
    have ⟨svg, hg⟩ := exists_drawing_boxText
    have ⟨after, hw⟩ := exists_write_shelf svg
    have hdraws : Folder.fileSystem.Draws shelf {} ["box.md"] boxOptions svg :=
      ⟨Options.ofArgs_eq_ok_iff.mp ofArgs_boxOptions, _, read_boxText, hg⟩
    obtain rfl := hiff.mpr ⟨_, _, _, hdraws, hw⟩
    obtain ⟨-, o, svg, ⟨hopt, text, hread, hg⟩, hs⟩ | ⟨h, -⟩ := hor
    case inr => nomatch h
    case inl =>
      obtain rfl := Except.ok.inj
        ((Options.ofArgs_eq_ok_iff.mpr hopt).symm.trans ofArgs_boxOptions)
      obtain rfl := Except.ok.inj (hread.symm.trans read_boxText)
      have hrest (p : Place) (hp : p ≠ { names := ["figure.svg"] }) :
          Folder.content? d.state p = shelf.content? p :=
        hs.rest p fun hf => hp (Option.some.inj (hf.symm.trans file?_figure))
      exact ⟨d, svg, h, hg, hs.content _ file?_figure, hrest, hs.printed, hs.complaints⟩
  case right =>
    have ⟨exit, d, h, hor, _⟩ := run_saves_or_refuses Folder.fileSystem shelf {} ["title.md"]
    obtain ⟨rfl, hn⟩ | ⟨rfl, hr⟩ := hor
    case inl =>
      obtain ⟨o, _, ⟨⟨a, ha, ho⟩, text, hread, hdrawn⟩, _⟩ := hn
      obtain rfl := Except.ok.inj (ofArgs_title.symm.trans ha)
      have hspec : "title.md" = o.spec := Option.some.inj ho.spec
      change shelf.read o.spec = .ok text at hread
      obtain rfl := Except.ok.inj (read_title.symm.trans (hspec ▸ hread))
      have hrefused := Generator.outcome_generate_of_error (g := o.generator {}) ofSpec_title
      nomatch hdrawn.symm.trans hrefused
    case inr => exact ⟨d, h, hr.untouched, hr.printed, hr.complaints⟩

end Shelf

end FileSystem

end LayeredDiagram.CommandLine
