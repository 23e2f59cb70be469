import LayeredDiagram.Proofs.CommandLine.FileSystem

namespace LayeredDiagram.CommandLine

open Log (Event)

-- What has been printed as an error.
def Desk.complaints (d : Desk) : List String :=
  d.transcript.filterMap Utterance.complaint?

section Hosts

-- What one host does stands for what another one does.
structure Host.Follows {m n : Type → Type} [Monad m] [Monad n] (φ : ∀ {α : Type}, m α → n α)
    (h : Host m) (h' : Host n) : Prop where
  pure   : ∀ {α : Type} (a : α), φ (Pure.pure a : m α) = Pure.pure a
  bind   : ∀ {α β : Type} (x : m α) (k : α → m β), φ (x >>= k) = φ x >>= fun a => φ (k a)
  read   : ∀ path, φ (h.read path) = h'.read path
  write  : ∀ path text, φ (h.write path text) = h'.write path text
  stdout : ∀ line, φ (h.stdout line) = h'.stdout line
  stderr : ∀ line, φ (h.stderr line) = h'.stderr line
  log    : ∀ event, φ (h.log event) = h'.log event

namespace Host.Follows

variable {m n : Type → Type} [Monad m] [Monad n] {φ : ∀ {α : Type}, m α → n α} {h : Host m}
  {h' : Host n} {o : Options} {f : Fault} {s : Settings} {svg text : String}

theorem fail (hφ : Follows φ h h') : φ (fail h o f) = CommandLine.fail h' o f := by
  simp only [CommandLine.fail, hφ.bind, hφ.pure, hφ.log, hφ.stderr]

theorem save (hφ : Follows φ h h') : φ (save h o svg) = CommandLine.save h' o svg := by
  rw [CommandLine.save, CommandLine.save, hφ.bind, hφ.write]
  refine congrArg _ (funext fun written => ?_)
  cases written with
  | error e => exact hφ.fail
  | ok _    => simp only [hφ.bind, hφ.pure, hφ.stdout]

theorem forM_log (hφ : Follows φ h h') (events : List Event) :
    φ (events.forM h.log) = events.forM h'.log := by
  induction events with
  | nil => exact hφ.pure ()
  | cons event events hi =>
    change φ (h.log event >>= fun _ => events.forM h.log) = h'.log event >>= fun _ =>
      events.forM h'.log
    rw [hφ.bind, hφ.log, hi]

theorem draw (hφ : Follows φ h h') : φ (draw h s o text) = CommandLine.draw h' s o text := by
  simp only [CommandLine.draw, hφ.bind, hφ.forM_log]
  cases ((o.generator s).generate text).outcome with
  | error f => simp only [hφ.fail]
  | ok svg  => simp only [hφ.save]

theorem run (hφ : Follows φ h h') (args : List String) :
    φ (run h s args) = CommandLine.run h' s args := by
  unfold CommandLine.run
  cases Options.ofArgs args with
  | error complaint => simp only [hφ.bind, hφ.pure, hφ.stderr]
  | ok o =>
    rw [hφ.bind, hφ.read]
    refine congrArg _ (funext fun content => ?_)
    cases content with
    | error e => exact hφ.fail
    | ok text => exact hφ.draw

end Host.Follows

end Hosts

def Desk.ofSession (d : Folder.fileSystem.Session) : Desk :=
  ⟨d.state, d.transcript⟩

-- What happens in a session, seen at a desk.
def Desk.seen {α : Type} (x : StateM Folder.fileSystem.Session α) : StateM Desk α :=
  fun d => (x.run ⟨d.folder, d.transcript⟩).map id ofSession

section Runs

variable {args : List String} {folder after : Folder} {s : Settings} {o : Options}
  {text svg : String} {f : Fault}

-- What happens at a desk is what happens in a session on the file system of its folder.
theorem follows_desk : Host.Follows Desk.seen Folder.fileSystem.host Desk.host where
  pure _    := rfl
  bind _ _  := rfl
  read _    := rfl
  write path text := by
    funext d
    change (((FileSystem.Session.write path text).run _).map id Desk.ofSession) =
      (Desk.write path text).run d
    have hw : Folder.fileSystem.write d.folder path text = d.folder.write path text := rfl
    cases h : d.folder.write path text <;> rw [h] at hw <;>
      simp [FileSystem.Session.write, Desk.write, hw, h] <;> rfl
  stdout _  := rfl
  stderr _  := rfl
  log _     := rfl

theorem runIn_eq : runIn folder s args =
    (Folder.fileSystem.run folder s args).map id Desk.ofSession :=
  (congrFun (follows_desk.run args) { folder }).symm

theorem runIn_of_error (ho : Options.ofArgs args = .ok o) (hr : folder.read o.spec = .ok text)
    (hg : ((o.generator s).generate text).outcome = .error f) : runIn folder s args =
      (1, { folder
            transcript := ((o.generator s).generate text).events.map .log ++
              [.log (failed o f), .stderr ("Error: " ++ f.message)] }) := by
  rw [runIn_eq, FileSystem.run_of_undrawn (F := Folder.fileSystem) ho hr hg]
  rfl

theorem runIn_of_ok (ho : Options.ofArgs args = .ok o) (hr : folder.read o.spec = .ok text)
    (hg : ((o.generator s).generate text).outcome = .ok svg)
    (hw : folder.write o.out svg = .ok after) : runIn folder s args =
      (0, { folder := after
            transcript := ((o.generator s).generate text).events.map .log ++
              [.stdout ("Saved SVG to " ++ o.out)] }) := by
  rw [runIn_eq, FileSystem.run_of_saved (F := Folder.fileSystem) ho hr hg hw]
  rfl

end Runs

end LayeredDiagram.CommandLine
