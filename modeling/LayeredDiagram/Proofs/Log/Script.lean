import LayeredDiagram.Log.Session
import LayeredDiagram.Proofs.Log.Journal

namespace LayeredDiagram.Log

-- Programs that set the level, make loggers and log, and parts of which run inside of blocks that
-- bind an identifier. Any part may fail, which skips all that follows up to the attempt around it.
inductive Script where
  | level (level : Level)
  | child (name : String) (parent : Option String) (context : Record Value)
  | log (logger : Option String) (call : Call)
  | within (id : String) (body : List Script)
  -- What fails inside does so for the rest of the body only.
  | attempt (body : List Script)
  | fail (f : Fault)

-- A session and the identifier that is bound in it.
structure Running where
  session : Session
  ambient : Option String := none

structure Performance where
  running : Running
  answers : List Answer := []
  failure : Option Fault := none

-- A step fails if a failure is among its answers.
def Running.step (r : Running) (step : Step) : Performance :=
  let (s, answers) := r.session.runStep r.ambient step
  { running := { r with session := s }
    answers := answers
    failure := answers.findSome? Answer.failure? }

-- Why a call fails if it is admitted.
def Call.failure? (c : Call) : Option Fault :=
  match c.metadata with
  | .ok _ => none
  | .error f => some f

-- What happens in a session, one after the other.
inductive Happening where
  | level (level : Level)
  | child (name : String) (parent : Option String) (context : Record Value)
  | log (logger : Option String) (call : Call)
  | enter (id : String)
  | leave

namespace Happening

def level? : Happening → Option Level
  | level l => some l
  | _ => none

-- The blocks that are open afterwards, innermost first.
def nest (blocks : List String) : Happening → List String
  | enter id => id :: blocks
  | leave => blocks.tail
  | _ => blocks

-- Contexts identify by a text or by nothing, and calls set each field once.
def Fits : Happening → Prop
  | child _ _ context => ∀ v, ("correlationId", v) ∈ context → v.IsId
  | log _ call => call.fields.keys.Nodup
  | _ => True

end Happening

-- The level that was set last.
def levelAfter (start : Level) (h : List Happening) : Level :=
  (h.filterMap Happening.level?).getLast?.getD start

def openBlocks (h : List Happening) : List String :=
  h.foldl Happening.nest []

-- What happens on the way, and what it ends with if it fails.
structure Course where
  history : List Happening := []
  failure : Option Fault := none

namespace Script

mutual

def perform (r : Running) : Script → Performance
  | level l => r.step (.threshold l)
  | child name parent context => r.step (.child name parent context)
  | log logger call => r.step (.log logger call)
  | within id body =>
    -- However the body ends, the identifier from before it is bound again.
    let inner := performAll { r with ambient := some id } body
    { inner with
      running := { inner.running with ambient := r.ambient }
      answers := .entered :: inner.answers ++ [.left] }
  | attempt body => { performAll r body with failure := none }
  | fail f => { running := r, failure := some f }

def performAll (r : Running) : List Script → Performance
  | [] => { running := r }
  | p :: ps =>
    let first := perform r p
    match first.failure with
    | some _ => first
    | none =>
      let rest := performAll first.running ps
      { rest with answers := first.answers ++ rest.answers }

end

mutual

-- The course under the level that is in force at the beginning: it takes no session to tell it.
def course (start : Level) : Script → Course
  | level l => { history := [.level l] }
  | child name parent context => { history := [.child name parent context] }
  | log logger call =>
    { history := [.log logger call]
      failure := if start.rank ≤ call.level.rank then call.failure? else none }
  | within id body =>
    let inner := courseOf start body
    { inner with history := .enter id :: inner.history ++ [.leave] }
  | attempt body => { courseOf start body with failure := none }
  | fail f => { failure := some f }

def courseOf (start : Level) : List Script → Course
  | [] => {}
  | p :: ps =>
    let first := course start p
    match first.failure with
    | some _ => first
    | none =>
      let rest := courseOf (levelAfter start first.history) ps
      { rest with history := first.history ++ rest.history }

end

mutual

-- The steps that are carried out.
def steps (start : Level) : Script → List Step
  | level l => [.threshold l]
  | child name parent context => [.child name parent context]
  | log logger call => [.log logger call]
  | within id body => [.within id (stepsOf start body)]
  | attempt body => stepsOf start body
  | fail _ => []

def stepsOf (start : Level) : List Script → List Step
  | [] => []
  | p :: ps =>
    let first := course start p
    steps start p ++
      if first.failure.isSome then [] else stepsOf (levelAfter start first.history) ps

end

end Script

def Session.after (s : Session) : Happening → Session
  | .level l => { s with journal := { s.journal with threshold := l } }
  | .child name parent context => s.addLogger name ((s.logger parent).child context)
  | _ => s

-- What is told to a happening by the ones before it. A call that is admitted is answered by one
-- line, or by why it fails if its error cannot be spelled out.
def Told (j : Journal) (ambient : Option String) (before : List Happening) :
    Happening → Answer → Prop
  | .log name call, answer =>
    if (levelAfter j.threshold before).rank ≤ call.level.rank then
      (call.HasText → ∃ line, answer = .lines [line] ∧ ∃ fields : Record Json,
        line.text = (if j.pretty then (Json.obj fields).pretty else (Json.obj fields).compact) ∧
        Stamped j.elapsed ((openBlocks before).head?.or ambient)
          ((before.foldl Session.after { journal := j }).logger name) call fields) ∧
      (¬call.HasText → answer = .failed Value.noText)
    else answer = .lines []
  | .level _, answer | .child .., answer => answer = .lines []
  | .enter _, answer => answer = .entered
  | .leave, answer => answer = .left

variable {j : Journal} {ambient : Option String} {s : Session} {blocks : List String}
variable {before later hs hs' : List Happening} {h : Happening} {r : Running} {p : Script}
variable {ps : List Script} {start : Level}

section History

theorem levelAfter_cons :
    levelAfter start (h :: hs) = levelAfter (h.level?.getD start) hs := by
  cases hl : h.level? <;> simp [levelAfter, hl, List.getLast?_cons]

theorem journal_foldl_after (s : Session) (hs : List Happening) :
    (hs.foldl Session.after s).journal =
      { s.journal with threshold := levelAfter s.journal.threshold hs } := by
  induction hs generalizing s with
  | nil          => rfl
  | cons h hs hi =>
    rw [List.foldl_cons, hi, levelAfter_cons]
    cases h <;> rfl

namespace Session

def Identifies (s : Session) : Prop :=
  ∀ e ∈ s.loggers, e.2.Identifies

theorem Identifies.logger (hs : s.Identifies) (name : Option String) :
    (s.logger name).Identifies := by
  rw [Session.logger]
  cases hl : name.bind s.loggers.get? with
  | none   => exact nofun
  | some l =>
    obtain ⟨name, -, hl⟩ := Option.bind_eq_some_iff.mp hl
    exact hs _ (Record.mem_of_get? hl)

theorem Identifies.after (hs : s.Identifies) (hf : h.Fits) : (s.after h).Identifies := by
  cases h with
  | child name parent context =>
    intro e he
    obtain rfl | he := Record.eq_or_mem_of_mem_put he
    case inl => exact (hs.logger parent).child hf
    case inr => exact hs e he
  | _ => exact hs

theorem Identifies.foldl_after (hi : s.Identifies) (hf : ∀ h ∈ hs, h.Fits) :
    (hs.foldl Session.after s).Identifies := by
  induction hs generalizing s with
  | nil          => exact hi
  | cons h hs hr =>
    have ⟨hh, hf⟩ := List.forall_mem_cons.mp hf
    exact hr (hi.after hh) hf

end Session

def answer (ambient : Option String) (s : Session) (blocks : List String) : Happening → Answer
  | .log name call =>
    .ofLine (s.journal.line? (blocks.head?.or ambient) (s.logger name) call)
  | .enter _ => .entered
  | .leave => .left
  | _ => .lines []

def answers (ambient : Option String) (s : Session) (blocks : List String) :
    List Happening → List Answer
  | [] => []
  | h :: hs => answer ambient s blocks h :: answers ambient (s.after h) (h.nest blocks) hs

theorem length_answers : (answers ambient s blocks hs).length = hs.length := by
  induction hs generalizing s blocks with
  | nil          => rfl
  | cons h hs hi => simp [answers, hi]

theorem answers_append : answers ambient s blocks (hs ++ hs') =
    answers ambient s blocks hs ++
      answers ambient (hs.foldl Session.after s) (hs.foldl Happening.nest blocks) hs' := by
  induction hs generalizing s blocks with
  | nil          => rfl
  | cons h hs hi => simp [answers, hi]

theorem getElem?_answers : (answers ambient s blocks (before ++ h :: later))[before.length]? =
    some (answer ambient (before.foldl Session.after s) (before.foldl Happening.nest blocks)
      h) := by
  rw [answers_append, List.getElem?_append_right (Nat.le_of_eq length_answers), length_answers,
    Nat.sub_self]
  rfl

-- What is answered is told by what happened before.
theorem told_answer (hb : ∀ h ∈ before, h.Fits) (hf : h.Fits) : Told j ambient before h
    (answer ambient (before.foldl Session.after { journal := j }) (openBlocks before) h) := by
  cases h with
  | log name call =>
    have hi : Session.Identifies { journal := j } := nofun
    have hl := (hi.foldl_after hb).logger name
    rw [Told, answer, journal_foldl_after]
    split
    case isTrue ha =>
      have ha := decide_eq_true ha
      refine ⟨fun ht => ?text, fun ht => ?wordless⟩
      case text =>
        obtain ⟨metadata, hm, hline⟩ := Journal.line?_of_hasText _ _ _ ht
        rw [hline, Journal.admits, ha]
        exact ⟨_, rfl, _, rfl, stamped_entry hl hf hm⟩
      case wordless =>
        rw [Journal.line?_of_not_hasText ht, Journal.admits, ha]
        rfl
    case isFalse ha =>
      rw [Journal.line?, Journal.admits, decide_eq_false ha]
      rfl
  | _ => rfl

end History

namespace Script

section Run

mutual

theorem foldl_nest_course (p : Script) (start : Level) (blocks : List String) :
    (course start p).history.foldl Happening.nest blocks = blocks := by
  cases p with
  | within id body =>
    simp [course, Happening.nest, foldl_nest_courseOf body start (id :: blocks)]
  | attempt body   => exact foldl_nest_courseOf body start blocks
  | _              => rfl

theorem foldl_nest_courseOf (ps : List Script) (start : Level) (blocks : List String) :
    (courseOf start ps).history.foldl Happening.nest blocks = blocks := by
  cases ps with
  | nil       => rfl
  | cons p ps =>
    rw [courseOf]
    cases hf : (course start p).failure with
    | some f => simp only [foldl_nest_course p]
    | none   => simp only [List.foldl_append, foldl_nest_course p, foldl_nest_courseOf ps]

end

-- A block that has ended is open no more.
theorem openBlocks_within (start : Level) (id : String) (body : List Script)
    (before later : List Happening) :
    openBlocks (before ++ (course start (.within id body)).history ++ later) =
      openBlocks (before ++ later) := by
  simp only [openBlocks, List.foldl_append, foldl_nest_course]

theorem failure?_ofLine {l : Logger} {c : Call} (h : j.threshold = start) :
    (Answer.ofLine (j.line? ambient l c)).failure? =
      if start.rank ≤ c.level.rank then c.failure? else none := by
  rw [Journal.line?, Journal.admits, Call.failure?, h]
  cases c.metadata <;> by_cases ha : start.rank ≤ c.level.rank <;> simp [ha] <;> rfl

mutual

theorem perform_eq {start : Level} (p : Script) (r : Running) (blocks : List String)
    (hr : r.ambient = blocks.head?.or ambient) (hl : r.session.journal.threshold = start) :
    perform r p =
      { running := { r with session := (course start p).history.foldl Session.after r.session }
        answers := answers ambient r.session blocks (course start p).history
        failure := (course start p).failure } := by
  cases p with
  | log name call  =>
    simp [perform, Running.step, Session.runStep, course, answers, answer, hr, failure?_ofLine hl,
      Session.after]
  | within id body =>
    rw [perform, performAll_eq body { r with ambient := some id } (id :: blocks) rfl hl]
    simp [course, answers, answer, answers_append, Session.after, Happening.nest]
  | attempt body   =>
    rw [perform, performAll_eq body r blocks hr hl]
    rfl
  | _              => rfl

theorem performAll_eq {start : Level} (ps : List Script) (r : Running) (blocks : List String)
    (hr : r.ambient = blocks.head?.or ambient) (hl : r.session.journal.threshold = start) :
    performAll r ps =
      { running := { r with session := (courseOf start ps).history.foldl Session.after r.session }
        answers := answers ambient r.session blocks (courseOf start ps).history
        failure := (courseOf start ps).failure } := by
  cases ps with
  | nil       => rfl
  | cons p ps =>
    rw [performAll, perform_eq p r blocks hr hl, courseOf]
    cases hf : (course start p).failure with
    | some f => simp [hf]
    | none   =>
      have hlevel : ((course start p).history.foldl Session.after r.session).journal.threshold =
          levelAfter start (course start p).history := by
        rw [journal_foldl_after, hl]
      dsimp only
      rw [performAll_eq ps ⟨(course start p).history.foldl Session.after r.session, r.ambient⟩
        blocks hr hlevel]
      simp [answers_append, foldl_nest_course]

end

mutual

-- What does not fail to be carried out runs as it does in any session.
theorem perform_eq_runSteps {start : Level} (p : Script) (r : Running)
    (hl : r.session.journal.threshold = start) : perform r p =
      { running := { r with session := (r.session.runSteps r.ambient (steps start p)).1 }
        answers := (r.session.runSteps r.ambient (steps start p)).2
        failure := (course start p).failure } := by
  cases p with
  | log name call  =>
    simp [perform, Running.step, steps, Session.runSteps, Session.runStep, course,
      failure?_ofLine hl]
  | within id body =>
    rw [perform, performAll_eq_runSteps body { r with ambient := some id } hl]
    simp [steps, Session.runSteps, Session.runStep, course]
  | attempt body   =>
    rw [perform, performAll_eq_runSteps body r hl]
    rfl
  | _              => rfl

theorem performAll_eq_runSteps {start : Level} (ps : List Script) (r : Running)
    (hl : r.session.journal.threshold = start) : performAll r ps =
      { running := { r with session := (r.session.runSteps r.ambient (stepsOf start ps)).1 }
        answers := (r.session.runSteps r.ambient (stepsOf start ps)).2
        failure := (courseOf start ps).failure } := by
  cases ps with
  | nil       => rfl
  | cons p ps =>
    have hp := perform_eq_runSteps p r hl
    have hsession : (r.session.runSteps r.ambient (steps start p)).1 =
        (course start p).history.foldl Session.after r.session :=
      congrArg (·.running.session) (hp.symm.trans (perform_eq p r [] rfl hl))
    have hlevel : (r.session.runSteps r.ambient (steps start p)).1.journal.threshold =
        levelAfter start (course start p).history := by
      rw [hsession, journal_foldl_after, hl]
    rw [performAll, hp, stepsOf, courseOf]
    cases hf : (course start p).failure with
    | some f => simp [hf]
    | none   =>
      dsimp only
      rw [performAll_eq_runSteps ps ⟨_, r.ambient⟩ hlevel]
      simp [Session.runSteps_append]

end

-- Once a block has ended, all is as if its body had been run without it.
theorem perform_within (r : Running) (id : String) (body : List Script) :
    (perform r (.within id body)).running = (performAll r body).running ∧
      (perform r (.within id body)).failure = (performAll r body).failure := by
  rw [perform_eq _ r [] rfl rfl, performAll_eq _ r [] rfl rfl]
  simp [course, Session.after]

-- Each call is answered by what happened before it, whatever is skipped and whichever blocks have
-- ended, and a block leaves nothing behind but what its body does.
theorem told_performAll (j : Journal) (ambient : Option String) (ps : List Script)
    (hf : ∀ h ∈ (courseOf j.threshold ps).history, h.Fits) :
    let run := performAll ⟨{ journal := j }, ambient⟩ ps
    let course := courseOf j.threshold ps
    run.answers.length = course.history.length ∧ run.failure = course.failure ∧
      (∀ before h later, course.history = before ++ h :: later →
        ∃ answer, run.answers[before.length]? = some answer ∧ Told j ambient before h answer) ∧
      (∀ start id body before later,
        openBlocks (before ++ (Script.course start (.within id body)).history ++ later) =
          openBlocks (before ++ later)) ∧
      ∀ r id body, (perform r (.within id body)).running = (performAll r body).running ∧
        (perform r (.within id body)).failure = (performAll r body).failure := by
  intro run course
  have hrun : run = _ := performAll_eq ps _ [] rfl rfl
  have hanswers : run.answers = answers ambient { journal := j } [] course.history := by rw [hrun]
  refine ⟨by rw [hanswers, length_answers], by rw [hrun], fun before h later hh => ?_,
    openBlocks_within, perform_within⟩
  rw [hh] at hanswers
  rw [show (courseOf j.threshold ps).history = _ from hh] at hf
  exact ⟨_, hanswers ▸ getElem?_answers,
    told_answer (fun h hm => hf h (List.mem_append_left _ hm)) (hf h (by simp))⟩

-- What this call reports as an error cannot be spelled out.
def wordless : Call :=
  ⟨.error, "wordless", [("error", .json (.obj [("toString", .num 1)]))]⟩

theorem not_hasText_wordless : ¬wordless.HasText :=
  fun h => nomatch Value.hasText_obj_iff.mp (h _ rfl)

-- The level changes inside of blocks that fail, a logger is used in a block that is not its own,
-- and what follows on a call without words is skipped.
def crossing : List Script :=
  [.child "bound" none [("correlationId", .str "own")],
    .attempt
      [.within "outer"
        [.level .warn,
          .within "inner" [.log (some "bound") ⟨.error, "kept", []⟩, .fail (.foreign "Error" "")],
          .level .debug]],
    .attempt [.log none wordless, .level .error],
    .log none ⟨.info, "dropped", []⟩,
    .log none ⟨.warn, "unstamped", []⟩]

theorem told_crossing :
    let run := performAll ⟨{ journal := { timestamp := "" } }, none⟩ crossing
    (∀ h ∈ (courseOf .info crossing).history, h.Fits) ∧ run.answers.length = 10 ∧
      run.failure = none ∧
      (∃ line, ∃ fields : Record Json, run.answers[4]? = some (.lines [line]) ∧
        line.text = (Json.obj fields).compact ∧
        fields.get? "correlationId" = some (.str "own")) ∧
      run.answers[7]? = some (.failed Value.noText) ∧
      run.answers[8]? = some (.lines []) ∧
      ∃ line, ∃ fields : Record Json, run.answers[9]? = some (.lines [line]) ∧
        line.text = (Json.obj fields).compact ∧ fields.get? "correlationId" = none := by
  intro run
  have hcourse : (courseOf .info crossing).history =
      [.child "bound" none [("correlationId", .str "own")], .enter "outer", .level .warn,
        .enter "inner", .log (some "bound") ⟨.error, "kept", []⟩, .leave, .leave,
        .log none wordless, .log none ⟨.info, "dropped", []⟩,
        .log none ⟨.warn, "unstamped", []⟩] :=
    rfl
  have hf : ∀ h ∈ (courseOf .info crossing).history, h.Fits := by
    simp [hcourse, Happening.Fits, wordless, Value.str, Value.IsId, Record.keys]
  obtain ⟨hlen, hfailure, htold, -, -⟩ := told_performAll { timestamp := "" } none crossing hf
  refine ⟨hf, hlen, hfailure, ?_, ?_, ?_, ?_⟩
  case refine_1 =>
    obtain ⟨_, ha, hline, -⟩ := htold ((courseOf .info crossing).history.take 4) _ _ rfl
    obtain ⟨line, rfl, fields, ht, hs⟩ := hline (Call.hasText_of_get?_eq_none rfl)
    exact ⟨line, fields, ha, ht, hs.id rfl⟩
  case refine_2 =>
    obtain ⟨_, ha, -, hanswer⟩ := htold ((courseOf .info crossing).history.take 7) _ _ rfl
    exact hanswer not_hasText_wordless ▸ ha
  case refine_3 =>
    obtain ⟨_, ha, rfl⟩ := htold ((courseOf .info crossing).history.take 8) _ _ rfl
    exact ha
  case refine_4 =>
    obtain ⟨_, ha, hline, -⟩ := htold ((courseOf .info crossing).history.take 9) _ _ rfl
    obtain ⟨line, rfl, fields, ht, hs⟩ := hline (Call.hasText_of_get?_eq_none rfl)
    exact ⟨line, fields, ha, ht, hs.id rfl⟩

-- A call that is admitted need not write a line.
theorem wordless_unwritten :
    let j : Journal := { timestamp := "2000-01-01T00:00:00.000Z" }
    let run := performAll ⟨{ journal := j }, none⟩ [.log none wordless]
    j.admits wordless.level ∧ run.answers = [.failed Value.noText] ∧
      ¬∃ line, run.answers = [.lines [line]] := by
  intro j run
  have hanswers : run.answers = [.failed Value.noText] := rfl
  exact ⟨rfl, hanswers, fun ⟨line, h⟩ => nomatch hanswers.symm.trans h⟩

end Run

end Script

end LayeredDiagram.Log
