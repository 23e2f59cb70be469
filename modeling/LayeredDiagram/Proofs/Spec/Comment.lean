import LayeredDiagram.Proofs.Spec.Gathering
import Mathlib

namespace LayeredDiagram

namespace Spec

open Text

-- A place between two lines of a section: the lines in front of the heading, the heading, the
-- lines above and below the place, and the lines from the next heading on.
structure Gap where
  name : String
  before : List (List Char)
  heading : List Char
  above : List (List Char)
  below : List (List Char)
  after : List (List Char)
  opens : Heading.ofLine? heading = some (.opens name)
  plain : ∀ line ∈ above ++ below, Heading.ofLine? line = none
  ends : ∀ line ∈ after.head?, (Heading.ofLine? line).isSome

-- What is neither blank nor a comment, once it has been trimmed.
def IsSaid (text : List Char) : Prop :=
  text ≠ [] ∧ text.head? ≠ some '#'

instance : DecidablePred IsSaid := fun text =>
  inferInstanceAs (Decidable (text ≠ [] ∧ text.head? ≠ some '#'))

def saidIn (s : Sections) (name : String) : List (List Char) :=
  ((textsOf? s name).getD []).filter (IsSaid ·)

section Reading

variable {s : Sections} {name : String}

theorem map_contentOf {β : Type} (f : List Char → β) :
    (contentOf s name).map (fun l => f (trim l.text)) = (saidIn s name).map f := by
  rw [contentOf, saidIn, textsOf?, content]
  cases s.get? name with
  | none    => rfl
  | some ls =>
    rw [Option.map_some, Option.getD_some, Option.getD_some, List.filter_map, List.map_map]
    rfl

theorem trim_intercalate_eq_nil_iff {parts : List (List Char)} :
    trim (['\n'].intercalate parts) = [] ↔ ∀ part ∈ parts, trim part = [] := by
  simp only [trim_eq_nil_iff]
  induction parts with
  | nil             => simp
  | cons part parts hi =>
    by_cases hp : parts = []
    case pos => simp [hp]
    case neg =>
      have hb : isBlank '\n' = true := by decide
      simp [List.intercalate_cons_of_ne_nil hp, or_imp, forall_and, hi, hb]

theorem exists_says_iff_textsOf? : (∃ text, Says s name text) ↔
    ∃ texts, textsOf? s name = some texts ∧ ∃ text ∈ texts, text ≠ [] := by
  rw [exists_says_iff, textsOf?]
  cases s.get? name with
  | none    => simp
  | some ls =>
    have hj : joined? ls = none ↔ ∀ l ∈ ls, trim l.text = [] := by
      have hn : trim (['\n'].intercalate (ls.map (·.text))) = [] ↔
          ∀ text ∈ ls.map (·.text), trim text = [] := trim_intercalate_eq_nil_iff
      rw [List.forall_mem_map] at hn
      rw [← hn]
      simp [joined?]
    rw [Option.bind_some, Option.isSome_iff_ne_none, Ne, hj]
    simp

end Reading

namespace Gap

variable {gap : Gap} {line text text' : List Char} {name : String}

def lines (gap : Gap) : List (List Char) :=
  gap.before ++ gap.heading :: gap.above ++ (gap.below ++ gap.after)

def linesWith (gap : Gap) (line : List Char) : List (List Char) :=
  gap.before ++ gap.heading :: gap.above ++ line :: (gap.below ++ gap.after)

theorem plain_above (gap : Gap) : ∀ line ∈ gap.above, Heading.ofLine? line = none :=
  (List.forall_mem_append.mp gap.plain).left

theorem plain_below (gap : Gap) : ∀ line ∈ gap.below, Heading.ofLine? line = none :=
  (List.forall_mem_append.mp gap.plain).right

-- What has been gathered down to the gap.
def gathering (gap : Gap) (name : String) : Gathering :=
  (Gathering.start name).run name (gap.before ++ gap.heading :: gap.above)

theorem exists_gathering (gap : Gap) :
    ∃ texts, gap.gathering gap.name = ⟨gap.name, some texts⟩ := by
  rw [gathering, Gathering.run_append, Gathering.run_cons, Gathering.step_opens gap.opens,
    Gathering.run_plain gap.plain_above]
  exact ⟨_, rfl⟩

theorem exists_gathering_elsewhere (hn : name ≠ gap.name) :
    ∃ texts?, gap.gathering name = ⟨gap.name, texts?⟩ := by
  rw [gathering, Gathering.run_append, Gathering.run_cons, Gathering.step, gap.opens]
  exact ⟨_, Gathering.run_elsewhere gap.plain_above hn⟩

theorem textsOf?_lines (h : text.splitOn '\n' = gap.lines) : textsOf? (sections text) name =
    ((gap.gathering name).run name (gap.below ++ gap.after)).trimmed.texts? := by
  rw [textsOf?_sections, h, lines, Gathering.run_append]
  rfl

theorem textsOf?_linesWith (h : text'.splitOn '\n' = gap.linesWith line) :
    textsOf? (sections text') name =
      (((gap.gathering name).step name line).run name (gap.below ++ gap.after)).trimmed.texts? := by
  rw [textsOf?_sections, h, linesWith, Gathering.run_append]
  rfl

section Plain

variable (h : text.splitOn '\n' = gap.lines) (h' : text'.splitOn '\n' = gap.linesWith line)
variable (hl : Heading.ofLine? line = none)
include h h' hl

theorem textsOf?_plain_elsewhere (hn : name ≠ gap.name) :
    textsOf? (sections text') name = textsOf? (sections text) name := by
  have ⟨texts?, hg⟩ := gap.exists_gathering_elsewhere hn
  rw [textsOf?_lines h, textsOf?_linesWith h', hg, Gathering.step_elsewhere hl hn]

theorem exists_textsOf?_plain (hn : gap.name ≠ "title") : ∃ before after,
    textsOf? (sections text) gap.name = some (before ++ after) ∧
      textsOf? (sections text') gap.name = some (before ++ trim line :: after) := by
  have ⟨texts, hg⟩ := gap.exists_gathering
  have ⟨more, hm⟩ := Gathering.exists_texts?_run hn gap.name (gap.below ++ gap.after)
  rw [textsOf?_lines h, textsOf?_linesWith h', hg, Gathering.step_plain hl]
  exact ⟨texts.map trim, more.map trim, by simp [Gathering.trimmed, hm],
    by simp [Gathering.trimmed, hm]⟩

-- A comment is not read.
theorem saidIn_comment (hn : gap.name ≠ "title") (hc : (trim line).head? = some '#') :
    saidIn (sections text') name = saidIn (sections text) name := by
  by_cases hk : name = gap.name
  case neg => rw [saidIn, saidIn, textsOf?_plain_elsewhere h h' hl hk]
  case pos =>
    have ⟨before, after, ht, ht'⟩ := exists_textsOf?_plain h h' hl hn
    have hs : ¬IsSaid (trim line) := fun hs => hs.right hc
    rw [saidIn, saidIn, hk, ht, ht', Option.getD_some, Option.getD_some, List.filter_append,
      List.filter_cons_of_neg (by simpa using hs), ← List.filter_append]

theorem exists_says_comment (hn : gap.name ≠ "title") (hs : ∃ t, Says (sections text) name t) :
    ∃ t, Says (sections text') name t := by
  rw [exists_says_iff_textsOf?] at hs ⊢
  by_cases hk : name = gap.name
  case neg => rwa [textsOf?_plain_elsewhere h h' hl hk]
  case pos =>
    have ⟨before, after, ht, ht'⟩ := exists_textsOf?_plain h h' hl hn
    obtain ⟨texts, hs, t, hm, hne⟩ := hs
    obtain rfl := Option.some.inj (ht.symm.trans (hk ▸ hs))
    refine ⟨_, hk ▸ ht', t, ?_, hne⟩
    exact List.mem_append.mpr ((List.mem_append.mp hm).imp_right (List.mem_cons_of_mem _))

end Plain

section Title

variable (h : text.splitOn '\n' = gap.lines) (h' : text'.splitOn '\n' = gap.linesWith line)
variable {title : List Char} (hl : Heading.ofLine? line = some (.title title))
include h h' hl

-- The lines below the title are taken from the section.
theorem textsOf?_title_elsewhere (hn : name ≠ gap.name) (ht : name ≠ "title") :
    textsOf? (sections text') name = textsOf? (sections text) name := by
  have ⟨texts?, hg⟩ := gap.exists_gathering_elsewhere hn
  rw [textsOf?_lines h, textsOf?_linesWith h', hg, Gathering.step_title hl ht,
    Gathering.run_append, Gathering.run_append, Gathering.run_elsewhere gap.plain_below hn,
    Gathering.run_elsewhere gap.plain_below ht, Gathering.trimmed, Gathering.trimmed,
    Gathering.texts?_run_heading (g := ⟨gap.name, texts?⟩) gap.ends]

theorem exists_textsOf?_title (hn : gap.name ≠ "title") : ∃ before after,
    textsOf? (sections text) gap.name = some (before ++ gap.below.map trim ++ after) ∧
      textsOf? (sections text') gap.name = some (before ++ after) := by
  have ⟨texts, hg⟩ := gap.exists_gathering
  have ⟨more, hm⟩ := Gathering.exists_texts?_run hn gap.name gap.after
  have hm' (texts : List (List Char)) : (Gathering.run gap.name ⟨"title", some texts⟩
      gap.after).texts? = some (texts ++ more) := by
    rw [Gathering.texts?_run_heading (g := ⟨gap.name, some texts⟩) gap.ends, hm]
  rw [textsOf?_lines h, textsOf?_linesWith h', hg, Gathering.step_title hl hn,
    Gathering.run_append, Gathering.run_append, Gathering.run_plain gap.plain_below,
    Gathering.run_elsewhere gap.plain_below hn]
  exact ⟨texts.map trim, more.map trim, by simp [Gathering.trimmed, hm],
    by simp [Gathering.trimmed, hm']⟩

-- The same is read from a section if and only if nothing has been taken from it that is read.
theorem map_saidIn_title_iff {β : Type} (f : List Char → β) (hn : gap.name ≠ "title")
    (ht : name ≠ "title") :
    (saidIn (sections text') name).map f = (saidIn (sections text) name).map f ↔
      (name = gap.name → ∀ below ∈ gap.below, ¬IsSaid (trim below)) := by
  by_cases hk : name = gap.name
  case neg => simp [saidIn, textsOf?_title_elsewhere h h' hl hk ht, hk]
  case pos =>
    have ⟨before, after, hs, hs'⟩ := exists_textsOf?_title h h' hl hn
    have hb : (∀ below ∈ gap.below, ¬IsSaid (trim below)) ↔
        (gap.below.map trim).filter (IsSaid ·) = [] := by
      simp [List.filter_eq_nil_iff]
    rw [saidIn, saidIn, hk, hs, hs', Option.getD_some, Option.getD_some, hb]
    simp only [List.filter_append, List.map_append, forall_const]
    constructor
    case mpr => exact fun hb => by simp [hb]
    case mp =>
      intro he
      have hlen := congrArg List.length he
      simp only [List.length_append, List.length_map] at hlen
      exact List.length_eq_zero_iff.mp (by omega)

end Title

end Gap

end Spec

namespace Plan

open Spec Text

variable {defaultKind text text' line : List Char} {p : Plan} {gap : Gap}

theorem exists_ofSpec_iff {ns : List Node} {es : List Edge} :
    (∃ p, Plan.ofSpec defaultKind text = .ok p ∧ p.nodes = ns ∧ p.edges = es) ↔
      (∃ t, Says (sections text) "nodes" t) ∧
      (saidIn (sections text) "nodes").map (Node.ofLine? defaultKind) = ns.map some ∧
      (saidIn (sections text) "edges").map Edge.ofLine? = es.map some ∧
      (ns.map (·.id)).Nodup := by
  rw [← map_contentOf, ← map_contentOf]
  constructor
  case mp =>
    rintro ⟨p, hp, rfl, rfl⟩
    cases outcome_of_ofSpec hp with
    | plan h nodes edges distinct title description => exact ⟨h, nodes, edges, distinct⟩
  case mpr =>
    intro ⟨h, nodes, edges, distinct⟩
    exact ⟨⟨ns, es, title? (sections text), description? (sections text)⟩,
      ofSpec_of_outcome (.plan h nodes edges distinct (fun _ => title?_eq_some_iff)
        fun _ => description?_eq_some_iff), rfl, rfl⟩

-- A line with a number sign in front, put into a section of nodes or edges, leaves nodes and edges
-- as they are, unless it is a title. A title does so if and only if nothing is read from the lines
-- below it, and something is left in the section of nodes.
theorem ofSpec_comment (hn : gap.name = "nodes" ∨ gap.name = "edges")
    (h : text.splitOn '\n' = gap.lines) (h' : text'.splitOn '\n' = gap.linesWith line)
    (hc : (trim line).head? = some '#') (ho : ¬"## ".toList <+: trim line)
    (hp : Plan.ofSpec defaultKind text = .ok p) :
    (∃ p', Plan.ofSpec defaultKind text' = .ok p' ∧ p'.nodes = p.nodes ∧ p'.edges = p.edges) ↔
      ("# ".toList <+: trim line →
        (∀ below ∈ gap.below, ¬IsSaid (trim below)) ∧ ∃ t, Says (sections text') "nodes" t) := by
  have hg : gap.name ≠ "title" := by
    rintro hg
    simp [hg] at hn
  have ⟨hs, nodes, edges, distinct⟩ := exists_ofSpec_iff.mp ⟨p, hp, rfl, rfl⟩
  rw [exists_ofSpec_iff, ← nodes, ← edges]
  cases hl : Heading.ofLine? line with
  | none =>
    have ht := (Heading.ofLine?_eq_none_iff.mp hl).left
    have hs' := Gap.exists_says_comment h h' hl hg hs
    simp only [Gap.saidIn_comment h h' hl hg hc, ht, hs', distinct]
    simp
  | some heading =>
    cases heading with
    | opens name  => exact absurd (Heading.prefix_of_opens hl) ho
    | title title =>
      rw [Gap.map_saidIn_title_iff h h' hl _ hg (by decide),
        Gap.map_saidIn_title_iff h h' hl _ hg (by decide), forall_prop_of_true
          (Heading.prefix_of_title hl)]
      constructor
      case mp =>
        intro ⟨hs', hnodes, hedges, _⟩
        exact ⟨hn.elim (fun hn => hnodes hn.symm) fun hn => hedges hn.symm, hs'⟩
      case mpr => exact fun ⟨hb, hs'⟩ => ⟨hs', fun _ => hb, fun _ => hb, distinct⟩

def twoNodes : Plan :=
  ⟨[⟨"a", "A", "process", []⟩, ⟨"b", "B", "process", []⟩], [], none, none⟩

-- The place between the lines of the two nodes.
def betweenNodes : Gap where
  name := "nodes"
  before := []
  heading := "## Nodes".toList
  above := ["- a | A".toList]
  below := ["- b | B".toList]
  after := []
  opens := by decide +kernel
  plain := by decide +kernel
  ends := by decide

theorem ofSpec_twoNodes : Plan.ofSpec LayeredDiagram.defaultKind.toList
    "## Nodes\n- a | A\n- b | B".toList = .ok twoNodes := by
  cbv

theorem ofSpec_comment_betweenNodes : ∃ p, Plan.ofSpec LayeredDiagram.defaultKind.toList
      "## Nodes\n- a | A\n#second\n- b | B".toList = .ok p ∧
    p.nodes = twoNodes.nodes ∧ p.edges = twoNodes.edges := by
  have h : "## Nodes\n- a | A\n- b | B".toList.splitOn '\n' = betweenNodes.lines := by decide
  have h' : "## Nodes\n- a | A\n#second\n- b | B".toList.splitOn '\n' =
      betweenNodes.linesWith "#second".toList := by decide
  have ht : ¬"# ".toList <+: trim "#second".toList := by decide
  exact (ofSpec_comment (.inl rfl) h h' (by decide) (by decide) ofSpec_twoNodes).mpr
    fun hp => absurd hp ht

-- With a blank behind the sign, the line of the second node goes to the title.
theorem ofSpec_comment_fails : ¬∀ (defaultKind text text' line : List Char) (gap : Gap) (p : Plan),
    (gap.name = "nodes" ∨ gap.name = "edges") → text.splitOn '\n' = gap.lines →
    text'.splitOn '\n' = gap.linesWith line → (trim line).head? = some '#' →
    ¬"## ".toList <+: trim line → Plan.ofSpec defaultKind text = .ok p →
    ∃ p', Plan.ofSpec defaultKind text' = .ok p' ∧ p'.nodes = p.nodes ∧ p'.edges = p.edges := by
  intro h
  have hs : Plan.ofSpec LayeredDiagram.defaultKind.toList
      "## Nodes\n- a | A\n# second\n- b | B".toList =
        .ok ⟨[⟨"a", "A", "process", []⟩], [], some "second\n- b | B", none⟩ := by
    cbv
  obtain ⟨p', hp', hn, _⟩ := h LayeredDiagram.defaultKind.toList
    "## Nodes\n- a | A\n- b | B".toList "## Nodes\n- a | A\n# second\n- b | B".toList
    "# second".toList betweenNodes twoNodes
    (.inl rfl) (by decide) (by decide) (by decide) (by decide) ofSpec_twoNodes
  rw [hs, Except.ok.injEq] at hp'
  subst hp'
  exact absurd hn (by decide)

end Plan

end LayeredDiagram
