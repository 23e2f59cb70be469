import LayeredDiagram.Proofs.Schema.Acceptance
import LayeredDiagram.Proofs.Spec.Outcome
import LayeredDiagram.Proofs.Text.Units
import LayeredDiagram.Schema.Request

namespace LayeredDiagram

open Text Spec

namespace TextTest

variable {cs : List Char} {n : Nat} {wording : String} {test : List Char → Bool}

@[simp]
theorem issue?_atLeast {wording : Option String} :
    issue? cs (.atLeast n wording) = none ↔ n ≤ units cs := by
  simp [issue?]

@[simp]
theorem issue?_atMost : issue? cs (.atMost n) = none ↔ units cs ≤ n := by
  simp [issue?]

@[simp]
theorem issue?_form : issue? cs (.form test wording) = none ↔ test cs := by
  simp [issue?]

@[simp]
theorem issue?_accepts : issue? cs (.accepts test wording) = none ↔ test cs := by
  simp [issue?]

end TextTest

theorem Record.get?_optional {key other : String} {j : Option Json} :
    Record.get? (Json.optional key j) other = if key = other then j else none := by
  cases j with
  | none   => simp [Json.optional, Record.get?]
  | some j => simp [Json.optional, Record.get?]

namespace Schema

variable {content : String} {most : Nat}

theorem accepts_nodeId_iff (h : isIdentifier content.toList) :
    nodeId.Accepts (some (.str content)) ↔ content.units ≤ 100 := by
  have := one_le_units_of_isIdentifier h
  simp [nodeId, accepts_text_iff, h, Limits.id, String.units, this]

theorem accepts_atMost_iff :
    (text [.atMost most]).Accepts (some (.str content)) ↔ content.units ≤ most := by
  simp [accepts_text_iff, String.units]

theorem accepts_between_iff : (text [.atLeast 1, .atMost most]).Accepts (some (.str content)) ↔
    1 ≤ content.units ∧ content.units ≤ most := by
  simp [accepts_text_iff, String.units]

theorem getD_str {s? : Option String} {default : String} :
    some ((s?.map Json.str).getD (.str default)) = (some (s?.getD default)).map .str := by
  cases s? <;> rfl

theorem accepts_optionalText_iff {content : Option String} :
    (optional (text [.atMost most])).Accepts (content.map .str) ↔
      ∀ s, content = some s → s.units ≤ most := by
  cases content with
  | none   => simp
  | some s => simp [accepts_atMost_iff]

@[simp]
theorem keep?_optionalText {tests : List TextTest} {content : Option String} :
    (optional (text tests)).keep? (content.map .str) = content.map .str := by
  cases content <;> simp

theorem keep?_metadata_nil : metadata.keep? (some (.obj [])) = some (.obj []) := by
  rw [metadata, keep?_refined, keep?_record_nil]

theorem accepts_metadata_nil : metadata.Accepts (some (.obj [])) := by
  refine accepts_refined_iff.mpr ⟨accepts_record_nil, fun j h => ?_⟩
  obtain rfl := Option.some.inj (keep?_record_nil.symm.trans h)
  rfl

end Schema

theorem exists_of_map_eq {α β : Type} {f : α → Option β} {as : List α} {bs : List β} {b : β}
    (h : as.map f = bs.map some) (hb : b ∈ bs) : ∃ a ∈ as, f a = some b :=
  List.mem_map.mp (h ▸ List.mem_map_of_mem hb)

theorem isIdentifier_of_identifier? {cs : List Char} {id : String} (h : identifier? cs = some id) :
    isIdentifier id.toList := by
  rw [identifier?] at h
  split_ifs at h with hi
  obtain rfl := Option.some.inj h
  rwa [String.toList_ofList]

theorem isIdentifier_of_bulleted? {cs : List Char} {id : String} (h : bulleted? cs = some id) :
    isIdentifier id.toList :=
  have ⟨_, _, h⟩ := Option.bind_eq_some_iff.mp h
  isIdentifier_of_identifier? h

namespace Node

variable {n : Node}

-- The form of a node that is read from a line.
structure Plain (n : Node) : Prop where
  id       : isIdentifier n.id.toList
  metadata : n.metadata = []

structure Fits (n : Node) : Prop where
  id    : n.id.units ≤ 100
  label : n.label.units ≤ 1000
  kind  : 1 ≤ n.kind.units ∧ n.kind.units ≤ 100

theorem plain_of_ofLine? {defaultKind line : List Char} (h : ofLine? defaultKind line = some n) :
    n.Plain := by
  unfold ofLine? at h
  split at h
  case h_1 | h_2 =>
    split_ifs at h
    obtain ⟨id, hid, rfl⟩ := Option.map_eq_some_iff.mp h
    exact ⟨isIdentifier_of_bulleted? hid, rfl⟩
  case h_3 => nomatch h

@[simp]
theorem ofJson_toJson : ofJson n.toJson = n := by
  simp [ofJson, toJson, fieldsJson, metadataOfJson, Json.text, Json.get?, Json.fields, Record.get?,
    Json.string?, List.filterMap_map]

theorem accepts_toJson_iff (h : n.Plain) : Schema.node.Accepts (some n.toJson) ↔ n.Fits :=
  calc Schema.node.Accepts (some n.toJson)
    _ ↔ n.id.units ≤ 100 ∧ n.label.units ≤ 1000 ∧ 1 ≤ n.kind.units ∧ n.kind.units ≤ 100 := by
      rw [Schema.node, toJson, Schema.accepts_object_iff]
      simp [fieldsJson, Record.get?, Schema.accepts_nodeId_iff h.id, Schema.accepts_atMost_iff,
        Schema.accepts_between_iff, Schema.accepts_metadata_nil, h.metadata, Limits.label,
        Limits.kind]
    _ ↔ n.Fits :=
      ⟨fun ⟨id, label, kind⟩ => ⟨id, label, kind⟩, fun ⟨id, label, kind⟩ => ⟨id, label, kind⟩⟩

theorem keep?_toJson (h : n.Plain) (hf : n.Fits) :
    Schema.node.keep? (some n.toJson) = some n.toJson := by
  have ha := (accepts_toJson_iff h).mpr hf
  rw [Schema.node, toJson] at ha ⊢
  rw [Schema.keep?_object ha]
  simp [fieldsJson, Record.get?, Schema.keepFields, Schema.reservedKey, Schema.nodeId,
    Schema.keep?_metadata_nil, h.metadata]

end Node

namespace Edge

variable {e : Edge}

-- The form of an edge that is read from a line.
structure Plain (e : Edge) : Prop where
  source : isIdentifier e.source.toList
  target : isIdentifier e.target.toList

structure Fits (e : Edge) : Prop where
  source : e.source.units ≤ 100
  target : e.target.units ≤ 100
  label  : ∀ label, e.label = some label → label.units ≤ 1000

theorem plain_of_endsOf? {before target : List Char} {ends : String × String}
    (h : endsOf? before target = some ends) : isIdentifier ends.1.toList ∧
      isIdentifier ends.2.toList := by
  unfold endsOf? at h
  split_ifs at h
  obtain ⟨source, hs, h⟩ := Option.bind_eq_some_iff.mp h
  obtain ⟨target, ht, rfl⟩ := Option.map_eq_some_iff.mp h
  exact ⟨isIdentifier_of_bulleted? hs, isIdentifier_of_identifier? ht⟩

theorem plain_of_ofLine? {line : List Char} (h : ofLine? line = some e) : e.Plain := by
  obtain ⟨⟨before, after⟩, _, h⟩ := Option.bind_eq_some_iff.mp h
  dsimp only at h
  split at h
  case h_1 =>
    obtain ⟨ends, he, rfl⟩ := Option.map_eq_some_iff.mp h
    have ⟨hs, ht⟩ := plain_of_endsOf? he
    exact ⟨hs, ht⟩
  case h_2 target label _ =>
    obtain ⟨ends, he, h⟩ := Option.bind_eq_some_iff.mp h
    obtain ⟨label, _, rfl⟩ := Option.map_eq_some_iff.mp h
    have ⟨hs, ht⟩ := plain_of_endsOf? he
    exact ⟨hs, ht⟩

@[simp]
theorem ofJson_toJson : ofJson e.toJson = e := by
  obtain ⟨source, target, label⟩ := e
  cases label <;>
    simp [ofJson, toJson, Json.text, Json.text?, Json.get?, Record.get?, Json.string?,
      Json.optional]

theorem accepts_toJson_iff (h : e.Plain) : Schema.edge.Accepts (some e.toJson) ↔ e.Fits :=
  calc Schema.edge.Accepts (some e.toJson)
    _ ↔ e.source.units ≤ 100 ∧ e.target.units ≤ 100 ∧
        ∀ label, e.label = some label → label.units ≤ 1000 := by
      rw [Schema.edge, toJson, Schema.accepts_object_iff]
      simp [Record.get?_cons, Record.get?_optional, Schema.accepts_nodeId_iff h.source,
        Schema.accepts_nodeId_iff h.target, Schema.accepts_optionalText_iff, Limits.label]
    _ ↔ e.Fits :=
      ⟨fun ⟨source, target, label⟩ => ⟨source, target, label⟩,
        fun ⟨source, target, label⟩ => ⟨source, target, label⟩⟩

theorem keep?_toJson (h : e.Plain) (hf : e.Fits) :
    Schema.edge.keep? (some e.toJson) = some e.toJson := by
  have ha := (accepts_toJson_iff h).mpr hf
  rw [Schema.edge, toJson] at ha ⊢
  rw [Schema.keep?_object ha]
  obtain ⟨source, target, label⟩ := e
  cases label <;>
    simp [Record.get?, Schema.keepFields, Schema.reservedKey, Schema.nodeId, Json.optional]

end Edge

namespace Plan

variable {p : Plan}

-- The form of a plan that is read from a document.
structure Plain (p : Plan) : Prop where
  nodes : ∀ n ∈ p.nodes, n.Plain
  edges : ∀ e ∈ p.edges, e.Plain

-- What can be wrong with a plan of this form.
structure Fits (p : Plan) : Prop where
  nodeCount   : p.nodes.length ≤ 1000
  edgeCount   : p.edges.length ≤ 5000
  nodes       : ∀ n ∈ p.nodes, n.Fits
  edges       : ∀ e ∈ p.edges, e.Fits
  title       : ∀ title, p.title = some title → title.units ≤ 500
  description : ∀ description, p.description = some description → description.units ≤ 5000

theorem plain_of_ofSpec {defaultKind text : List Char} (h : Plan.ofSpec defaultKind text = .ok p) :
    p.Plain := by
  cases outcome_of_ofSpec h with
  | plan _ nodes edges =>
    constructor
    case nodes =>
      intro n hn
      have ⟨_, _, hl⟩ := exists_of_map_eq nodes hn
      exact Node.plain_of_ofLine? hl
    case edges =>
      intro e he
      have ⟨_, _, hl⟩ := exists_of_map_eq edges he
      exact Edge.plain_of_ofLine? hl

-- A document without a character has no nodes section.
theorem ne_nil_of_ofSpec {defaultKind text : List Char} (h : Plan.ofSpec defaultKind text = .ok p) :
    text ≠ [] := by
  rintro rfl
  obtain ⟨ls, hls, _⟩ := ofSpec_eq_ok_iff.mp h
  have : requireNodes (sections []) = .error ⟨.noNodes, none⟩ := by decide
  rw [this] at hls
  nomatch hls

@[simp]
theorem ofJson_toJson : ofJson p.toJson = p := by
  obtain ⟨nodes, edges, title, description⟩ := p
  have hn : (nodes.map Node.toJson).map Node.ofJson = nodes := by simp [Function.comp_def]
  have he : (edges.map Edge.toJson).map Edge.ofJson = edges := by simp [Function.comp_def]
  cases title <;> cases description <;>
    simp [ofJson, toJson, Json.text?, Json.get?, Record.get?, Json.string?, Json.optional,
      Json.items, hn, he]

theorem accepts_nodes_iff (h : p.Plain) :
    (Schema.array Schema.node Limits.nodes).Accepts (some (.arr (p.nodes.map Node.toJson))) ↔
      p.nodes.length ≤ 1000 ∧ ∀ n ∈ p.nodes, n.Fits :=
  Schema.accepts_array_map_iff fun n hn => Node.accepts_toJson_iff (h.nodes n hn)

theorem accepts_edges_iff (h : p.Plain) :
    (Schema.array Schema.edge Limits.edges).Accepts (some (.arr (p.edges.map Edge.toJson))) ↔
      p.edges.length ≤ 5000 ∧ ∀ e ∈ p.edges, e.Fits :=
  Schema.accepts_array_map_iff fun e he => Edge.accepts_toJson_iff (h.edges e he)

theorem accepts_toJson_iff (h : p.Plain) : Schema.plan.Accepts (some p.toJson) ↔ p.Fits :=
  calc Schema.plan.Accepts (some p.toJson)
    _ ↔ (p.nodes.length ≤ 1000 ∧ ∀ n ∈ p.nodes, n.Fits) ∧
        (p.edges.length ≤ 5000 ∧ ∀ e ∈ p.edges, e.Fits) ∧
        (∀ title, p.title = some title → title.units ≤ 500) ∧
        ∀ description, p.description = some description → description.units ≤ 5000 := by
      rw [Schema.plan, toJson, Schema.accepts_object_iff]
      simp [Record.get?_append, Record.get?_cons, Record.get?_optional, accepts_nodes_iff h,
        accepts_edges_iff h, Schema.accepts_optionalText_iff, Limits.title, Limits.description]
    _ ↔ p.Fits :=
      ⟨fun ⟨⟨nodeCount, nodes⟩, ⟨edgeCount, edges⟩, title, description⟩ =>
          { nodeCount, edgeCount, nodes, edges, title, description },
        fun h => ⟨⟨h.nodeCount, h.nodes⟩, ⟨h.edgeCount, h.edges⟩, h.title, h.description⟩⟩

theorem keep?_toJson (h : p.Plain) (hf : p.Fits) :
    Schema.plan.keep? (some p.toJson) = some p.toJson := by
  have hn := Schema.keep?_array_map ((accepts_nodes_iff h).mpr ⟨hf.nodeCount, hf.nodes⟩) fun n hn =>
    Node.keep?_toJson (h.nodes n hn) (hf.nodes n hn)
  have he := Schema.keep?_array_map ((accepts_edges_iff h).mpr ⟨hf.edgeCount, hf.edges⟩) fun e he =>
    Edge.keep?_toJson (h.edges e he) (hf.edges e he)
  have ha := (accepts_toJson_iff h).mpr hf
  rw [Schema.plan, toJson] at ha ⊢
  rw [Schema.keep?_object ha]
  obtain ⟨nodes, edges, title, description⟩ := p
  cases title <;> cases description <;>
    simp [Record.get?, Schema.keepFields, Schema.reservedKey, Json.optional, hn, he]

-- A plan that has been read from a document is accepted unless something about it is too long, or
-- one of its nodes is of no kind.
theorem validate_toJson_iff {j : Json} (h : p.Plain) :
    Schema.plan.validate (some p.toJson) = .ok j ↔ p.Fits ∧ j = p.toJson := by
  rw [Schema.validate_eq_ok_iff, accepts_toJson_iff h, eq_comm (a := j)]
  exact and_congr_right fun hf => by rw [keep?_toJson h hf, Option.getD_some]

end Plan

end LayeredDiagram
