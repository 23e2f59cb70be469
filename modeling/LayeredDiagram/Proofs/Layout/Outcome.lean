import LayeredDiagram.Proofs.Graph.Layering
import LayeredDiagram.Proofs.Graph.Refusal
import LayeredDiagram.Proofs.Layout.Engine

namespace LayeredDiagram

open Spec (FirstRepeat)

namespace Layout

variable {K : Type}

def ids (l : Layout K) : List String :=
  l.nodes.map (·.id)

-- Every edge joins nodes that have been placed.
def Joined (l : Layout K) : Prop :=
  ∀ e ∈ l.edges, e.source ∈ l.ids ∧ e.target ∈ l.ids

instance {l : Layout K} : Decidable l.Joined :=
  inferInstanceAs (Decidable (∀ e ∈ l.edges, e.source ∈ l.ids ∧ e.target ∈ l.ids))

end Layout

namespace Plan

open LayeredDiagram.Graph

variable {p : Plan} {o : LayoutOptions}

-- The outcome of a plan. There is a case for each way to fail, and none that a layer belongs to a
-- node that is not declared.
inductive Laid (p : Plan) (o : LayoutOptions) : Except LayoutError (Layout Float) → Prop where
  | repeated {n : Node} (h : FirstRepeat (·.id) p.nodes n) : Laid p o (.error (.duplicateNode n.id))
  | undeclared {id : String} {e : Edge} (distinct : p.ids.Nodup) (h : p.FirstUndeclared id e) :
    Laid p o (.error (.unknownNode id e))
  | notSettled {x : Float} (valid : p.Valid) (cap : o.cap = some x)
    (below : Number.LessThan x (p.nodes.length * p.nodes.length)) :
    Laid p o (.error (.notSettled x))
  | placed {l : Layout Float} (valid : p.Valid) (width : l.width = o.canvas.width)
    (height : l.height = o.canvas.height) (nodes : (l.nodes.map (·.toNode)).Perm p.nodes)
    (edges : l.edges = p.edges) : Laid p o (.ok l)

theorem layout_of_ofPlan_eq_error {e : LayoutError} (h : ofPlan p = .error e) :
    p.layout o = .error e := by
  simp [layout, arrange, layers, h, bind, Except.bind]

theorem layout_eq_error_of_layers {e : LayoutError} (h : p.layers o.cap = .error e) :
    p.layout o = .error e := by
  simp [layout, arrange, h, bind, Except.bind]

-- A cap that is exceeded is below the number of nodes taken.
theorem layers_of_valid (hp : p.Valid) (cap : Option Float) :
    (∃ ls, p.layers cap = .ok ls ∧ ls.map (·.1) = p.ids) ∨
    ∃ x, cap = some x ∧ Number.LessThan x (p.nodes.length * p.nodes.length) ∧
      p.layers cap = .error (.notSettled x) := by
  have ⟨g, h, _⟩ := ofPlan_of_valid hp
  have ⟨n, r, hs, hn⟩ := exists_settles_start h
  have hids (ls : List (String × Nat)) (hl : p.layers cap = .ok ls) : ls.map (·.1) = p.ids :=
    (isLongest_of_layers h hl).left
  cases cap with
  | none   => exact .inl ⟨_, layers_none h hs hn, hids _ (layers_none h hs hn)⟩
  | some x =>
    have hl : p.layers (some x) = g.layers (p.cap (some x)) := layers_eq_of_ofPlan h
    rw [layers_of_settles hs hn] at hl
    by_cases hx : 0 < n ∧ (p.cap (some x)).isExceededBy n
    case pos =>
      rw [if_pos hx] at hl
      rw [size_of_ofPlan h] at hn
      exact .inr ⟨x, rfl, (Number.exceeds_iff.mp hx.right).mono hn, hl⟩
    case neg =>
      rw [if_neg hx] at hl
      exact .inl ⟨_, hl, hids _ hl⟩

theorem layout_of_layers {ls : List (String × Nat)} (hp : p.Valid) (hl : p.layers o.cap = .ok ls)
    (hids : ls.map (·.1) = p.ids) : ∃ l, p.layout o = .ok l ∧ p.Laid o (.ok l) := by
  have hr : ∀ e ∈ ls, (Ranked.rank? e.2).isSome := fun _ _ => rfl
  have ⟨placed, hpl, hall⟩ := Layout.placeNodes_perm (c := o.canvas) (s := o.spacing) hr
    hp.distinct hids
  exact ⟨_, arrange_of_layers hl hpl, .placed hp rfl rfl hall rfl⟩

-- Once there are layers there is a layout.
theorem layout_eq_error_iff {e : LayoutError} :
    p.layout o = .error e ↔ p.layers o.cap = .error e := by
  refine ⟨fun h => ?_, layout_eq_error_of_layers⟩
  cases hl : p.layers o.cap with
  | error e' =>
    rw [layout_eq_error_of_layers hl] at h
    rw [Except.error.inj h]
  | ok ls    =>
    obtain ⟨g, hg, _⟩ := bind_eq_ok_iff.mp hl
    obtain ⟨l, hlay, _⟩ := layout_of_layers (valid_of_ofPlan hg) hl (isLongest_of_layers hg hl).left
    rw [h] at hlay
    nomatch hlay

theorem laid_layout (p : Plan) (o : LayoutOptions) : p.Laid o (p.layout o) := by
  by_cases hn : p.ids.Nodup
  case neg =>
    have ⟨n, h⟩ := Spec.exists_firstRepeat hn
    rw [layout_of_ofPlan_eq_error (ofPlan_of_firstRepeat h)]
    exact .repeated h
  case pos =>
    by_cases hd : ∀ e ∈ p.edges, e.source ∈ p.ids ∧ e.target ∈ p.ids
    case neg =>
      have ⟨id, e, h⟩ := exists_firstUndeclared hd
      rw [layout_of_ofPlan_eq_error (ofPlan_of_firstUndeclared hn h)]
      exact .undeclared hn h
    case pos =>
      have hp : p.Valid := ⟨hn, hd⟩
      obtain ⟨ls, hl, hids⟩ | ⟨x, hc, hx, hl⟩ := layers_of_valid hp o.cap
      case inl =>
        have ⟨l, h, hlaid⟩ := layout_of_layers hp hl hids
        rwa [h]
      case inr =>
        rw [layout_eq_error_of_layers hl]
        exact .notSettled hp hc hx

theorem Laid.joined {l : Layout Float} (h : p.Laid o (.ok l)) : l.Joined := by
  cases h with
  | placed hp _ _ nodes edges =>
    have hids : l.ids.Perm p.ids := by
      have := nodes.map (·.id)
      rwa [List.map_map] at this
    intro e he
    have ⟨hs, ht⟩ := hp.declared e (edges ▸ he)
    exact ⟨hids.mem_iff.mpr hs, hids.mem_iff.mpr ht⟩

end Plan

end LayeredDiagram
