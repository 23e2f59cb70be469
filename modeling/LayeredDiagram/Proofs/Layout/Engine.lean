import LayeredDiagram.Layout.Engine
import LayeredDiagram.Proofs.Graph.Acyclic
import LayeredDiagram.Proofs.Layout.Placement

namespace LayeredDiagram.Plan

open LayeredDiagram.Graph Text

variable {p q : Plan}

theorem arrange_of_layers {K : Type} [Scalar K] {ls : List (String × Nat)}
    {placed : List (Placed K)} {c : Canvas K} {s : Spacing K} {cap : Option Float}
    (hl : p.layers cap = .ok ls) (hp : Layout.placeNodes p.nodes ls c s = .ok placed) :
    p.arrange c s cap = .ok ⟨c.width, c.height, placed, p.edges⟩ := by
  simp only [arrange, hl, bind, Except.bind, hp]
  rfl

-- Identifiers are told apart by the units that spell them.
theorem layout_perm (hs : (p.ids.map spelling).Nodup)
    (hd : ∀ e ∈ p.edges, e.source ∈ p.ids ∧ e.target ∈ p.ids) (ha : Acyclic p.Joins)
    (hn : q.nodes.Perm p.nodes) (he : q.edges.Perm p.edges) (o : LayoutOptions)
    (ho : o.cap = none) : ∃ l, p.layout o = .ok l ∧ q.layout o = .ok { l with edges := q.edges } ∧
      (l.nodes.map (·.toNode)).Perm p.nodes := by
  have hp : p.Valid := ⟨hs.of_map, hd⟩
  have ⟨ls, ms, hl, hm, hperm, hids⟩ := layers_perm hp ha hn he
  have hr : ∀ e ∈ ls, (Ranked.rank? e.2).isSome := fun _ _ => rfl
  have ⟨placed, hpl, hall⟩ := Layout.placeNodes_perm (c := o.canvas) (s := o.spacing) hr
    hp.distinct hids
  have hsl : (ls.map fun e => spelling e.1).Nodup := by
    rw [← hids, List.map_map] at hs
    exact hs
  have hqpl := Layout.placeNodes_eq_of_perm (c := o.canvas) (s := o.spacing) hr hsl hp.distinct
    hperm hn
  refine ⟨⟨o.canvas.width, o.canvas.height, placed, p.edges⟩, ?_, ?_, hall⟩
  case refine_1 => rw [layout, ho, arrange_of_layers hl hpl]
  case refine_2 => rw [layout, ho, arrange_of_layers hm (hqpl.trans hpl)]

-- Two nodes whose characters and whose units are in different orders, on ways of equal length.
def fan : Plan :=
  ofEnds ["a", "～", "😀", "d"]
    [("a", "d"), ("a", "～"), ("a", "😀"), ("～", "d"), ("😀", "d"), ("a", "d")]

def turnedFan : Plan :=
  { fan with nodes := fan.nodes.reverse, edges := fan.edges.reverse }

theorem fan_acyclic : Acyclic fan.Joins := by
  refine Acyclic.of_rank (fun id => if id = "a" then 0 else if id = "d" then 2 else 1) ?_
  rintro _ _ ⟨e, he, rfl, rfl⟩
  revert e
  decide

theorem layout_perm_fan : (fan.ids.map spelling).Nodup ∧ fan.Valid ∧ Acyclic fan.Joins ∧
    ∃ l, fan.layout = .ok l ∧ turnedFan.layout = .ok { l with edges := fan.edges.reverse } := by
  have hs : (fan.ids.map spelling).Nodup := by decide
  have hv : fan.Valid := by decide
  have ⟨l, hl, hm, _⟩ := layout_perm (p := fan) (q := turnedFan) hs hv.declared fan_acyclic
    (List.reverse_perm _) (List.reverse_perm _) {} rfl
  exact ⟨hs, hv, fan_acyclic, l, hl, hm⟩

end LayeredDiagram.Plan
