import LayeredDiagram.Proofs.Layout.Grid
import LayeredDiagram.Proofs.Layout.Outcome

namespace LayeredDiagram.Layout

open Text

variable {K L : Type} [Scalar K] [LT L] [DecidableLT L] [BEq L] {nodes : List Node}
  {ls : List (String × L)} {c : Canvas K} {s : Spacing K} {e : String × L} {b : Placed K}

-- A node `b` of the nodes, where its identifier and layer are in the order of all.
structure StandsAt (nodes : List Node) (ls : List (String × L)) (c : Canvas K) (s : Spacing K)
    (e : String × L) (b : Placed K) : Prop where
  mem : b.toNode ∈ nodes
  id  : b.id = e.1
  x   : b.x = s.margin + Scalar.ofNat (columnOf ls e.2) * s.horizontal
  y   : b.y = columnStart (Scalar.ofNat (countOf ls e.2)) c.height s +
    Scalar.ofNat (rowOf ls e) * s.vertical

theorem standsAt_of_place (hn : (nodes.map (·.id)).Nodup)
    (h : place (nodesById nodes) (spot ls c s e) = .ok b) : StandsAt nodes ls c s e b := by
  have ⟨hmem, hid⟩ := (getElem?_nodesById hn).mp (place_eq_ok h)
  have ⟨_, hxy⟩ := Prod.mk.inj (spot_eq_of_place hn h)
  exact ⟨hmem, hid, congrArg Prod.fst hxy, congrArg Prod.snd hxy⟩

-- Either the nodes stand in the order of their identifiers, or the first that is none is reported.
theorem placeNodes_of_areRanked [Ranked L] (hn : (nodes.map (·.id)).Nodup) (h : AreRanked ls)
    (hs : (ls.map fun e => spelling e.1).Nodup) :
    ∃ es : List (String × L), es.Perm ls ∧ es.Pairwise Ahead ∧
      ((∀ e ∈ ls, e.1 ∈ nodes.map (·.id)) → ∃ placed, placeNodes nodes ls c s = .ok placed ∧
        List.Forall₂ (StandsAt nodes ls c s) es placed) ∧
      ((∃ e ∈ ls, e.1 ∉ nodes.map (·.id)) → ∃ before e after, es = before ++ e :: after ∧
        (∀ f ∈ before, f.1 ∈ nodes.map (·.id)) ∧ e.1 ∉ nodes.map (·.id) ∧
        placeNodes nodes ls c s =
          .error (.failed ("Layer assigned to undeclared node \"" ++ e.1 ++ "\""))) := by
  have ⟨es, hp, ho, hpos⟩ := h.exists_positions (c := c) (s := s) hs
  refine ⟨es, hp, ho, fun hd => ?_, fun ⟨e, he, hne⟩ => ?_⟩
  case refine_1 =>
    have hok : ∀ x ∈ es.map (spot ls c s), ∃ b, place (nodesById nodes) x = .ok b := by
      refine List.forall_mem_map.mpr fun e he => exists_place_eq_ok hn ?_
      exact hd e (hp.mem_iff.mp he)
    have ⟨placed, hpl⟩ := exists_mapM_eq_ok hok
    refine ⟨placed, by rw [placeNodes, hpos, hpl], ?_⟩
    exact (List.forall₂_map_left_iff.mp (mapM_eq_ok_iff.mp hpl)).imp fun _ _ => standsAt_of_place hn
  case refine_2 =>
    have hany : (es.find? fun e => e.1 ∉ nodes.map (·.id)).isSome :=
      List.find?_isSome.mpr ⟨e, hp.mem_iff.mpr he, by simpa using hne⟩
    obtain ⟨first, hf⟩ := Option.isSome_iff_exists.mp hany
    obtain ⟨hne, before, after, hes, hd⟩ := List.find?_eq_some_iff_append.mp hf
    replace hne : first.1 ∉ nodes.map (·.id) := by simpa using hne
    replace hd : ∀ f ∈ before, f.1 ∈ nodes.map (·.id) := by simpa using hd
    refine ⟨before, first, after, hes, hd, hne, ?_⟩
    rw [placeNodes, hpos, hes]
    refine mapM_eq_error_iff.mpr ⟨_, _, _, List.map_append, ?_, place_of_not_mem hn hne⟩
    exact List.forall_mem_map.mpr fun f hf => exists_place_eq_ok hn (hd f hf)

end LayeredDiagram.Layout

namespace LayeredDiagram.Plan

open Layout Text

-- For whichever numbers positions are computed in, and for whichever finite layers.
theorem placeNodes_standsAt (p : Plan) :
    (p.ids.Nodup → ∀ {K : Type} [Scalar K] (ls : List (String × Float)) (c : Canvas K)
      (s : Spacing K), (ls.map fun e => spelling e.1).Nodup → (∀ e ∈ ls, e.2.isFinite) →
      ∃ es : List (String × Float), es.Perm ls ∧ es.Pairwise Ahead ∧
        ((∀ e ∈ ls, e.1 ∈ p.ids) → ∃ placed, placeNodes p.nodes ls c s = .ok placed ∧
          List.Forall₂ (StandsAt p.nodes ls c s) es placed) ∧
        ((∃ e ∈ ls, e.1 ∉ p.ids) → ∃ before e after, es = before ++ e :: after ∧
          (∀ f ∈ before, f.1 ∈ p.ids) ∧ e.1 ∉ p.ids ∧ placeNodes p.nodes ls c s =
            .error (.failed ("Layer assigned to undeclared node \"" ++ e.1 ++ "\"")))) ∧
    ∀ o l, p.layout o = .ok l → (l.nodes.map (·.toNode)).Perm p.nodes ∧ l.edges = p.edges ∧
      l.width = o.canvas.width ∧ l.height = o.canvas.height := by
  constructor
  case left =>
    intro hn K _ ls c s hs hf
    exact placeNodes_of_areRanked hn (areRanked_of_isFinite hf) hs
  case right =>
    intro o l hl
    cases hl ▸ p.laid_layout o
    case placed hw hh hnodes hedges => exact ⟨hnodes, hedges, hw, hh⟩

-- The last layer comes first, holds two nodes, and is not next to any other.
def gaps : List (String × Float) :=
  [("～", 7.5), ("d", -2), ("😀", 7.5), ("a", 0.25)]

theorem placeNodes_standsAt_gaps : fan.ids.Nodup ∧ (gaps.map fun e => spelling e.1).Nodup ∧
    (∀ e ∈ gaps, e.2.isFinite) ∧ (∀ e ∈ gaps, e.1 ∈ fan.ids) ∧
    (∃ es placed, es.Perm gaps ∧ es.Pairwise Ahead ∧
      placeNodes fan.nodes gaps standardCanvas standardSpacing = .ok placed ∧
      List.Forall₂ (StandsAt fan.nodes gaps standardCanvas standardSpacing) es placed) ∧
    ∃ l, fan.layout = .ok l ∧ (l.nodes.map (·.toNode)).Perm fan.nodes := by
  have hn : fan.ids.Nodup := by decide
  have hs : (gaps.map fun e => spelling e.1).Nodup := by decide
  have hf : ∀ e ∈ gaps, e.2.isFinite := by decide
  have hd : ∀ e ∈ gaps, e.1 ∈ fan.ids := by decide
  have ⟨hplace, hlayout⟩ := placeNodes_standsAt fan
  have ⟨es, hp, ho, hok, _⟩ := hplace hn gaps standardCanvas standardSpacing hs hf
  have ⟨placed, hpl, hall⟩ := hok hd
  refine ⟨hn, hs, hf, hd, ⟨es, placed, hp, ho, hpl, hall⟩, ?_⟩
  obtain ⟨ls, hl, hids⟩ | ⟨_, hcap, _⟩ := layers_of_valid (p := fan) (by decide) none
  case inr => nomatch hcap
  case inl =>
    have ⟨l, h, _⟩ := layout_of_layers (o := {}) (by decide) hl hids
    exact ⟨l, h, (hlayout {} l h).left⟩

end LayeredDiagram.Plan
