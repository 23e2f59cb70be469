import LayeredDiagram.Figure.Generator
import LayeredDiagram.Proofs.Layout.Outcome
import Mathlib.Algebra.Order.Field.Rat
import Mathlib.Data.Set.Prod
import Mathlib.Order.CompletePartialOrder
import Mathlib.Order.Interval.Set.Disjoint
import Mathlib.Tactic.Linarith
import Mathlib.Tactic.Ring

namespace LayeredDiagram

instance : Scalar ℚ where
  ofNat  := Nat.cast
  larger := max

namespace Placed

-- The upper left corner of the box around a node.
def corner {K : Type} [Scalar K] (b : Placed K) : K × K :=
  (b.x - Scalar.ofNat boxWidth / Scalar.ofNat 2, b.y - Scalar.ofNat boxHeight / Scalar.ofNat 2)

-- What lies inside the box.
def interior (b : Placed ℚ) : Set (ℚ × ℚ) :=
  Set.Ioo b.corner.1 (b.corner.1 + boxWidth) ×ˢ Set.Ioo b.corner.2 (b.corner.2 + boxHeight)

end Placed

namespace Drawing

-- A rectangle from that corner on, as wide and as high as boxes are.
def IsBox (b : Placed Float) (e : Element) : Prop :=
  ∃ rest, e = .node "rect" (Element.attributes [("x", coordinate b.corner.1),
    ("y", coordinate b.corner.2), ("width", coordinate (Scalar.ofNat boxWidth)),
    ("height", coordinate (Scalar.ofNat boxHeight))] ++ rest) none []

theorem isBox_nodeBox (b : Placed Float) (s : ShapeStyle) : IsBox b (nodeBox b s) :=
  ⟨_, rfl⟩

end Drawing

namespace Spacing

-- The standard spacing, in any numbers.
def standard {K : Type} [Scalar K] : Spacing K :=
  ⟨Scalar.ofNat 200, Scalar.ofNat 140, Scalar.ofNat 60⟩

-- There is room for a box between the centres of neighbours.
structure HoldsBoxes (s : Spacing ℚ) : Prop where
  width  : boxWidth ≤ s.horizontal
  height : boxHeight ≤ s.vertical

theorem holdsBoxes_standard : (standard : Spacing ℚ).HoldsBoxes where
  width  := Nat.cast_le.mpr (by decide : boxWidth ≤ 200)
  height := Nat.cast_le.mpr (by decide : boxHeight ≤ 140)

end Spacing

-- No figure is drawn with another spacing.
theorem Generator.spacing_options (g : Generator) : g.options.spacing = .standard :=
  rfl

namespace Layout

variable {c : Canvas ℚ} {s : Spacing ℚ} {k n i : ℕ} {a b : Placed ℚ} {column : List (Placed ℚ)}
  {ids : List String} {L : Type} [Ranked L] {nodes : List Node} {ls : List (String × L)}
  {placed : List (Placed ℚ)}

theorem position_eq : position c s k n i =
    (s.margin + k * s.horizontal, columnStart (n : ℚ) c.height s + i * s.vertical) :=
  rfl

theorem margin_le_columnStart {height : ℚ} : s.margin ≤ columnStart (n : ℚ) height s :=
  le_max_left ..

-- A column that leaves room for the margins is centred.
theorem columnStart_of_room (hn : 1 ≤ n) (h : (n - 1) * s.vertical + 2 * s.margin ≤ c.height) :
    columnStart (n : ℚ) c.height s = (c.height - (n - 1) * s.vertical) / 2 := by
  have hspan : max 0 ((n : ℚ) - 1) = n - 1 := max_eq_right (by simpa using hn)
  have hroom : s.margin ≤ (c.height - s.vertical * (n - 1)) / 2 := by linarith
  calc columnStart (n : ℚ) c.height s
    _ = max s.margin ((c.height - s.vertical * max 0 ((n : ℚ) - 1)) / 2) := by
      simp [columnStart, Scalar.ofNat, Scalar.larger]
    _ = (c.height - (n - 1) * s.vertical) / 2 := by
      rw [hspan, max_eq_right hroom, mul_comm]

-- The nodes of column `k`, the topmost first.
structure Aligned (c : Canvas ℚ) (s : Spacing ℚ) (k : ℕ) (column : List (Placed ℚ)) : Prop where
  x       : ∀ b ∈ column, b.x = s.margin + k * s.horizontal
  apart   : column.IsChain fun upper lower => lower.y = upper.y + s.vertical
  margin  : ∀ b ∈ column.head?, s.margin ≤ b.y
  -- Half the height of the canvas is the axis.
  centred : (column.length - 1) * s.vertical + 2 * s.margin ≤ c.height →
    (column.map (·.y)).reverse = column.map (c.height - ·.y)

theorem aligned_of_spots (h : column.map (·.spot) = ids.zipIdx.map fun (id, row) =>
    (id, position c s k ids.length row)) : Aligned c s k column := by
  have hlength : ids.length = column.length := by simpa using (congrArg List.length h).symm
  have hget (i : ℕ) (hi : i < column.length) : column[i].x = s.margin + k * s.horizontal ∧
      column[i].y = columnStart (column.length : ℚ) c.height s + i * s.vertical := by
    have hspot : column[i].spot = (ids[i], position c s k ids.length i) := by
      simpa [hi, hlength] using congrArg (·[i]?) h
    have ⟨_, hxy⟩ := Prod.mk.inj hspot
    rw [position_eq, hlength] at hxy
    exact Prod.mk.inj hxy
  constructor
  case x =>
    intro b hb
    obtain ⟨i, hi, rfl⟩ := List.getElem_of_mem hb
    exact (hget i hi).left
  case apart =>
    refine List.isChain_iff_getElem.mpr fun i hi => ?_
    rw [(hget i (by omega)).right, (hget (i + 1) hi).right]
    push_cast
    ring
  case margin =>
    intro b hb
    obtain ⟨rest, rfl⟩ := List.head?_eq_some_iff.mp hb
    have hy : b.y = _ := (hget 0 (by simp)).right
    rw [hy, Nat.cast_zero, zero_mul, add_zero]
    exact margin_le_columnStart
  case centred =>
    intro hroom
    refine List.ext_getElem (by simp) fun i hi _ => ?_
    have hi : i < column.length := by simpa using hi
    rw [List.getElem_reverse, List.getElem_map, List.getElem_map, (hget _ _).right,
      (hget i hi).right, columnStart_of_room (by omega) hroom, List.length_map,
      Nat.cast_sub (by omega), Nat.cast_sub (by omega)]
    push_cast
    ring

theorem disjoint_Ioo_of_add_le {x y length : ℚ} (h : x + length ≤ y) :
    Disjoint (Set.Ioo x (x + length)) (Set.Ioo y (y + length)) :=
  Set.Ioo_disjoint_Ioo.mpr ((min_le_left ..).trans (h.trans (le_max_right ..)))

theorem disjoint_interior (h : a.x + boxWidth ≤ b.x ∨ a.y + boxHeight ≤ b.y) :
    Disjoint a.interior b.interior := by
  refine Set.disjoint_prod.mpr (h.imp (fun h => ?_) fun h => ?_) <;>
    refine disjoint_Ioo_of_add_le ?_
  case refine_1 =>
    have hx (b : Placed ℚ) : b.corner.1 = b.x - boxWidth / 2 := rfl
    rw [hx, hx]
    linarith
  case refine_2 =>
    have hy (b : Placed ℚ) : b.corner.2 = b.y - boxHeight / 2 := rfl
    rw [hy, hy]
    linarith

-- What stands lower in a column is at least one spacing away.
theorem Aligned.pairwise (h : Aligned c s k column) (hv : 0 ≤ s.vertical) :
    column.Pairwise fun upper lower => upper.y + s.vertical ≤ lower.y := by
  have : IsTrans (Placed ℚ) fun upper lower => upper.y + s.vertical ≤ lower.y :=
    ⟨fun _ _ _ hab hbc => by linarith⟩
  exact (h.apart.imp fun _ _ h => h.ge).pairwise

theorem pairwise_disjoint {grid : List (List (Placed ℚ))} (hs : s.HoldsBoxes)
    (h : ∀ k column, grid[k]? = some column → Aligned c s k column) :
    grid.flatten.Pairwise fun a b => Disjoint a.interior b.interior := by
  have hh : 0 ≤ s.horizontal := (Nat.cast_nonneg _).trans hs.width
  have hv : 0 ≤ s.vertical := (Nat.cast_nonneg _).trans hs.height
  refine List.pairwise_flatten.mpr ⟨fun column hc => ?_, ?_⟩
  case refine_1 =>
    obtain ⟨k, hk⟩ := List.mem_iff_getElem?.mp hc
    refine ((h k column hk).pairwise hv).imp fun hab => disjoint_interior (.inr ?_)
    exact (add_le_add_right hs.height _).trans hab
  case refine_2 =>
    refine List.pairwise_iff_getElem.mpr fun j k hj hk hjk a ha b hb => disjoint_interior (.inl ?_)
    rw [(h j _ (List.getElem?_eq_getElem hj)).x a ha, (h k _ (List.getElem?_eq_getElem hk)).x b hb]
    have hle : ((j : ℚ) + 1) * s.horizontal ≤ k * s.horizontal :=
      mul_le_mul_of_nonneg_right (by exact_mod_cast hjk) hh
    have := hs.width
    linarith

-- The nodes stand in columns as the layers say.
theorem exists_grid (hn : (nodes.map (·.id)).Nodup) (h : placeNodes nodes ls c s = .ok placed) :
    ∃ grid : List (List (Placed ℚ)), placed = grid.flatten ∧
      grid.map (·.map (·.id)) = columns ls ∧
      ∀ k column, grid[k]? = some column → Aligned c s k column := by
  have hspots := (map_spot_of_placeNodes hn h).trans (positions_eq_flatten (columns ls))
  obtain ⟨grid, rfl, hg⟩ := exists_parts_of_map_eq hspots
  refine ⟨grid, rfl, ?_, fun k column hk => ?_⟩
  case refine_1 =>
    calc grid.map (·.map (·.id))
      _ = (grid.map (·.map (·.spot))).map (·.map (·.1)) := by simp [Function.comp_def, Placed.spot]
      _ = columns ls := by
        rw [hg]
        simp [Function.comp_def]
  case refine_2 =>
    have hcolumn := congrArg (·[k]?) hg
    simp only [List.getElem?_map, List.getElem?_zipIdx, hk, Option.map_map, Option.map_some]
      at hcolumn
    obtain ⟨ids, _, hspots⟩ := Option.map_eq_some_iff.mp hcolumn.symm
    exact aligned_of_spots (by simpa using hspots.symm)

end Layout

namespace Plan

open LayeredDiagram.Graph Layout

variable {p : Plan} {o : LayoutOptions} {l₀ : Layout Float}

-- A plan that has a layout has one in any numbers, with the same nodes in the same order.
theorem arrange_of_layout {K : Type} [Scalar K] (h : p.layout o = .ok l₀) (c : Canvas K)
    (s : Spacing K) : ∃ ls l, p.Valid ∧ p.layers o.cap = .ok ls ∧
      placeNodes p.nodes ls c s = .ok l.nodes ∧ p.arrange c s o.cap = .ok l ∧
      l.nodes.map (·.toNode) = l₀.nodes.map (·.toNode) := by
  obtain ⟨ls, hl, h⟩ := bind_eq_ok_iff.mp h
  obtain ⟨placed₀, hpl₀, h⟩ := bind_eq_ok_iff.mp h
  obtain ⟨g, hg, _⟩ := bind_eq_ok_iff.mp hl
  cases h
  have hp := valid_of_ofPlan hg
  have ⟨placed, hpl, _⟩ := placeNodes_perm (c := c) (s := s) (fun _ _ => rfl) hp.distinct
    (isLongest_of_layers hg hl).left
  refine ⟨ls, _, hp, hl, hpl, arrange_of_layers hl hpl, ?_⟩
  have hsame := (map_toNode_of_placeNodes hpl).trans (map_toNode_of_placeNodes hpl₀).symm
  exact List.map_injective_iff.mpr (Option.some_injective _) hsame

-- In exact numbers every column is spaced evenly and starts at the margin or below it, and the
-- columns that leave room for the margins are centred. No two boxes overlap unless the spacing is
-- smaller than they are, which that of figures is not.
theorem layout_geometry (h : p.layout o = .ok l₀) (c : Canvas ℚ) (s : Spacing ℚ) :
    (∃ (ls : List (String × ℕ)) (l : Layout ℚ) (grid : List (List (Placed ℚ))),
      p.layers o.cap = .ok ls ∧ p.arrange c s o.cap = .ok l ∧
      l.nodes.map (·.toNode) = l₀.nodes.map (·.toNode) ∧ l.nodes = grid.flatten ∧
      grid.map (·.map (·.id)) = columns ls ∧
      (∀ k column, grid[k]? = some column → Aligned c s k column) ∧
      (s.HoldsBoxes → l.nodes.Pairwise fun a b => Disjoint a.interior b.interior)) ∧
    (∀ b style, Drawing.IsBox b (Drawing.nodeBox b style)) ∧
    (∀ g : Generator, g.options.spacing = .standard) ∧ (.standard : Spacing ℚ).HoldsBoxes := by
  have ⟨ls, l, hp, hl, hpl, harr, hsame⟩ := arrange_of_layout h c s
  have ⟨grid, hflat, hids, hgrid⟩ := exists_grid hp.distinct hpl
  refine ⟨⟨ls, l, grid, hl, harr, hsame, hflat, hids, hgrid, fun hs => ?_⟩,
    Drawing.isBox_nodeBox, Generator.spacing_options, Spacing.holdsBoxes_standard⟩
  exact hflat ▸ pairwise_disjoint hs hgrid

-- On a canvas of no height, all columns start at the margin.
theorem layout_geometry_fan : ∃ l₀ l, fan.layout = .ok l₀ ∧ fan.arrange ⟨800, 0⟩ .standard = .ok l ∧
    l.nodes.map (·.toNode) = l₀.nodes.map (·.toNode) ∧
    l.nodes.Pairwise fun a b => Disjoint a.interior b.interior := by
  have hp : fan.Valid := by decide
  have ⟨_, hl, hids⟩ := exists_layers hp
  have ⟨l₀, h, _⟩ := layout_of_layers (o := {}) hp hl hids
  obtain ⟨⟨_, l, _, _, harr, hsame, _, _, _, hdisjoint⟩, _, _, hstandard⟩ :=
    layout_geometry h ⟨800, 0⟩ .standard
  exact ⟨l₀, l, h, harr, hsame, hdisjoint hstandard⟩

end Plan

end LayeredDiagram
