import LayeredDiagram.Layout.Placement
import LayeredDiagram.Proofs.Layout.Columns
import LayeredDiagram.Proofs.Sequence

namespace LayeredDiagram

-- Where a node has been placed.
def Placed.spot {K : Type} (b : Placed K) : String × K × K :=
  (b.id, b.x, b.y)

namespace Layout

open Text

variable {K L : Type} {nodes nodes' : List Node} {n : Node} {id : String}
  {ls ms : List (String × L)}

theorem getElem?_foldl_insert_of_not_mem (h : id ∉ nodes.map (·.id)) (m : Std.HashMap String Node) :
    (nodes.foldl (fun m n => m.insert n.id n) m)[id]? = m[id]? := by
  induction nodes generalizing m with
  | nil => rfl
  | cons n nodes hi =>
    rw [List.map_cons, List.mem_cons, not_or] at h
    rw [List.foldl_cons, hi h.right, Std.HashMap.getElem?_insert, if_neg]
    simpa using Ne.symm h.left

theorem getElem?_foldl_insert_of_mem (hn : (nodes.map (·.id)).Nodup) (h : n ∈ nodes)
    (m : Std.HashMap String Node) :
    (nodes.foldl (fun m n => m.insert n.id n) m)[n.id]? = some n := by
  induction nodes generalizing m with
  | nil => nomatch h
  | cons n' nodes hi =>
    have ⟨hn', hn⟩ := List.nodup_cons.mp hn
    cases h
    case head   => simp [getElem?_foldl_insert_of_not_mem hn']
    case tail h => exact hi hn h _

theorem getElem?_nodesById (hn : (nodes.map (·.id)).Nodup) :
    (nodesById nodes)[id]? = some n ↔ n ∈ nodes ∧ n.id = id := by
  constructor
  case mp =>
    intro h
    by_cases hid : id ∈ nodes.map (·.id)
    case neg =>
      rw [nodesById, getElem?_foldl_insert_of_not_mem hid] at h
      simp at h
    case pos =>
      obtain ⟨n', hn', rfl⟩ := List.mem_map.mp hid
      rw [nodesById, getElem?_foldl_insert_of_mem hn hn'] at h
      exact Option.some.inj h ▸ ⟨hn', rfl⟩
  case mpr =>
    rintro ⟨h, rfl⟩
    exact getElem?_foldl_insert_of_mem hn h _

theorem place_eq_ok {byId : Std.HashMap String Node} {spot : String × K × K} {b : Placed K}
    (h : place byId spot = .ok b) : byId[spot.1]? = some b.toNode := by
  unfold place at h
  cases hn : byId[spot.1]? with
  | none   => simp [hn] at h
  | some n =>
    simp only [hn] at h
    cases h
    rfl

theorem spot_eq_of_place {spot : String × K × K} {b : Placed K} (hn : (nodes.map (·.id)).Nodup)
    (h : place (nodesById nodes) spot = .ok b) : b.spot = spot := by
  have hget := place_eq_ok h
  have ⟨_, hid⟩ := (getElem?_nodesById hn).mp hget
  simp only [place, hget, Except.ok.injEq] at h
  exact Prod.ext hid (Prod.ext (congrArg Placed.x h).symm (congrArg Placed.y h).symm)

theorem exists_place_eq_ok {spot : String × K × K} (hn : (nodes.map (·.id)).Nodup)
    (h : spot.1 ∈ nodes.map (·.id)) : ∃ b, place (nodesById nodes) spot = .ok b := by
  have ⟨n, hmem, hid⟩ := List.mem_map.mp h
  simp [place, (getElem?_nodesById hn).mpr ⟨hmem, hid⟩]

theorem place_of_not_mem {spot : String × K × K} (hn : (nodes.map (·.id)).Nodup)
    (h : spot.1 ∉ nodes.map (·.id)) : place (nodesById nodes) spot =
      .error (.failed ("Layer assigned to undeclared node \"" ++ spot.1 ++ "\"")) := by
  have hget : (nodesById nodes)[spot.1]? = none := by
    refine Option.eq_none_iff_forall_ne_some.mpr fun n hget => h ?_
    have ⟨hmem, hid⟩ := (getElem?_nodesById hn).mp hget
    exact List.mem_map.mpr ⟨n, hmem, hid⟩
  simp only [place, hget]

theorem place_eq_of_perm (hn : (nodes.map (·.id)).Nodup) (h : nodes'.Perm nodes) :
    place (K := K) (nodesById nodes') = place (nodesById nodes) := by
  have hn' : (nodes'.map (·.id)).Nodup := (h.map _).nodup_iff.mpr hn
  have he (id : String) : (nodesById nodes')[id]? = (nodesById nodes)[id]? := by
    ext n
    simp only [getElem?_nodesById hn, getElem?_nodesById hn', h.mem_iff]
  funext ⟨id, x, y⟩
  simp only [place, he]

theorem positions_eq_flatten [Scalar K] {c : Canvas K} {s : Spacing K}
    (columns : List (List String)) : positions c s columns =
      (columns.zipIdx.map fun (ids, column) => ids.zipIdx.map fun (id, row) =>
        (id, position c s column ids.length row)).flatten :=
  List.flatMap_def ..

theorem map_fst_positions [Scalar K] {c : Canvas K} {s : Spacing K} (columns : List (List String)) :
    (positions c s columns).map (·.1) = columns.flatten := by
  have hz {α : Type} (as : List α) : as.zipIdx.map (·.1) = as := by simp
  simp only [positions, List.map_flatMap, List.map_map, Function.comp_def, hz]
  simp [List.flatMap_def]

variable [Scalar K] [Ranked L] {c : Canvas K} {s : Spacing K} {placed : List (Placed K)}

theorem map_spot_of_placeNodes (hn : (nodes.map (·.id)).Nodup)
    (h : placeNodes nodes ls c s = .ok placed) :
    placed.map (·.spot) = positions c s (columns ls) := by
  simpa using map_eq_of_mapM (g := (·.spot)) (k := id) h fun _ _ => spot_eq_of_place hn

-- Which nodes are placed, and in which order, does not depend on the numbers.
theorem map_toNode_of_placeNodes (h : placeNodes nodes ls c s = .ok placed) :
    (placed.map (·.toNode)).map some = (columns ls).flatten.map ((nodesById nodes)[·]?) := by
  have hget := map_eq_of_mapM (g := fun b => some b.toNode)
    (k := fun spot => (nodesById nodes)[spot.1]?) h fun _ _ h => (place_eq_ok h).symm
  rw [List.map_map, ← map_fst_positions (c := c) (s := s), List.map_map]
  exact hget

-- If the layers are those of the nodes, each of these is placed once.
theorem placeNodes_perm (hr : ∀ e ∈ ls, (Ranked.rank? e.2).isSome) (hn : (nodes.map (·.id)).Nodup)
    (hl : ls.map (·.1) = nodes.map (·.id)) :
    ∃ placed, placeNodes nodes ls c s = .ok placed ∧ (placed.map (·.toNode)).Perm nodes := by
  have hp : ((positions c s (columns ls)).map (·.1)).Perm (nodes.map (·.id)) := by
    rw [map_fst_positions, ← hl]
    exact flatten_columns_perm hr
  have hok (spot : String × K × K) (h : spot ∈ positions c s (columns ls)) :
      ∃ b, place (nodesById nodes) spot = .ok b :=
    exists_place_eq_ok hn (hp.mem_iff.mp (List.mem_map_of_mem h))
  have ⟨placed, hpl⟩ := exists_mapM_eq_ok hok
  have hin (spot : String × K × K) (b : Placed K) (h : place (nodesById nodes) spot = .ok b) :
      b.toNode ∈ nodes ∧ b.id = spot.1 :=
    (getElem?_nodesById hn).mp (place_eq_ok h)
  have hm : ∀ b ∈ placed, b.toNode ∈ nodes := by
    intro b hb
    have ⟨spot, _, h⟩ := exists_of_mem_mapM hpl hb
    exact (hin spot b h).left
  have hk := map_eq_of_mapM (g := (·.id)) hpl fun spot b h => (hin spot b h).right
  refine ⟨placed, hpl, perm_of_map_perm (·.id) hn ?_ (List.forall_mem_map.mpr hm)⟩
  simpa [← hk, Function.comp_def] using hp

theorem placeNodes_eq_of_perm (hr : ∀ e ∈ ls, (Ranked.rank? e.2).isSome)
    (hs : (ls.map fun e => spelling e.1).Nodup) (hn : (nodes.map (·.id)).Nodup)
    (hl : ms.Perm ls) (h : nodes'.Perm nodes) :
    placeNodes nodes' ms c s = placeNodes nodes ls c s := by
  simp only [placeNodes, columns_eq_of_perm hr hl hs, place_eq_of_perm hn h]

end Layout

end LayeredDiagram
