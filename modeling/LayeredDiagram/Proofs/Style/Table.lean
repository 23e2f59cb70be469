import LayeredDiagram.Proofs.Record
import LayeredDiagram.Style.Table

namespace LayeredDiagram

namespace StyleTable

variable {t : StyleTable} {kind : String} {o : StyleOverride}
variable {overrides : Record StyleOverride}

-- What a kind is drawn like where nothing overrides it.
def base (t : StyleTable) (kind : String) : ShapeStyle :=
  (t.get? kind).getD .process

theorem get?_add {e : String × StyleOverride} (hk : kind ≠ reserved) :
    (t.add e).get? kind =
      if kind = e.1 then some ((t.base kind).override e.2) else t.get? kind := by
  obtain ⟨other, o⟩ := e
  rw [add]
  by_cases hr : other = reserved
  case pos =>
    subst hr
    simp [hk]
  case neg =>
    simp only [beq_iff_eq, hr, if_false, Record.get?_put]
    split
    case isTrue h  => rw [h, base]
    case isFalse h => rfl

theorem get?_foldl_of_not_mem (hk : kind ≠ reserved) (h : kind ∉ overrides.keys) :
    (overrides.foldl add t).get? kind = t.get? kind := by
  induction overrides generalizing t with
  | nil                 => rfl
  | cons e overrides hi =>
    have ⟨he, h⟩ := List.ne_and_not_mem_of_not_mem_cons h
    rw [List.foldl_cons, hi h, get?_add hk, if_neg he]

theorem get?_foldl_add (hk : kind ≠ reserved) (hn : overrides.keys.Nodup)
    (h : (kind, o) ∈ overrides) :
    (overrides.foldl add t).get? kind = some ((t.base kind).override o) := by
  induction overrides generalizing t with
  | nil                 => nomatch h
  | cons e overrides hi =>
    have ⟨hnot, hn⟩ := List.nodup_cons.mp hn
    rw [List.foldl_cons]
    obtain rfl | h := List.mem_cons.mp h
    case inl => rw [get?_foldl_of_not_mem hk hnot, get?_add hk, if_pos rfl]
    case inr =>
      have hne : kind ≠ e.1 := by
        rintro rfl
        exact hnot (List.mem_map.mpr ⟨_, h, rfl⟩)
      rw [hi hn h, base, get?_add hk, if_neg hne, base]

theorem style_resolve (hk : kind ≠ reserved) (hn : overrides.keys.Nodup)
    (h : (kind, o) ∈ overrides) :
    (resolve overrides).style kind = (standard.base kind).override o := by
  rw [style, resolve, get?_foldl_add hk hn h]
  rfl

theorem style_of_get? {j o : Json} (hk : kind ≠ reserved) (hn : j.fields.keys.Nodup)
    (h : j.get? kind = some o) : (resolve (StyleOverride.recordOfJson j)).style kind =
      (standard.base kind).override (.ofJson o) := by
  have hkeys : (StyleOverride.recordOfJson j).keys = Record.keys (Record.inOrder j.fields) := by
    simp [StyleOverride.recordOfJson, Record.keys]
  have hm : (kind, o) ∈ j.fields := by
    cases j with
    | obj fields => exact Record.mem_of_get? h
    | _          => cases h
  refine style_resolve hk (hkeys ▸ Record.nodup_keys_inOrder hn) ?_
  exact List.mem_map_of_mem ((Record.inOrder_perm _).mem_iff.mpr hm)

end StyleTable

end LayeredDiagram
