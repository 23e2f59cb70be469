import LayeredDiagram.Proofs.Schema.Acceptance
import LayeredDiagram.Schema.Request
import Mathlib

namespace LayeredDiagram

namespace Schema

-- The names of an object are distinct, so that each is kept once. A numeral is kept as a number,
-- which it does not accept, so it is no part of such a schema.
inductive Plain : Schema → Prop
  | text {tests} : Plain (text tests)
  | number {tests} : Plain (number tests)
  | listed {options} : Plain (listed options)
  | array {item most} : Plain item → Plain (array item most)
  | record {keys value} : Plain value → Plain (record keys value)
  | object {fields} : (fields.map (·.1)).Nodup → reservedKey ∉ fields.map (·.1) →
      (∀ f ∈ fields, Plain f.2) → Plain (object fields)
  | optional {inner} : Plain inner → Plain (optional inner)
  | withDefault {inner default} : Plain inner → Plain (withDefault inner default)
  | refined {inner test wording} : Plain inner → Plain (refined inner test wording)

mutual

def isPlain : Schema → Bool
  | text _ | number _ | listed _ => true
  | numeral _ _ _ => false
  | array item _ => item.isPlain
  | record _ value => value.isPlain
  | object fields =>
    (fields.map (·.1)).Nodup && !(fields.map (·.1)).contains reservedKey && arePlain fields
  | optional inner => inner.isPlain
  | withDefault inner _ => inner.isPlain
  | refined inner _ _ => inner.isPlain

def arePlain : List (String × Schema) → Bool
  | [] => true
  | (_, s) :: rest => s.isPlain && arePlain rest

end

mutual

theorem plain_of_isPlain : ∀ s : Schema, s.isPlain → s.Plain
  | text _, _ => .text
  | number _, _ => .number
  | listed _, _ => .listed
  | array item _, h => .array (plain_of_isPlain item (by simpa only [isPlain] using h))
  | record _ value, h => .record (plain_of_isPlain value (by simpa only [isPlain] using h))
  | object fields, h => by
    simp only [isPlain, Bool.and_eq_true, decide_eq_true_eq, Bool.not_eq_true',
      List.contains_eq_mem, decide_eq_false_iff_not] at h
    exact .object h.left.left h.left.right (plain_of_arePlain fields h.right)
  | optional inner, h => .optional (plain_of_isPlain inner (by simpa only [isPlain] using h))
  | withDefault inner _, h =>
    .withDefault (plain_of_isPlain inner (by simpa only [isPlain] using h))
  | refined inner _ _, h => .refined (plain_of_isPlain inner (by simpa only [isPlain] using h))

theorem plain_of_arePlain : ∀ fields, arePlain fields → ∀ f ∈ fields, f.2.Plain
  | [], _ => nofun
  | (_, s) :: rest, h => by
    simp only [arePlain, Bool.and_eq_true] at h
    exact List.forall_mem_cons.mpr ⟨plain_of_isPlain s h.left, plain_of_arePlain rest h.right⟩

end

-- The second document is the first one with a key more in one of its objects, which is no key that
-- this object names.
inductive Extends : Schema → Json → Json → Prop
  | here {fields before after key value} : key ∉ fields.map (·.1) →
      Extends (object fields) (.obj (before ++ after)) (.obj (before ++ (key, value) :: after))
  | field {fields before after key s j k} : (key, s) ∈ fields → Extends s j k →
      Extends (object fields) (.obj (before ++ (key, j) :: after))
        (.obj (before ++ (key, k) :: after))
  | item {item most before after j k} : Extends item j k →
      Extends (array item most) (.arr (before ++ j :: after)) (.arr (before ++ k :: after))
  | entry {keys value before after key j k} : Extends value j k →
      Extends (record keys value) (.obj (before ++ (key, j) :: after))
        (.obj (before ++ (key, k) :: after))
  | optional {inner j k} : Extends inner j k → Extends (optional inner) j k
  | withDefault {inner default j k} : Extends inner j k → Extends (withDefault inner default) j k
  | refined {inner test wording j k} : Extends inner j k → Extends (refined inner test wording) j k

variable {s item value inner : Schema} {data : Option Json} {j k default : Json} {key : String}
variable {fields : List (String × Schema)} {keys : List TextTest} {most : Nat}
  {test : Json → Bool} {wording : String}

section Again

-- What is kept is accepted, and is kept as it is.
def Settled (s : Schema) (data : Option Json) : Prop :=
  s.Accepts data ∧ s.keep? data = data

theorem keep?_number_of_accepts {tests : List NumberTest} (h : (number tests).Accepts data) :
    (number tests).keep? data = data := by
  unfold Accepts check checkNumber at h
  split at h
  case h_1 x =>
    split_ifs at h with hx
    case pos => nomatch h
    case neg => exact keep?_number (eq_false_of_ne_true hx)
  case h_2 => nomatch h

theorem keep?_listed_of_accepts {options : List String} (h : (listed options).Accepts data) :
    (listed options).keep? data = data := by
  unfold Accepts check checkListed at h
  split at h
  case h_1 content =>
    split_ifs at h with hc
    case pos =>
      unfold keep? check checkListed
      dsimp only
      rw [if_pos hc]
      rfl
    case neg => nomatch h
  case h_2 => nomatch h

theorem settled_of_keep? (h : s.Accepts data) (hk : s.keep? data = data) :
    s.Settled (s.keep? data) := by
  rw [hk]
  exact ⟨h, hk⟩

theorem settled_array (hi : ∀ data, item.Accepts data → item.Settled (item.keep? data))
    (h : (array item most).Accepts data) :
    (array item most).Settled ((array item most).keep? data) := by
  obtain ⟨items, rfl⟩ := exists_of_accepts_array h
  have ⟨hlength, hitems⟩ := accepts_array_iff.mp h
  rw [keep?_array h]
  have hkept : ∀ k ∈ items.filterMap fun j => item.keep? (some j), item.Settled (some k) := by
    intro k hk
    obtain ⟨j, hj, hk⟩ := List.mem_filterMap.mp hk
    exact hk ▸ hi _ (hitems j hj)
  have ha : (array item most).Accepts
      (some (.arr (items.filterMap fun j => item.keep? (some j)))) :=
    accepts_array_iff.mpr
      ⟨Nat.le_trans (List.length_filterMap_le _ _) hlength, fun k hk => (hkept k hk).left⟩
  refine ⟨ha, ?_⟩
  rw [keep?_array ha, List.filterMap_congr fun k hk => (hkept k hk).right, List.filterMap_some]

theorem settled_record (hi : ∀ data, value.Accepts data → value.Settled (value.keep? data))
    (h : (record keys value).Accepts data) :
    (record keys value).Settled ((record keys value).keep? data) := by
  obtain ⟨given, rfl⟩ := exists_of_accepts_record h
  have hgiven := accepts_record_iff.mp h
  rw [keep?_record h]
  have hkept : ∀ e ∈ keepRecord value given, e.1 ≠ reservedKey ∧
      (∀ t ∈ keys, t.issue? e.1.toList = none) ∧ value.Settled (some e.2) := by
    intro e he
    obtain ⟨e, hm, he⟩ := List.mem_filterMap.mp he
    split_ifs at he with hr
    obtain ⟨k, hk, rfl⟩ := Option.map_eq_some_iff.mp he
    obtain ⟨hkeys, hv⟩ := hgiven e ((Record.inOrder_perm given).mem_iff.mp hm)
    exact ⟨by simpa using hr, hkeys, hk ▸ hi _ hv⟩
  have ha : (record keys value).Accepts (some (.obj (keepRecord value given))) :=
    accepts_record_iff.mpr fun e he => ⟨(hkept e he).right.left, (hkept e he).right.right.left⟩
  -- The fields have been listed once, so they are listed as they stand.
  have hlisted : Record.inOrder (keepRecord value given) = keepRecord value given :=
    Record.inOrder_of_pairwise (Record.pairwise_keys_inOrder.sublist keys_keepRecord)
  refine ⟨ha, ?_⟩
  rw [keep?_record ha]
  refine congrArg (some ∘ Json.obj) ?_
  rw [keepRecord, hlisted]
  refine (List.filterMap_congr fun e he => ?_).trans List.filterMap_some
  obtain ⟨hr, _, _, hk⟩ := hkept e he
  rw [if_neg (by simpa using hr), hk, Option.map_some]

theorem settled_object (hn : (fields.map (·.1)).Nodup) (hr : reservedKey ∉ fields.map (·.1))
    (hi : ∀ f ∈ fields, ∀ data, f.2.Accepts data → f.2.Settled (f.2.keep? data))
    (h : (object fields).Accepts data) :
    (object fields).Settled ((object fields).keep? data) := by
  obtain ⟨given, rfl⟩ := exists_of_accepts_object h
  have hgiven := accepts_object_iff.mp h
  rw [keep?_object h]
  have hkept : ∀ f ∈ fields, f.2.Settled ((keepFields fields given).get? f.1) := by
    intro f hf
    rw [get?_keepFields hn hf fun he => hr (List.mem_map.mpr ⟨f, hf, he⟩)]
    exact hi f hf _ (hgiven f hf)
  have ha : (object fields).Accepts (some (.obj (keepFields fields given))) :=
    accepts_object_iff.mpr fun f hf => (hkept f hf).left
  refine ⟨ha, ?_⟩
  rw [keep?_object ha]
  refine congrArg (some ∘ Json.obj) (List.filterMap_congr fun f hf => ?_)
  rw [(hkept f hf).right, get?_keepFields hn hf fun he => hr (List.mem_map.mpr ⟨f, hf, he⟩)]

theorem exists_settled (hi : ∀ data, inner.Accepts data → inner.Settled (inner.keep? data))
    (h : inner.Accepts (some j)) : ∃ k, inner.keep? (some j) = some k ∧ inner.Settled (some k) := by
  obtain ⟨k, hk⟩ := Option.isSome_iff_exists.mp h.isSome_keep?
  exact ⟨k, hk, hk ▸ hi _ h⟩

theorem settled_optional (hi : ∀ data, inner.Accepts data → inner.Settled (inner.keep? data))
    (h : (optional inner).Accepts data) :
    (optional inner).Settled ((optional inner).keep? data) := by
  cases data with
  | none   => exact ⟨accepts_optional_none, keep?_optional_none⟩
  | some j =>
    obtain ⟨k, hk, ha, hkeep⟩ := exists_settled hi (accepts_optional_some.mp h)
    rw [keep?_optional_some, hk]
    exact ⟨accepts_optional_some.mpr ha, keep?_optional_some.trans hkeep⟩

-- The default is accepted where it stands in, so it is among what is kept.
theorem settled_withDefault (hi : ∀ data, inner.Accepts data → inner.Settled (inner.keep? data))
    (h : (withDefault inner default).Accepts data) :
    (withDefault inner default).Settled ((withDefault inner default).keep? data) := by
  obtain ⟨k, hk, ha, hkeep⟩ := exists_settled hi (accepts_withDefault_iff.mp h)
  rw [keep?_withDefault, hk]
  exact ⟨accepts_withDefault_some.mpr ha, keep?_withDefault_some.trans hkeep⟩

theorem settled_refined (hi : ∀ data, inner.Accepts data → inner.Settled (inner.keep? data))
    (h : (refined inner test wording).Accepts data) :
    (refined inner test wording).Settled ((refined inner test wording).keep? data) := by
  have ⟨h, ht⟩ := accepts_refined_iff.mp h
  have ⟨ha, hkeep⟩ := hi _ h
  rw [keep?_refined]
  exact ⟨accepts_refined_iff.mpr ⟨ha, fun j hj => ht j (hkeep.symm.trans hj)⟩,
    keep?_refined.trans hkeep⟩

theorem settled_keep? (hs : s.Plain) (h : s.Accepts data) : s.Settled (s.keep? data) := by
  induction hs generalizing data with
  | text =>
    obtain ⟨content, rfl, _⟩ := accepts_text_iff.mp h
    exact ⟨h, rfl⟩
  | number            => exact settled_of_keep? h (keep?_number_of_accepts h)
  | listed            => exact settled_of_keep? h (keep?_listed_of_accepts h)
  | array _ hi        => exact settled_array (fun _ => hi) h
  | record _ hi       => exact settled_record (fun _ => hi) h
  | object hn hr _ hi => exact settled_object hn hr (fun f hf _ => hi f hf) h
  | optional _ hi     => exact settled_optional (fun _ => hi) h
  | withDefault _ hi  => exact settled_withDefault (fun _ => hi) h
  | refined _ hi      => exact settled_refined (fun _ => hi) h

theorem validate_of_validate (hs : s.Plain) (h : s.validate (some j) = .ok k) :
    s.validate (some k) = .ok k := by
  have ⟨ha, hk⟩ := accepts_and_keep?_of_validate h
  have ⟨ha, hkeep⟩ := hk ▸ settled_keep? hs ha
  exact validate_of_accepts ha hkeep

end Again

section Unnamed

theorem check_here {before after : Record Json} (h : key ∉ fields.map (·.1)) :
    (object fields).check (some (.obj (before ++ (key, j) :: after))) =
      (object fields).check (some (.obj (before ++ after))) := by
  simp only [check, checkFields_eq]
  refine congrArg gatherFields (List.map_congr_left fun f hf => ?_)
  rw [Record.get?_insert]
  rintro rfl
  exact h (List.mem_map_of_mem hf)

theorem check_field {before after : Record Json} (hn : (fields.map (·.1)).Nodup)
    (hm : (key, s) ∈ fields) (h : s.check (some k) = s.check (some j)) :
    (object fields).check (some (.obj (before ++ (key, k) :: after))) =
      (object fields).check (some (.obj (before ++ (key, j) :: after))) := by
  simp only [check, checkFields_eq]
  refine congrArg gatherFields (List.map_congr_left fun f hf => ?_)
  by_cases hk : f.1 = key
  case neg => rw [Record.get?_insert hk, Record.get?_insert hk]
  case pos =>
    obtain rfl : f = (key, s) := List.inj_on_of_nodup_map hn hf hm hk
    rw [Record.get?_append, Record.get?_append, Record.get?_cons, Record.get?_cons, if_pos rfl,
      if_pos rfl]
    cases Record.get? before key with
    | none   => rw [Option.none_or, Option.none_or, h]
    | some _ => rfl

theorem check_item {before after : List Json} (h : item.check (some k) = item.check (some j)) :
    (array item most).check (some (.arr (before ++ k :: after))) =
      (array item most).check (some (.arr (before ++ j :: after))) := by
  simp only [check, gatherItems, tooMany, List.length_append, List.length_cons, List.mapIdx_append,
    List.mapIdx_cons, h]

-- The place of a field in the listing is told by its key.
theorem check_entry {before after : Record Json}
    (h : value.check (some k) = value.check (some j)) :
    (record keys value).check (some (.obj (before ++ (key, k) :: after))) =
      (record keys value).check (some (.obj (before ++ (key, j) :: after))) := by
  have hlisted (given : Record Json) :
      (Record.inOrder given).map (fun e => withKey keys e.1 (value.check (some e.2))) =
        (Record.inOrder (given.map fun e => (e.1, value.check (some e.2)))).map
          fun e => withKey keys e.1 e.2 := by
    rw [Record.inOrder_map fun j => value.check (some j), List.map_map]
    rfl
  simp only [check, hlisted, List.map_append, List.map_cons, h]

theorem check_of_extends (hs : s.Plain) (h : s.Extends j k) :
    s.check (some k) = s.check (some j) := by
  induction h with
  | here hk          => exact check_here hk
  | field hm _ hi    =>
    cases hs with
    | object hn _ hf => exact check_field hn hm (hi (hf _ hm))
  | item _ hi        =>
    cases hs with
    | array hs => exact check_item (hi hs)
  | entry _ hi       =>
    cases hs with
    | record hs => exact check_entry (hi hs)
  | optional _ hi    =>
    cases hs with
    | optional hs => simpa only [check] using hi hs
  | withDefault _ hi =>
    cases hs with
    | withDefault hs => simpa only [check, Option.getD_some] using hi hs
  | refined _ hi     =>
    cases hs with
    | refined hs => simp only [check, hi hs]

theorem validate_of_extends (hs : s.Plain) (h : Relation.ReflTransGen s.Extends j k) :
    s.validate (some k) = s.validate (some j) := by
  induction h with
  | refl          => rfl
  | tail _ hkl hi => rw [← hi, validate, check_of_extends hs hkl, validate]

end Unnamed

section Requests

-- What callers may send, and the parts of it.
def requested : List Schema :=
  [nodeId, color, canvas, shapeStyle, styleOverrides, node, edge, plan, parseRequest, layoutRequest,
    renderRequest]

theorem plain_of_mem_requested (h : s ∈ requested) : s.Plain :=
  have hall : ∀ s ∈ requested, s.isPlain := by decide
  plain_of_isPlain s (hall s h)

-- Validation keeps what it has kept, and does not see any keys that no object names.
theorem validate_normal (hs : s ∈ requested) (d : Json) :
    (∀ k, s.validate (some d) = .ok k → s.validate (some k) = .ok k) ∧
    ∀ e, Relation.ReflTransGen s.Extends d e → s.validate (some e) = s.validate (some d) :=
  have hplain := plain_of_mem_requested hs
  ⟨fun _ => validate_of_validate hplain, fun _ => validate_of_extends hplain⟩

-- A figure of one node, and a style under a key that reads as an index.
def sketch (node style : Record Json) : Json :=
  .obj [("plan", .obj [("nodes", .arr [.obj (node ++ [("id", .str "a"), ("label", .str "A")])])]),
    ("styles", .obj [("7", .obj (style ++ [("fill", .str "teal"), ("stroke", .str "red")]))])]

def keptSketch : Json :=
  .obj [("plan", .obj [
      ("nodes", .arr [.obj [("id", .str "a"), ("label", .str "A"), ("type", .str "process"),
        ("metadata", .obj [])]]),
      ("edges", .arr [])]),
    ("styles", .obj [("7", .obj [("fill", .str "teal"), ("stroke", .str "red")])])]

theorem extends_sketch : Relation.ReflTransGen renderRequest.Extends (sketch [] [])
    (sketch [("__proto__", .null)] [("radius", .str "4")]) := by
  have hnode : renderRequest.Extends (sketch [] []) (sketch [("__proto__", .null)] []) :=
    .refined (@Extends.field _ [] _ "plan" (optional plan) _ _ (by simp)
      (.optional (@Extends.field _ [] [] "nodes" (array node Limits.nodes) _ _ (by simp)
        (@Extends.item node _ [] [] _ _ (@Extends.here _ [] _ _ _ (by decide))))))
  have hstyle : renderRequest.Extends (sketch [("__proto__", .null)] [])
      (sketch [("__proto__", .null)] [("radius", .str "4")]) :=
    .refined (@Extends.field _ [_] [] "styles" (optional styleOverrides) _ _ (by simp)
      (.optional (.refined (@Extends.entry _ shapeStyle [] [] "7" _ _
        (@Extends.here _ [] _ _ _ (by decide))))))
  exact (Relation.ReflTransGen.single hnode).tail hstyle

theorem validate_normal_sketch : renderRequest ∈ requested ∧
    renderRequest.validate (some (sketch [] [])) = .ok keptSketch ∧
    renderRequest.validate (some keptSketch) = .ok keptSketch ∧
    renderRequest.validate (some (sketch [("__proto__", .null)] [("radius", .str "4")])) =
      .ok keptSketch := by
  have hm : renderRequest ∈ requested := by simp [requested]
  have hkept : renderRequest.validate (some (sketch [] [])) = .ok keptSketch := by cbv
  obtain ⟨hagain, hextended⟩ := validate_normal hm (sketch [] [])
  exact ⟨hm, hkept, hagain _ hkept, (hextended _ extends_sketch).trans hkept⟩

end Requests

end Schema

end LayeredDiagram
