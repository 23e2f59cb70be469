import Mathlib.Data.Finset.Card
import Mathlib.Logic.Relation

namespace LayeredDiagram

open Relation

-- A walk of `n` edges from `u`. It grows at its end, as a relaxation extends it.
inductive Walk {α : Type} (R : α → α → Prop) (u : α) : α → Nat → Prop
  | nil : Walk R u u 0
  | snoc {v w n} : Walk R u v n → R v w → Walk R u w (n + 1)

def Acyclic {α : Type} (R : α → α → Prop) : Prop :=
  ∀ u, ¬TransGen R u u

variable {α : Type} {R S : α → α → Prop} {u v : α} {n : Nat}

namespace Walk

theorem map {β : Type} {T : β → β → Prop} (f : α → β) (hf : ∀ x y, R x y → T (f x) (f y))
    (h : Walk R u v n) : Walk T (f u) (f v) n := by
  induction h with
  | nil         => exact .nil
  | snoc _ e hi => exact hi.snoc (hf _ _ e)

-- A walk to a vertex in the image of `f` stays in it if no edge leads there from outside.
theorem exists_preimage {β : Type} {T : β → β → Prop} {f : β → α} {y : β}
    (hf : ∀ x y, R x (f y) → ∃ w, f w = x ∧ T w y) (h : Walk R u (f y) n) :
    ∃ x, f x = u ∧ Walk T x y n := by
  generalize hv : f y = v at h
  induction h generalizing y with
  | nil         => exact ⟨y, hv, .nil⟩
  | snoc _ e hi =>
    obtain ⟨w, hw, e⟩ := hf _ y (hv ▸ e)
    have ⟨x, hx, h⟩ := hi hw
    exact ⟨x, hx, h.snoc e⟩

-- The vertices of a walk are all different if there is no cycle, and each of them reaches its end.
theorem exists_vertices (h : Walk R u v n) (ha : Acyclic R) :
    ∃ vs : Finset α, vs.card = n + 1 ∧ (∀ x ∈ vs, ReflTransGen R x v) ∧
      ∀ x ∈ vs, x = u ∨ ∃ y, R y x := by
  classical
  induction h with
  | nil => exact ⟨{u}, by simp, by simp [ReflTransGen.refl], by simp⟩
  | @snoc v w n _ e hi =>
    have ⟨vs, hc, hr, hb⟩ := hi
    have hw : w ∉ vs := fun hm => ha w (.tail' (hr w hm) e)
    refine ⟨insert w vs, by simp [hw, hc], ?_, ?_⟩ <;> intro x hx
    all_goals cases Finset.mem_insert.mp hx
    case refine_1.inl hx => exact hx ▸ .refl
    case refine_1.inr hx => exact (hr x hx).tail e
    case refine_2.inl hx => exact .inr ⟨v, hx ▸ e⟩
    case refine_2.inr hx => exact hb x hx

theorem cons {w : α} (e : R w u) (h : Walk R u v n) : Walk R w v (n + 1) := by
  induction h with
  | nil         => exact .snoc .nil e
  | snoc _ e hi => exact hi.snoc e

-- A walk in a relation without cycles meets no vertex twice, so it has fewer edges than there are
-- vertices.
theorem length_lt_card {s : Finset α} (h : Walk R u v n) (ha : Acyclic R)
    (hR : ∀ x y, R x y → y ∈ s) (hu : u ∈ s) : n < s.card := by
  have ⟨vs, hc, _, hb⟩ := h.exists_vertices ha
  have hs : vs ⊆ s := by
    intro x hx
    cases hb x hx
    case inl h => exact h ▸ hu
    case inr h =>
      have ⟨y, e⟩ := h
      exact hR y x e
  have := Finset.card_le_card hs
  omega

theorem length_lt {R : Nat → Nat → Prop} {u v size : Nat} (h : Walk R u v n) (ha : Acyclic R)
    (hR : ∀ x y, R x y → y < size) (hu : u < size) : n < size := by
  simpa using h.length_lt_card (s := Finset.range size) ha (by simpa using hR) (by simpa using hu)

end Walk

-- Among finitely many vertices each one is reached from one where no edge ends, or else the walks
-- to it would never end.
theorem Acyclic.exists_walk {s : Finset α} (ha : Acyclic R) (hR : ∀ x y, R x y → x ∈ s ∧ y ∈ s)
    (hv : v ∈ s) : ∃ u ∈ s, (∀ x, ¬R x u) ∧ ∃ n, Walk R u v n := by
  by_contra hn
  push Not at hn
  have hw (n : Nat) : ∃ u ∈ s, Walk R u v n := by
    induction n with
    | zero      => exact ⟨v, hv, .nil⟩
    | succ n hi =>
      have ⟨u, hu, h⟩ := hi
      have ⟨x, e⟩ : ∃ x, R x u := by
        by_contra hx
        exact hn u hu (not_exists.mp hx) n h
      exact ⟨x, (hR x u e).left, h.cons e⟩
  have ⟨u, hu, h⟩ := hw s.card
  exact Nat.lt_irrefl _ (h.length_lt_card ha (fun x y e => (hR x y e).right) hu)

theorem Acyclic.exists_source {R : Nat → Nat → Prop} {size : Nat} (ha : Acyclic R)
    (hR : ∀ x y, R x y → x < size ∧ y < size) (hs : 0 < size) : ∃ v < size, ∀ u, ¬R u v := by
  have ⟨v, hv, hn, _⟩ := ha.exists_walk (s := Finset.range size) (by simpa using hR)
    (Finset.mem_range.mpr hs)
  exact ⟨v, Finset.mem_range.mp hv, hn⟩

theorem Acyclic.mono (ha : Acyclic R) (h : ∀ x y, S x y → R x y) : Acyclic S :=
  fun u hu => ha u (TransGen.mono h u u hu)

-- Edges that lead upwards close no cycle.
theorem Acyclic.of_rank (rank : α → Nat) (h : ∀ x y, R x y → rank x < rank y) : Acyclic R := by
  have hlt (x y : α) (hxy : TransGen R x y) : rank x < rank y := by
    induction hxy with
    | single e    => exact h _ _ e
    | tail _ e hi => exact hi.trans (h _ _ e)
  exact fun u hu => Nat.lt_irrefl _ (hlt u u hu)

-- A way in a relation with the edge from `u` to `v` added: a way without it, or one through it.
theorem reaches_or_through (hS : ∀ x y, S x y → R x y ∨ (x = u ∧ y = v)) {x y : α}
    (h : ReflTransGen S x y) :
    ReflTransGen R x y ∨ (ReflTransGen R x u ∧ ReflTransGen R v y) := by
  induction h with
  | refl => exact .inl .refl
  | tail _ e hi =>
    obtain e | ⟨rfl, rfl⟩ := hS _ _ e <;> obtain hi | ⟨hu, hv⟩ := hi
    case tail.inl.inl => exact .inl (hi.tail e)
    case tail.inl.inr => exact .inr ⟨hu, hv.tail e⟩
    case tail.inr.inl => exact .inr ⟨hi, .refl⟩
    case tail.inr.inr => exact .inr ⟨hu, .refl⟩

-- An edge closes no cycle if its end does not lead back to its start.
theorem Acyclic.add_edge (ha : Acyclic R) (hS : ∀ x y, S x y → R x y ∨ (x = u ∧ y = v))
    (hn : ¬ReflTransGen R v u) : Acyclic S := by
  intro x hc
  have ⟨y, e, h⟩ := TransGen.head'_iff.mp hc
  obtain e | ⟨rfl, rfl⟩ := hS _ _ e <;> obtain h | ⟨hu, hv⟩ := reaches_or_through hS h
  case inl.inl => exact ha x (.head' e h)
  case inl.inr => exact hn (hv.trans (.head e hu))
  case inr.inl => exact hn h
  case inr.inr => exact hn hu

end LayeredDiagram
