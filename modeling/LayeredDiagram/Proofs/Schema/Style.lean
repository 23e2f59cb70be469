import LayeredDiagram.Proofs.Schema.Plan
import LayeredDiagram.Proofs.Style.Color
import LayeredDiagram.Proofs.Style.Table
import Mathlib

namespace LayeredDiagram

open Text Schema Color

-- The colours that a style must have, and those that it may have, look like colours.
structure StyleOverride.Colored (o : StyleOverride) : Prop where
  fill : ∃ color, o.fill = some color ∧ looksLikeColor color.toList
  stroke : ∃ color, o.stroke = some color ∧ looksLikeColor color.toList
  textColor : ∀ color, o.textColor = some color → looksLikeColor color.toList

structure ShapeStyle.Hexadecimal (s : ShapeStyle) : Prop where
  fill : isHex s.fill.toList
  stroke : isHex s.stroke.toList
  textColor : isHex s.textColor.toList

-- Each colour is drawn that is given, or else that of `base`.
structure ShapeStyle.Follows (s : ShapeStyle) (o : StyleOverride) (base : ShapeStyle) : Prop where
  fill : ∃ color, o.fill = some color ∧ Draws s.fill color base.fill
  stroke : ∃ color, o.stroke = some color ∧ Draws s.stroke color base.stroke
  textColor : ∀ color, o.textColor = some color → Draws s.textColor color base.textColor
  textColorOr : o.textColor = none → s.textColor = base.textColor

-- Whatever is given is drawn.
structure ShapeStyle.Shows (s : ShapeStyle) (o : StyleOverride) : Prop where
  fill : ∀ color, o.fill = some color → SameLetters s.fill.toList color.toList
  stroke : ∀ color, o.stroke = some color → SameLetters s.stroke.toList color.toList
  textColor : ∀ color, o.textColor = some color → SameLetters s.textColor.toList color.toList

variable {j kept o : Json} {given : Record Json} {data : Option Json} {kind : String}

section Override

variable {o : StyleOverride} {base : ShapeStyle}

theorem StyleOverride.Colored.follows_override (h : o.Colored) (hb : base.Hexadecimal) :
    (base.override o).Follows o base where
  fill := by
    obtain ⟨color, hc, hl⟩ := h.fill
    exact ⟨color, hc, by simpa [ShapeStyle.override, hc] using draws_sanitize hl hb.fill⟩
  stroke := by
    obtain ⟨color, hc, hl⟩ := h.stroke
    exact ⟨color, hc, by simpa [ShapeStyle.override, hc] using draws_sanitize hl hb.stroke⟩
  textColor color hc := by
    simpa [ShapeStyle.override, hc] using draws_sanitize (h.textColor color hc) hb.textColor
  textColorOr hn := by
    simp [ShapeStyle.override, hn, sanitize]

theorem StyleTable.hexadecimal_base : (standard.base kind).Hexadecimal := by
  rw [base]
  cases h : standard.get? kind with
  | none   => exact ⟨by decide, by decide, by decide⟩
  | some s =>
    have hm := Record.mem_of_get? h
    simp only [standard, List.mem_cons, Prod.mk.injEq, List.not_mem_nil, or_false] at hm
    obtain ⟨_, rfl⟩ | ⟨_, rfl⟩ | ⟨_, rfl⟩ := hm <;> exact ⟨by decide, by decide, by decide⟩

end Override

namespace Schema

theorem accepts_color_iff : color.Accepts data ↔
    ∃ content, data = some (.str content) ∧ looksLikeColor content.toList := by
  simp [color, accepts_text_iff]

theorem keep?_color (h : color.Accepts data) : color.keep? data = data := by
  obtain ⟨content, rfl, _⟩ := accepts_color_iff.mp h
  rfl

theorem keep?_optional_color (h : (optional color).Accepts data) :
    (optional color).keep? data = data := by
  cases data with
  | none   => exact keep?_optional_none
  | some j => exact keep?_optional_some.trans (keep?_color (accepts_optional_some.mp h))

-- The colours of an accepted style are accepted, and kept as they are.
theorem colors_of_accepts (h : shapeStyle.Accepts (some o)) :
    (color.Accepts (o.get? "fill") ∧ color.Accepts (o.get? "stroke") ∧
      (optional color).Accepts (o.get? "textColor")) ∧
    ∃ kept, shapeStyle.keep? (some o) = some kept ∧ kept.get? "fill" = o.get? "fill" ∧
      kept.get? "stroke" = o.get? "stroke" ∧ kept.get? "textColor" = o.get? "textColor" := by
  have ⟨ha, kept, hk, hf⟩ := exists_keep?_object h (by decide) (by decide)
  simp only [List.forall_mem_cons] at ha hf
  obtain ⟨hfill, hstroke, _, htext, _⟩ := ha
  obtain ⟨kfill, kstroke, _, ktext, _⟩ := hf
  exact ⟨⟨hfill, hstroke, htext⟩, kept, hk, kfill.trans (keep?_color hfill),
    kstroke.trans (keep?_color hstroke), ktext.trans (keep?_optional_color htext)⟩

end Schema

theorem StyleOverride.colored_ofJson (hf : color.Accepts (o.get? "fill"))
    (hs : color.Accepts (o.get? "stroke")) (ht : (optional color).Accepts (o.get? "textColor")) :
    (StyleOverride.ofJson o).Colored where
  fill := by
    obtain ⟨content, hc, hl⟩ := accepts_color_iff.mp hf
    exact ⟨content, by simp [StyleOverride.ofJson, Json.text?, hc, Json.string?], hl⟩
  stroke := by
    obtain ⟨content, hc, hl⟩ := accepts_color_iff.mp hs
    exact ⟨content, by simp [StyleOverride.ofJson, Json.text?, hc, Json.string?], hl⟩
  textColor content hc := by
    obtain ⟨j, hj, hs⟩ := Option.bind_eq_some_iff.mp hc
    rw [hj, accepts_optional_some] at ht
    obtain ⟨other, ho, hl⟩ := accepts_color_iff.mp ht
    obtain rfl := Option.some.inj ho
    obtain rfl := Option.some.inj hs
    exact hl

theorem StyleOverride.colored_of_accepts (h : shapeStyle.Accepts (some o)) :
    (StyleOverride.ofJson o).Colored := by
  obtain ⟨⟨hf, hs, ht⟩, _⟩ := colors_of_accepts h
  exact colored_ofJson hf hs ht

theorem StyleOverride.colored_of_keep? (h : shapeStyle.Accepts (some o))
    (hk : shapeStyle.keep? (some o) = some kept) : (StyleOverride.ofJson kept).Colored := by
  obtain ⟨⟨hf, hs, ht⟩, other, hk', kf, ks, kt⟩ := colors_of_accepts h
  obtain rfl := Option.some.inj (hk'.symm.trans hk)
  exact colored_ofJson (kf ▸ hf) (ks ▸ hs) (kt ▸ ht)

namespace Schema

-- An accepted map is kept as a map, and each of its styles is accepted.
theorem exists_of_validate_styleOverrides (h : styleOverrides.validate (some j) = .ok kept) :
    ∃ given, j = .obj given ∧ kept = .obj (keepRecord shapeStyle given) ∧
      ∀ e ∈ given, shapeStyle.Accepts (some e.2) := by
  obtain ⟨ha, hk⟩ := validate_eq_ok_iff.mp h
  have hr := (accepts_refined_iff.mp ha).left
  obtain ⟨given, hj⟩ := exists_of_accepts_record hr
  obtain rfl := Option.some.inj hj
  rw [styleOverrides, keep?_refined, keep?_record hr, Option.getD_some] at hk
  exact ⟨given, rfl, hk.symm, fun e he => (accepts_record_iff.mp hr e he).right⟩

end Schema

namespace StyleTable

-- The colours of an accepted map, as it has been sent or as it has been kept, are drawn if and only
-- if they are known, up to the case of their letters.
theorem style_follows {overrides : Json} (h : styleOverrides.validate (some j) = .ok kept)
    (hn : j.fields.keys.Nodup) (hj : overrides = j ∨ overrides = kept) (hk : kind ≠ reserved)
    (ho : overrides.get? kind = some o) :
    ((resolve (StyleOverride.recordOfJson overrides)).style kind).Follows (.ofJson o)
      (standard.base kind) := by
  obtain ⟨given, rfl, rfl, ha⟩ := exists_of_validate_styleOverrides h
  obtain rfl | rfl := hj
  case inl =>
    have hc := StyleOverride.colored_of_accepts (ha _ (Record.mem_of_get? ho))
    rw [style_of_get? hk hn ho]
    exact hc.follows_override hexadecimal_base
  case inr =>
    obtain ⟨o', ho', hkeep⟩ := exists_of_get?_keepRecord ho
    have hc := StyleOverride.colored_of_keep? (ha _ ho') hkeep
    have hn' : (Json.obj (keepRecord shapeStyle given)).fields.keys.Nodup :=
      nodup_keys_keepRecord hn
    rw [style_of_get? hk hn' ho]
    exact hc.follows_override hexadecimal_base

-- A colour that browsers know, but the list of names does not.
def tealStyle : Json :=
  .obj [("fill", .str "teal"), ("stroke", .str "#000")]

def tealIo : Json :=
  .obj [("io", tealStyle)]

theorem validate_tealIo : styleOverrides.validate (some tealIo) = .ok tealIo := by
  cbv

theorem style_follows_tealIo : ((resolve (StyleOverride.recordOfJson tealIo)).style "io").Follows
    (.ofJson tealStyle) (standard.base "io") :=
  style_follows validate_tealIo (by decide) (.inr rfl) (by decide) rfl

theorem style_follows_fails : ¬∀ (overrides kept o : Json) (kind : String),
    styleOverrides.validate (some overrides) = .ok kept → overrides.fields.keys.Nodup →
    kind ≠ reserved → overrides.get? kind = some o →
    ((resolve (StyleOverride.recordOfJson overrides)).style kind).Shows (.ofJson o) := by
  intro h
  have hs := h tealIo tealIo tealStyle "io" validate_tealIo (by decide) (by decide) rfl
  exact absurd (hs.fill "teal" rfl) (by decide +kernel)

end StyleTable

end LayeredDiagram
