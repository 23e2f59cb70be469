import LayeredDiagram.Proofs.Markup.Strip
import LayeredDiagram.Proofs.Sequence
import LayeredDiagram.Proofs.Style.Color
import LayeredDiagram.Proofs.Style.Table
import LayeredDiagram.Proofs.Text.Trim

namespace LayeredDiagram

namespace Markup

open Text

variable {cs : List Char}

-- Each entity stands for one of these, and each fragment holds one.
def sensitive : List Char :=
  ['&', '<', '>', '"', '\'', '=', ':']

def Inert (cs : List Char) : Prop :=
  ∀ d ∈ sensitive, d ∉ cs

instance : DecidablePred Inert := fun _ =>
  List.decidableBAll _ _

theorem Inert.unmarked (h : Inert cs) : Unmarked cs := by
  rintro c hc (rfl | rfl | rfl | rfl | rfl) <;> exact h _ (by decide) hc

theorem Inert.harmless (h : Inert cs) : Harmless cs :=
  harmless_of_not_mem (h '=' (by decide)) (h ':' (by decide))

theorem escapeAttribute_of_inert (h : Inert cs) : escapeAttribute cs = cs :=
  calc escapeAttribute cs
    _ = strip (escape cs) := rfl
    _ = strip cs          := by rw [escape_of_unmarked h.unmarked]
    _ = cs                := strip_eq_self_iff.mpr h.harmless

end Markup

namespace Color

open Text Markup

variable {color drawn : String} {name cs : List Char} {args : List (List Char)} {d : Char}

-- It is drawn as it is, and stands in an attribute as it is.
structure Settled (color : String) : Prop where
  drawn   : ∀ fallback, sanitize (some color) fallback = color
  written : escapeAttribute color.toList = color.toList

-- In none of the forms of a colour.
structure Foreign (d : Char) : Prop where
  below : d.toNat < 'a'.toNat
  lower : d.toLower = d
  blank : isBlank d = false
  hex   : isHexDigit d = false
  digit : d.isDigit = false
  mark  : d ∉ ['#', '(', ')', ',', '.', '%']

theorem foreign_of_mem_sensitive (h : d ∈ sensitive) : Foreign d := by
  have hall : sensitive.all fun d => d.toNat < 'a'.toNat ∧ d.toLower = d ∧ isBlank d = false ∧
      isHexDigit d = false ∧ d.isDigit = false ∧ d ∉ ['#', '(', ')', ',', '.', '%'] := by
    decide
  have ⟨below, lower, blank, hex, digit, mark⟩ := of_decide_eq_true (List.all_eq_true.mp hall d h)
  exact { below, lower, blank, hex, digit, mark }

section Forms

theorem inert_of_isHex (h : isHex cs) : Inert cs := by
  intro d hd hm
  have hf := foreign_of_mem_sensitive hd
  unfold isHex at h
  split at h
  case h_2        => nomatch h
  case h_1 digits =>
    simp only [Bool.and_eq_true, List.all_eq_true] at h
    obtain rfl | hm := List.mem_cons.mp hm
    case inl => exact hf.mark (by decide)
    case inr => exact Bool.false_ne_true (hf.hex.symm.trans (h.right d hm))

theorem inert_of_isWhole (h : isWhole cs) : Inert cs := by
  intro d hd hm
  rw [isWhole, Bool.and_eq_true, List.all_eq_true] at h
  exact Bool.false_ne_true ((foreign_of_mem_sensitive hd).digit.symm.trans (h.right d hm))

theorem inert_of_isPercentage (h : isPercentage cs) : Inert cs := by
  rw [isPercentage] at h
  split at h
  case isFalse    => exact inert_of_isWhole h
  case isTrue hl  =>
    intro d hd hm
    rw [← List.dropLast_append_getLast? '%' (beq_iff_eq.mp hl), List.mem_append] at hm
    obtain hm | hm := hm
    case inl => exact inert_of_isWhole h d hd hm
    case inr =>
      obtain rfl := List.mem_singleton.mp hm
      exact (foreign_of_mem_sensitive hd).mark (by decide)

theorem inert_of_isOpacity (h : isOpacity cs) : Inert cs := by
  intro d hd hm
  have hf := foreign_of_mem_sensitive hd
  simp only [isOpacity, Bool.and_eq_true, List.all_eq_true, Bool.or_eq_true, beq_iff_eq] at h
  obtain h | rfl := h.right d hm
  case inl => exact Bool.false_ne_true (hf.digit.symm.trans h)
  case inr => exact hf.mark (by decide)

theorem Foreign.mem_of_afterLetters {lead rest : List Char} (hd : Foreign d)
    (h : afterLetters lead cs = some rest) (hn : d ∉ lead) (hm : d ∈ cs) : d ∈ rest := by
  obtain ⟨front, hf, rfl⟩ := afterLetters_eq_some_iff.mp h
  exact (List.mem_append.mp hm).resolve_left fun hm =>
    hn (hf.symm.mem_of_mem hd.below hd.lower hm)

theorem Foreign.ne {c : Char} (hd : Foreign d) (hc : c ∈ ['#', '(', ')', ',', '.', '%']) : d ≠ c :=
  fun he => hd.mark (he ▸ hc)

-- Beside the name, the brackets, commas and blanks there is nothing but the arguments.
theorem exists_mem_arguments (h : arguments? name cs = some args) (hd : Foreign d) (hn : d ∉ name)
    (hm : d ∈ cs) : ∃ a ∈ args, d ∈ a := by
  obtain ⟨rest, hr, h⟩ := Option.bind_eq_some_iff.mp h
  have hm : d ∈ (afterLetters ['a'] rest).getD rest := by
    have hrest := hd.mem_of_afterLetters hr hn hm
    cases ha : afterLetters ['a'] rest with
    | none       => exact hrest
    | some after =>
      have hne : d ≠ 'a' := fun he => absurd (he ▸ hd.below) (Nat.lt_irrefl _)
      exact hd.mem_of_afterLetters ha (by simpa using hne) hrest
  dsimp only at h
  split at h
  case h_2 => nomatch h
  case h_1 inner hi =>
    split_ifs at h with hlast
    cases h
    rw [hi] at hm
    have hm := (List.mem_cons.mp hm).resolve_left (hd.ne (by decide))
    rw [← List.dropLast_append_getLast? ')' (beq_iff_eq.mp hlast), List.mem_append,
      List.mem_singleton] at hm
    have hinner : d ∈ inner.dropLast := hm.resolve_right (hd.ne (by decide))
    obtain ⟨part, hp, hin⟩ := exists_mem_splitOnP (p := (· == ',')) hinner
      (by simpa using hd.ne (c := ',') (by decide))
    exact ⟨trim part, List.mem_map_of_mem hp, mem_trim hd.blank hin⟩

theorem inert_of_isForm {isFirst isOther : List Char → Bool} (hn : Inert name)
    (hf : ∀ a, isFirst a → Inert a) (ho : ∀ a, isOther a → Inert a)
    (h : isForm name isFirst isOther cs) : Inert cs := by
  have hargs (args : List (List Char)) (ha : arguments? name cs = some args)
      (hall : ∀ a ∈ args, Inert a) : Inert cs := by
    intro d hd hm
    obtain ⟨a, hin, hm⟩ := exists_mem_arguments ha (foreign_of_mem_sensitive hd) (hn d hd) hm
    exact hall a hin d hd hm
  unfold isForm at h
  split at h
  case h_1 ha =>
    simp only [Bool.and_eq_true] at h
    exact hargs _ ha (by simp [hf _ h.left.left, ho _ h.left.right, ho _ h.right])
  case h_2 ha =>
    simp only [Bool.and_eq_true] at h
    exact hargs _ ha (by simp [hf _ h.left.left.left, ho _ h.left.left.right, ho _ h.left.right,
      inert_of_isOpacity h.right])
  case h_3    => nomatch h

theorem inert_of_isRgb (h : isRgb cs) : Inert cs :=
  inert_of_isForm (by decide) (fun _ => inert_of_isWhole) (fun _ => inert_of_isWhole) h

theorem inert_of_isHsl (h : isHsl cs) : Inert cs :=
  inert_of_isForm (by decide) (fun _ => inert_of_isWhole) (fun _ => inert_of_isPercentage) h

end Forms

-- A colour passes for its form, or for the name that it is.
theorem safe?_eq_some_cases (h : safe? color = some drawn) :
    (drawn = color ∧ (isHex color.toList ∨ isRgb color.toList ∨ isHsl color.toList)) ∨
      drawn ∈ names := by
  simp only [safe?, List.contains_eq_mem, decide_eq_true_eq] at h
  split_ifs at h with hc hn
  case pos =>
    cases h
    exact .inl ⟨rfl, by simpa [or_assoc] using hc⟩
  case pos =>
    cases h
    exact .inr hn

theorem safe?_of_mem_names (h : drawn ∈ names) : safe? drawn = some drawn := by
  have hall : ∀ name ∈ names, name.toList.all Char.isAlpha ∧ isHex name.toList = false := by
    decide
  have ⟨ha, hx⟩ := hall drawn h
  rw [safe?_of_isAlpha (List.all_eq_true.mp ha) hx, map_toLower_of_mem_names drawn h,
    String.ofList_toList, if_pos h]

theorem settled_of_safe? (h : safe? color = some drawn) : Settled drawn := by
  constructor
  case drawn =>
    have hs : safe? drawn = some drawn := by
      obtain ⟨rfl, _⟩ | hn := safe?_eq_some_cases h
      case inl => exact h
      case inr => exact safe?_of_mem_names hn
    intro fallback
    rw [sanitize, Option.bind_some, hs, Option.getD_some]
  case written =>
    refine escapeAttribute_of_inert ?_
    obtain ⟨rfl, hx | hr | hs⟩ | hn := safe?_eq_some_cases h
    case inl.inl     => exact inert_of_isHex hx
    case inl.inr.inl => exact inert_of_isRgb hr
    case inl.inr.inr => exact inert_of_isHsl hs
    case inr         =>
      have hall : ∀ name ∈ names, Inert name.toList := by decide
      exact hall drawn hn

theorem settled_of_isHex (h : isHex color.toList) : Settled color :=
  have hs : safe? color = some color := by simp [safe?, h]
  settled_of_safe? hs

theorem Settled.sanitize {base : String} (h : Settled base) (color : Option String) :
    Settled (Color.sanitize color base) := by
  rw [Color.sanitize]
  cases hs : color.bind safe? with
  | none       => exact h
  | some drawn =>
    obtain ⟨color, _, hs⟩ := Option.bind_eq_some_iff.mp hs
    exact settled_of_safe? hs

end Color

open Color

structure ShapeStyle.Safe (s : ShapeStyle) : Prop where
  fill        : Settled s.fill
  stroke      : Settled s.stroke
  textColor   : Settled s.textColor
  strokeWidth : s.strokeWidth.isFinite ∧ 0 ≤ s.strokeWidth

theorem ShapeStyle.Safe.override {base : ShapeStyle} (h : base.Safe) (o : StyleOverride) :
    (base.override o).Safe where
  fill        := h.fill.sanitize o.fill
  stroke      := h.stroke.sanitize o.stroke
  textColor   := h.textColor.sanitize o.textColor
  strokeWidth := by
    simp only [ShapeStyle.override, widthOr]
    split
    case h_2   => exact h.strokeWidth
    case h_1 x =>
      split_ifs with hx
      case pos => simpa using hx
      case neg => exact h.strokeWidth

namespace StyleTable

variable {t : StyleTable} {kind : String} {s : ShapeStyle} {o : StyleOverride}
variable {overrides other : Record StyleOverride}

def Safe (t : StyleTable) : Prop :=
  ∀ kind s, t.get? kind = some s → s.Safe

theorem safe_standard : standard.Safe := by
  intro kind s h
  have hm := Record.mem_of_get? h
  simp only [standard, List.mem_cons, Prod.mk.injEq, List.not_mem_nil, or_false] at hm
  obtain ⟨_, rfl⟩ | ⟨_, rfl⟩ | ⟨_, rfl⟩ := hm <;>
    exact ⟨settled_of_isHex (by decide), settled_of_isHex (by decide),
      settled_of_isHex (by decide), by decide⟩

theorem safe_process : ShapeStyle.process.Safe :=
  safe_standard "process" _ rfl

theorem Safe.base (h : t.Safe) (kind : String) : (t.base kind).Safe := by
  rw [StyleTable.base]
  cases hs : t.get? kind with
  | none   => exact safe_process
  | some s => exact h kind s hs

theorem get?_add_reserved {e : String × StyleOverride} :
    (t.add e).get? reserved = t.get? reserved := by
  rw [add]
  by_cases he : e.1 = reserved
  case pos => rw [if_pos (by simpa using he)]
  case neg => rw [if_neg (by simpa using he), Record.get?_put, if_neg (Ne.symm he)]

theorem get?_foldl_reserved : (overrides.foldl add t).get? reserved = t.get? reserved := by
  induction overrides generalizing t with
  | nil                 => rfl
  | cons e overrides hi => rw [List.foldl_cons, hi, get?_add_reserved]

theorem Safe.add (h : t.Safe) (e : String × StyleOverride) : (t.add e).Safe := by
  intro kind s hs
  by_cases hk : kind = reserved
  case pos =>
    rw [hk, get?_add_reserved] at hs
    exact h _ s hs
  case neg =>
    rw [get?_add hk] at hs
    split_ifs at hs
    case pos =>
      cases hs
      exact (h.base kind).override e.2
    case neg => exact h kind s hs

theorem Safe.foldl (h : t.Safe) (overrides : Record StyleOverride) :
    Safe (overrides.foldl StyleTable.add t) := by
  induction overrides generalizing t with
  | nil                 => exact h
  | cons e overrides hi => exact hi (h.add e)

theorem Safe.style (h : t.Safe) (kind : String) : (t.style kind).Safe := by
  rw [StyleTable.style]
  cases hs : (t.get? kind).or (t.get? defaultKind) with
  | none   => exact safe_process
  | some s =>
    obtain hs | ⟨_, hs⟩ := Option.or_eq_some_iff.mp hs
    case inl => exact h _ s hs
    case inr => exact h _ s hs

theorem style_of_get?_eq_none (h : t.get? kind = none) : t.style kind = t.style defaultKind := by
  simp [style, h]

theorem get?_resolve_reserved : (resolve overrides).get? reserved = none :=
  get?_foldl_reserved.trans rfl

-- What the table holds for a kind is told from the override of that kind alone.
theorem get?_resolve (hk : kind ≠ reserved) (hn : overrides.keys.Nodup) :
    (resolve overrides).get? kind =
      ((overrides.get? kind).map (standard.base kind).override).or (standard.get? kind) := by
  cases ho : overrides.get? kind with
  | none   => exact get?_foldl_of_not_mem hk (Record.get?_eq_none_iff.mp ho)
  | some o => exact get?_foldl_add hk hn (Record.mem_of_get? ho)

theorem style_resolve_of_get?_eq_none (hk : kind ≠ reserved) (hn : overrides.keys.Nodup)
    (h : overrides.get? kind = none) : (resolve overrides).style kind =
      (standard.get? kind).getD ((resolve overrides).style defaultKind) := by
  have hg : (resolve overrides).get? kind = standard.get? kind := by
    rw [get?_resolve hk hn, h, Option.map_none, Option.none_or]
  cases hs : standard.get? kind with
  | none   => exact style_of_get?_eq_none (hg.trans hs)
  | some s => simp [style, hg, hs]

theorem get?_resolve_perm (hn : overrides.keys.Nodup) (hp : other.Perm overrides) :
    (resolve other).get? kind = (resolve overrides).get? kind := by
  have hno : other.keys.Nodup := Record.nodup_keys_perm hn hp
  by_cases hk : kind = reserved
  case pos => rw [hk, get?_resolve_reserved, get?_resolve_reserved]
  case neg => rw [get?_resolve hk hno, get?_resolve hk hn, Record.get?_eq_of_perm hn hp]

theorem style_resolve_perm (hn : overrides.keys.Nodup) (hp : other.Perm overrides) :
    (resolve other).style kind = (resolve overrides).style kind := by
  rw [style, get?_resolve_perm hn hp, get?_resolve_perm hn hp, ← style]

theorem resolve_erase : resolve (overrides.erase reserved) = resolve overrides := by
  rw [resolve, Record.erase, List.foldl_filter, resolve]
  congr 1
  funext t e
  by_cases he : e.1 = reserved <;> simp [add, he]

-- Every kind but the reserved one is looked up by its own override, whatever else is overridden.
-- The colours of what is found can be checked again, against anything, and written as they are.
theorem style_by_kind (hn : overrides.keys.Nodup) :
    (∀ kind, kind ≠ reserved → ∀ o, overrides.get? kind = some o →
      (resolve overrides).style kind = (standard.base kind).override o) ∧
    (∀ kind, kind ≠ reserved → overrides.get? kind = none →
      (resolve overrides).style kind =
        (standard.get? kind).getD ((resolve overrides).style defaultKind)) ∧
    (resolve overrides).style reserved = (resolve overrides).style defaultKind ∧
    (∀ other : Record StyleOverride, other.Perm overrides →
      ∀ kind, (resolve other).style kind = (resolve overrides).style kind) ∧
    (∀ kind, (resolve (overrides.erase reserved)).style kind = (resolve overrides).style kind) ∧
    (resolve overrides).Safe ∧ ∀ kind, ((resolve overrides).style kind).Safe := by
  have hs : (resolve overrides).Safe := safe_standard.foldl overrides
  refine ⟨fun kind hk o ho => ?own, fun kind hk ho => style_resolve_of_get?_eq_none hk hn ho,
    style_of_get?_eq_none get?_resolve_reserved, fun other hp kind => style_resolve_perm hn hp,
    fun kind => congrArg (style · kind) resolve_erase, hs, hs.style⟩
  case own => exact style_resolve hk hn (Record.mem_of_get? ho)

-- The name of a member that every object has, the reserved key, and processes after both.
def hostile : Record StyleOverride :=
  [("constructor", { fill := some "rgb( 1, 2,3)", stroke := some "url(#a)" }),
    ("__proto__", { fill := some "red", stroke := some "red" }),
    ("process", { fill := some "Black", stroke := some "#123" })]

theorem style_hostile : hostile.keys.Nodup ∧
    (((resolve hostile).style "constructor").fill = "rgb( 1, 2,3)" ∧
      ((resolve hostile).style "constructor").stroke = "#0284c7") ∧
    (resolve hostile).style "valueOf" = (resolve hostile).style "process" ∧
    (resolve hostile).style "__proto__" = (resolve hostile).style "process" ∧
    ((resolve hostile).style "constructor").Safe := by
  have hn : hostile.keys.Nodup := by decide
  have ⟨hown, hnone, hreserved, _, _, _, hs⟩ := style_by_kind hn
  refine ⟨hn, ?_, hnone "valueOf" (by decide) (by decide), hreserved, hs "constructor"⟩
  rw [hown "constructor" (by decide) _ rfl]
  decide

end StyleTable

end LayeredDiagram
