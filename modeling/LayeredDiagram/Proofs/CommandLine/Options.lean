import LayeredDiagram.CommandLine.Run
import LayeredDiagram.Proofs.Schema.Length
import LayeredDiagram.Proofs.Schema.Plan

namespace LayeredDiagram.CommandLine

namespace Options

-- A length in its writing, or the default.
def lengthOr (default : Float) (w : Option String) : Float :=
  (w.map fun w => Number.whole w.toList).getD default

-- The options that the arguments `a` stand for.
structure IsOf (o : Options) (a : Arguments) : Prop where
  spec     : a.positionals.head? = some o.spec
  named    : o.spec ≠ ""
  out      : o.out = a.out.getD "figure.svg"
  outNamed : o.out ≠ ""
  width    : o.width = lengthOr 960 a.width
  height   : o.height = lengthOr 640 a.height
  wide     : IsLength o.width
  high     : IsLength o.height

theorem whole_getD {x : Float} {default : String} (h : Number.whole default.toList = x)
    (w : Option String) : Number.whole (w.getD default).toList = lengthOr x w := by
  cases w with
  | none   => exact h
  | some w => rfl

theorem whole_width : ∀ w : Option String, Number.whole (w.getD "960").toList = lengthOr 960 w :=
  whole_getD (by decide +kernel)

theorem whole_height : ∀ w : Option String, Number.whole (w.getD "640").toList = lengthOr 640 w :=
  whole_getD (by decide +kernel)

variable {args rest : List String} {a : Arguments} {o : Options} {path out w h : String}

theorem get?_toJson (a : Arguments) : a.toJson.get? "spec" = a.positionals.head?.map .str ∧
    a.toJson.get? "out" = a.out.map .str ∧ a.toJson.get? "width" = a.width.map .str ∧
    a.toJson.get? "height" = a.height.map .str := by
  obtain ⟨positionals, out, width, height⟩ := a
  simp only [Arguments.toJson, Json.get?]
  cases positionals.head? <;> cases out <;> cases width <;> cases height <;>
    exact ⟨rfl, rfl, rfl, rfl⟩

theorem one_le_units_iff {s : String} : 1 ≤ Text.units s.toList ↔ s ≠ "" := by
  refine ⟨?_, fun hs => Text.one_le_units (mt String.toList_eq_nil_iff.mp hs)⟩
  rintro h rfl
  nomatch h

theorem accepts_named_iff {wording : Option String} {s? : Option String} :
    (Schema.text [.atLeast 1 wording]).Accepts (s?.map .str) ↔ ∃ s, s? = some s ∧ s ≠ "" := by
  simp only [Schema.accepts_text_iff, List.forall_mem_singleton, TextTest.issue?, ite_eq_right_iff,
    reduceCtorEq, imp_false, Nat.not_lt, one_le_units_iff, Option.map_eq_some_iff,
    Json.str.injEq, exists_eq_right]

theorem accepts_namedOr_iff {s? : Option String} {default : String} :
    (Schema.withDefault (.text [.atLeast 1]) (.str default)).Accepts (s?.map .str) ↔
      s?.getD default ≠ "" := by
  rw [Schema.accepts_withDefault_iff, Schema.getD_str, accepts_named_iff]
  simp only [Option.some.injEq, exists_eq_left']

theorem accepts_toJson_iff : Schema.commandLine.Accepts (some a.toJson) ↔ ∃ o, IsOf o a := by
  have ⟨hs, ho, hw, hh⟩ := get?_toJson a
  refine Schema.accepts_object_iff.trans ?_
  simp only [List.forall_mem_cons, List.not_mem_nil, false_implies, implies_true, and_true]
  change (Schema.text _).Accepts (a.toJson.get? "spec") ∧
    (Schema.withDefault _ _).Accepts (a.toJson.get? "out") ∧
    (Schema.lengthOption "960").Accepts (a.toJson.get? "width") ∧
    (Schema.lengthOption "640").Accepts (a.toJson.get? "height") ↔ _
  rw [hs, ho, hw, hh, accepts_named_iff, accepts_namedOr_iff, Schema.accepts_lengthOption_iff,
    Schema.accepts_lengthOption_iff, whole_width, whole_height]
  constructor
  case mp  =>
    rintro ⟨⟨s, hs, hne⟩, hout, hx, hy⟩
    exact ⟨⟨s, _, _, _⟩, hs, hne, rfl, hout, rfl, rfl, hx, hy⟩
  case mpr =>
    rintro ⟨o, h⟩
    exact ⟨⟨o.spec, h.spec, h.named⟩, h.out ▸ h.outNamed, h.width ▸ h.wide, h.height ▸ h.high⟩

theorem exists_validate (h : o.IsOf a) :
    ∃ kept, Schema.commandLine.validate (some a.toJson) = .ok kept ∧ ofJson kept = o := by
  have hacc := accepts_toJson_iff.mpr ⟨o, h⟩
  have ⟨hs, ho, hw, hh⟩ := get?_toJson a
  obtain ⟨_, kept, hk, hf⟩ := Schema.exists_keep?_object hacc (by decide) (by decide)
  simp only [List.forall_mem_cons, List.not_mem_nil, false_implies, implies_true, and_true,
    hs, ho, hw, hh, h.spec, Schema.keep?_withDefault, Schema.getD_str, ← h.out, Option.map_some,
    Schema.keep?_text, Schema.keep?_lengthOption (whole_width a.width ▸ h.width ▸ h.wide),
    Schema.keep?_lengthOption (whole_height a.height ▸ h.height ▸ h.high), whole_width,
    whole_height, ← h.width, ← h.height] at hf
  refine ⟨kept, Schema.validate_of_accepts hacc hk, ?_⟩
  rw [ofJson, Json.text, Json.text, Json.number, Json.number, hf.left, hf.right.left,
    hf.right.right.left, hf.right.right.right]
  rfl

-- All that the command line asks for is there, or else has its default.
theorem ofArgs_eq_ok_iff :
    ofArgs args = .ok o ↔ ∃ a, Arguments.ofArgs args = .ok a ∧ o.IsOf a := by
  unfold ofArgs
  cases Arguments.ofArgs args with
  | error e => simp
  | ok a    =>
    simp only [Except.ok.injEq, exists_eq_left']
    constructor
    case mpr =>
      intro h
      have ⟨kept, hv, hj⟩ := exists_validate h
      rw [hv, ← hj]
    case mp =>
      intro h
      cases hv : Schema.commandLine.validate (some a.toJson) with
      | error issues =>
        rw [hv] at h
        nomatch h
      | ok j =>
        rw [hv] at h
        have ⟨o', ho'⟩ := accepts_toJson_iff.mp (Schema.validate_eq_ok_iff.mp hv).left
        have ⟨kept, hv', hj⟩ := exists_validate ho'
        obtain rfl := Except.ok.inj (hv.symm.trans hv')
        obtain rfl := Except.ok.inj h
        exact hj ▸ ho'

theorem ofArgs_eq_ok
    (ha : Arguments.ofArgs args = .ok ⟨path :: rest, some out, some w, some h⟩)
    (hpath : path ≠ "") (hout : out ≠ "") (hx : IsLength (Number.whole w.toList))
    (hy : IsLength (Number.whole h.toList)) :
    ofArgs args = .ok ⟨path, out, Number.whole w.toList, Number.whole h.toList⟩ :=
  ofArgs_eq_ok_iff.mpr ⟨_, ha, rfl, hpath, rfl, hout, rfl, rfl, hx, hy⟩

end Options

end LayeredDiagram.CommandLine
