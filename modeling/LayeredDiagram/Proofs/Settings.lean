import LayeredDiagram.Proofs.Log.Report
import LayeredDiagram.Proofs.Number.Digits
import LayeredDiagram.Proofs.Schema.Normal
import LayeredDiagram.Proofs.Schema.Place
import LayeredDiagram.Proofs.Schema.Plan
import LayeredDiagram.Settings

namespace LayeredDiagram

open Number (Spells)

namespace NumberTest

variable {x : Float} {n k : Nat}

theorem issue?_whole_ofNat :
    issue? (Float.ofNat n) .whole = none ↔ (Float.ofNat n).isFinite := by
  simp [issue?, Number.isWhole_ofNat]

theorem issue?_atLeast_ofNat (hk : k < 2 ^ 53) :
    issue? (Float.ofNat n) (.atLeast k) = none ↔ k ≤ n := by
  simp [issue?, Number.ofNat_lt_ofNat_iff hk]

theorem issue?_atMost_ofNat (hk : k < 2 ^ 53) :
    issue? (Float.ofNat n) (.atMost k) = none ↔ n ≤ k := by
  simp [issue?, Number.ofNat_lt_ofNat_iff' hk]

end NumberTest

namespace Schema

variable {cs : List Char} {tests : List NumberTest} {n : Nat} {x : Float}

theorem accepts_ofNat_iff :
    (number (.whole :: .atLeast 1 :: tests)).Accepts (some (.num (Float.ofNat n))) ↔
      (Float.ofNat n).isFinite ∧ 1 ≤ n ∧ ∀ t ∈ tests, t.issue? (Float.ofNat n) = none := by
  rw [accepts_number_iff, List.forall_mem_cons, List.forall_mem_cons,
    NumberTest.issue?_whole_ofNat, NumberTest.issue?_atLeast_ofNat (by decide)]
  exact and_iff_right (Number.isNaN_ofNat n)

-- A text is taken as a whole number from one on if it begins with such a number.
theorem accepts_leadingInteger_iff :
    (number (.whole :: .atLeast 1 :: tests)).Accepts (some (.num (Number.leadingInteger cs))) ↔
      ∃ n : Nat, Spells cs n ∧
        (number (.whole :: .atLeast 1 :: tests)).Accepts (some (.num (Float.ofNat n))) := by
  obtain ⟨n, hs, hle, hx⟩ | ⟨hnone, hx⟩ := Number.leadingInteger_cases cs
  case inl =>
    rw [hx]
    refine ⟨fun h => ⟨n, hs, h⟩, fun ⟨n', hs', h⟩ => ?_⟩
    obtain rfl : n' = n := Int.ofNat_inj.mp (hs'.eq hs)
    exact h
  case inr =>
    refine iff_of_false (fun h => ?_) fun ⟨n, hs, h⟩ =>
      hnone ⟨n, hs, (accepts_ofNat_iff.mp h).right.left⟩
    have ⟨hn, ht⟩ := accepts_number_iff.mp h
    obtain hnan | hlt := hx
    case inl => exact Bool.false_ne_true (hn.symm.trans hnan)
    case inr =>
      have := ht (.atLeast 1) (by simp)
      simp [NumberTest.issue?, hlt] at this

theorem accepts_integer_iff {content : String} {most : Nat} (hm : most < 2 ^ 53) :
    (number [.whole, .atLeast 1, .atMost most]).Accepts
        (some (.num (Number.leadingInteger content.toList))) ↔
      ∃ n : Nat, Spells content.toList n ∧ 1 ≤ n ∧ n ≤ most := by
  rw [accepts_leadingInteger_iff]
  refine exists_congr fun n => and_congr_right fun _ => ?_
  rw [accepts_ofNat_iff, List.forall_mem_singleton, NumberTest.issue?_atMost_ofNat hm]
  exact and_iff_right_of_imp fun h => Number.isFinite_ofNat_of_lt (by omega)

theorem accepts_cap_iff {content : String} :
    (number [.whole, .atLeast 1]).Accepts
        (some (.num (Number.leadingInteger content.toList))) ↔
      ∃ n : Nat, Spells content.toList n ∧ 1 ≤ n ∧ (Float.ofNat n).isFinite := by
  rw [accepts_leadingInteger_iff]
  refine exists_congr fun n => and_congr_right fun _ => ?_
  rw [accepts_ofNat_iff]
  simp [and_comm]

theorem accepts_listed_iff {options : List String} {content : String} :
    (listed options).Accepts (some (.str content)) ↔ content ∈ options := by
  rw [Accepts, check, checkListed]
  split <;> simp_all [Verdict.refuse]

-- The fields of an object.
def fields : Schema → List (String × Schema)
  | object fields => fields
  | _ => []

end Schema

namespace Settings

-- The variables as a document.
def document (vars : Record String) : Json :=
  .obj (vars.map fun (name, value) => (name, .str value))

-- The variables that are read.
def names : List String :=
  ["PORT", "NODE_ENV", "LOG_LEVEL", "FIGURE_CANVAS_WIDTH", "FIGURE_CANVAS_HEIGHT",
    "FIGURE_DEFAULT_NODE_TYPE", "LAYOUT_MAX_ITERATIONS"]

-- May a variable have this value?
def Allowed (name value : String) : Prop :=
  match name with
  | "PORT" => ∃ n : Nat, Spells value.toList n ∧ 1 ≤ n ∧ n ≤ 65535
  | "FIGURE_CANVAS_WIDTH" | "FIGURE_CANVAS_HEIGHT" =>
    ∃ n : Nat, Spells value.toList n ∧ 1 ≤ n ∧ n ≤ 10000
  | "LAYOUT_MAX_ITERATIONS" =>
    ∃ n : Nat, Spells value.toList n ∧ 1 ≤ n ∧ (Float.ofNat n).isFinite
  | "NODE_ENV" => value ∈ ["development", "production", "test"]
  | "LOG_LEVEL" => value ∈ ["debug", "info", "warn", "error"]
  | "FIGURE_DEFAULT_NODE_TYPE" => 1 ≤ value.units ∧ value.units ≤ 100
  | _ => True

-- The number that a variable begins with, or else a default.
def IsRead (x default : Float) : Option String → Prop
  | none => x = default
  | some value => ∃ n : Nat, Spells value.toList n ∧ x = Float.ofNat n

-- The settings for which the variables stand.
structure IsOf (s : Settings) (vars : Record String) : Prop where
  port         : IsRead s.port 8420 (vars.get? "PORT")
  environment  : s.environment = (vars.get? "NODE_ENV").getD "development"
  logLevel     : s.logLevel = (vars.get? "LOG_LEVEL").getD "info"
  canvasWidth  : IsRead s.canvasWidth 960 (vars.get? "FIGURE_CANVAS_WIDTH")
  canvasHeight : IsRead s.canvasHeight 640 (vars.get? "FIGURE_CANVAS_HEIGHT")
  defaultKind  : s.defaultKind = (vars.get? "FIGURE_DEFAULT_NODE_TYPE").getD "process"
  uncapped     : vars.get? "LAYOUT_MAX_ITERATIONS" = none → s.cap = none
  capped       : ∀ value, vars.get? "LAYOUT_MAX_ITERATIONS" = some value →
    ∃ n : Nat, Spells value.toList n ∧ s.cap = some (Float.ofNat n)

variable {vars vars' : Record String} {s : Settings} {name value default : String} {most : Nat}
variable {v? : Option String} {x : Float}

theorem get?_document : (document vars).get? name = (vars.get? name).map .str :=
  Record.get?_map _

theorem allowed_of_not_mem (h : name ∉ names) : Allowed name value := by
  simp only [names, List.mem_cons, List.not_mem_nil, or_false, not_or] at h
  unfold Allowed
  split <;> simp_all

section Fields

theorem accepts_integer_iff (hm : most < 2 ^ 53)
    (hd : ∃ n : Nat, Spells default.toList n ∧ 1 ≤ n ∧ n ≤ most) :
    (integer default 1 most).Accepts (v?.map .str) ↔
      ∀ value, v? = some value → ∃ n : Nat, Spells value.toList n ∧ 1 ≤ n ∧ n ≤ most := by
  rw [Schema.Accepts, integer, Schema.check_numeral_map, ← Schema.Accepts,
    Schema.accepts_numeral_iff, Schema.accepts_integer_iff hm]
  cases v? with
  | none       => simpa using hd
  | some value => simp

theorem exists_keep?_integer (hm : most < 2 ^ 53)
    (h : (integer default 1 most).Accepts (v?.map .str))
    (hx : Number.leadingInteger default.toList = x) :
    ∃ y, (integer default 1 most).keep? (v?.map .str) = some (.num y) ∧ IsRead y x v? := by
  rw [Schema.Accepts, integer, Schema.check_numeral_map, ← Schema.Accepts,
    Schema.accepts_numeral_iff] at h
  rw [Schema.keep?, integer, Schema.check_numeral_map, ← Schema.keep?, Schema.keep?_numeral,
    Schema.keep?_number (Schema.accepts_number_iff.mp h).left]
  refine ⟨_, rfl, ?_⟩
  cases v? with
  | none       => exact hx
  | some value =>
    obtain ⟨n, hs, hle, -⟩ := (Schema.accepts_integer_iff hm).mp h
    exact ⟨n, hs, hs.leadingInteger_eq hle⟩

theorem exists_keep?_cap {value : String}
    (h : (Schema.numeral none Number.leadingInteger [.whole, .atLeast 1]).Accepts
      (some (.str value))) :
    ∃ n : Nat, Spells value.toList n ∧
      (Schema.numeral none Number.leadingInteger [.whole, .atLeast 1]).keep? (some (.str value)) =
        some (.num (Float.ofNat n)) := by
  rw [Schema.accepts_numeral_iff] at h
  obtain ⟨n, hs, hle, -⟩ := Schema.accepts_cap_iff.mp h
  rw [Schema.keep?_numeral, Schema.keep?_number (Schema.accepts_number_iff.mp h).left,
    hs.leadingInteger_eq hle]
  exact ⟨n, hs, rfl⟩

theorem accepts_listedOr_iff {options : List String} (hd : default ∈ options) :
    (Schema.withDefault (.listed options) (.str default)).Accepts (v?.map .str) ↔
      ∀ value, v? = some value → value ∈ options := by
  rw [Schema.accepts_withDefault_iff, Schema.getD_str]
  cases v? <;> simp [Schema.accepts_listed_iff, hd]

theorem keep?_listedOr {options : List String}
    (h : (Schema.withDefault (.listed options) (.str default)).Accepts (v?.map .str)) :
    (Schema.withDefault (.listed options) (.str default)).keep? (v?.map .str) =
      some (.str (v?.getD default)) := by
  rw [Schema.accepts_withDefault_iff, Schema.getD_str] at h
  rw [Schema.keep?_withDefault, Schema.getD_str, Schema.keep?_listed_of_accepts h]
  rfl

-- Each variable is accepted if it is missing or may have its value.
theorem accepts_iff (vars : Record String) : ∀ f ∈ schema.fields,
    (f.2.Accepts ((vars.get? f.1).map .str) ↔
      ∀ value, vars.get? f.1 = some value → Allowed f.1 value) := by
  simp only [schema, Schema.fields, List.forall_mem_cons, List.not_mem_nil, false_implies,
    implies_true, and_true, Allowed]
  refine ⟨?port, ?environment, ?logLevel, ?width, ?height, ?kind, ?cap⟩
  case port =>
    exact accepts_integer_iff (by decide)
      ⟨8420, Number.spells_iff.mpr (by decide), by decide, by decide⟩
  case environment => exact accepts_listedOr_iff (by decide)
  case logLevel    => exact accepts_listedOr_iff (by decide)
  case width       =>
    exact accepts_integer_iff (by decide)
      ⟨960, Number.spells_iff.mpr (by decide), by decide, by decide⟩
  case height      =>
    exact accepts_integer_iff (by decide)
      ⟨640, Number.spells_iff.mpr (by decide), by decide, by decide⟩
  case kind        =>
    rw [Schema.accepts_withDefault_iff, Schema.getD_str]
    cases vars.get? "FIGURE_DEFAULT_NODE_TYPE" <;> simp [Schema.accepts_between_iff]
    decide
  case cap         =>
    cases vars.get? "LAYOUT_MAX_ITERATIONS" <;>
      simp [Schema.accepts_numeral_iff, Schema.accepts_cap_iff]

-- What is kept of accepted variables are the settings for which they stand.
theorem exists_keep? (h : schema.Accepts (some (document vars))) :
    ∃ kept, schema.keep? (some (document vars)) = some kept ∧ (ofJson kept).IsOf vars := by
  obtain ⟨hacc, kept, hk, hf⟩ := Schema.exists_keep?_object h (by decide) (by decide)
  refine ⟨kept, hk, ?_⟩
  simp only [List.forall_mem_cons, List.not_mem_nil, false_implies, implies_true, and_true,
    get?_document] at hacc hf
  obtain ⟨aport, aenvironment, alevel, awidth, aheight, -, acap⟩ := hacc
  obtain ⟨hport, henvironment, hlevel, hwidth, hheight, hkind, hcap⟩ := hf
  obtain ⟨port, kport, rport⟩ :=
    exists_keep?_integer (x := 8420) (by decide) aport (by decide +kernel)
  obtain ⟨width, kwidth, rwidth⟩ :=
    exists_keep?_integer (x := 960) (by decide) awidth (by decide +kernel)
  obtain ⟨height, kheight, rheight⟩ :=
    exists_keep?_integer (x := 640) (by decide) aheight (by decide +kernel)
  rw [kport] at hport
  rw [keep?_listedOr aenvironment] at henvironment
  rw [keep?_listedOr alevel] at hlevel
  rw [kwidth] at hwidth
  rw [kheight] at hheight
  rw [Schema.keep?_withDefault, Schema.getD_str, Option.map_some, Schema.keep?_text] at hkind
  constructor <;>
    simp only [ofJson, Json.number, Json.text, hport, henvironment, hlevel, hwidth, hheight, hkind,
      hcap, Option.bind_some, Json.number?, Json.string?, Option.getD_some]
  case port         => exact rport
  case canvasWidth  => exact rwidth
  case canvasHeight => exact rheight
  case uncapped     =>
    intro hnone
    rw [hnone]
    rfl
  case capped       =>
    intro value hsome
    rw [hsome] at acap ⊢
    obtain ⟨n, hs, hkeep⟩ := exists_keep?_cap (Schema.accepts_optional_some.mp acap)
    rw [Option.map_some, Schema.keep?_optional_some, hkeep]
    exact ⟨n, hs, rfl⟩

end Fields

-- Names that are not read stand for nothing.
theorem forall_allowed_iff :
    (∀ f ∈ schema.fields, ∀ value, vars.get? f.1 = some value → Allowed f.1 value) ↔
      ∀ name value, vars.get? name = some value → Allowed name value := by
  refine ⟨fun h name value hv => ?_, fun h f _ => h f.1⟩
  by_cases hn : name ∈ schema.fields.map (·.1)
  case pos =>
    obtain ⟨f, hf, rfl⟩ := List.mem_map.mp hn
    exact h f hf value hv
  case neg => exact allowed_of_not_mem hn

theorem accepts_document_iff : schema.Accepts (some (document vars)) ↔
    ∀ name value, vars.get? name = some value → Allowed name value := by
  rw [← forall_allowed_iff]
  refine Schema.accepts_object_iff.trans (forall₂_congr fun f hf => ?_)
  rw [← accepts_iff vars f hf]
  exact iff_of_eq (congrArg _ get?_document)

-- The issues name the variables that may not have their values.
theorem exists_place_iff :
    (∃ i ∈ (schema.check (some (document vars))).issues, i.place = name) ↔
      ∃ value, vars.get? name = some value ∧ ¬Allowed name value := by
  have hflat : ∀ f ∈ schema.fields, f.2.IsFlat := by
    simp only [schema, Schema.fields, List.forall_mem_cons, List.not_mem_nil, false_implies,
      implies_true, and_true]
    exact ⟨trivial, trivial, trivial, trivial, trivial, trivial, trivial⟩
  refine (Schema.exists_place_iff hflat).trans ⟨?mp, ?mpr⟩
  case mp =>
    rintro ⟨field, hf, hn⟩
    have hn := mt (accepts_iff vars _ hf).mpr (get?_document ▸ hn)
    push Not at hn
    exact hn
  case mpr =>
    rintro ⟨value, hv, hn⟩
    have hmem : name ∈ schema.fields.map (·.1) := by
      by_contra h
      exact hn (allowed_of_not_mem h)
    obtain ⟨⟨name, field⟩, hf, rfl⟩ := List.mem_map.mp hmem
    refine ⟨field, hf, fun ha => hn ((accepts_iff vars _ hf).mp ?_ value hv)⟩
    rw [← get?_document]
    exact ha

theorem exists_ok (h : ∀ name value, vars.get? name = some value → Allowed name value) :
    ∃ s, (load (document vars)).outcome = .ok s ∧ s.IsOf vars := by
  have hacc := accepts_document_iff.mpr h
  obtain ⟨kept, hk, hs⟩ := exists_keep? hacc
  refine ⟨_, ?_, hs⟩
  rw [load, readVariables, Schema.validate_of_accepts hacc hk]
  rfl

-- The refusal tells all issues.
theorem load_eq_refusal (h : ¬∀ name value, vars.get? name = some value → Allowed name value) :
    (load (document vars)).outcome =
      .error (refusal (schema.check (some (document vars))).issues) := by
  have hi : (schema.check (some (document vars))).issues.isEmpty = false :=
    List.isEmpty_eq_false_iff.mpr (mt accepts_document_iff.mp h)
  rw [load, readVariables, Schema.validate, hi]
  rfl

-- Only the variables that are read make a difference.
theorem load_eq (h : ∀ name ∈ names, vars'.get? name = vars.get? name) :
    load (document vars') = load (document vars) := by
  have hfields (vars : Record String) : schema.check (some (document vars)) =
      Schema.gatherFields (schema.fields.map fun f =>
        (f.1, (f.2.check ((vars.get? f.1).map .str)).under (.key f.1))) := by
    refine (congrArg Schema.gatherFields Schema.checkFields_eq).trans ?_
    refine congrArg _ (List.map_congr_left fun f _ => ?_)
    rw [← get?_document]
    rfl
  have hcheck : schema.check (some (document vars')) = schema.check (some (document vars)) := by
    rw [hfields, hfields]
    refine congrArg _ (List.map_congr_left fun f hf => ?_)
    rw [h f.1 (List.mem_map_of_mem hf)]
  simp only [load, readVariables, Schema.validate, hcheck]

-- Variables are understood if each of them may have its value. If not, all that may not are named.
theorem load_document (vars : Record String) :
    ((∃ s, (load (document vars)).outcome = .ok s) ↔
      ∀ name value, vars.get? name = some value → Allowed name value) ∧
    (∀ s, (load (document vars)).outcome = .ok s → s.IsOf vars) ∧
    (∀ vars', (∀ name ∈ names, vars'.get? name = vars.get? name) →
      load (document vars') = load (document vars)) ∧
    ∀ f, (load (document vars)).outcome = .error f →
      f = .configuration ("Invalid configuration: " ++ ", ".intercalate
        ((schema.check (some (document vars))).issues.map fun i => i.place ++ ": " ++ i.message)) ∧
      ∀ name, (∃ i ∈ (schema.check (some (document vars))).issues, i.place = name) ↔
        ∃ value, vars.get? name = some value ∧ ¬Allowed name value := by
  by_cases h : ∀ name value, vars.get? name = some value → Allowed name value
  case pos =>
    obtain ⟨s, hs, hof⟩ := exists_ok h
    rw [hs]
    refine ⟨iff_of_true ⟨s, rfl⟩ h, fun s' hs' => ?_, fun _ => load_eq, nofun⟩
    rwa [← Except.ok.inj hs']
  case neg =>
    rw [load_eq_refusal h]
    refine ⟨iff_of_false nofun h, nofun, fun _ => load_eq, fun f hf =>
      ⟨?_, fun _ => exists_place_iff⟩⟩
    rw [← Except.error.inj hf]
    rfl

end Settings

end LayeredDiagram
