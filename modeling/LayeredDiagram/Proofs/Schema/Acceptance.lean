import LayeredDiagram.Proofs.Record
import LayeredDiagram.Schema.Basic
import Mathlib.Data.List.Nodup

namespace LayeredDiagram

namespace Verdict

-- Nothing is given up unless something is reported.
def Reports (v : Verdict) : Prop :=
  v.issues = [] → v.isNothing = false

variable {v : Verdict} {part : PathPart} {c : Complaint} {j : Json} {issues : List Issue}

theorem issues_under : (v.under part).issues = [] ↔ v.issues = [] :=
  List.map_eq_nil_iff

theorem reports_refuse : (refuse c).Reports :=
  nofun

theorem reports_value : Reports ⟨.value j, issues⟩ :=
  fun _ => rfl

theorem Reports.under (h : v.Reports) : (v.under part).Reports :=
  fun hi => h (issues_under.mp hi)

theorem Reports.more (h : v.Reports) : Reports ⟨v.kept, issues ++ v.issues⟩ :=
  fun hi => h (List.append_eq_nil_iff.mp hi).right

end Verdict

namespace Schema

open Verdict

-- A value is accepted if nothing about it is reported.
def Accepts (s : Schema) (data : Option Json) : Prop :=
  (s.check data).issues = []

def keep? (s : Schema) (data : Option Json) : Option Json :=
  (s.check data).value?

variable {s inner : Schema} {data : Option Json} {j : Json} {fields : List (String × Schema)}
variable {given : Record Json} {key : String}

theorem validate_eq_ok_iff :
    s.validate data = .ok j ↔ s.Accepts data ∧ (s.keep? data).getD .null = j := by
  unfold validate
  by_cases h : s.Accepts data
  case pos => simp [show (s.check data).issues = [] from h, h, keep?]
  case neg =>
    have hi : (s.check data).issues.isEmpty = false := by simpa [Accepts] using h
    simp [hi, h]

theorem validate_of_accepts (h : s.Accepts data) (hk : s.keep? data = some j) :
    s.validate data = .ok j :=
  validate_eq_ok_iff.mpr ⟨h, by rw [hk, Option.getD_some]⟩

section Reports

theorem reports_checkText {tests : List TextTest} : (checkText tests data).Reports := by
  unfold checkText
  split
  case h_1 => exact reports_value
  case h_2 => exact reports_refuse

theorem reports_checkNumber {tests : List NumberTest} : (checkNumber tests data).Reports := by
  unfold checkNumber
  split
  case h_1 =>
    split_ifs
    case pos => exact reports_refuse
    case neg => exact reports_value
  case h_2 => exact reports_refuse

theorem reports_checkListed {options : List String} : (checkListed options data).Reports := by
  unfold checkListed
  split
  case h_1 =>
    split_ifs
    case pos => exact reports_value
    case neg => exact reports_refuse
  case h_2 => exact reports_refuse

theorem reports_checkNumeral {read : List Char → Float} {tests : List NumberTest} :
    (checkNumeral read tests data).Reports := by
  unfold checkNumeral
  split
  case h_1 => exact reports_checkNumber
  case h_2 => exact reports_refuse

theorem reports_gatherItems {most : Nat} {items : List Json} {verdicts : List Verdict}
    (h : ∀ v ∈ verdicts, v.Reports) : (gatherItems most items verdicts).Reports := by
  intro hi
  have hv := List.flatMap_eq_nil_iff.mp (List.append_eq_nil_iff.mp hi).right
  have ha : verdicts.any Verdict.isNothing = false :=
    List.any_eq_false.mpr fun v hm => by simp [h v hm (hv v hm)]
  rw [gatherItems, ha]
  rfl

theorem reports_gatherFields {verdicts : List (String × Verdict)}
    (h : ∀ v ∈ verdicts, v.2.Reports) : (gatherFields verdicts).Reports := by
  intro hi
  have hv := List.flatMap_eq_nil_iff.mp hi
  have ha : verdicts.any (·.2.isNothing) = false :=
    List.any_eq_false.mpr fun v hm => by simp [h v hm (hv v hm)]
  rw [gatherFields, ha]
  rfl

theorem reports_refine {test : Json → Bool} {wording : String} {v : Verdict} (h : v.Reports) :
    (refine test wording v).Reports := by
  unfold refine
  split
  case h_1 =>
    split_ifs
    case pos => exact h
    case neg => exact fun hi => nomatch (List.append_eq_nil_iff.mp hi).right
  case h_2 => exact h

mutual

theorem reports_check : ∀ (s : Schema) (data : Option Json), (s.check data).Reports
  | text _, _ => by unfold check; exact reports_checkText
  | number _, _ => by unfold check; exact reports_checkNumber
  | listed _, _ => by unfold check; exact reports_checkListed
  | numeral _ _ _, _ => by unfold check; exact reports_checkNumeral
  | array item most, data => by
    unfold check
    split
    case h_1 items =>
      refine reports_gatherItems fun v hv => ?_
      obtain ⟨i, _, rfl⟩ := List.mem_mapIdx.mp hv
      exact (reports_check item _).under
    case h_2 => exact reports_refuse
  | record keys value, data => by
    unfold check
    split
    case h_1 fields =>
      refine reports_gatherFields fun v hv => ?_
      obtain ⟨f, _, rfl⟩ := List.mem_map.mp hv
      exact (reports_check value (some f.2)).more.under
    case h_2 => exact reports_refuse
  | object fields, data => by
    unfold check
    split
    case h_1 given => exact reports_gatherFields (reports_checkFields fields given)
    case h_2 => exact reports_refuse
  | optional inner, data => by
    unfold check
    split
    case h_1 => exact fun _ => rfl
    case h_2 j => exact reports_check inner (some j)
  | withDefault inner default, data => by
    unfold check
    exact reports_check inner _
  | refined inner test wording, data => by
    unfold check
    exact reports_refine (reports_check inner data)

theorem reports_checkFields : ∀ (fields : List (String × Schema)) (given : Record Json),
    ∀ v ∈ checkFields fields given, v.2.Reports
  | [], _, _, hv => nomatch hv
  | (key, s) :: rest, given, v, hv => by
    unfold checkFields at hv
    obtain rfl | hv := List.mem_cons.mp hv
    case inl => exact (reports_check s _).under
    case inr => exact reports_checkFields rest given v hv

end

theorem Accepts.isNothing (h : s.Accepts data) : (s.check data).isNothing = false :=
  reports_check s data h

end Reports

section Presence

theorem kept_checkText_ne_missing {tests : List TextTest} :
    (checkText tests data).kept ≠ .missing := by
  unfold checkText
  split <;> nofun

theorem kept_checkNumber_ne_missing {tests : List NumberTest} :
    (checkNumber tests data).kept ≠ .missing := by
  unfold checkNumber
  split
  case h_1 => split_ifs <;> nofun
  case h_2 => nofun

theorem kept_checkListed_ne_missing {options : List String} :
    (checkListed options data).kept ≠ .missing := by
  unfold checkListed
  split
  case h_1 => split_ifs <;> nofun
  case h_2 => nofun

theorem kept_checkNumeral_ne_missing {read : List Char → Float} {tests : List NumberTest} :
    (checkNumeral read tests data).kept ≠ .missing := by
  unfold checkNumeral
  split
  case h_1 => exact kept_checkNumber_ne_missing
  case h_2 => nofun

theorem kept_gatherItems_ne_missing {most : Nat} {items : List Json} {verdicts : List Verdict} :
    (gatherItems most items verdicts).kept ≠ .missing := by
  unfold gatherItems
  dsimp only
  split_ifs <;> nofun

theorem kept_gatherFields_ne_missing {verdicts : List (String × Verdict)} :
    (gatherFields verdicts).kept ≠ .missing := by
  unfold gatherFields
  dsimp only
  split_ifs <;> nofun

theorem kept_refine {test : Json → Bool} {wording : String} {v : Verdict} :
    (refine test wording v).kept = v.kept := by
  unfold refine
  split
  case h_1 => split_ifs <;> rfl
  case h_2 => rfl

-- What is there is kept or given up, but not missing.
theorem kept_check_ne_missing : ∀ (s : Schema) (j : Json), (s.check (some j)).kept ≠ .missing
  | text _, _ => by unfold check; exact kept_checkText_ne_missing
  | number _, _ => by unfold check; exact kept_checkNumber_ne_missing
  | listed _, _ => by unfold check; exact kept_checkListed_ne_missing
  | numeral _ _ _, _ => by unfold check; exact kept_checkNumeral_ne_missing
  | array _ _, _ => by
    unfold check
    split
    case h_1 => exact kept_gatherItems_ne_missing
    case h_2 => nofun
  | record _ _, _ => by
    unfold check
    split
    case h_1 => exact kept_gatherFields_ne_missing
    case h_2 => nofun
  | object _, _ => by
    unfold check
    split
    case h_1 => exact kept_gatherFields_ne_missing
    case h_2 => nofun
  | optional inner, j => by unfold check; exact kept_check_ne_missing inner j
  | withDefault inner _, j => by unfold check; exact kept_check_ne_missing inner j
  | refined inner _ _, j => by
    unfold check
    rw [kept_refine]
    exact kept_check_ne_missing inner j

theorem Accepts.isSome_keep? (h : s.Accepts (some j)) : (s.keep? (some j)).isSome := by
  have hn := h.isNothing
  have hm := kept_check_ne_missing s j
  rw [keep?, value?]
  rw [Verdict.isNothing] at hn
  split
  case h_1 => rfl
  case h_2 hv =>
    cases hk : (s.check (some j)).kept with
    | nothing => simp [hk] at hn
    | missing => exact absurd hk hm
    | value j => exact absurd hk (hv j)

theorem accepts_and_keep?_of_validate {k : Json} (h : s.validate (some j) = .ok k) :
    s.Accepts (some j) ∧ s.keep? (some j) = some k := by
  have ⟨ha, hk⟩ := validate_eq_ok_iff.mp h
  obtain ⟨kept, hkept⟩ := Option.isSome_iff_exists.mp ha.isSome_keep?
  rw [hkept, Option.getD_some] at hk
  exact ⟨ha, hk ▸ hkept⟩

end Presence

section Parts

variable {tests : List TextTest} {content : String} {item : Schema} {items : List Json} {most : Nat}
variable {default : Json} {test : Json → Bool} {wording : String}

theorem accepts_text_iff : (text tests).Accepts data ↔
    ∃ content, data = some (.str content) ∧ ∀ t ∈ tests, t.issue? content.toList = none := by
  unfold Accepts check checkText
  split
  case h_1 content => simp [TextTest.issues]
  case h_2 h       => exact ⟨nofun, fun ⟨content, hd, _⟩ => absurd hd (h content)⟩

@[simp]
theorem keep?_text : (text tests).keep? (some (.str content)) = some (.str content) :=
  rfl

section Numbers

variable {x : Float} {tests : List NumberTest} {default : Option String} {read : List Char → Float}

theorem check_number (h : x.isNaN = false) :
    (number tests).check (some (.num x)) =
      ⟨.value (.num x), tests.filterMap (NumberTest.issue? x)⟩ := by
  rw [check, checkNumber, h]
  rfl

theorem accepts_number_iff : (number tests).Accepts (some (.num x)) ↔
    x.isNaN = false ∧ ∀ t ∈ tests, t.issue? x = none := by
  by_cases h : x.isNaN = false
  case pos =>
    rw [Accepts, check_number h, List.filterMap_eq_nil_iff]
    exact (and_iff_right h).symm
  case neg =>
    refine iff_of_false (fun hx => ?_) fun hx => h hx.left
    rw [Accepts, check, checkNumber, if_pos (eq_true_of_ne_false h)] at hx
    nomatch hx

theorem accepts_number (h : x.isNaN = false) (ht : ∀ t ∈ tests, t.issue? x = none) :
    (number tests).Accepts (some (.num x)) :=
  accepts_number_iff.mpr ⟨h, ht⟩

theorem keep?_number (h : x.isNaN = false) :
    (number tests).keep? (some (.num x)) = some (.num x) := by
  rw [keep?, check_number h]
  rfl

-- A text is accepted as a number, and kept as one, if the number is that it is read as.
theorem check_numeral : (numeral default read tests).check (some (.str content)) =
    (number tests).check (some (.num (read content.toList))) := by
  cases default <;> simp [check, orDefault, checkNumeral]

-- Where there is nothing, the default is checked.
theorem check_numeral_map {content? : Option String} {default : String} :
    (numeral (some default) read tests).check (content?.map .str) =
      (numeral (some default) read tests).check (some (.str (content?.getD default))) := by
  cases content? <;> rfl

theorem accepts_numeral_iff : (numeral default read tests).Accepts (some (.str content)) ↔
    (number tests).Accepts (some (.num (read content.toList))) := by
  rw [Accepts, check_numeral, Accepts]

theorem keep?_numeral : (numeral default read tests).keep? (some (.str content)) =
    (number tests).keep? (some (.num (read content.toList))) := by
  rw [keep?, check_numeral, keep?]

end Numbers

theorem tooMany_eq_nil_iff : tooMany most items = [] ↔ items.length ≤ most := by
  simp [tooMany]

section Places

-- Parts are checked with their places, which only their issues tell.
variable {α β γ : Type} {f : Nat → α → β} {as : List α}

theorem forall_mem_mapIdx {p : β → Prop} {q : α → Prop} (h : ∀ i a, p (f i a) ↔ q a) :
    (∀ b ∈ as.mapIdx f, p b) ↔ ∀ a ∈ as, q a := by
  induction as generalizing f with
  | nil          => simp
  | cons a as hi =>
    rw [List.mapIdx_cons, List.forall_mem_cons, List.forall_mem_cons, h, hi fun i => h (i + 1)]

theorem filterMap_mapIdx {k : β → Option γ} {g : α → Option γ} (h : ∀ i a, k (f i a) = g a) :
    (as.mapIdx f).filterMap k = as.filterMap g := by
  induction as generalizing f with
  | nil          => rfl
  | cons a as hi =>
    rw [List.mapIdx_cons, List.filterMap_cons, List.filterMap_cons, h, hi fun i => h (i + 1)]

end Places

theorem value?_gatherItems {verdicts : List Verdict}
    (h : (gatherItems most items verdicts).isNothing = false) :
    (gatherItems most items verdicts).value? = some (.arr (verdicts.filterMap value?)) := by
  by_cases ha : verdicts.any Verdict.isNothing
  case pos =>
    rw [gatherItems, if_pos ha] at h
    nomatch h
  case neg =>
    rw [gatherItems, if_neg ha]
    rfl

theorem value?_gatherFields {verdicts : List (String × Verdict)}
    (h : (gatherFields verdicts).isNothing = false) :
    (gatherFields verdicts).value? = some (.obj (keptFields verdicts)) := by
  by_cases ha : verdicts.any (·.2.isNothing)
  case pos =>
    rw [gatherFields, if_pos ha] at h
    nomatch h
  case neg =>
    rw [gatherFields, if_neg ha]
    rfl

theorem accepts_array_iff : (array item most).Accepts (some (.arr items)) ↔
    items.length ≤ most ∧ ∀ j ∈ items, item.Accepts (some j) := by
  simp only [Accepts, check, gatherItems, List.append_eq_nil_iff, tooMany_eq_nil_iff,
    List.flatMap_eq_nil_iff]
  exact and_congr_right fun _ => forall_mem_mapIdx (p := fun v : Verdict => v.issues = [])
    fun _ _ => issues_under

theorem exists_of_accepts_array (h : (array item most).Accepts data) :
    ∃ items, data = some (.arr items) := by
  unfold Accepts check at h
  split at h
  case h_1 items => exact ⟨items, rfl⟩
  case h_2 => nomatch h

theorem keep?_array (h : (array item most).Accepts (some (.arr items))) :
    (array item most).keep? (some (.arr items)) =
      some (.arr (items.filterMap fun j => item.keep? (some j))) := by
  have hn := h.isNothing
  rw [keep?]
  rw [check] at hn ⊢
  rw [value?_gatherItems hn]
  exact congrArg (some ∘ Json.arr)
    (filterMap_mapIdx (k := value?) (g := fun j => item.keep? (some j)) fun _ _ => rfl)

section Mapped

variable {α : Type} {as : List α} {f : α → Json} {p : α → Prop}

theorem accepts_array_map_iff (h : ∀ a ∈ as, item.Accepts (some (f a)) ↔ p a) :
    (array item most).Accepts (some (.arr (as.map f))) ↔ as.length ≤ most ∧ ∀ a ∈ as, p a := by
  rw [accepts_array_iff, List.length_map, List.forall_mem_map]
  exact and_congr_right' (forall₂_congr h)

-- Items that are kept as they are make a list that is.
theorem keep?_array_map (h : (array item most).Accepts (some (.arr (as.map f))))
    (hk : ∀ a ∈ as, item.keep? (some (f a)) = some (f a)) :
    (array item most).keep? (some (.arr (as.map f))) = some (.arr (as.map f)) := by
  rw [keep?_array h, List.filterMap_congr (List.forall_mem_map.mpr hk), List.filterMap_some]

end Mapped

theorem checkFields_eq : checkFields fields given =
    fields.map fun f => (f.1, (f.2.check (given.get? f.1)).under (.key f.1)) := by
  induction fields with
  | nil               => rw [checkFields, List.map_nil]
  | cons f fields hi => rw [checkFields, hi, List.map_cons]

theorem accepts_object_iff : (object fields).Accepts (some (.obj given)) ↔
    ∀ f ∈ fields, f.2.Accepts (given.get? f.1) := by
  simp only [Accepts, check, gatherFields, checkFields_eq, List.flatMap_eq_nil_iff,
    List.forall_mem_map, issues_under]

theorem accepts_object_of_forall (hj : ∃ given, j = .obj given)
    (h : ∀ f ∈ fields, f.2.Accepts (j.get? f.1)) : (object fields).Accepts (some j) := by
  obtain ⟨given, rfl⟩ := hj
  exact accepts_object_iff.mpr h

theorem exists_of_accepts_object (h : (object fields).Accepts data) :
    ∃ given, data = some (.obj given) := by
  unfold Accepts check at h
  split at h
  case h_1 given => exact ⟨given, rfl⟩
  case h_2 => nomatch h

-- The fields that an object keeps of those given.
def keepFields (fields : List (String × Schema)) (given : Record Json) : Record Json :=
  fields.filterMap fun f =>
    if f.1 == reservedKey then none else (f.2.keep? (given.get? f.1)).map (f.1, ·)

theorem keep?_object (h : (object fields).Accepts (some (.obj given))) :
    (object fields).keep? (some (.obj given)) = some (.obj (keepFields fields given)) := by
  have hn := h.isNothing
  rw [keep?]
  rw [check] at hn ⊢
  rw [value?_gatherFields hn, keptFields, checkFields_eq, List.filterMap_map]
  rfl

theorem get?_keepFields_of_not_mem (h : key ∉ fields.map (·.1)) :
    (keepFields fields given).get? key = none := by
  rw [Record.get?_eq_none_iff, Record.keys]
  contrapose! h
  obtain ⟨e, he, rfl⟩ := List.mem_map.mp h
  obtain ⟨f, hf, hfe⟩ := List.mem_filterMap.mp he
  split_ifs at hfe
  obtain ⟨j, _, rfl⟩ := Option.map_eq_some_iff.mp hfe
  exact List.mem_map_of_mem hf

-- Under each key stands what its own schema keeps.
theorem get?_keepFields (hn : (fields.map (·.1)).Nodup) (hf : (key, s) ∈ fields)
    (hr : key ≠ reservedKey) : (keepFields fields given).get? key = s.keep? (given.get? key) := by
  induction fields with
  | nil               => nomatch hf
  | cons f fields hi =>
    have ⟨hnot, hn⟩ := List.nodup_cons.mp hn
    rw [keepFields, List.filterMap_cons, ← keepFields]
    obtain rfl | hf := List.mem_cons.mp hf
    case inl =>
      cases hk : s.keep? (given.get? key) with
      | none   => simpa [hr, hk] using get?_keepFields_of_not_mem hnot
      | some j => simp [hr, Record.get?_cons]
    case inr =>
      have hne : f.1 ≠ key := by
        rintro rfl
        exact hnot (List.mem_map.mpr ⟨_, hf, rfl⟩)
      split
      case h_1 => exact hi hn hf
      case h_2 e he =>
        split_ifs at he
        obtain ⟨j, _, rfl⟩ := Option.map_eq_some_iff.mp he
        rw [Record.get?_cons, if_neg hne, hi hn hf]

-- Each field of an accepted object is accepted, and is kept under its key.
theorem exists_keep?_object (h : (object fields).Accepts (some j)) (hn : (fields.map (·.1)).Nodup)
    (hr : reservedKey ∉ fields.map (·.1)) :
    (∀ f ∈ fields, f.2.Accepts (j.get? f.1)) ∧
    ∃ kept, (object fields).keep? (some j) = some kept ∧
      ∀ f ∈ fields, kept.get? f.1 = f.2.keep? (j.get? f.1) := by
  obtain ⟨given, hj⟩ := exists_of_accepts_object h
  obtain rfl := Option.some.inj hj
  exact ⟨accepts_object_iff.mp h, _, keep?_object h, fun f hf => get?_keepFields hn hf fun he =>
    hr (List.mem_map.mpr ⟨f, hf, he⟩)⟩

-- What is kept of an object is kept of its fields.
theorem fields_of_keep? {k : Json} (h : (object fields).Accepts (some j))
    (hk : (object fields).keep? (some j) = some k) (hn : (fields.map (·.1)).Nodup)
    (hr : reservedKey ∉ fields.map (·.1)) :
    (∀ f ∈ fields, f.2.Accepts (j.get? f.1)) ∧
    ∀ f ∈ fields, k.get? f.1 = f.2.keep? (j.get? f.1) := by
  have ⟨ha, kept, hkept, hf⟩ := exists_keep?_object h hn hr
  obtain rfl : kept = k := Option.some.inj (hkept.symm.trans hk)
  exact ⟨ha, hf⟩

theorem fields_of_validate {k : Json} (h : (object fields).validate (some j) = .ok k)
    (hn : (fields.map (·.1)).Nodup) (hr : reservedKey ∉ fields.map (·.1)) :
    (∀ f ∈ fields, f.2.Accepts (j.get? f.1)) ∧
    ∀ f ∈ fields, k.get? f.1 = f.2.keep? (j.get? f.1) :=
  have ⟨ha, hk⟩ := accepts_and_keep?_of_validate h
  fields_of_keep? ha hk hn hr

section Records

variable {keys : List TextTest} {value : Schema} {kept : Json}

theorem accepts_record_iff : (record keys value).Accepts (some (.obj given)) ↔
    ∀ e ∈ given, (∀ t ∈ keys, t.issue? e.1.toList = none) ∧ value.Accepts (some e.2) := by
  simp only [Accepts, check, gatherFields, List.flatMap_eq_nil_iff, List.forall_mem_map,
    (Record.inOrder_perm given).mem_iff, withKey, issues_under, List.append_eq_nil_iff,
    TextTest.issues, List.filterMap_eq_nil_iff]

theorem exists_of_accepts_record (h : (record keys value).Accepts data) :
    ∃ given, data = some (.obj given) := by
  unfold Accepts check at h
  split at h
  case h_1 given => exact ⟨given, rfl⟩
  case h_2 => nomatch h

-- The fields that a record keeps of those given.
def keepRecord (value : Schema) (given : Record Json) : Record Json :=
  (Record.inOrder given).filterMap fun e =>
    if e.1 == reservedKey then none else (value.keep? (some e.2)).map (e.1, ·)

theorem keep?_record (h : (record keys value).Accepts (some (.obj given))) :
    (record keys value).keep? (some (.obj given)) = some (.obj (keepRecord value given)) := by
  have hn := h.isNothing
  rw [keep?]
  rw [check] at hn ⊢
  rw [value?_gatherFields hn, keptFields, List.filterMap_map]
  rfl

theorem keys_keepRecord :
    (keepRecord value given).keys.Sublist (Record.keys (Record.inOrder given)) := by
  rw [keepRecord]
  generalize Record.inOrder given = fields
  induction fields with
  | nil                => exact List.Sublist.refl _
  | cons e fields hi =>
    rw [List.filterMap_cons]
    split
    case h_1 => exact hi.cons e.1
    case h_2 f hf =>
      split_ifs at hf
      obtain ⟨j, _, rfl⟩ := Option.map_eq_some_iff.mp hf
      exact hi.cons_cons e.1

theorem nodup_keys_keepRecord (hn : given.keys.Nodup) : (keepRecord value given).keys.Nodup :=
  (Record.nodup_keys_inOrder hn).sublist keys_keepRecord

-- Of a field of an accepted record, that is kept which its schema keeps of it.
theorem exists_of_get?_keepRecord (h : (keepRecord value given).get? key = some kept) :
    ∃ j, (key, j) ∈ given ∧ value.keep? (some j) = some kept := by
  obtain ⟨e, he, hk⟩ := List.mem_filterMap.mp (Record.mem_of_get? h)
  split_ifs at hk
  obtain ⟨j, hj, hp⟩ := Option.map_eq_some_iff.mp hk
  obtain ⟨rfl, rfl⟩ := Prod.mk.inj hp
  exact ⟨e.2, (Record.inOrder_perm given).mem_iff.mp he, hj⟩

theorem accepts_record_nil : (record keys value).Accepts (some (.obj [])) :=
  accepts_record_iff.mpr nofun

theorem keep?_record_nil : (record keys value).keep? (some (.obj [])) = some (.obj []) := by
  simp [keep?_record accepts_record_nil, keepRecord, Record.inOrder]

end Records

@[simp]
theorem accepts_optional_none : (optional inner).Accepts none := by
  rw [Accepts, check]

@[simp]
theorem accepts_optional_some : (optional inner).Accepts (some j) ↔ inner.Accepts (some j) := by
  rw [Accepts, check, Accepts]

@[simp]
theorem keep?_optional_none : (optional inner).keep? none = none := by
  rw [keep?, check]
  rfl

@[simp]
theorem keep?_optional_some : (optional inner).keep? (some j) = inner.keep? (some j) := by
  rw [keep?, check, keep?]

theorem accepts_withDefault_iff :
    (withDefault inner default).Accepts data ↔ inner.Accepts (some (data.getD default)) := by
  rw [Accepts, check, Accepts]

theorem keep?_withDefault :
    (withDefault inner default).keep? data = inner.keep? (some (data.getD default)) := by
  rw [keep?, check, keep?]

@[simp]
theorem accepts_withDefault_some :
    (withDefault inner default).Accepts (some j) ↔ inner.Accepts (some j) :=
  accepts_withDefault_iff

@[simp]
theorem keep?_withDefault_some :
    (withDefault inner default).keep? (some j) = inner.keep? (some j) :=
  keep?_withDefault

theorem accepts_refined_iff : (refined inner test wording).Accepts data ↔
    inner.Accepts data ∧ ∀ j, inner.keep? data = some j → test j := by
  simp only [Accepts, keep?, check, refine, value?]
  split
  case h_1 j _ => by_cases ht : test j <;> simp [ht]
  case h_2 h   => simp

theorem keep?_refined : (refined inner test wording).keep? data = inner.keep? data := by
  rw [keep?, check, value?, kept_refine]
  rfl

theorem validate_of_refined {k : Json}
    (h : (refined inner test wording).validate (some j) = .ok k) :
    inner.validate (some j) = .ok k ∧ test k := by
  have ⟨ha, hk⟩ := accepts_and_keep?_of_validate h
  have ⟨hi, ht⟩ := accepts_refined_iff.mp ha
  rw [keep?_refined] at hk
  exact ⟨validate_of_accepts hi hk, ht k hk⟩

end Parts

end Schema

end LayeredDiagram
