import LayeredDiagram.Proofs.Log.Child
import LayeredDiagram.Proofs.Sequence

namespace LayeredDiagram.Log

variable {j : Journal} {ambient : Option String} {l : Logger} {c : Call} {key : String}
  {v? : Option Value} {v : Value} {metadata spelled context : Record Value}

namespace Value

-- An identifier is a text. Without one, it may be set to nothing.
def IsId : Value → Prop
  | json (.str _) | json .null | missing => True
  | _ => False

-- What can be turned into text: no object in it, by itself or in a list, has a `toString` of its
-- own.
inductive HasText : Json → Prop where
  | null : HasText .null
  | bool {b : Bool} : HasText (.bool b)
  | num {x : Float} : HasText (.num x)
  | str {s : String} : HasText (.str s)
  | arr {items : List Json} (h : ∀ j ∈ items, HasText j) : HasText (.arr items)
  | obj {fields : Record Json} (h : fields.get? "toString" = none) : HasText (.obj fields)

theorem hasText_arr_iff {items : List Json} : HasText (.arr items) ↔ ∀ j ∈ items, HasText j :=
  ⟨fun | .arr h => h, .arr⟩

theorem hasText_obj_iff {fields : Record Json} :
    HasText (.obj fields) ↔ fields.get? "toString" = none :=
  ⟨fun | .obj h => h, .obj⟩

mutual

theorem plain_cases (j : Json) :
    (HasText j ∧ ∃ text, plain j = .ok text) ∨ (¬HasText j ∧ plain j = .error noText) := by
  cases j with
  | null       => exact .inl ⟨.null, _, rfl⟩
  | bool b     => exact .inl ⟨.bool, _, rfl⟩
  | num x      => exact .inl ⟨.num, _, rfl⟩
  | str s      => exact .inl ⟨.str, _, rfl⟩
  | arr items  =>
    rw [plain, hasText_arr_iff]
    obtain ⟨h, texts, ht⟩ | ⟨h, he⟩ := plainItems_cases items
    case inl => exact .inl ⟨h, _, by rw [ht]; rfl⟩
    case inr => exact .inr ⟨h, by rw [he]; rfl⟩
  | obj fields =>
    rw [plain, hasText_obj_iff, Record.has_eq_isSome]
    cases Record.get? fields "toString" with
    | none   => exact .inl ⟨rfl, _, rfl⟩
    | some _ => exact .inr ⟨nofun, rfl⟩

theorem plainItems_cases (items : List Json) :
    ((∀ j ∈ items, HasText j) ∧ ∃ texts, plainItems items = .ok texts) ∨
      (¬(∀ j ∈ items, HasText j) ∧ plainItems items = .error noText) := by
  cases items with
  | nil          => exact .inl ⟨nofun, _, rfl⟩
  | cons j items =>
    rw [plainItems, List.forall_mem_cons]
    obtain ⟨hj, text, ht⟩ | ⟨hj, he⟩ := plain_cases j
    case inr => exact .inr ⟨fun h => hj h.left, by rw [he]; rfl⟩
    case inl =>
      obtain ⟨h, texts, hts⟩ | ⟨h, he⟩ := plainItems_cases items
      case inl => exact .inl ⟨⟨hj, h⟩, _, by rw [ht, hts]; rfl⟩
      case inr => exact .inr ⟨fun hs => h hs.right, by rw [ht, he]; rfl⟩

end

end Value

namespace Logger

-- Whatever its context sets as the identifier is one.
def Identifies (l : Logger) : Prop :=
  ∀ v, ("correlationId", v) ∈ l.context → v.IsId

-- The identifier that a logger brings along.
def boundId? (l : Logger) : Option String :=
  match l.context.get? "correlationId" with
  | some (.json (.str id)) => some id
  | _ => none

theorem Identifies.child (h : l.Identifies)
    (hc : ∀ v, ("correlationId", v) ∈ context → v.IsId) : (l.child context).Identifies :=
  fun v hv => (Record.mem_or_mem_of_mem_merge hv).elim (h v) (hc v)

theorem identifies_forModule {name : String} : (forModule name).Identifies :=
  fun _ hv => absurd (congrArg Prod.fst (List.mem_singleton.mp hv)) (by simp)

theorem boundId?_forModule {name : String} : (forModule name).boundId? = none :=
  rfl

end Logger

theorem correlation_eq (h : l.Identifies) :
    correlation l ambient = (l.boundId?.or ambient).map .str := by
  rw [correlation, Logger.boundId?]
  cases hv : l.context.get? "correlationId" with
  | none   => rfl
  | some v =>
    have hid := h v (Record.mem_of_get? hv)
    cases v with
    | missing => rfl
    | json j  =>
      cases j with
      | null   => rfl
      | str id => rfl
      | _      => exact False.elim hid
    | _       => exact False.elim hid

namespace Call

-- A call that reports no error, or one that can be spelled out.
def HasText (c : Call) : Prop :=
  ∀ j, c.fields.get? "error" = some (.json j) → Value.HasText j

theorem hasText_of_get?_eq_none (h : c.fields.get? "error" = none) : c.HasText := by
  simp [HasText, h]

theorem metadata_eq_ok_iff : c.metadata = .ok metadata ↔
    (c.fields.get? "error" = none ∧ metadata = c.fields) ∨
      ∃ v spelled, c.fields.get? "error" = some v ∧ spellOut v = .ok spelled ∧
        metadata = (c.fields.erase "error").merge spelled := by
  rw [Call.metadata]
  cases c.fields.get? "error" with
  | none   => simp [eq_comm]
  | some v =>
    simp only [bind_eq_ok_iff, reduceCtorEq, false_and, false_or]
    constructor
    case mp  => exact fun ⟨spelled, hs, h⟩ => ⟨v, spelled, rfl, hs, (Except.ok.inj h).symm⟩
    case mpr => exact fun ⟨_, spelled, hv, hs, h⟩ => ⟨spelled, Option.some.inj hv ▸ hs, h ▸ rfl⟩

-- The fields of a call can be told if and only if its error can be spelled out.
theorem metadata_cases (c : Call) : (c.HasText ∧ ∃ metadata, c.metadata = .ok metadata) ∨
    (¬c.HasText ∧ c.metadata = .error Value.noText) := by
  rw [HasText, Call.metadata]
  cases c.fields.get? "error" with
  | none   => exact .inl ⟨nofun, _, rfl⟩
  | some v =>
    cases v with
    | json j  =>
      simp only [spellOut]
      obtain ⟨h, text, ht⟩ | ⟨h, he⟩ := Value.plain_cases j
      case inl => exact .inl ⟨fun _ hj => by cases hj; exact h, _, by rw [ht]; rfl⟩
      case inr => exact .inr ⟨fun hj => h (hj j rfl), by rw [he]; rfl⟩
    | fault f => exact .inl ⟨nofun, _, rfl⟩
    | elapsed => exact .inl ⟨nofun, _, rfl⟩
    | missing => exact .inl ⟨nofun, _, rfl⟩

theorem keys_spellOut_sublist (h : spellOut v = .ok spelled) :
    spelled.keys.Sublist ["errorName", "errorMessage", "errorValue"] := by
  cases v with
  | fault f =>
    obtain rfl := Except.ok.inj h
    exact List.sublist_append_left ["errorName", "errorMessage"] ["errorValue"]
  | json j  =>
    obtain ⟨text, -, h⟩ := bind_eq_ok_iff.mp h
    obtain rfl := Except.ok.inj h
    exact List.sublist_append_right ["errorName", "errorMessage"] ["errorValue"]
  | elapsed =>
    obtain rfl := Except.ok.inj h
    exact List.sublist_append_right ["errorName", "errorMessage"] ["errorValue"]
  | missing =>
    obtain rfl := Except.ok.inj h
    exact List.nil_sublist _

-- Besides what is spelled out there are the fields of the call, without its error.
theorem get?_metadata (hm : c.metadata = .ok metadata)
    (hk : key ∉ ["errorName", "errorMessage", "errorValue"]) :
    metadata.get? key = if key = "error" then none else c.fields.get? key := by
  obtain ⟨h, rfl⟩ | ⟨v, spelled, -, hs, rfl⟩ := metadata_eq_ok_iff.mp hm
  case inl =>
    split
    case isTrue he => rw [he, h]
    case isFalse   => rfl
  case inr =>
    have hn : spelled.get? key = none :=
      Record.get?_eq_none_iff.mpr fun h => hk ((keys_spellOut_sublist hs).subset h)
    rw [Record.get?_merge_of_get?_eq_none hn, Record.get?_erase]

theorem nodup_keys_metadata (hm : c.metadata = .ok metadata) (hn : c.fields.keys.Nodup) :
    metadata.keys.Nodup := by
  obtain ⟨-, rfl⟩ | ⟨v, spelled, -, -, rfl⟩ := metadata_eq_ok_iff.mp hm
  case inl => exact hn
  case inr => exact Record.nodup_keys_merge (hn.sublist (List.filter_sublist.map _))

-- What is reported as an error is found spelled out.
theorem get?_spellOut_metadata (hm : c.metadata = .ok metadata)
    (h : c.fields.get? "error" = some v) : ∃ spelled, spellOut v = .ok spelled ∧
      ∀ key other, spelled.get? key = some other → metadata.get? key = some other := by
  obtain ⟨hn, -⟩ | ⟨v, spelled, hv, hs, rfl⟩ := metadata_eq_ok_iff.mp hm
  case inl => nomatch h.symm.trans hn
  case inr =>
    obtain rfl := Option.some.inj (h.symm.trans hv)
    have hn : spelled.keys.Nodup := (keys_spellOut_sublist hs).nodup (by decide)
    exact ⟨spelled, hs, fun key other ho => by rw [Record.get?_merge hn, ho, Option.some_or]⟩

end Call

theorem Event.hasText_call (e : Event) : e.call.HasText :=
  fun j h => absurd h (e.fault j)

theorem get?_field_of_ne {other : String} (h : other ≠ key) : (field key v?).get? other = none := by
  rw [Record.get?_eq_none_iff]
  exact fun hm => h (List.mem_singleton.mp ((keys_field_sublist key v?).subset hm))

namespace Journal

theorem get?_error_head : (j.head ambient l c).get? "error" = none := by
  rw [Record.get?_eq_none_iff]
  exact fun h => absurd (keys_head_sublist.subset h) (by decide)

theorem get?_correlationId_head : (j.head ambient l c).get? "correlationId" =
    (field "correlationId" (correlation l ambient)).get? "correlationId" := by
  have hmodule : (field "module" (l.context.get? "module")).get? "correlationId" = none :=
    get?_field_of_ne (by decide)
  rw [head, Record.get?_append, Record.get?_append, hmodule]
  rfl

theorem get?_correlationId_entry (hl : l.Identifies) (hm : c.metadata = .ok metadata)
    (hc : c.fields.get? "correlationId" = none) :
    (j.entry ambient l c metadata).get? "correlationId" =
      ((l.boundId?.or ambient).filter (· ≠ "")).map .str := by
  have hn : metadata.get? "correlationId" = none := by
    rw [Call.get?_metadata hm (by decide), if_neg (by decide), hc]
  rw [entry_eq, Record.get?_merge_of_get?_eq_none hn,
    Record.get?_merge_of_get?_eq_none (by rw [Record.get?_erase, if_pos rfl]),
    get?_correlationId_head, correlation_eq hl]
  cases l.boundId?.or ambient with
  | none    => rfl
  | some id =>
    by_cases hid : id = "" <;>
      simp [field, Value.isPresent, Value.str, hid, Record.get?, Option.filter]

theorem get?_error_entry (hm : c.metadata = .ok metadata) (h : l.context.get? "error" = none) :
    (j.entry ambient l c metadata).get? "error" = none := by
  have hn : metadata.get? "error" = none := by
    rw [Call.get?_metadata hm (by decide), if_pos rfl]
  have he : ((l.context.erase "module").erase "correlationId").get? "error" = none := by
    rw [Record.get?_erase, Record.get?_erase, h]
    rfl
  rw [entry_eq, Record.get?_merge_of_get?_eq_none hn, Record.get?_merge_of_get?_eq_none he,
    get?_error_head]

theorem get?_fields {entry : Record Value} (hn : entry.keys.Nodup) :
    (j.fields entry).get? key = (entry.get? key).bind (·.toJson? j.elapsed) := by
  rw [fields_eq, Record.get?_collect hn]

end Journal

-- What a line has in place of an error.
def Replaced (elapsed : Float) (fields : Record Json) : Value → Prop
  | .fault f =>
    fields.get? "errorName" = some (.str f.name) ∧
      fields.get? "errorMessage" = some (.str f.message)
  | .json error =>
    ∃ text, Value.plain error = .ok text ∧ fields.get? "errorValue" = some (.str text)
  | .elapsed => fields.get? "errorValue" = some (.str (Number.fixed elapsed))
  | .missing => True

-- The fields of the line that a call writes through a logger, where `id` is the identifier around.
structure Stamped (elapsed : Float) (id : Option String) (l : Logger) (c : Call)
    (fields : Record Json) : Prop where
  nodup    : fields.keys.Nodup
  id       : c.fields.get? "correlationId" = none → fields.get? "correlationId" =
    ((l.boundId?.or id).filter (· ≠ "")).map .str
  error    : l.context.get? "error" = none → fields.get? "error" = none
  replaced : ∀ v, c.fields.get? "error" = some v → Replaced elapsed fields v

theorem replaced_fields (hn : c.fields.keys.Nodup) (hm : c.metadata = .ok metadata)
    (h : c.fields.get? "error" = some v) :
    Replaced j.elapsed (j.fields (j.entry ambient l c metadata)) v := by
  have ⟨spelled, hs, hget⟩ := Call.get?_spellOut_metadata hm h
  have hfield (key : String) (other : Value) (ho : spelled.get? key = some other) :
      (j.fields (j.entry ambient l c metadata)).get? key = other.toJson? j.elapsed := by
    rw [Journal.get?_fields Journal.nodup_keys_entry, Journal.entry_eq,
      Record.get?_merge (Call.nodup_keys_metadata hm hn), hget key other ho]
    rfl
  cases v with
  | fault f    =>
    obtain rfl := Except.ok.inj hs
    exact ⟨hfield "errorName" _ rfl, hfield "errorMessage" _ rfl⟩
  | json error =>
    obtain ⟨text, ht, hs⟩ := bind_eq_ok_iff.mp hs
    obtain rfl := Except.ok.inj hs
    exact ⟨text, ht, hfield "errorValue" _ rfl⟩
  | elapsed    =>
    obtain rfl := Except.ok.inj hs
    exact hfield "errorValue" _ rfl
  | missing    => trivial

theorem stamped_entry (hl : l.Identifies) (hn : c.fields.keys.Nodup)
    (hm : c.metadata = .ok metadata) :
    Stamped j.elapsed ambient l c (j.fields (j.entry ambient l c metadata)) where
  nodup := Journal.nodup_keys_entry.sublist Record.keys_collect_sublist
  id hc := by
    rw [Journal.get?_fields Journal.nodup_keys_entry, Journal.get?_correlationId_entry hl hm hc]
    cases (l.boundId?.or ambient).filter (· ≠ "") <;> rfl
  error h := by
    rw [Journal.get?_fields Journal.nodup_keys_entry, Journal.get?_error_entry hm h]
    rfl
  replaced _ := replaced_fields hn hm

namespace Journal

-- A call that is admitted has exactly one line if its error can be spelled out.
theorem line?_of_hasText (j : Journal) (ambient : Option String) (l : Logger) (h : c.HasText) :
    ∃ metadata, c.metadata = .ok metadata ∧ j.line? ambient l c =
      .ok (if j.admits c.level then some (j.write (j.entry ambient l c metadata)) else none) := by
  obtain ⟨-, metadata, hm⟩ | ⟨hn, -⟩ := c.metadata_cases
  case inr => exact absurd h hn
  case inl =>
    refine ⟨metadata, hm, ?_⟩
    rw [line?, hm]
    split <;> rfl

-- Otherwise it fails, unless it is not admitted.
theorem line?_of_not_hasText (h : ¬c.HasText) :
    j.line? ambient l c = if j.admits c.level then .error Value.noText else .ok none := by
  obtain ⟨hc, -⟩ | ⟨-, he⟩ := c.metadata_cases
  case inl => exact absurd hc h
  case inr => rw [line?, he]; rfl

-- Of what is reported nothing is lost.
theorem length_lines (events : List Event) :
    (j.lines ambient events).length = events.countP fun e => j.admits e.level := by
  induction events with
  | nil            => rfl
  | cons e rest hi =>
    obtain ⟨metadata, -, hl⟩ := line?_of_hasText j ambient (.forModule e.module) e.hasText_call
    rw [lines, List.filterMap_cons, hl, ← lines, List.countP_cons]
    by_cases ha : j.admits e.level <;> simp [Event.call, ha, hi, Except.toOption]

end Journal

end LayeredDiagram.Log
