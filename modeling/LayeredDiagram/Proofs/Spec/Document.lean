import LayeredDiagram.Proofs.Sequence
import LayeredDiagram.Proofs.Spec.Section
import LayeredDiagram.Spec.Document

namespace LayeredDiagram.Spec

open Text

-- Neither blank nor a comment.
def Line.IsContent (l : Line) : Prop :=
  trim l.text ≠ [] ∧ (trim l.text).head? ≠ some '#'

instance : DecidablePred Line.IsContent := fun l =>
  inferInstanceAs (Decidable (trim l.text ≠ [] ∧ (trim l.text).head? ≠ some '#'))

def content (ls : List Line) : List Line :=
  ls.filter (·.IsContent)

section Entries

variable {α : Type} {ls : List Line} {rs : List (α × Nat)} {e : SpecError}
  {read : List Char → Except SpecError α} {read? : List Char → Option α}
  {fault : List Char → SpecFault}

theorem entries_eq : entries ls = (content ls).map fun l => { l with text := trim l.text } := by
  rw [entries, content, List.filter_map]
  refine congrArg _ (List.filter_congr fun l _ => ?_)
  cases ht : trim l.text <;> simp [Line.IsContent, ht, bne, beq_eq_decide]

-- `read` accepts what `read?` does, and reports every other line.
def Reports (read : List Char → Except SpecError α) (read? : List Char → Option α)
    (fault : List Char → SpecFault) : Prop :=
  ∀ text, read text = match read? text with
    | some a => .ok a
    | none   => .error ⟨fault text, none⟩

theorem reports_node (defaultKind : List Char) : Reports (Node.ofLine defaultKind)
    (Node.ofLine? defaultKind) fun text => .badNode (String.ofList text) := by
  intro text
  rw [Node.ofLine]
  split <;> simp [*]

theorem reports_edge :
    Reports Edge.ofLine Edge.ofLine? fun text => .badEdge (String.ofList text) := by
  intro text
  rw [Edge.ofLine]
  split <;> simp [*]

-- A reader of lines in certain forms, which are read as `value` says.
theorem Reports.of_forms {Form : Type} {line : Form → List Char} {value : Form → α}
    (h : Reports read read? fault)
    (hf : ∀ text a, read? text = some a ↔ ∃ f, line f = text ∧ value f = a) (text : List Char) :
    (∀ a, read text = .ok a ↔ ∃ f, line f = text ∧ value f = a) ∧
    ∀ e, read text = .error e ↔ (¬∃ f, line f = text) ∧ e = ⟨fault text, none⟩ := by
  have hn : read? text = none ↔ ¬∃ f, line f = text := by
    simp [Option.eq_none_iff_forall_ne_some, hf]
  rw [h text, ← hn]
  simp only [← hf]
  cases read? text with
  | some a => simp
  | none   => simp [eq_comm]

theorem Reports.readEntry_eq_ok_iff {l : Line} {r : α × Nat} (h : Reports read read? fault) :
    readEntry read l = .ok r ↔ read? l.text = some r.1 ∧ l.number = r.2 := by
  cases hr : read? l.text <;> simp [readEntry, h l.text, hr, Prod.ext_iff]

theorem Reports.readEntry_eq_error_iff {l : Line} (h : Reports read read? fault) :
    readEntry read l = .error e ↔ read? l.text = none ∧ ⟨fault l.text, some l.number⟩ = e := by
  cases hr : read? l.text <;> simp [readEntry, h l.text, hr, atLine]

theorem readEntries_eq : readEntries read ls =
    (content ls).mapM fun l => readEntry read { l with text := trim l.text } := by
  rw [readEntries, entries_eq, List.mapM_map]
  rfl

theorem Reports.map_eq_of_readEntries (h : Reports read read? fault)
    (hr : readEntries read ls = .ok rs) : rs.map (fun r => (some r.1, r.2)) =
      (content ls).map fun l => (read? (trim l.text), l.number) := by
  rw [readEntries_eq] at hr
  refine map_eq_of_mapM hr fun l r he => ?_
  have ⟨ha, hn⟩ := h.readEntry_eq_ok_iff.mp he
  exact Prod.ext ha.symm hn.symm

theorem Reports.map_read?_of_readEntries (h : Reports read read? fault)
    (hr : readEntries read ls = .ok rs) :
    (content ls).map (fun l => read? (trim l.text)) = (rs.map (·.1)).map some := by
  have hm := congrArg (List.map (·.1)) (h.map_eq_of_readEntries hr)
  rw [List.map_map, List.map_map] at hm
  rw [List.map_map]
  exact hm.symm

theorem Reports.exists_readEntry_iff (h : Reports read read? fault) (l : Line) :
    (∃ r, readEntry read l = .ok r) ↔ read? l.text ≠ none := by
  simp [h.readEntry_eq_ok_iff, Option.ne_none_iff_exists', Prod.exists]

theorem Reports.exists_readEntries (h : Reports read read? fault)
    (ha : ∀ l ∈ content ls, read? (trim l.text) ≠ none) : ∃ rs, readEntries read ls = .ok rs := by
  rw [readEntries_eq]
  exact exists_mapM_eq_ok fun l hl => (h.exists_readEntry_iff _).mpr (ha l hl)

theorem Reports.readEntries_eq_error_iff (h : Reports read read? fault) :
    readEntries read ls = .error e ↔ ∃ before l after, content ls = before ++ l :: after ∧
      (∀ m ∈ before, read? (trim m.text) ≠ none) ∧ read? (trim l.text) = none ∧
      ⟨fault (trim l.text), some l.number⟩ = e := by
  simp only [readEntries_eq, mapM_eq_error_iff, h.exists_readEntry_iff, h.readEntry_eq_error_iff]

end Entries

-- The first member with a key that an earlier member has.
def FirstRepeat {α κ : Type} (key : α → κ) (as : List α) (a : α) : Prop :=
  ∃ before after, as = before ++ a :: after ∧ (before.map key).Nodup ∧ key a ∈ before.map key

section FirstRepeat

variable {α β κ κ' : Type} {as : List α} {a : α} {key : α → κ}

theorem exists_firstRepeat_map_iff {f : α → β} {key : β → κ} {P : β → Prop} :
    (∃ b, FirstRepeat key (as.map f) b ∧ P b) ↔ ∃ a, FirstRepeat (key ∘ f) as a ∧ P (f a) := by
  constructor
  case mp =>
    rintro ⟨_, ⟨_, _, h, hn, hm⟩, hp⟩
    obtain ⟨before, rest, rfl, rfl, hr⟩ := List.map_eq_append_iff.mp h
    obtain ⟨a, after, rfl, rfl, rfl⟩ := List.map_eq_cons_iff.mp hr
    rw [List.map_map] at hn hm
    exact ⟨a, ⟨before, after, rfl, hn, hm⟩, hp⟩
  case mpr =>
    rintro ⟨a, ⟨before, after, rfl, hn, hm⟩, hp⟩
    rw [← List.map_map] at hn hm
    exact ⟨f a, ⟨before.map f, after.map f, by simp, hn, hm⟩, hp⟩

theorem FirstRepeat.not_nodup (h : FirstRepeat key as a) : ¬(as.map key).Nodup := by
  obtain ⟨before, after, rfl, _, hm⟩ := h
  intro hn
  rw [List.map_append] at hn
  exact List.disjoint_of_nodup_append hn hm List.mem_cons_self

theorem exists_firstRepeat (h : ¬(as.map key).Nodup) : ∃ a, FirstRepeat key as a := by
  induction as using List.reverseRecOn with
  | nil => exact absurd List.nodup_nil h
  | append_singleton before a hi =>
    by_cases hb : (before.map key).Nodup
    case pos =>
      refine ⟨a, before, [], rfl, hb, ?_⟩
      by_contra hm
      rw [List.map_append] at h
      exact h (hb.append (List.nodup_singleton _) (by simpa using hm))
    case neg =>
      obtain ⟨b, front, after, rfl, hn, hm⟩ := hi hb
      exact ⟨b, front, after ++ [a], by simp, hn, hm⟩

theorem firstRepeat_comp_iff {i : κ → κ'} (hi : Function.Injective i) :
    FirstRepeat (i ∘ key) as a ↔ FirstRepeat key as a := by
  simp only [FirstRepeat, ← List.map_map, List.nodup_map_iff hi, Function.comp_apply,
    List.mem_map_of_injective hi]

end FirstRepeat

section Distinct

variable {keys : List (String × Nat)} {k : String × Nat} {seen : Std.HashSet String}
  {rs : List (Node × Nat)} {e : SpecError}

theorem firstRepeat?_go_eq_none_iff : firstRepeat?.go seen keys = none ↔
    (keys.map (·.1)).Nodup ∧ ∀ key ∈ keys.map (·.1), key ∉ seen := by
  induction keys generalizing seen with
  | nil => simp [firstRepeat?.go]
  | cons k keys hi =>
    obtain ⟨key, line⟩ := k
    rw [firstRepeat?.go, List.map_cons, List.nodup_cons, List.forall_mem_cons]
    split
    case isTrue hc => simp [Std.HashSet.contains_iff_mem.mp hc]
    case isFalse hc =>
      rw [hi]
      grind

theorem firstRepeat?_go_eq_some_iff : firstRepeat?.go seen keys = some k ↔
    ∃ before after, keys = before ++ k :: after ∧ (before.map (·.1)).Nodup ∧
      (∀ key ∈ before.map (·.1), key ∉ seen) ∧ (k.1 ∈ seen ∨ k.1 ∈ before.map (·.1)) := by
  induction keys generalizing seen with
  | nil => simp [firstRepeat?.go]
  | cons first keys hi =>
    rw [firstRepeat?.go]
    split
    case isTrue hc =>
      replace hc := Std.HashSet.contains_iff_mem.mp hc
      constructor
      case mp =>
        intro h
        obtain rfl := Option.some.inj h
        exact ⟨[], keys, rfl, List.nodup_nil, nofun, .inl hc⟩
      case mpr =>
        rintro ⟨before, after, h, _, hb, _⟩
        cases before <;> obtain ⟨rfl, _⟩ := List.cons.inj h
        case nil  => rfl
        case cons => exact absurd hc (hb _ List.mem_cons_self)
    case isFalse hc =>
      replace hc := mt Std.HashSet.mem_iff_contains.mp hc
      rw [hi]
      constructor
      case mp =>
        rintro ⟨before, after, rfl, hn, hb, hk⟩
        refine ⟨first :: before, after, rfl, ?_, ?_, ?_⟩ <;> grind
      case mpr =>
        rintro ⟨before, after, h, hn, hb, hk⟩
        cases before <;> obtain ⟨rfl, rfl⟩ := List.cons.inj h
        case nil  => simp [hc] at hk
        case cons before => exact ⟨before, after, rfl, by grind, by grind, by grind⟩

theorem firstRepeat?_eq_none_iff : firstRepeat? keys = none ↔ (keys.map (·.1)).Nodup := by
  simp [firstRepeat?, firstRepeat?_go_eq_none_iff]

theorem firstRepeat?_eq_some_iff : firstRepeat? keys = some k ↔ FirstRepeat (·.1) keys k := by
  simp [firstRepeat?, firstRepeat?_go_eq_some_iff, FirstRepeat]

theorem requireDistinct_eq_elim : requireDistinct rs =
    (firstRepeat? (rs.map fun r => (r.1.id, r.2))).elim (.ok ())
      fun k => .error ⟨.repeatedNode k.1, some k.2⟩ := by
  rw [requireDistinct]
  split
  case h_1 id line h =>
    have hs : firstRepeat? (rs.map fun r => (r.1.id, r.2)) = some (id, line) := h
    rw [hs, Option.elim_some]
  case h_2 h =>
    have hn : firstRepeat? (rs.map fun r => (r.1.id, r.2)) = none := h
    rw [hn, Option.elim_none]

theorem requireDistinct_eq_ok_iff : requireDistinct rs = .ok () ↔ (rs.map (·.1.id)).Nodup := by
  have hk : (rs.map fun r => (r.1.id, r.2)).map (·.1) = rs.map (·.1.id) := List.map_map
  rw [requireDistinct_eq_elim, ← hk, ← firstRepeat?_eq_none_iff]
  cases firstRepeat? (rs.map fun r => (r.1.id, r.2)) <;> simp

theorem requireDistinct_eq_error_iff : requireDistinct rs = .error e ↔
    ∃ r, FirstRepeat (·.1.id) rs r ∧ ⟨.repeatedNode r.1.id, some r.2⟩ = e := by
  have hk : requireDistinct rs = .error e ↔ ∃ k, firstRepeat? (rs.map fun r => (r.1.id, r.2)) =
      some k ∧ ⟨.repeatedNode k.1, some k.2⟩ = e := by
    rw [requireDistinct_eq_elim]
    cases firstRepeat? (rs.map fun r => (r.1.id, r.2)) <;> simp
  rw [hk]
  simp only [firstRepeat?_eq_some_iff, exists_firstRepeat_map_iff]
  rfl

end Distinct

section Parts

variable {s : Sections} {ls : List Line} {e : SpecError} {name text : String}

-- The section is there, and this is its text without the blanks around it.
def Says (s : Sections) (name text : String) : Prop :=
  ∃ ls, s.get? name = some ls ∧
    trim (['\n'].intercalate (ls.map (·.text))) = text.toList ∧ text ≠ ""

theorem joined?_get?_eq_some_iff :
    ((s.get? name).bind joined?).map String.ofList = some text ↔ Says s name text := by
  have hl (cs : List Char) : String.ofList cs = text ↔ cs = text.toList := by
    rw [← String.toList_inj, String.toList_ofList]
  simp only [Option.map_eq_some_iff, Option.bind_eq_some_iff, joined?_eq_some_iff, hl, Says]
  constructor
  case mp  => exact fun ⟨_, ⟨ls, hs, ht, hn⟩, he⟩ => ⟨ls, hs, he ▸ ht, by simpa [he] using hn⟩
  case mpr => exact fun ⟨ls, hs, ht, hn⟩ => ⟨_, ⟨ls, hs, ht, by simpa using hn⟩, rfl⟩

theorem exists_says_iff : (∃ text, Says s name text) ↔ ((s.get? name).bind joined?).isSome := by
  simp only [← joined?_get?_eq_some_iff]
  cases (s.get? name).bind joined? <;> simp

theorem requireNodes_eq_ok_iff :
    requireNodes s = .ok ls ↔ s.get? "nodes" = some ls ∧ ∃ text, Says s "nodes" text := by
  rw [requireNodes, exists_says_iff]
  cases s.get? "nodes" with
  | none       => simp
  | some lines => cases hj : joined? lines <;> simp [hj]

theorem requireNodes_eq_error_iff :
    requireNodes s = .error e ↔ (¬∃ text, Says s "nodes" text) ∧ ⟨.noNodes, none⟩ = e := by
  rw [requireNodes, exists_says_iff]
  cases s.get? "nodes" with
  | none       => simp
  | some lines => cases hj : joined? lines <;> simp [hj]

theorem title?_eq_some_iff : title? s = some text ↔ Says s "title" text :=
  joined?_get?_eq_some_iff

theorem description?_eq_some_iff : description? s = some text ↔
    Says s (if s.has "description" then "description" else "body") text := by
  rw [description?, ← joined?_get?_eq_some_iff, Record.has_eq_isSome]
  cases hd : s.get? "description" <;> simp [hd]

end Parts

end LayeredDiagram.Spec
