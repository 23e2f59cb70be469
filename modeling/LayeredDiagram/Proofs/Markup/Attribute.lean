import LayeredDiagram.Proofs.Markup.Encoding
import LayeredDiagram.Proofs.Markup.Strip

namespace LayeredDiagram.Markup

open Relation

-- The entities that begin somewhere in a text, from left to right.
def entitiesIn (cs : List Char) : List (List Char × Char) :=
  cs.tails.filterMap entityAt?

-- A fragment is deleted that reaches into no entity, and none comes about where it stood.
def Spares (cs ds : List Char) : Prop :=
  ∃ before stretch after, IsFragment stretch ∧ cs = before ++ stretch ++ after ∧
    ds = before ++ after ∧ entitiesIn cs = entitiesIn before ++ entitiesIn after ∧
    entitiesIn ds = entitiesIn before ++ entitiesIn after

variable {c d : Char} {cs ds rest stretch : List Char}

theorem IsFragment.unmarked (h : IsFragment stretch) : Unmarked stretch := by
  rintro c hc (rfl | rfl | rfl | rfl | rfl) <;> revert hc <;> apply h.not_mem <;> decide

theorem IsFragment.not_mem_semicolon (h : IsFragment stretch) : ';' ∉ stretch := by
  apply h.not_mem <;> decide

section Entities

theorem entitiesIn_cons : entitiesIn (c :: cs) = (entityAt? (c :: cs)).toList ++ entitiesIn cs := by
  rw [entitiesIn, List.tails_cons, List.filterMap_cons]
  cases entityAt? (c :: cs) <;> rfl

theorem entitiesIn_append_of_not_mem (h : '&' ∉ stretch) :
    entitiesIn (stretch ++ rest) = entitiesIn rest := by
  induction stretch with
  | nil               => rfl
  | cons c stretch hi =>
    have ⟨hc, hs⟩ := List.ne_and_not_mem_of_not_mem_cons h
    rw [List.cons_append, entitiesIn_cons, entityAt?_cons hc.symm, hi hs]
    rfl

theorem entitiesIn_entity_append (h : IsMark c) :
    entitiesIn (entity c ++ rest) = (entity c, c) :: entitiesIn rest := by
  have he := mem_entities_of_isMark h
  obtain ⟨tail, ht, hn⟩ := exists_of_mem_entities he
  have ha : entityAt? (entity c ++ rest) = some (entity c, c) := entityAt?_append he
  have htail : '&' ∉ tail := fun hin => hn _ hin (.inl rfl)
  rw [ht, List.cons_append] at ha ⊢
  rw [entitiesIn_cons, ha, entitiesIn_append_of_not_mem htail]
  rfl

-- What is escaped ends where an entity ends, or before it begins.
theorem entitiesIn_escape_append :
    entitiesIn (escape cs ++ rest) = entitiesIn (escape cs) ++ entitiesIn rest := by
  induction cs with
  | nil          => rfl
  | cons c cs hi =>
    rw [escape_cons, List.append_assoc]
    by_cases hc : IsMark c
    case pos =>
      rw [entitiesIn_entity_append hc, entitiesIn_entity_append hc, hi, List.cons_append]
    case neg =>
      have ha : '&' ∉ [c] := fun hin => hc (.inl (List.mem_singleton.mp hin).symm)
      rw [entity_of_not_isMark hc, entitiesIn_append_of_not_mem ha,
        entitiesIn_append_of_not_mem ha, hi]

end Entities

section Deletions

-- What is deleted from an escaped text is deleted from the text, and stands between its entities.
theorem Deletes.exists_escape (h : Deletes IsFragment (escape cs) ds) :
    ∃ bs, ds = escape bs ∧ Deletes IsFragment cs bs ∧ Spares (escape cs) ds := by
  obtain ⟨before, stretch, after, hf, he, rfl⟩ := h
  have ha : '&' ∉ stretch := fun hin => hf.unmarked _ hin (.inl rfl)
  rw [List.append_assoc] at he
  obtain ⟨bs, as, rfl, rfl, rfl⟩ :=
    exists_of_escape_eq_stretch he ha hf.not_mem_semicolon hf.mem_or_mem
  refine ⟨bs ++ as, escape_append.symm, ⟨bs, stretch, as, hf, rfl, rfl⟩, escape bs, stretch,
    escape as, hf, by rw [he, List.append_assoc], rfl, ?_, entitiesIn_escape_append⟩
  rw [he, entitiesIn_escape_append, entitiesIn_append_of_not_mem ha]

theorem exists_escape_of_deletes (h : ReflTransGen (Deletes IsFragment) (escape cs) ds) :
    ∃ bs, ds = escape bs ∧ ReflTransGen (Deletes IsFragment) cs bs ∧
      ReflTransGen Spares (escape cs) ds := by
  induction h with
  | refl          => exact ⟨cs, rfl, .refl, .refl⟩
  | tail _ h hi =>
    obtain ⟨bs, rfl, hb, hs⟩ := hi
    obtain ⟨bs', rfl, hb', hs'⟩ := h.exists_escape
    exact ⟨bs', rfl, hb.tail hb', hs.tail hs'⟩

theorem entitiesIn_eq_of_spares (h : ReflTransGen Spares cs ds) :
    entitiesIn ds = entitiesIn cs := by
  induction h with
  | refl        => rfl
  | tail _ h hi =>
    obtain ⟨_, _, _, _, _, _, hbefore, hafter⟩ := h
    exact hafter.trans (hbefore.symm.trans hi)

theorem sublist_of_deletes (h : ReflTransGen (Deletes IsFragment) cs ds) : ds.Sublist cs := by
  induction h with
  | refl        => exact List.Sublist.refl cs
  | tail _ h hi =>
    obtain ⟨before, stretch, after, _, rfl, rfl⟩ := h
    rw [List.append_assoc] at hi
    exact ((List.sublist_append_right stretch after).append_left before).trans hi

theorem escapeAttribute_deletes (cs : List Char) :
    ReflTransGen (Deletes IsFragment) (escape cs) (escapeAttribute cs) :=
  strip_deletes

-- What is left of a text once it is an attribute value is some text, escaped.
theorem exists_escape_of_escapeAttribute (cs : List Char) :
    ∃ ds, ds.Sublist cs ∧ escapeAttribute cs = escape ds :=
  have ⟨ds, he, hd, _⟩ := exists_escape_of_deletes (escapeAttribute_deletes cs)
  ⟨ds, sublist_of_deletes hd, he⟩

end Deletions

theorem not_mem_escape (hd : ∀ e ∈ entities, d ∉ e.1) (h : d ∉ cs) : d ∉ escape cs := by
  intro hin
  obtain ⟨c, hc, hm⟩ := List.mem_flatMap.mp hin
  by_cases hmark : IsMark c
  case pos => exact hd _ (mem_entities_of_isMark hmark) hm
  case neg =>
    rw [entity_of_not_isMark hmark, List.mem_singleton] at hm
    exact h (hm ▸ hc)

theorem escapeAttribute_of_not_mem (he : '=' ∉ cs) (hc : ':' ∉ cs) :
    escapeAttribute cs = escape cs :=
  strip_eq_self_iff.mpr (harmless_of_not_mem (not_mem_escape (by decide) he)
    (not_mem_escape (by decide) hc))

-- However much is stripped, an attribute value is escaped as it was before, and it is the escaped
-- text itself where there is neither an equals sign nor a colon.
theorem escapeAttribute_spares (cs : List Char) :
    ReflTransGen Spares (escape cs) (escapeAttribute cs) ∧
    entitiesIn (escapeAttribute cs) = entitiesIn (escape cs) ∧
    (∀ c ∈ escapeAttribute cs, c ≠ '<' ∧ c ≠ '>' ∧ c ≠ '"' ∧ c ≠ '\'') ∧
    (∀ rest, '&' :: rest <:+ escapeAttribute cs → ∃ e ∈ entities, e.1 <+: '&' :: rest) ∧
    ('=' ∉ cs → ':' ∉ cs → escapeAttribute cs = escape cs) := by
  obtain ⟨ds, he, _, hs⟩ := exists_escape_of_deletes (escapeAttribute_deletes cs)
  refine ⟨hs, entitiesIn_eq_of_spares hs, fun c hc => ?marks, fun rest hr => ?entities,
    escapeAttribute_of_not_mem⟩
  case marks =>
    rw [he] at hc
    refine ⟨?_, ?_, ?_, ?_⟩ <;> rintro rfl <;>
      exact absurd (eq_ampersand_of_mem_escape (by decide) hc) (by decide)
  case entities =>
    rw [he] at hr
    exact (exists_of_suffix_escape (.inl rfl) hr).right

-- What is joined where a handler stood reads like the end of an entity, but it is none.
theorem escapeAttribute_spares_joined :
    escapeAttribute "&lonx=t;<".toList = "&amp;lt;&lt;".toList ∧
    entitiesIn "&amp;lt;&lt;".toList = entitiesIn (escape "&lonx=t;<".toList) ∧
    '&' ∈ escapeAttribute "&lonx=t;<".toList ∧
    ('&' ≠ '<' ∧ '&' ≠ '>' ∧ '&' ≠ '"' ∧ '&' ≠ '\'') ∧
    "&lt;".toList <:+ escapeAttribute "&lonx=t;<".toList ∧
    (∃ e ∈ entities, e.1 <+: "&lt;".toList) ∧
    '=' ∉ "on \"x\"".toList ∧ ':' ∉ "on \"x\"".toList ∧
    escapeAttribute "on \"x\"".toList = escape "on \"x\"".toList := by
  have ⟨_, hsame, hmarks, hentities, _⟩ := escapeAttribute_spares "&lonx=t;<".toList
  have ⟨_, _, _, _, hwhole⟩ := escapeAttribute_spares "on \"x\"".toList
  have he : escapeAttribute "&lonx=t;<".toList = "&amp;lt;&lt;".toList := by decide
  have hmem : '&' ∈ escapeAttribute "&lonx=t;<".toList := by decide
  have hend : '&' :: "lt;".toList <:+ escapeAttribute "&lonx=t;<".toList :=
    ⟨"&amp;lt;".toList, he.symm⟩
  have hequals : '=' ∉ "on \"x\"".toList := by decide
  have hcolon : ':' ∉ "on \"x\"".toList := by decide
  exact ⟨he, he ▸ hsame, hmem, hmarks _ hmem, hend, hentities _ hend, hequals, hcolon,
    hwhole hequals hcolon⟩

end LayeredDiagram.Markup
