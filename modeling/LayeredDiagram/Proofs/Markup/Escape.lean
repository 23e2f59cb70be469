import LayeredDiagram.Markup.Escape
import Mathlib.Data.List.Infix

namespace LayeredDiagram.Markup

open Text

-- The entities that there are, and what they stand for.
def entities : List (List Char × Char) :=
  [(['&', 'a', 'm', 'p', ';'], '&'), (['&', 'l', 't', ';'], '<'), (['&', 'g', 't', ';'], '>'),
    (['&', 'q', 'u', 'o', 't', ';'], '"'), (['&', 'a', 'p', 'o', 's', ';'], '\'')]

-- The characters that a text holds only as entities.
def IsMark (c : Char) : Prop :=
  c = '&' ∨ c = '<' ∨ c = '>' ∨ c = '"' ∨ c = '\''

instance : DecidablePred IsMark := fun c =>
  inferInstanceAs (Decidable (c = '&' ∨ c = '<' ∨ c = '>' ∨ c = '"' ∨ c = '\''))

def Unmarked (cs : List Char) : Prop :=
  ∀ c ∈ cs, ¬IsMark c

instance : DecidablePred Unmarked :=
  List.decidableBAll (¬IsMark ·)

-- What can stand between tags, or between quotes.
def IsText (cs : List Char) : Prop :=
  ∃ ds, escape ds = cs

def entityAt? (cs : List Char) : Option (List Char × Char) :=
  entities.find? (·.1.isPrefixOf cs)

-- What a text stands for. An ampersand must begin an entity, and no other mark may stand anywhere.
def unescape? : List Char → Option (List Char)
  | [] => some []
  | c :: cs =>
    match entityAt? (c :: cs) with
    | some (name, d) => (unescape? (cs.drop (name.length - 1))).map (d :: ·)
    | none => if IsMark c then none else (unescape? cs).map (c :: ·)
termination_by cs => cs.length

variable {c d : Char} {cs ds name rest before stretch after : List Char}
  {find : List Char → Nat} {n : Nat}

theorem entity_of_mem (h : (name, c) ∈ entities) : entity c = name := by
  simp only [entities, List.mem_cons, Prod.mk.injEq, List.not_mem_nil, or_false] at h
  obtain ⟨rfl, rfl⟩ | ⟨rfl, rfl⟩ | ⟨rfl, rfl⟩ | ⟨rfl, rfl⟩ | ⟨rfl, rfl⟩ := h <;> rfl

theorem mem_entities_of_isMark (h : IsMark c) : (entity c, c) ∈ entities := by
  obtain rfl | rfl | rfl | rfl | rfl := h <;> decide

theorem entity_of_not_isMark (h : ¬IsMark c) : entity c = [c] := by
  unfold entity
  split <;> simp_all [IsMark]

theorem escape_cons : escape (c :: cs) = entity c ++ escape cs :=
  List.flatMap_cons

theorem isText_nil : IsText [] :=
  ⟨[], rfl⟩

theorem escape_append : escape (cs ++ ds) = escape cs ++ escape ds :=
  List.flatMap_append

theorem escape_of_unmarked (h : Unmarked cs) : escape cs = cs := by
  induction cs with
  | nil          => rfl
  | cons c cs hi =>
    have ⟨hc, hcs⟩ := List.forall_mem_cons.mp h
    rw [escape_cons, entity_of_not_isMark hc, hi hcs, List.singleton_append]

section Replace

def replace (c : Char) (name cs : List Char) : List Char :=
  cs.flatMap fun d => if d = c then name else [d]

def replaceEach (es : List (List Char × Char)) (cs : List Char) : List Char :=
  es.foldl (fun cs e => replace e.2 e.1 cs) cs

variable {es : List (List Char × Char)}

theorem replaceEach_append :
    replaceEach es (cs ++ ds) = replaceEach es cs ++ replaceEach es ds := by
  induction es generalizing cs ds with
  | nil          => rfl
  | cons e es hi =>
    have h : replace e.2 e.1 (cs ++ ds) = replace e.2 e.1 cs ++ replace e.2 e.1 ds :=
      List.flatMap_append
    rw [replaceEach, List.foldl_cons, h]
    exact hi

theorem replaceEach_singleton (h : ∀ e ∈ es, e.2 ≠ c) : replaceEach es [c] = [c] := by
  induction es with
  | nil          => rfl
  | cons e es hi =>
    have ⟨he, hes⟩ := List.forall_mem_cons.mp h
    have hc : replace e.2 e.1 [c] = [c] := by simp [replace, he.symm]
    rw [replaceEach, List.foldl_cons, hc]
    exact hi hes

-- The characters may be replaced one after another. The ampersand comes first, or else those of the
-- entities written before it would be replaced as well.
theorem replaceEach_entities : replaceEach entities cs = escape cs := by
  induction cs with
  | nil          => rfl
  | cons c cs hi =>
    have hc : replaceEach entities [c] = entity c := by
      by_cases hm : IsMark c
      case pos => obtain rfl | rfl | rfl | rfl | rfl := hm <;> decide
      case neg =>
        have hmarks : ∀ e ∈ entities, IsMark e.2 := by decide
        rw [entity_of_not_isMark hm]
        exact replaceEach_singleton fun e he h => hm (h ▸ hmarks e he)
    rw [← List.singleton_append, replaceEach_append, hc, hi, List.singleton_append, escape_cons]

end Replace

section Unescape

theorem entityAt?_append (h : (name, c) ∈ entities) :
    entityAt? (name ++ rest) = some (name, c) := by
  simp only [entities, List.mem_cons, Prod.mk.injEq, List.not_mem_nil, or_false] at h
  obtain ⟨rfl, rfl⟩ | ⟨rfl, rfl⟩ | ⟨rfl, rfl⟩ | ⟨rfl, rfl⟩ | ⟨rfl, rfl⟩ := h <;>
    simp [entityAt?, entities]

theorem mem_of_entityAt? (h : entityAt? cs = some (name, c)) :
    (name, c) ∈ entities ∧ name <+: cs := by
  refine ⟨List.mem_of_find?_eq_some h, ?_⟩
  simpa using List.find?_some h

-- The one mark in an entity is the ampersand with which it begins.
theorem exists_of_mem_entities (h : (name, c) ∈ entities) :
    ∃ tail, name = '&' :: tail ∧ Unmarked tail := by
  simp only [entities, List.mem_cons, Prod.mk.injEq, List.not_mem_nil, or_false] at h
  obtain ⟨rfl, _⟩ | ⟨rfl, _⟩ | ⟨rfl, _⟩ | ⟨rfl, _⟩ | ⟨rfl, _⟩ := h <;> exact ⟨_, rfl, by decide⟩

theorem entityAt?_cons (h : c ≠ '&') : entityAt? (c :: cs) = none := by
  refine List.find?_eq_none.mpr fun e he => ?_
  obtain ⟨tail, ht, _⟩ := exists_of_mem_entities he
  simp [ht, Ne.symm h]

theorem unescape?_escape : unescape? (escape cs) = some cs := by
  induction cs with
  | nil          => simp [escape, unescape?]
  | cons c cs hi =>
    rw [escape_cons]
    by_cases hc : IsMark c
    case pos =>
      have he := mem_entities_of_isMark hc
      obtain ⟨tail, ht, _⟩ := exists_of_mem_entities he
      rw [ht] at he
      have ha : entityAt? ('&' :: (tail ++ escape cs)) = some ('&' :: tail, c) :=
        entityAt?_append he
      rw [ht, List.cons_append, unescape?, ha]
      simp [hi]
    case neg =>
      have hn : c ≠ '&' := fun h => hc (.inl h)
      rw [entity_of_not_isMark hc, List.singleton_append, unescape?, entityAt?_cons hn]
      simp [hc, hi]

theorem escape_of_unescape? (h : unescape? cs = some ds) : escape ds = cs := by
  fun_induction unescape? cs generalizing ds with
  | case1 =>
    cases h
    rfl
  | case2 c cs name d ha hi =>
    obtain ⟨ds, hd, rfl⟩ := Option.map_eq_some_iff.mp h
    obtain ⟨he, rest, hr⟩ := mem_of_entityAt? ha
    obtain ⟨tail, rfl, _⟩ := exists_of_mem_entities he
    obtain ⟨rfl, rfl⟩ := List.cons.inj hr
    rw [escape_cons, entity_of_mem he, hi hd]
    simp
  | case3 => nomatch h
  | case4 c cs ha hc hi =>
    obtain ⟨ds, hd, rfl⟩ := Option.map_eq_some_iff.mp h
    rw [escape_cons, entity_of_not_isMark hc, hi hd, List.singleton_append]

theorem isSome_unescape? : (unescape? cs).isSome ↔ IsText cs := by
  rw [Option.isSome_iff_exists]
  refine ⟨fun ⟨ds, hd⟩ => ⟨ds, escape_of_unescape? hd⟩, fun ⟨ds, hd⟩ => ⟨ds, ?_⟩⟩
  rw [← hd, unescape?_escape]

-- The marks in an escaped text are ampersands, and each of these begins an entity.
theorem exists_of_escape_eq (h : escape cs = stretch ++ c :: rest) (hc : IsMark c) :
    c = '&' ∧ ∃ e ∈ entities, e.1 <+: c :: rest := by
  induction cs generalizing stretch with
  | nil          => exact absurd h.symm (by simp [escape])
  | cons d cs hi =>
    rw [escape_cons] at h
    obtain ⟨front, rfl, hf⟩ | ⟨back, hd, hb⟩ := List.append_eq_append_iff.mp h
    case inl => exact hi hf
    case inr =>
      cases back with
      | nil           => exact @hi [] hb.symm
      | cons b back =>
        obtain ⟨rfl, rfl⟩ := List.cons.inj hb
        by_cases hm : IsMark d
        case neg =>
          have hin : c ∈ [d] := entity_of_not_isMark hm ▸ hd ▸ List.mem_append_cons_self
          exact absurd (List.mem_singleton.mp hin ▸ hc) hm
        case pos =>
          have he := mem_entities_of_isMark hm
          obtain ⟨tail, ht, hn⟩ := exists_of_mem_entities he
          rw [hd] at ht
          cases stretch with
          | nil =>
            refine ⟨(List.cons.inj ht).left, _, he, ?_⟩
            rw [hd]
            exact List.prefix_append _ _
          | cons a stretch =>
            have hin : c ∈ tail := (List.cons.inj ht).right ▸ List.mem_append_cons_self
            exact absurd hc (hn c hin)

end Unescape

section Remove

theorem removeAll_go {skip : Nat} {done : List Char} : removeAll.go find skip cs done =
    done.reverse ++ removeAll find (cs.drop skip) := by
  induction cs generalizing skip done with
  | nil => cases skip <;> simp [removeAll, removeAll.go]
  | cons c cs hi =>
    cases skip with
    | succ skip => rw [removeAll.go, hi, List.drop_succ_cons]
    | zero =>
      rw [List.drop_zero, removeAll, removeAll.go, removeAll.go]
      split <;> simp [hi]

theorem removeAll_cons_of_zero (h : find (c :: cs) = 0) :
    removeAll find (c :: cs) = c :: removeAll find cs := by
  rw [removeAll, removeAll.go, h]
  simp [removeAll_go]

theorem removeAll_cons_of_succ (h : find (c :: cs) = n + 1) :
    removeAll find (c :: cs) = removeAll find (cs.drop n) := by
  rw [removeAll, removeAll.go, h]
  simp [removeAll_go]

end Remove

section Split

-- Up to the first ampersand, an escaped text is the text itself.
theorem exists_of_escape_eq_append (h : escape cs = stretch ++ rest) (hs : '&' ∉ stretch) :
    ∃ back, cs = stretch ++ back ∧ escape back = rest := by
  induction stretch generalizing cs with
  | nil               => exact ⟨cs, rfl, h⟩
  | cons d stretch hi =>
    cases cs with
    | nil       => nomatch h
    | cons c cs =>
      have ⟨hd, hn⟩ := List.ne_and_not_mem_of_not_mem_cons hs
      rw [escape_cons] at h
      by_cases hc : IsMark c
      case pos =>
        obtain ⟨tail, ht, _⟩ := exists_of_mem_entities (mem_entities_of_isMark hc)
        rw [ht] at h
        exact absurd (List.cons.inj h).left hd
      case neg =>
        rw [entity_of_not_isMark hc] at h
        obtain ⟨rfl, he⟩ := List.cons.inj h
        obtain ⟨back, rfl, hb⟩ := hi he hn
        exact ⟨back, rfl, hb⟩

theorem getLast?_entity (h : IsMark c) : (entity c).getLast? = some ';' := by
  obtain rfl | rfl | rfl | rfl | rfl := h <;> rfl

theorem not_mem_entity (h : IsMark c) : '=' ∉ entity c ∧ ':' ∉ entity c := by
  obtain rfl | rfl | rfl | rfl | rfl := h <;> decide

-- A stretch with a character of no entity would reach over the semicolon if it began within one.
theorem eq_nil_of_entity_eq {front back : List Char} (h : entity c = front ++ back)
    (hf : front ≠ []) (hb : stretch ++ after = back ++ rest) (hs : ';' ∉ stretch)
    (hm : '=' ∈ stretch ∨ ':' ∈ stretch) : back = [] := by
  by_contra hn
  have hc : IsMark c := by
    by_contra hc
    have hl := congrArg List.length (entity_of_not_isMark hc ▸ h)
    have hpos := List.length_pos_of_ne_nil hf
    have hpos' := List.length_pos_of_ne_nil hn
    rw [List.length_singleton, List.length_append] at hl
    omega
  obtain ⟨more, rfl, _⟩ | ⟨more, rfl, _⟩ := List.append_eq_append_iff.mp hb
  case inl =>
    have hin : ∀ d ∈ stretch, d ∈ entity c := fun d hd => by simp [h, hd]
    have ⟨he, hcolon⟩ := not_mem_entity hc
    exact hm.elim (fun hd => he (hin _ hd)) fun hd => hcolon (hin _ hd)
  case inr =>
    have hlast := getLast?_entity hc
    rw [h, List.getLast?_append_of_ne_nil _ hn] at hlast
    exact hs (List.mem_append_left _ (List.mem_of_getLast? hlast))

-- So it reaches into no entity, and stands between what two parts of the text are escaped to.
theorem exists_of_escape_eq_stretch (h : escape cs = before ++ (stretch ++ after))
    (ha : '&' ∉ stretch) (hs : ';' ∉ stretch) (hm : '=' ∈ stretch ∨ ':' ∈ stretch) :
    ∃ bs as, cs = bs ++ stretch ++ as ∧ escape bs = before ∧ escape as = after := by
  induction cs generalizing before with
  | nil =>
    obtain ⟨_, hr⟩ := List.append_eq_nil_iff.mp h.symm
    obtain ⟨rfl, _⟩ := List.append_eq_nil_iff.mp hr
    simp at hm
  | cons c cs hi =>
    by_cases hb : before = []
    case pos =>
      rw [hb, List.nil_append] at h
      obtain ⟨as, hc, he⟩ := exists_of_escape_eq_append h ha
      exact ⟨[], as, hc, hb.symm, he⟩
    case neg =>
      rw [escape_cons] at h
      obtain ⟨front, rfl, hf⟩ | ⟨back, hc, hr⟩ := List.append_eq_append_iff.mp h
      case inl =>
        obtain ⟨bs, as, rfl, rfl, he⟩ := hi hf
        exact ⟨c :: bs, as, rfl, escape_cons, he⟩
      case inr =>
        obtain rfl := eq_nil_of_entity_eq hc hb hr hs hm
        rw [List.append_nil] at hc
        obtain ⟨bs, as, rfl, hbs, has⟩ := @hi [] hr.symm
        exact ⟨c :: bs, as, rfl, by rw [escape_cons, hbs, hc, List.append_nil], has⟩

end Split

end LayeredDiagram.Markup
