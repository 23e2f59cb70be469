import LayeredDiagram.Proofs.Spec.Outcome
import LayeredDiagram.Proofs.Text.Units
import Mathlib.Algebra.BigOperators.Group.Finset.Piecewise
import Mathlib.Algebra.Order.BigOperators.Group.Finset

namespace LayeredDiagram

open Text Spec

namespace Spec

-- What a line takes up with its end.
def Line.room (l : Line) : Nat :=
  units l.text + 1

def room (ls : List Line) : Nat :=
  (ls.map Line.room).sum

variable {ls ms : List Line} {l : Line} {s : Splitter} {cs before after : List Char} {name : String}

theorem room_cons : room (l :: ls) = l.room + room ls :=
  List.sum_cons

theorem room_reverse : room ls.reverse = room ls := by
  rw [room, List.map_reverse, List.sum_reverse, room]

theorem room_le_of_sublist (h : ls.Sublist ms) : room ls ≤ room ms :=
  (h.map Line.room).sum_le_sum fun _ _ => Nat.zero_le _

theorem room_numberedLines_le : room (numberedLines cs) ≤ units cs + 1 := by
  have hw (line : List Char) : units (withoutReturn line) ≤ units line := by
    unfold withoutReturn
    split
    case isTrue  => exact units_le_of_sublist (List.dropLast_sublist line)
    case isFalse => exact le_refl _
  have hne := List.splitOn_ne_nil '\n' cs
  have hl := List.dropLast_append_getLast hne
  have hall : units cs + 1 = ((cs.splitOn '\n').map (units · + 1)).sum := sum_splitOn rfl
  have hr : room (numberedLines cs) = ((splitLines cs).map (units · + 1)).sum := by
    rw [← map_text_numberedLines, List.map_map]
    rfl
  rw [hr, hall, splitLines, List.getLast?_eq_some_getLast hne, Option.toList_some]
  conv_rhs => rw [← hl]
  rw [List.map_append, List.map_append, List.sum_append, List.sum_append, List.map_map]
  exact Nat.add_le_add_right (List.sum_le_sum fun line _ => Nat.succ_le_succ (hw line)) _

theorem Heading.units_title_le {line text : List Char}
    (h : Heading.ofLine? line = some (.title text)) : units text ≤ units line := by
  obtain ⟨rest, hl, rfl⟩ := exists_of_title h
  have hs : (trim rest).Sublist (trim line) := hl ▸ ((trim_sublist.cons ' ').cons '#')
  exact units_le_of_sublist (hs.trans trim_sublist)

namespace Splitter

-- A line changes one section at most, and adds no more to it than it takes up itself.
theorem exists_room_step (s : Splitter) (l : Line) : ∃ key, ∀ name,
    room ((s.step l).lines name) ≤ room (s.lines name) + if name = key then l.room else 0 := by
  rw [step]
  split
  case h_1 opened _ => exact ⟨opened, fun name => by rw [lines_reopen]; exact Nat.le_add_right _ _⟩
  case h_2 text hh =>
    refine ⟨"title", fun name => ?_⟩
    rw [lines_put]
    split
    case isFalse => exact Nat.le_add_right _ _
    case isTrue  =>
      have hu := Nat.succ_le_succ (Heading.units_title_le hh)
      exact hu.trans (Nat.le_add_left _ _)
  case h_3 =>
    refine ⟨s.current, fun name => ?_⟩
    rw [lines_put]
    split
    case isFalse   => exact Nat.le_add_right _ _
    case isTrue hn => rw [hn, room_cons, Nat.add_comm]

theorem sum_room_step (names : Finset String) (s : Splitter) (l : Line) :
    ∑ name ∈ names, room ((s.step l).lines name) ≤
      ∑ name ∈ names, room (s.lines name) + l.room := by
  obtain ⟨key, h⟩ := s.exists_room_step l
  calc ∑ name ∈ names, room ((s.step l).lines name)
    _ ≤ ∑ name ∈ names, (room (s.lines name) + if name = key then l.room else 0) :=
      Finset.sum_le_sum fun name _ => h name
    _ = ∑ name ∈ names, room (s.lines name) + if key ∈ names then l.room else 0 := by
      rw [Finset.sum_add_distrib, Finset.sum_ite_eq']
    _ ≤ ∑ name ∈ names, room (s.lines name) + l.room := by
      split <;> omega

theorem sum_room_foldl (names : Finset String) (s : Splitter) (ls : List Line) :
    ∑ name ∈ names, room ((ls.foldl step s).lines name) ≤
      ∑ name ∈ names, room (s.lines name) + room ls := by
  induction ls generalizing s with
  | nil          => exact le_refl _
  | cons l ls hi =>
    have hs := sum_room_step names s l
    have hr := hi (s.step l)
    rw [List.foldl_cons, room_cons]
    omega

end Splitter

-- What sections have to say has room in the document side by side.
theorem sum_room_contentOf_le (names : Finset String) (cs : List Char) :
    ∑ name ∈ names, room (contentOf (sections cs) name) ≤ units cs + 1 := by
  let s := (numberedLines cs).foldl Splitter.step {}
  have hc (name : String) : room (contentOf (sections cs) name) ≤ room (s.lines name) := by
    have hr : room (s.lines name).reverse = room (s.lines name) := room_reverse
    rw [← hr, ← getD_get?_sections]
    exact room_le_of_sublist List.filter_sublist
  calc ∑ name ∈ names, room (contentOf (sections cs) name)
    _ ≤ ∑ name ∈ names, room (s.lines name) := Finset.sum_le_sum fun name _ => hc name
    _ ≤ ∑ name ∈ names, room (Splitter.lines {} name) + room (numberedLines cs) :=
      Splitter.sum_room_foldl names {} _
    _ = room (numberedLines cs) := by
      rw [Finset.sum_eq_zero fun name _ => by rw [Splitter.lines_start]; rfl, Nat.zero_add]
    _ ≤ units cs + 1 := room_numberedLines_le

-- What is read line by line has room in the lines, if every single one has room in its own.
theorem sum_extent_le {α : Type} {as : List α} {read? : Line → Option α} {extent : α → Nat}
    (h : ls.map read? = as.map some) (he : ∀ l a, read? l = some a → extent a ≤ l.room) :
    (as.map extent).sum ≤ room ls := by
  induction ls generalizing as with
  | nil          =>
    obtain rfl := List.map_eq_nil_iff.mp h.symm
    exact le_refl _
  | cons l ls hi =>
    obtain ⟨a, as, rfl, ha, hs⟩ := List.map_eq_cons_iff.mp h.symm
    rw [List.map_cons, List.sum_cons, room_cons]
    exact Nat.add_le_add (he l a ha.symm) (hi hs.symm)

theorem units_le_of_identifier? {id : String} (h : identifier? cs = some id) :
    id.units ≤ units cs := by
  rw [identifier?] at h
  split_ifs at h
  obtain rfl := Option.some.inj h
  rw [String.units, String.toList_ofList]
  exact units_trim_le

theorem units_lt_of_bulleted? {id : String} (h : bulleted? cs = some id) :
    id.units < units cs := by
  obtain ⟨rest, hr, hid⟩ := Option.bind_eq_some_iff.mp h
  have hu := units_le_of_identifier? hid
  unfold afterBullet? at hr
  split at hr
  case h_3 => nomatch hr
  all_goals
    obtain rfl := Option.some.inj hr
    rw [units_cons]
    exact hu.trans_lt (Nat.lt_add_of_pos_left (one_le_unitWidth _))

theorem units_of_cutAt? {c : Char} (h : cutAt? c cs = some (before, after)) :
    units before + units after + 1 ≤ units cs := by
  unfold cutAt? at h
  split at h
  case h_1 d rest hd =>
    obtain ⟨rfl, rfl⟩ := Prod.mk.inj (Option.some.inj h)
    have hu : units cs = units (cs.takeWhile (· != c)) + (unitWidth d + units rest) := by
      rw [← units_cons, ← hd, ← units_append, List.takeWhile_append_dropWhile]
    have hw := one_le_unitWidth d
    omega
  case h_2 => nomatch h

end Spec

namespace Node

variable {n : Node} {standard : String}

-- What a line with this node takes up at least: its words, a bullet, a bar and the end of the line.
-- Something stands for the label even if it is blank, and the kind of nodes that name none may
-- go without.
def extent (standard : String) (n : Node) : Nat :=
  n.id.units + max 1 n.label.units + 3 + if n.kind = standard then 0 else n.kind.units + 1

theorem five_le_extent (h : isIdentifier n.id.toList) : 5 ≤ n.extent standard := by
  have hid : 1 ≤ n.id.units := one_le_units_of_isIdentifier h
  unfold extent
  omega

theorem max_units_trim_le {label : List Char} (h : label.isEmpty = false) :
    max 1 (String.ofList (trim label)).units ≤ units label := by
  rw [String.units, String.toList_ofList]
  exact max_le (one_le_units (List.isEmpty_eq_false_iff.mp h)) units_trim_le

theorem extent_le_of_ofLine? {defaultKind line : List Char}
    (h : ofLine? defaultKind line = some n) :
    n.extent (String.ofList (trim defaultKind)) ≤ units line + 1 := by
  have hu : units line + 1 = ((line.splitOn '|').map (units · + 1)).sum := sum_splitOn rfl
  unfold ofLine? at h
  split at h
  case h_1 head label hl =>
    split_ifs at h with he
    obtain ⟨id, hid, rfl⟩ := Option.map_eq_some_iff.mp h
    have hid := units_lt_of_bulleted? hid
    have hlabel := max_units_trim_le (Bool.eq_false_of_not_eq_true he)
    rw [hu, hl, extent, if_pos rfl]
    simp only [List.map_cons, List.map_nil, List.sum_cons, List.sum_nil]
    omega
  case h_2 head label kind hl =>
    split_ifs at h with he
    obtain ⟨id, hid, rfl⟩ := Option.map_eq_some_iff.mp h
    obtain ⟨hle, hke⟩ := Bool.or_eq_false_iff.mp (Bool.eq_false_of_not_eq_true he)
    have hid := units_lt_of_bulleted? hid
    have hlabel := max_units_trim_le hle
    have hkind := max_units_trim_le hke
    rw [hu, hl, extent]
    simp only [List.map_cons, List.map_nil, List.sum_cons, List.sum_nil]
    split <;> omega
  case h_3 => nomatch h

end Node

namespace Edge

variable {e : Edge}

-- What a line with this edge takes up at least: its words, a bullet, an arrow and the end of the
-- line, and a bar in front of a label.
def extent (e : Edge) : Nat :=
  e.source.units + e.target.units + 4 + (e.label.map (·.units + 1)).getD 0

theorem six_le_extent (hs : isIdentifier e.source.toList) (ht : isIdentifier e.target.toList) :
    6 ≤ e.extent := by
  have hs : 1 ≤ e.source.units := one_le_units_of_isIdentifier hs
  have ht : 1 ≤ e.target.units := one_le_units_of_isIdentifier ht
  unfold extent
  omega

theorem units_of_endsOf? {before target : List Char} {ends : String × String}
    (h : endsOf? before target = some ends) :
    ends.1.units + 2 ≤ units before ∧ ends.2.units ≤ units target := by
  unfold endsOf? at h
  split_ifs at h with hd
  obtain ⟨source, hs, h⟩ := Option.bind_eq_some_iff.mp h
  obtain ⟨target, ht, rfl⟩ := Option.map_eq_some_iff.mp h
  have hb : before.dropLast ++ ['-'] = before :=
    List.dropLast_append_getLast? '-' (by simpa using hd)
  have hu : units before = units before.dropLast + 1 := by
    conv_lhs => rw [← hb, units_append]
    rfl
  have hs := units_lt_of_bulleted? hs
  exact ⟨by dsimp only; omega, units_le_of_identifier? ht⟩

theorem units_of_labelOf? {cs : List Char} {label : Option String} (h : labelOf? cs = some label) :
    (label.map (·.units + 1)).getD 0 ≤ units cs + 1 := by
  unfold labelOf? at h
  dsimp only at h
  split_ifs at h <;> obtain rfl := Option.some.inj h
  case pos => exact Nat.zero_le _
  case neg =>
    rw [Option.map_some, Option.getD_some, String.units, String.toList_ofList]
    exact Nat.succ_le_succ units_trim_le

theorem extent_le_of_ofLine? {line : List Char} (h : ofLine? line = some e) :
    e.extent ≤ units line + 1 := by
  obtain ⟨⟨before, after⟩, hc, h⟩ := Option.bind_eq_some_iff.mp h
  have hc := units_of_cutAt? hc
  dsimp only at h
  split at h
  case h_1 =>
    obtain ⟨ends, he, rfl⟩ := Option.map_eq_some_iff.mp h
    have ⟨hs, ht⟩ := units_of_endsOf? he
    rw [extent, Option.map_none, Option.getD_none]
    dsimp only
    omega
  case h_2 target cs hbar =>
    obtain ⟨ends, he, h⟩ := Option.bind_eq_some_iff.mp h
    obtain ⟨label, hl, rfl⟩ := Option.map_eq_some_iff.mp h
    have hbar := units_of_cutAt? hbar
    have ⟨hs, ht⟩ := units_of_endsOf? he
    have hl := units_of_labelOf? hl
    rw [extent]
    dsimp only
    omega

end Edge

namespace Plan

variable {p : Plan} {standard : String} {defaultKind text : List Char}

def extent (standard : String) (p : Plan) : Nat :=
  (p.nodes.map (Node.extent standard)).sum + (p.edges.map Edge.extent).sum

theorem extent_le_of_ofSpec (h : Plan.ofSpec defaultKind text = .ok p) :
    p.extent (String.ofList (trim defaultKind)) ≤ units text + 1 := by
  have htrim (l : Line) : units (trim l.text) + 1 ≤ l.room := Nat.succ_le_succ units_trim_le
  cases outcome_of_ofSpec h with
  | plan _ nodes edges =>
    have hn := sum_extent_le nodes fun l n hl => (Node.extent_le_of_ofLine? hl).trans (htrim l)
    have he := sum_extent_le edges fun l e hl => (Edge.extent_le_of_ofLine? hl).trans (htrim l)
    have hs := sum_room_contentOf_le {"nodes", "edges"} text
    rw [Finset.sum_pair (by decide)] at hs
    exact (Nat.add_le_add hn he).trans hs

-- The shortest lines there are hold one character for each word.
theorem count_le_extent (hn : ∀ n ∈ p.nodes, isIdentifier n.id.toList)
    (he : ∀ e ∈ p.edges, isIdentifier e.source.toList ∧ isIdentifier e.target.toList) :
    5 * p.nodes.length + 6 * p.edges.length ≤ p.extent standard := by
  have hnodes := List.card_nsmul_le_sum (p.nodes.map (Node.extent standard)) 5
    (List.forall_mem_map.mpr fun n hm => Node.five_le_extent (hn n hm))
  have hedges := List.card_nsmul_le_sum (p.edges.map Edge.extent) 6
    (List.forall_mem_map.mpr fun e hm => Edge.six_le_extent (he e hm).left (he e hm).right)
  rw [List.length_map, Nat.nsmul_eq_mul] at hnodes hedges
  rw [extent]
  omega

end Plan

end LayeredDiagram
