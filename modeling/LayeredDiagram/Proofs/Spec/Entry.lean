import LayeredDiagram.Proofs.Text.Letters
import LayeredDiagram.Proofs.Text.Trim
import LayeredDiagram.Spec.Entry
import Mathlib

namespace LayeredDiagram

open Text Spec

variable {cs before after : List Char} {c : Char}

theorem isName_of_isIdentifier (h : isIdentifier cs) (hc : c ∈ cs) : isName c :=
  List.all_eq_true.mp (Bool.and_eq_true_iff.mp h).right c hc

theorem not_mem_of_isIdentifier (h : isIdentifier cs) (hc : isName c = false) : c ∉ cs :=
  fun hm => Bool.false_ne_true (hc.symm.trans (isName_of_isIdentifier h hm))

theorem trimmed_of_isIdentifier (h : isIdentifier cs) : Trimmed cs := by
  have hn {c : Char} (hc : c ∈ cs) : isBlank c = false :=
    isBlank_of_isName (isName_of_isIdentifier h hc)
  constructor
  case left  => exact fun he => by simp [he, isIdentifier] at h
  case right =>
    exact trim_eq_self_iff.mpr ⟨fun c hc => hn (List.mem_of_head? hc),
      fun c hc => hn (List.mem_of_getLast? hc)⟩

theorem isBlank_space : ∀ c ∈ [' '], isBlank c :=
  List.forall_mem_singleton.mpr rfl

-- An identifier is read back from between blanks.
theorem identifier?_append {id : String} (h : isIdentifier id.toList)
    (hb : ∀ c ∈ before, isBlank c) (ha : ∀ c ∈ after, isBlank c) :
    identifier? (before ++ (id.toList ++ after)) = some id := by
  have ht : trim (before ++ (id.toList ++ after)) = id.toList := by
    rw [trim_append_left hb, trim_append_right ha, (trimmed_of_isIdentifier h).right]
  simp [identifier?, ht, h]

theorem cutAt?_append (h : c ∉ before) :
    cutAt? c (before ++ c :: after) = some (before, after) := by
  have hn : ∀ d ∈ before, d != c := fun d hd => bne_iff_ne.mpr fun he => h (he ▸ hd)
  simp [cutAt?, List.dropWhile_append_of_pos hn, List.takeWhile_append_of_pos hn]

theorem cutAt?_of_not_mem (h : c ∉ cs) : cutAt? c cs = none := by
  have hn : ∀ d ∈ cs, d != c := fun d hd => bne_iff_ne.mpr fun he => h (he ▸ hd)
  rw [cutAt?, List.dropWhile_eq_nil_iff.mpr hn]

theorem cutAt?_eq_some_iff :
    cutAt? c cs = some (before, after) ↔ c ∉ before ∧ before ++ c :: after = cs := by
  constructor
  case mpr => exact fun ⟨hb, hc⟩ => hc ▸ cutAt?_append hb
  case mp =>
    intro h
    have hm : c ∈ cs := by
      by_contra hn
      nomatch (cutAt?_of_not_mem hn).symm.trans h
    obtain ⟨before', after', rfl, hb⟩ := List.eq_append_cons_of_mem hm
    cases (cutAt?_append hb).symm.trans h
    exact ⟨hb, rfl⟩

-- A line behind a dash that is kept as it is.
structure Spec.Item (line : List Char) : Prop where
  dash    : line.head? = some '-'
  trimmed : trim line = line
  single  : '\n' ∉ line

theorem Spec.Item.append {tail : List Char} (hb : '\n' ∉ before) (ht : Trimmed tail)
    (hn : '\n' ∉ tail) : Item ('-' :: (before ++ tail)) where
  dash    := rfl
  single  := by simp [hb, hn]
  trimmed := by
    have ⟨_, hl⟩ := trim_eq_self_iff.mp ht.right
    refine trim_eq_self_iff.mpr ⟨by simp; decide, ?_⟩
    rwa [← List.cons_append, List.getLast?_append_of_ne_nil _ ht.left]

namespace Node

-- The line that a node is read from.
def line (n : Node) : String :=
  "- " ++ n.id ++ " | " ++ n.label ++ " | " ++ n.kind

structure Writable (n : Node) : Prop where
  id       : isIdentifier n.id.toList
  label    : Trimmed n.label.toList ∧ '|' ∉ n.label.toList ∧ '\n' ∉ n.label.toList
  kind     : Trimmed n.kind.toList ∧ '|' ∉ n.kind.toList ∧ '\n' ∉ n.kind.toList
  metadata : n.metadata = []

instance {n : Node} : Decidable n.Writable :=
  decidable_of_iff (isIdentifier n.id.toList ∧
      (Trimmed n.label.toList ∧ '|' ∉ n.label.toList ∧ '\n' ∉ n.label.toList) ∧
      (Trimmed n.kind.toList ∧ '|' ∉ n.kind.toList ∧ '\n' ∉ n.kind.toList) ∧ n.metadata = [])
    ⟨fun ⟨id, label, kind, metadata⟩ => { id, label, kind, metadata },
      fun h => ⟨h.id, h.label, h.kind, h.metadata⟩⟩

variable {n : Node}

theorem ofLine?_bars {defaultKind head label kind : List Char}
    (h : ∀ part ∈ [head, label, kind], '|' ∉ part) (hl : label ≠ []) (hk : kind ≠ []) :
    ofLine? defaultKind (['|'].intercalate [head, label, kind]) = (bulleted? head).map fun id =>
      { id, label := String.ofList (trim label), kind := String.ofList (trim kind) } := by
  rw [ofLine?, List.splitOn_intercalate '|' h (List.cons_ne_nil _ _)]
  simp [hl, hk]

theorem ofLine?_line (h : n.Writable) (defaultKind : List Char) :
    ofLine? defaultKind n.line.toList = some n := by
  obtain ⟨id, label, kind, metadata⟩ := n
  obtain ⟨hid, ⟨⟨_, hl⟩, hlb, _⟩, ⟨⟨_, hk⟩, hkb, _⟩, rfl⟩ := h
  have hline : (Node.mk id label kind []).line.toList = ['|'].intercalate
      ['-' :: ([' '] ++ (id.toList ++ [' '])), [' '] ++ (label.toList ++ [' ']),
        [' '] ++ kind.toList] := by
    simp [line]
  have hhead : bulleted? ('-' :: ([' '] ++ (id.toList ++ [' ']))) = some id :=
    identifier?_append hid isBlank_space isBlank_space
  have hb : '|' ∉ id.toList := not_mem_of_isIdentifier hid (by decide)
  rw [hline, ofLine?_bars (by simp [hb, hlb, hkb]) (by simp) (by simp), hhead,
    trim_append_left isBlank_space, trim_append_right isBlank_space,
    trim_append_left isBlank_space, hl, hk]
  simp

theorem Writable.item (h : n.Writable) : Item n.line.toList := by
  have hid : '\n' ∉ n.id.toList := not_mem_of_isIdentifier h.id (by decide)
  have ⟨_, _, hl⟩ := h.label
  have ⟨hkt, _, hk⟩ := h.kind
  have hline : n.line.toList = '-' :: ((" " ++ n.id ++ " | " ++ n.label ++ " | ").toList ++
      n.kind.toList) := by
    simp [line]
  rw [hline]
  exact .append (by simp [hid, hl]) hkt hk

end Node

namespace Edge

def line (e : Edge) : String :=
  "- " ++ e.source ++ " -> " ++ e.target ++ (e.label.map (" | " ++ ·)).getD ""

structure Writable (e : Edge) : Prop where
  source : isIdentifier e.source.toList
  target : isIdentifier e.target.toList
  label  : ∀ l ∈ e.label, Trimmed l.toList ∧ l.toList.any isLineEnd = false

instance {e : Edge} : Decidable e.Writable :=
  decidable_of_iff (isIdentifier e.source.toList ∧ isIdentifier e.target.toList ∧
      ∀ l ∈ e.label, Trimmed l.toList ∧ l.toList.any isLineEnd = false)
    ⟨fun ⟨source, target, label⟩ => { source, target, label },
      fun h => ⟨h.source, h.target, h.label⟩⟩

variable {e : Edge}

theorem ofLine?_arrow {head tail : List Char} (h : '>' ∉ head) :
    ofLine? (head ++ '>' :: tail) = match cutAt? '|' tail with
      | none => (endsOf? head tail).map fun (source, target) => { source, target }
      | some (target, label) => (endsOf? head target).bind fun (source, target) =>
        (labelOf? label).map fun label => { source, target, label } := by
  rw [ofLine?, cutAt?_append h]
  rfl

theorem endsOf?_append {source target : String} (hs : isIdentifier source.toList)
    (ht : isIdentifier target.toList) (ha : ∀ c ∈ after, isBlank c) :
    endsOf? ('-' :: ([' '] ++ (source.toList ++ [' '])) ++ ['-'])
      ([' '] ++ (target.toList ++ after)) = some (source, target) := by
  have hhead : bulleted? ('-' :: ([' '] ++ (source.toList ++ [' ']))) = some source :=
    identifier?_append hs isBlank_space isBlank_space
  have htail : identifier? ([' '] ++ (target.toList ++ after)) = some target :=
    identifier?_append ht isBlank_space ha
  rw [endsOf?, List.getLast?_append, List.dropLast_concat, hhead, htail]
  rfl

theorem labelOf?_append {label : String} (h : Trimmed label.toList)
    (hl : label.toList.any isLineEnd = false) :
    labelOf? ([' '] ++ label.toList) = some (some label) := by
  have ht : trim ([' '] ++ label.toList) = label.toList := by
    rw [trim_append_left isBlank_space, h.right]
  have hb : isLineEnd ' ' = false := by decide
  simp only [labelOf?, ht, hl]
  simp [hb, h.left]

theorem ofLine?_line (h : e.Writable) : ofLine? e.line.toList = some e := by
  obtain ⟨source, target, label⟩ := e
  obtain ⟨hs, ht, hl⟩ := h
  have hline : (Edge.mk source target label).line.toList =
      ('-' :: ([' '] ++ (source.toList ++ [' '])) ++ ['-']) ++ '>' :: ([' '] ++ (target.toList ++
        ((label.map (" | " ++ ·)).getD "").toList)) := by
    simp [line]
  have harrow : '>' ∉ source.toList := not_mem_of_isIdentifier hs (by decide)
  have hbar : '|' ∉ target.toList := not_mem_of_isIdentifier ht (by decide)
  rw [hline, ofLine?_arrow (by simp [harrow])]
  cases label with
  | none =>
    rw [Option.map_none, Option.getD_none, cutAt?_of_not_mem (by simp [hbar]),
      endsOf?_append hs ht (by simp)]
    rfl
  | some label =>
    have ⟨ht', hl⟩ := hl label rfl
    have htail : [' '] ++ (target.toList ++ (((some label).map (" | " ++ ·)).getD "").toList) =
        ([' '] ++ (target.toList ++ [' '])) ++ '|' :: ([' '] ++ label.toList) := by
      simp
    rw [htail, cutAt?_append (by simp [hbar])]
    dsimp only
    rw [endsOf?_append hs ht isBlank_space, labelOf?_append ht' hl]
    rfl

theorem Writable.item (h : e.Writable) : Item e.line.toList := by
  obtain ⟨source, target, label⟩ := e
  obtain ⟨hs, ht, hl⟩ := h
  have hs' : '\n' ∉ source.toList := not_mem_of_isIdentifier hs (by decide)
  have ht' : '\n' ∉ target.toList := not_mem_of_isIdentifier ht (by decide)
  cases label with
  | none =>
    have hline : (Edge.mk source target none).line.toList =
        '-' :: ((" " ++ source ++ " -> ").toList ++ target.toList) := by
      simp [line]
    rw [hline]
    exact .append (by simp [hs']) (trimmed_of_isIdentifier ht) ht'
  | some label =>
    have ⟨hlt, hl⟩ := hl label rfl
    have hline : (Edge.mk source target (some label)).line.toList =
        '-' :: ((" " ++ source ++ " -> " ++ target ++ " | ").toList ++ label.toList) := by
      simp [line]
    rw [hline]
    have hlf : '\n' ∉ label.toList := fun hm => by
      simpa [isLineEnd] using List.any_eq_false.mp hl _ hm
    exact .append (by simp [hs', ht']) hlt hlf

end Edge

end LayeredDiagram
