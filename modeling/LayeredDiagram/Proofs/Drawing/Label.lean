import LayeredDiagram.Drawing.Label
import LayeredDiagram.Proofs.Text.Units
import LayeredDiagram.Proofs.Text.Words
import Mathlib.Data.List.Chain

namespace LayeredDiagram.Drawing

open Text

-- One more word is too much for the line.
def Full (fits : Nat → Bool) (line : List (List Char)) (word : List Char) : Prop :=
  fits (units (joinWords (line ++ [word]))) = false

-- Words that may share a line, or a single one that needs a line in any case.
def IsLine (fits : Nat → Bool) (line : List (List Char)) : Prop :=
  line ≠ [] ∧ (line.length = 1 ∨ fits (units (joinWords line)))

-- What a word does to the lines that are finished and to the current one.
inductive Takes (fits : Nat → Bool) (word : List Char) (done : List (List (List Char))) :
    List (List Char) → List (List (List Char)) → List (List Char) → Prop
  | stays (line) (h : ¬Full fits line word) : Takes fits word done line done (line ++ [word])
  | alone (h : Full fits [] word) : Takes fits word done [] (done ++ [[word]]) []
  | breaks (line) (hl : line ≠ []) (h : Full fits line word) :
    Takes fits word done line (done ++ [line]) [word]

-- How the words seen so far have been broken. Where no line is current, the last one that is
-- finished has no room for any word.
structure Filling (fits : Nat → Bool) (seen : List (List Char)) (done : List (List (List Char)))
    (line : List (List Char)) : Prop where
  flatten : done.flatten ++ line = seen
  isLine  : ∀ l ∈ done, IsLine fits l
  current : line = [] ∨ IsLine fits line
  full    : done.IsChain fun l next => ∀ word ∈ next.head?, Full fits l word
  last    : ∀ l ∈ done.getLast?, ∀ word, (line = [] ∨ line.head? = some word) → Full fits l word

-- Lines of the words in order, each of them full.
structure Filled (fits : Nat → Bool) (words : List (List Char)) (lines : List (List (List Char))) :
    Prop where
  flatten : lines.flatten = words
  isLine  : ∀ l ∈ lines, IsLine fits l
  full    : lines.IsChain fun l next => ∀ word ∈ next.head?, Full fits l word

variable {fits : Nat → Bool} {word word' : List Char} {line line' ws seen : List (List Char)}
variable {done done' lines groups : List (List (List Char))}

section Join

theorem joinWords_singleton : joinWords [word] = word :=
  List.intercalate_singleton

theorem joinWords_cons (h : ws ≠ []) : joinWords (word :: ws) = word ++ ' ' :: joinWords ws := by
  rw [joinWords, List.intercalate_cons_of_ne_nil h, List.append_assoc]
  rfl

theorem words_joinWords (h : ∀ word ∈ ws, IsWord word) : words (joinWords ws) = ws := by
  induction ws with
  | nil             => rfl
  | cons word ws hi =>
    have ⟨hw, hs⟩ := List.forall_mem_cons.mp h
    by_cases hn : ws = []
    case pos => rw [hn, joinWords_singleton, hw.words_eq]
    case neg =>
      rw [joinWords_cons hn, words_append (by decide), hw.words_eq, hi hs, List.singleton_append]

theorem joinWords_append {ws' : List (List Char)} (h : ws ≠ []) (h' : ws' ≠ []) :
    joinWords (ws ++ ws') = joinWords ws ++ ' ' :: joinWords ws' := by
  induction ws with
  | nil             => exact absurd rfl h
  | cons word ws hi =>
    by_cases hn : ws = []
    case pos => rw [hn, List.singleton_append, joinWords_cons h', joinWords_singleton]
    case neg =>
      rw [List.cons_append, joinWords_cons (List.append_ne_nil_of_left_ne_nil hn _), hi hn,
        joinWords_cons hn, List.append_assoc, List.cons_append]

-- Lines that are joined like words leave the words joined.
theorem joinWords_map_joinWords (h : ∀ l ∈ lines, l ≠ []) :
    joinWords (lines.map joinWords) = joinWords lines.flatten := by
  induction lines with
  | nil              => rfl
  | cons line lines hi =>
    have ⟨hl, hls⟩ := List.forall_mem_cons.mp h
    cases lines with
    | nil             => simp [joinWords_singleton]
    | cons next lines =>
      have hn : (next :: lines).flatten ≠ [] :=
        List.append_ne_nil_of_left_ne_nil (hls next List.mem_cons_self) _
      rw [List.map_cons, joinWords_cons (by simp), hi hls, ← joinWords_append hl hn]
      rfl

theorem filter_joinWords : (joinWords ws).filter (!isBlank ·) = ws.flatten.filter (!isBlank ·) := by
  induction ws with
  | nil             => rfl
  | cons word ws hi =>
    by_cases hn : ws = []
    case pos => simp [hn, joinWords_singleton]
    case neg =>
      rw [joinWords_cons hn, List.filter_append, List.filter_cons_of_neg (by decide), hi,
        List.flatten_cons, List.filter_append]

-- A text and its words differ in blanks only.
theorem filter_joinWords_words {cs : List Char} :
    (joinWords (words cs)).filter (!isBlank ·) = cs.filter (!isBlank ·) := by
  rw [filter_joinWords, flatten_words, List.filter_filter]
  simp only [Bool.and_self]

theorem units_joinWords (h : ws ≠ []) :
    units (joinWords ws) + 1 = (ws.map (units · + 1)).sum :=
  units_intercalate h rfl

theorem units_joinWords_append (h : line ≠ []) :
    units (joinWords (line ++ [word])) = units (joinWords line) + 1 + units word := by
  have hl := units_joinWords h
  have hw := units_joinWords (List.append_ne_nil_of_left_ne_nil h [word])
  rw [List.map_append, List.sum_append, ← hl] at hw
  simp only [List.map_cons, List.map_nil, List.sum_cons, List.sum_nil] at hw
  omega

theorem units_joinWords_le (h : line.Sublist ws) :
    units (joinWords line) ≤ units (joinWords ws) := by
  by_cases hl : line = []
  case pos => exact hl ▸ Nat.zero_le _
  case neg =>
    have hw : ws ≠ [] := by
      rintro rfl
      exact hl (List.sublist_nil.mp h)
    have hs := (h.map (units · + 1)).sum_le_sum fun _ _ => Nat.zero_le _
    rw [← units_joinWords hl, ← units_joinWords hw] at hs
    exact Nat.le_of_succ_le_succ hs

end Join

namespace Wrapping

variable {w : Wrapping}

def finished (w : Wrapping) : List (List (List Char)) :=
  (w.lines.map List.reverse).reverse

def unfinished (w : Wrapping) : List (List Char) :=
  w.current.reverse

-- The width is that of the current line.
def Measured (w : Wrapping) : Prop :=
  w.current ≠ [] → w.width = units (joinWords w.unfinished)

theorem widthWith_eq (h : w.Measured) :
    w.widthWith word = units (joinWords (w.unfinished ++ [word])) := by
  rw [widthWith]
  cases hc : w.current with
  | nil            => simp [unfinished, hc, joinWords_singleton]
  | cons head rest =>
    have hn : w.current ≠ [] := hc ▸ List.cons_ne_nil _ _
    rw [units_joinWords_append (by simpa [unfinished] using hn), ← h hn]
    rfl

theorem measured_add (h : w.Measured) : (w.add fits word).Measured := by
  rw [add]
  split
  case isTrue =>
    intro _
    simp [widthWith_eq h, unfinished]
  case isFalse =>
    split
    case h_1 hc => exact fun hn => absurd hc hn
    case h_2    => exact fun _ => by simp [unfinished, joinWords_singleton]

theorem takes_add (h : w.Measured) (word : List Char) : Takes fits word w.finished w.unfinished
    (w.add fits word).finished (w.add fits word).unfinished := by
  rw [add, widthWith_eq h]
  split
  case isTrue hf =>
    have hs : ¬Full fits w.unfinished word := by simp [Full, hf]
    simpa [finished, unfinished] using Takes.stays w.unfinished hs
  case isFalse hf =>
    have hf : Full fits w.unfinished word := Bool.eq_false_iff.mpr hf
    split
    case h_1 hc =>
      have hl : w.unfinished = [] := by simp [unfinished, hc]
      rw [hl] at hf ⊢
      simpa [finished, unfinished, hc] using Takes.alone hf
    case h_2 hc =>
      have hl : w.unfinished ≠ [] := by simpa [unfinished] using hc
      simpa [finished, unfinished] using Takes.breaks w.unfinished hl hf

theorem finish_eq :
    w.finish = if w.unfinished = [] then w.finished else w.finished ++ [w.unfinished] := by
  rw [finish]
  cases hc : w.current <;> simp [unfinished, finished, hc]

end Wrapping

theorem isLine_singleton : IsLine fits [word] :=
  ⟨List.cons_ne_nil _ _, .inl rfl⟩

-- The current line stands behind the finished ones as they stand behind each other.
theorem Filling.isChain_append (h : Filling fits seen done line) :
    (done ++ [line]).IsChain fun l next => ∀ word ∈ next.head?, Full fits l word := by
  refine h.full.append (.singleton _) fun l hl next hn => ?_
  obtain rfl : line = next := by simpa using hn
  exact fun w hw => h.last l hl w (.inr hw)

section Budget

-- What is within the budget is so with less.
variable (hf : ∀ m n, m ≤ n → fits n → fits m)
include hf

theorem Full.mono (h : Full fits line word) (hs : (line ++ [word]).Sublist ws) :
    fits (units (joinWords ws)) = false :=
  Bool.eq_false_iff.mpr fun hw =>
    Bool.false_ne_true (h.symm.trans (hf _ _ (units_joinWords_le hs) hw))

theorem Filling.takes (h : Filling fits seen done line)
    (ht : Takes fits word done line done' line') : Filling fits (seen ++ [word]) done' line' := by
  cases ht with
  | stays line hs =>
    constructor
    case flatten => rw [← h.flatten, List.append_assoc]
    case isLine  => exact h.isLine
    case current => exact .inr ⟨by simp, .inr (Bool.not_eq_false _ ▸ hs)⟩
    case full    => exact h.full
    case last    =>
      intro l hl w hw
      refine h.last l hl w ?_
      cases line with
      | nil      => exact .inl rfl
      | cons _ _ => exact .inr (by simpa using hw)
  | alone hn =>
    constructor
    case flatten => simp [← h.flatten]
    case isLine  => exact List.forall_mem_append.mpr ⟨h.isLine, by simp [isLine_singleton]⟩
    case current => exact .inl rfl
    case full    =>
      refine h.full.append (.singleton _) fun l hl next hn => ?_
      exact fun w _ => h.last l hl w (.inl rfl)
    case last    =>
      intro l hl w _
      obtain rfl : [word] = l := by simpa using hl
      exact hn.mono hf (by simp)
  | breaks line hl hn =>
    constructor
    case flatten => simp [← h.flatten]
    case isLine  =>
      exact List.forall_mem_append.mpr ⟨h.isLine, by simpa using h.current.resolve_left hl⟩
    case current => exact .inr isLine_singleton
    case full    => exact h.isChain_append
    case last    =>
      intro l hm w hw
      obtain rfl : line = l := by simpa using hm
      obtain rfl : word = w := by simpa using hw
      exact hn

theorem Filling.foldl {w : Wrapping} (hm : w.Measured)
    (h : Filling fits seen w.finished w.unfinished) (ws : List (List Char)) :
    Filling fits (seen ++ ws) (ws.foldl (Wrapping.add fits) w).finished
      (ws.foldl (Wrapping.add fits) w).unfinished := by
  induction ws generalizing seen w with
  | nil             => simpa using h
  | cons word ws hi =>
    have ht := h.takes hf (Wrapping.takes_add hm word)
    simpa using hi (Wrapping.measured_add hm) ht

theorem filled_wrapWords (ws : List (List Char)) : Filled fits ws (wrapWords fits ws) := by
  have h : Filling fits [] (Wrapping.finished {}) (Wrapping.unfinished {}) :=
    ⟨rfl, nofun, .inl rfl, .nil, nofun⟩
  replace h := h.foldl hf (fun hn => absurd rfl hn) ws
  rw [wrapWords, Wrapping.finish_eq]
  split
  case isTrue hl =>
    exact ⟨by simpa [hl] using h.flatten, h.isLine, h.full⟩
  case isFalse hl =>
    constructor
    case flatten => simpa using h.flatten
    case isLine  =>
      exact List.forall_mem_append.mpr ⟨h.isLine, by simpa using h.current.resolve_left hl⟩
    case full    => exact h.isChain_append

-- No line that is allowed holds the words of a full line and the next one.
theorem Full.not_isLine (h : Full fits line word) (hl : line ≠ [])
    (hs : (line ++ [word]).Sublist ws) : ¬IsLine fits ws := by
  rintro ⟨_, h₁ | hw⟩
  case inl =>
    have hle := hs.length_le
    have hpos := List.length_pos_of_ne_nil hl
    rw [List.length_append, List.length_singleton] at hle
    omega
  case inr => exact Bool.false_ne_true ((h.mono hf hs).symm.trans hw)

-- Who is not further on before a line is not further on after it: no line that is allowed holds all
-- of a full one and a word more.
theorem isSuffix_of_full {g rest : List (List Char)} (hl : line ≠ [])
    (hw : ∀ word ∈ ws.head?, Full fits line word) (hg : IsLine fits g)
    (hs : line ++ ws <:+ g ++ rest) : ws <:+ rest := by
  obtain h | ⟨more, hm⟩ := List.suffix_or_suffix_of_suffix
    ((List.suffix_append line ws).trans hs) (List.suffix_append g rest)
  case inl => exact h
  case inr =>
    cases more with
    | nil            => exact hm ▸ List.suffix_rfl
    | cons word more =>
      obtain ⟨front, he⟩ := hs
      have hg' : front ++ (line ++ [word] ++ more) = g := by
        rw [← hm] at he
        exact List.append_cancel_right (by simpa using he)
      have hsub : (line ++ [word]).Sublist g := by
        rw [← hg']
        exact (List.sublist_append_left _ more).trans (List.sublist_append_right front _)
      exact absurd hg ((hw word (by simp [← hm])).not_isLine hf hl hsub)

-- By induction on the full lines. What is left to them is the end of what is left to the others.
theorem length_le_of_isSuffix (hl : ∀ l ∈ lines, l ≠ [])
    (hc : lines.IsChain fun l next => ∀ word ∈ next.head?, Full fits l word)
    (hg : ∀ g ∈ groups, IsLine fits g) (hs : lines.flatten <:+ groups.flatten) :
    lines.length ≤ groups.length := by
  induction lines generalizing groups with
  | nil             => exact Nat.zero_le _
  | cons l lines hi =>
    have ⟨hl, hls⟩ := List.forall_mem_cons.mp hl
    cases groups with
    | nil           => simp [hl] at hs
    | cons g groups =>
      have ⟨hg, hgs⟩ := List.forall_mem_cons.mp hg
      have hw : ∀ word ∈ lines.flatten.head?, Full fits l word := by
        cases lines with
        | nil          => nofun
        | cons next ls =>
          have hn := hls next List.mem_cons_self
          rw [List.flatten_cons, List.head?_append_of_ne_nil _ hn]
          exact (List.isChain_cons_cons.mp hc).left
      exact Nat.succ_le_succ (hi hls hc.tail hgs (isSuffix_of_full hf hl hw hg hs))

end Budget

-- Groups of words that may be lines.
structure Cut (budget : Int) (ws : List (List Char)) (groups : List (List (List Char))) : Prop where
  flatten : groups.flatten = ws
  ne_nil  : ∀ g ∈ groups, g ≠ []
  within  : ∀ g ∈ groups, g.length = 1 ∨ units (joinWords g) ≤ budget

-- The lines of a label. A label without words has an empty line, which is none of its words and may
-- be longer than a negative budget.
structure Wrapped (budget : Int) (label : List Char) (lines : List (List Char)) : Prop where
  kept   : lines.flatMap words = words label
  joined : ∀ line ∈ lines, joinWords (words line) = line
  single : words label ≠ [] → ∀ line ∈ lines, budget < units line → ∃ word, words line = [word]
  greedy : lines.IsChain fun line next =>
    ∃ word ∈ (words next).head?, budget < units line + 1 + units word
  least  : words label ≠ [] → ∀ groups, Cut budget (words label) groups →
    lines.length ≤ groups.length
  blank  : words label = [] → lines = [[]]

variable {budget : Int} {label : List Char}

theorem wrap_of_eq_nil (h : words label = []) : wrap fits label = [[]] := by
  rw [wrap, h]

theorem wrap_of_ne_nil (h : words label ≠ []) :
    wrap fits label = (wrapWords fits (words label)).map joinWords := by
  rw [wrap]
  split
  case h_1 hw => exact absurd hw h
  case h_2    => rfl

-- The words of a line are read back from it.
theorem Filled.words_joinWords (h : Filled fits (words label) lines) (hl : line ∈ lines) :
    words (joinWords line) = line :=
  Drawing.words_joinWords fun _ hw =>
    isWord_of_mem_words (h.flatten ▸ List.mem_flatten_of_mem hl hw)

theorem wrapped_of_eq_nil (hw : words label = []) : Wrapped budget label [[]] where
  kept   := by simp [hw, words_nil]
  joined := by simp [words_nil, joinWords]
  single := absurd hw
  greedy := .singleton _
  least  := absurd hw
  blank  := fun _ => rfl

theorem fits_mono (m n : Nat) (h : m ≤ n) (hn : decide (n ≤ budget)) : decide (m ≤ budget) := by
  rw [decide_eq_true_eq] at hn ⊢
  omega

-- The lines of a label, joined again, are its words.
theorem joinWords_wrapLabel : joinWords (wrapLabel label) = joinWords (words label) := by
  by_cases hw : words label = []
  case pos => rw [wrapLabel, wrap_of_eq_nil hw, hw, joinWords_singleton]; rfl
  case neg =>
    have h : Filled (· ≤ labelBudget) (words label) (wrapWords (· ≤ labelBudget) (words label)) :=
      filled_wrapWords (fun m n hmn => by simpa using hmn.trans) _
    rw [wrapLabel, wrap_of_ne_nil hw, joinWords_map_joinWords fun l hl => (h.isLine l hl).left,
      h.flatten]

theorem Filled.wrapped (hw : words label ≠ [])
    (h : Filled (fun n => n ≤ budget) (words label) lines) :
    Wrapped budget label (lines.map joinWords) := by
  constructor
  case kept   =>
    rw [List.flatMap_map, List.flatMap_congr fun l hl => h.words_joinWords hl,
      List.flatMap_id', h.flatten]
  case joined =>
    refine List.forall_mem_map.mpr fun l hl => ?_
    rw [h.words_joinWords hl]
  case single =>
    refine fun _ => List.forall_mem_map.mpr fun l hl hb => ?_
    rw [h.words_joinWords hl]
    obtain h₁ | hw := (h.isLine l hl).right
    case inl => exact List.length_eq_one_iff.mp h₁
    case inr => exact absurd (of_decide_eq_true hw) (not_le.mpr hb)
  case greedy =>
    rw [List.isChain_map]
    refine h.full.imp_of_mem_imp fun l next hl hn hfull => ?_
    obtain ⟨word, rest, rfl⟩ := List.exists_cons_of_ne_nil (h.isLine next hn).left
    have hb := not_le.mp (of_decide_eq_false (hfull word rfl))
    rw [units_joinWords_append (h.isLine l hl).left] at hb
    exact ⟨word, by rw [h.words_joinWords hn]; rfl, by exact_mod_cast hb⟩
  case least  =>
    intro _ groups hg
    rw [List.length_map]
    have hl : ∀ l ∈ lines, l ≠ [] := fun l hl => (h.isLine l hl).left
    have hgs : ∀ g ∈ groups, IsLine (fun n => n ≤ budget) g := fun g hm =>
      ⟨hg.ne_nil g hm, (hg.within g hm).imp_right decide_eq_true⟩
    have he : lines.flatten = groups.flatten := h.flatten.trans hg.flatten.symm
    exact length_le_of_isSuffix fits_mono hl h.full hgs (he ▸ List.suffix_rfl)
  case blank  => exact fun hb => absurd hb hw

-- Labels are broken well, by any budget and so by that of the nodes.
theorem wrap_wrapped (label : List Char) :
    (∀ budget : Int, Wrapped budget label (wrap (fun n => n ≤ budget) label)) ∧
    Wrapped labelBudget label (wrapLabel label) := by
  have h (budget : Int) : Wrapped budget label (wrap (fun n => n ≤ budget) label) := by
    by_cases hw : words label = []
    case pos =>
      rw [wrap_of_eq_nil hw]
      exact wrapped_of_eq_nil hw
    case neg =>
      rw [wrap_of_ne_nil hw]
      exact (filled_wrapWords fits_mono (words label)).wrapped hw
  exact ⟨h, by simpa [wrapLabel] using h labelBudget⟩

-- A word that is too long has a line of its own, and the next one does not join it.
example : wrap (· ≤ 3) "a bbbb\tc  d".toList =
    ["a".toList, "bbbb".toList, "c d".toList] := by
  decide

end LayeredDiagram.Drawing
