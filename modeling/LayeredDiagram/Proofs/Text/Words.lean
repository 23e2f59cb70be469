import LayeredDiagram.Proofs.Sequence
import LayeredDiagram.Text.Blank

namespace LayeredDiagram.Text

variable {cs ds word : List Char} {c : Char}

def IsWord (word : List Char) : Prop :=
  word ≠ [] ∧ ∀ c ∈ word, isBlank c = false

theorem words_nil : words [] = [] :=
  rfl

-- Blanks part the words of a text and are part of none, so texts on both sides of a blank have
-- their words one behind the other.
theorem words_append (h : isBlank c) : words (cs ++ c :: ds) = words cs ++ words ds := by
  rw [words, List.splitOnP_append_cons cs ds h, List.filter_append]
  rfl

theorem IsWord.words_eq (h : IsWord word) : words word = [word] := by
  simp [words, List.splitOnP_eq_singleton h.right, h.left]

theorem isWord_of_mem_words (h : word ∈ words cs) : IsWord word := by
  obtain ⟨hs, hne⟩ := List.mem_filter.mp h
  exact ⟨by simpa using hne, fun c hc => eq_false_of_mem_splitOnP hs hc⟩

-- The words hold all of a text but its blanks.
theorem flatten_words : (words cs).flatten = cs.filter (!isBlank ·) := by
  rw [words, List.flatten_filter_not_isEmpty, flatten_splitOnP]

end LayeredDiagram.Text
