import Mathlib.Data.List.Basic
import Mathlib.Data.List.TakeWhile
import PatternRename.Pattern.Fragment

/-!
# Words

A word has no blanks at its ends, so that trimming leaves it as it is. What trimming leaves of any
text is a word, or nothing.

## Main definitions

- `IsWord` — a text without blanks at its ends, which is not empty

## Main results

- `IsWord.trim_eq` — trimming leaves a word as it is
- `isWord_trim` — what is left by trimming is a word
- `IsWord.append` — a word behind a word makes a word
-/

namespace PatternRename.Text

/-- A text that begins and ends with a character which is no blank. -/
structure IsWord (cs : List Char) : Prop where
  head : ∃ c ∈ cs.head?, isBlank c = false
  last : ∃ c ∈ cs.getLast?, isBlank c = false

/-- A text that begins with something else than a blank loses none. -/
theorem dropWhile_isBlank_eq {cs : List Char} (h : ∃ c ∈ cs.head?, isBlank c = false) :
    cs.dropWhile isBlank = cs := by
  obtain ⟨c, hc, hblank⟩ := h
  obtain ⟨rest, rfl⟩ := List.head?_eq_some_iff.mp hc
  exact List.dropWhile_cons_of_neg (by simp [hblank])

theorem exists_head?_dropWhile {cs : List Char} (h : cs.dropWhile isBlank ≠ []) :
    ∃ c ∈ (cs.dropWhile isBlank).head?, isBlank c = false := by
  obtain ⟨c, rest, hcons⟩ := List.exists_cons_of_ne_nil h
  have hhead := List.head?_dropWhile_not isBlank cs
  rw [hcons] at hhead ⊢
  exact ⟨c, rfl, hhead⟩

/-- Something is taken away at the end only. -/
theorem trimEnd_isPrefix (cs : List Char) : trimEnd cs <+: cs := by
  refine ⟨(cs.reverse.takeWhile isBlank).reverse, ?_⟩
  rw [trimEnd, ← List.reverse_append, List.takeWhile_append_dropWhile, List.reverse_reverse]

theorem IsWord.ne_nil {cs : List Char} (h : IsWord cs) : cs ≠ [] := by
  rintro rfl
  obtain ⟨c, hc, -⟩ := h.head
  simp at hc

/-- Trimming leaves a word as it is. -/
theorem IsWord.trim_eq {cs : List Char} (h : IsWord cs) : trim cs = cs := by
  rw [trim, dropWhile_isBlank_eq h.head, trimEnd, dropWhile_isBlank_eq, List.reverse_reverse]
  obtain ⟨c, hc, hblank⟩ := h.last
  exact ⟨c, by rwa [List.head?_reverse], hblank⟩

/-- What trimming leaves is a word, or nothing. -/
theorem isWord_trim {cs : List Char} (h : trim cs ≠ []) : IsWord (trim cs) := by
  generalize hfront : cs.dropWhile isBlank = front
  have htrim : trim cs = trimEnd front := by rw [trim, hfront]
  rw [htrim] at h ⊢
  constructor
  · -- the beginning is the one of the text without the blanks in front
    have hne : front ≠ [] := by
      rintro rfl
      exact h rfl
    obtain ⟨c, hc, hblank⟩ := exists_head?_dropWhile (hfront ▸ hne)
    obtain ⟨blanks, hblanks⟩ := trimEnd_isPrefix front
    rw [hfront, ← hblanks, List.head?_append_of_ne_nil _ h] at hc
    exact ⟨c, hc, hblank⟩
  · have hne : front.reverse.dropWhile isBlank ≠ [] := by
      intro hnil
      rw [trimEnd, hnil] at h
      exact h rfl
    obtain ⟨c, hc, hblank⟩ := exists_head?_dropWhile hne
    refine ⟨c, ?_, hblank⟩
    rwa [trimEnd, List.getLast?_reverse]

theorem mem_of_mem_trim {cs : List Char} {c : Char} (h : c ∈ trim cs) : c ∈ cs := by
  rw [trim, trimEnd, List.mem_reverse] at h
  have hend := (List.dropWhile_sublist isBlank).mem h
  exact (List.dropWhile_sublist isBlank).mem (List.mem_reverse.mp hend)

/-- A text is a word if its first part begins like one and its last part ends like one. -/
theorem IsWord.append_of {front back : List Char}
    (hfront : ∃ c ∈ front.head?, isBlank c = false)
    (hback : ∃ c ∈ back.getLast?, isBlank c = false) : IsWord (front ++ back) := by
  constructor
  · obtain ⟨c, hc, hblank⟩ := hfront
    obtain ⟨rest, rfl⟩ := List.head?_eq_some_iff.mp hc
    exact ⟨c, rfl, hblank⟩
  · obtain ⟨c, hc, hblank⟩ := hback
    obtain ⟨rest, rfl⟩ := List.getLast?_eq_some_iff.mp hc
    refine ⟨c, ?_, hblank⟩
    rw [← List.append_assoc, List.getLast?_concat]
    rfl

theorem IsWord.append {front back : List Char} (hfront : IsWord front) (hback : IsWord back) :
    IsWord (front ++ back) :=
  IsWord.append_of hfront.head hback.last

end PatternRename.Text
