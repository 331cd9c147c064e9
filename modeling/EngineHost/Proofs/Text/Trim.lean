import EngineHost.Text.Blank
import Mathlib.Data.List.DropRight

/-!
# Texts without the blanks at their ends

A text falls into a blank beginning, a middle that neither begins nor ends with a blank, and a blank
end. The middle is determined by the text, and it is what trimming leaves.
-/

namespace EngineHost.Text

/-- A text that consists of blanks. -/
def Blank (s : String) : Prop := ∀ c ∈ s.toList, isBlank c = true

/-- The text `s` without the blanks at its ends is `t`. -/
structure Trimmed (s t : String) : Prop where
  /-- What is left out is blank. -/
  split : ∃ left right, Blank left ∧ Blank right ∧ s = left ++ t ++ right
  /-- What is left does not begin with a blank. -/
  first : ∀ c ∈ t.toList.head?, isBlank c = false
  /-- What is left does not end with a blank. -/
  last : ∀ c ∈ t.toList.getLast?, isBlank c = false

/-- Nothing is dropped in front of a character that is no blank. -/
theorem dropWhile_of_first {cs : List Char} (h : ∀ c ∈ cs.head?, isBlank c = false) :
    cs.dropWhile isBlank = cs := by
  cases cs with
  | nil => rfl
  | cons c cs =>
    have hc : isBlank c = false := h c rfl
    simp [hc]

/-- Nothing is dropped behind a character that is no blank. -/
theorem rdropWhile_of_last {cs : List Char} (h : ∀ c ∈ cs.getLast?, isBlank c = false) :
    cs.rdropWhile isBlank = cs := by
  have hreverse : cs.reverse.dropWhile isBlank = cs.reverse :=
    dropWhile_of_first (by simpa using h)
  rw [List.rdropWhile, hreverse, List.reverse_reverse]

/-- Blanks around a middle that has none at its ends are taken off. -/
theorem trimChars_append {left cs right : List Char} (hleft : ∀ c ∈ left, isBlank c = true)
    (hright : ∀ c ∈ right, isBlank c = true) (hfirst : ∀ c ∈ cs.head?, isBlank c = false)
    (hlast : ∀ c ∈ cs.getLast?, isBlank c = false) : trimChars (left ++ cs ++ right) = cs := by
  have hend : (cs ++ right).rdropWhile isBlank = cs := by
    have hskip : (right.reverse ++ cs.reverse).dropWhile isBlank = cs.reverse.dropWhile isBlank :=
      List.dropWhile_append_of_pos (by simpa using hright)
    rw [List.rdropWhile, List.reverse_append, hskip]
    exact rdropWhile_of_last hlast
  change ((left ++ cs ++ right).dropWhile isBlank).rdropWhile isBlank = cs
  rw [List.append_assoc, List.dropWhile_append_of_pos hleft]
  cases cs with
  | nil =>
    -- With nothing in between, all of the text is dropped from the left already.
    have hnil : right.dropWhile isBlank = [] := by simpa using hright
    rw [List.nil_append, hnil, List.rdropWhile_nil]
  | cons c cs =>
    rw [dropWhile_of_first (by simpa using hfirst)]
    exact hend

/-- Trimming leaves the middle of a text. -/
theorem Trimmed.trim_eq {s t : String} (h : Trimmed s t) : trim s = t := by
  obtain ⟨left, right, hleft, hright, rfl⟩ := h.split
  rw [trim, String.toList_append, String.toList_append,
    trimChars_append hleft hright h.first h.last, String.ofList_toList]

/-- What trimming leaves is the middle of the text. -/
theorem trimmed_trim (s : String) : Trimmed s (trim s) := by
  have hbegin := List.takeWhile_append_dropWhile (p := isBlank) (l := s.toList)
  have hend := List.rdropWhile_append_rtakeWhile (p := isBlank) (l := s.toList.dropWhile isBlank)
  have hchars : (trim s).toList = (s.toList.dropWhile isBlank).rdropWhile isBlank := by
    rw [trim, String.toList_ofList]
    rfl
  refine ⟨⟨String.ofList (s.toList.takeWhile isBlank),
    String.ofList ((s.toList.dropWhile isBlank).rtakeWhile isBlank), ?_, ?_, ?_⟩, ?_, ?_⟩
  · intro c hc
    rw [String.toList_ofList] at hc
    exact List.mem_takeWhile_imp hc
  · intro c hc
    rw [String.toList_ofList] at hc
    exact List.mem_rtakeWhile_imp hc
  · apply String.toList_injective
    rw [String.toList_append, String.toList_append, String.toList_ofList, String.toList_ofList,
      hchars, List.append_assoc, hend, hbegin]
  · intro c hc
    rw [hchars] at hc
    -- The first character that is left was the first one already before the end was taken off.
    obtain ⟨rest, hrest⟩ := List.rdropWhile_prefix isBlank (s.toList.dropWhile isBlank)
    have hhead : (s.toList.dropWhile isBlank).head? = some c := by
      rw [← hrest, List.head?_append, Option.mem_def.mp hc, Option.some_or]
    have hnot := List.head?_dropWhile_not isBlank s.toList
    rw [hhead] at hnot
    exact hnot
  · intro c hc
    rw [hchars] at hc
    obtain ⟨hne, rfl⟩ := List.mem_getLast?_eq_getLast hc
    simpa using List.rdropWhile_last_not isBlank (s.toList.dropWhile isBlank) hne

/-- Blanks around a text without blanks are what trimming takes off. -/
theorem trimmed_of_not_blank {left t right : String} (hleft : Blank left) (hright : Blank right)
    (ht : ∀ c ∈ t.toList, isBlank c = false) : Trimmed (left ++ t ++ right) t where
  split := ⟨left, right, hleft, hright, rfl⟩
  first := fun c hc => ht c (List.mem_of_mem_head? hc)
  last := fun c hc => ht c (List.mem_of_mem_getLast? hc)

end EngineHost.Text
