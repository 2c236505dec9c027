/-!
# Sorted texts

Texts in ascending order of their code points, each of them once. The result depends only on
which texts there are, not on how they were listed.
-/
namespace MonkeyLang.Text

/-- Puts a text at its place among ascending texts, unless it is there. -/
def insertSorted (text : String) : List String → List String
  | [] => [text]
  | first :: others =>
    if first = text then first :: others
    else if first ≤ text then first :: insertSorted text others
    else text :: first :: others

/-- The texts of a list, ascending and without repetition. -/
def sorted (texts : List String) : List String := texts.foldr insertSorted []

@[simp] theorem mem_insertSorted {text other : String} {texts : List String} :
    other ∈ insertSorted text texts ↔ other = text ∨ other ∈ texts := by
  induction texts with
  | nil => simp [insertSorted]
  | cons first others ih =>
    unfold insertSorted
    split
    · rename_i same
      simp [same]
    split
    · simp only [List.mem_cons, ih]
      exact or_left_comm
    · simp

/-- Sorting keeps every text and adds none. -/
@[simp] theorem mem_sorted {text : String} {texts : List String} :
    text ∈ sorted texts ↔ text ∈ texts := by
  induction texts with
  | nil => simp [sorted]
  | cons first others ih =>
    change text ∈ insertSorted first (sorted others) ↔ _
    simp [ih]

theorem pairwise_insertSorted {text : String} {texts : List String}
    (h : texts.Pairwise fun a b => a ≤ b ∧ a ≠ b) :
    (insertSorted text texts).Pairwise fun a b => a ≤ b ∧ a ≠ b := by
  induction texts with
  | nil => simp [insertSorted]
  | cons first others ih =>
    obtain ⟨least, rest⟩ := List.pairwise_cons.mp h
    unfold insertSorted
    split
    · exact h
    split
    · rename_i other before
      refine List.pairwise_cons.mpr ⟨fun member found => ?_, ih rest⟩
      rcases mem_insertSorted.mp found with same | old
      · rw [same]; exact ⟨before, other⟩
      · exact least member old
    · rename_i other after
      have before : text ≤ first := (String.le_total text first).resolve_right after
      refine List.pairwise_cons.mpr ⟨fun member found => ?_, h⟩
      rcases List.mem_cons.mp found with same | old
      · rw [same]; exact ⟨before, Ne.symm other⟩
      · have later := least member old
        refine ⟨String.le_trans before later.1, ?_⟩
        rintro rfl
        exact later.2 (String.le_antisymm later.1 before)

/-- Each text stands before the greater ones. -/
theorem pairwise_sorted (texts : List String) :
    (sorted texts).Pairwise fun a b => a ≤ b ∧ a ≠ b := by
  induction texts with
  | nil => exact List.Pairwise.nil
  | cons first others ih => exact pairwise_insertSorted ih

end MonkeyLang.Text
