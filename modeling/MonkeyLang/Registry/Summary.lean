import MonkeyLang.Registry
import MonkeyLang.Registry.Order

/-!
# Summaries of a registry

How many entries a registry has, in each category and with each binding power.
-/
namespace MonkeyLang.Registry

/-- Labels with the number of their occurrences, in ascending order. Each label has to be a text. -/
def tally (labels : List Label) : Except Failure (List (String × Nat)) := do
  (← Label.ordered labels).mapM fun label => do
    return (← label.content, labels.countP label.same)

/-- Texts are counted in their sorted order. -/
theorem tally_text (contents : List String) :
    tally (contents.map .text)
      = .ok ((Text.sorted contents).map fun content => (content, contents.count content)) := by
  have occurrences (content : String) :
      (contents.map Label.text).countP (Label.text content).same = contents.count content := by
    rw [List.countP_map, List.count]
    exact List.countP_congr fun other _ => by simpa using eq_comm
  have counted (sorted : List String) :
      (sorted.map Label.text).mapM (fun label => do
        return (← label.content, (contents.map Label.text).countP label.same))
        = (.ok (sorted.map fun content => (content, contents.count content)) :
          Except Failure _) := by
    induction sorted with
    | nil => rfl
    | cons first others ih =>
      rw [List.map_cons, List.mapM_cons, ih]
      simp only [occurrences]
      rfl
  rw [tally, Label.ordered_text]
  exact counted (Text.sorted contents)

/-- The category of an entry and its binding power, if it is given; an entry without a category
has the category unknown. -/
def labelsOf (definition : Definition) : Except Failure (Label × Option Label) := do
  let entry ← entryOf definition
  let category ← Label.ofValue (entry.category?.getD (.string "unknown"))
  return (category, ← entry.precedence?.mapM Label.ofValue)

/-- Counts of the entries of a registry. -/
structure Summary where
  total : Nat
  byCategory : List (String × Nat)
  byPrecedence : List (String × Nat)
  deriving Repr, DecidableEq

namespace Summary

/-- Counts the definitions of a registry. -/
def ofDefinitions (definitions : List Definition) : Except Failure Summary := do
  let labels ← definitions.mapM labelsOf
  let categories ← tally (labels.map Prod.fst)
  let precedences ← tally (labels.filterMap Prod.snd)
  return ⟨definitions.length, categories, precedences⟩

/-- A label in thirty columns and its number in three; neither is cut. -/
def row (count : String × Nat) : String :=
  let number := toString count.2
  "  " ++ count.1 ++ "".pushn ' ' (30 - count.1.length) ++ " "
    ++ "".pushn ' ' (3 - number.length) ++ number

/-- A line drawn across the page. -/
def rule (c : Char) : String := "".pushn c 70

/-- The summary as lines. -/
def lines (summary : Summary) : List String :=
  [rule '=', "VALIDATION SUMMARY", rule '=', "",
    "Total token kinds: " ++ toString summary.total, "", "By category:"] ++
  summary.byCategory.map row ++ ["", "By precedence:"] ++ summary.byPrecedence.map row ++ [""]

end Summary

/-- Lines as a text, each with its newline. -/
def ofLines (lines : List String) : String := String.join (lines.map (· ++ "\n"))

end MonkeyLang.Registry
