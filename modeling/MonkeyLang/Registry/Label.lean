import MonkeyLang.Registry.Failure
import MonkeyLang.Text.Sorted

/-!
# Labels

The simple values, by which things are told apart, counted and put in order. A truth value counts
as the number one or zero. Texts stand in order with texts and numbers with numbers.
-/
namespace MonkeyLang.Registry

/-- A simple value. -/
inductive Label where
  | null
  | truth (value : Bool)
  | number (value : Int)
  | double (value : Double)
  | text (content : String)
  deriving Repr, DecidableEq

namespace Label

/-- Reads a label from a value. -/
def ofValue : Value → Except Failure Label
  | .null => .ok null
  | .bool value => .ok (truth value)
  | .int value => .ok (number value)
  | .double value => .ok (double value)
  | .string content => .ok (text content)
  | value => .error (.compound value.typeName)

/-- The labels that a value lists: the items of an array, the names of an object's fields, or the
characters of a text. -/
def listOf : Value → Except Failure (List Label)
  | .array items => items.mapM ofValue
  | .object fields => .ok (fields.map fun field => text field.1)
  | .string content => .ok (content.toList.map fun c => text (String.singleton c))
  | value => .error (.noItems value.typeName)

/-- A label as a value. -/
def value : Label → Value
  | null => .null
  | truth value => .bool value
  | number value => .int value
  | double value => .double value
  | text content => .string content

theorem ofValue_value (label : Label) : ofValue label.value = .ok label := by
  cases label <;> rfl

/-- The text of a label that is one. -/
def content : Label → Except Failure String
  | null => .error .nullLabel
  | text content => .ok content
  | label => .error (.numberLabel label.value.typeName)

/-- Where the number lies that a label counts as. -/
def magnitude? : Label → Option Magnitude
  | truth value => some (.ofInt (if value then 1 else 0))
  | number value => some (.ofInt value)
  | double value => some value.magnitude
  | _ => none

/-- Whether two labels count as one. -/
def same : Label → Label → Bool
  | null, null => true
  | text a, text b => a == b
  | a, b => a.magnitude?.isSome && a.magnitude? == b.magnitude?

/-- Whether two different labels have an order. -/
def comparable : Label → Label → Bool
  | text _, text _ => true
  | a, b => a.magnitude?.isSome && b.magnitude?.isSome

/-- Whether a label stands before a different one. -/
def before : Label → Label → Bool
  | text a, text b => decide (a ≤ b)
  | a, b => (a.magnitude?.getD (.units 0)).atMost (b.magnitude?.getD (.units 0))

@[simp] theorem same_text (a b : String) : (text a).same (text b) = (a == b) := rfl

@[simp] theorem before_text (a b : String) : (text a).before (text b) = decide (a ≤ b) := rfl

/-- The labels without those that count as an earlier one. -/
def distinct : List Label → List Label
  | [] => []
  | label :: labels => label :: (distinct labels).filter (!label.same ·)

/-- Puts a label at its place among ascending ones, or in place of the one that it counts as. -/
def insertOrdered (label : Label) : List Label → List Label
  | [] => [label]
  | first :: others =>
    if first.same label then label :: others
    else if first.before label then first :: insertOrdered label others
    else label :: first :: others

/-- Labels of one sort in ascending order, each of them once. -/
def ascending (labels : List Label) : List Label := labels.foldr insertOrdered []

/-- Labels that are not listed in any order: the texts, then null, then the numbers. -/
def gathered (labels : List Label) : List Label :=
  labels.filter (text "").comparable ++ labels.filter null.same ++
    ascending (labels.filter (number 0).comparable)

theorem gathered_text (contents : List String) :
    gathered (contents.map text) = contents.map text := by
  have texts : (contents.map text).filter (text "").comparable = contents.map text :=
    List.filter_eq_self.mpr fun label found => by
      obtain ⟨content, _, rfl⟩ := List.mem_map.mp found
      rfl
  have others (test : Label → Bool) (none : ∀ content, test (text content) = false) :
      (contents.map text).filter test = [] :=
    List.filter_eq_nil_iff.mpr fun label found => by
      obtain ⟨content, _, rfl⟩ := List.mem_map.mp found
      rw [none]
      exact Bool.false_ne_true
  rw [gathered, texts, others null.same fun _ => rfl, others (number 0).comparable fun _ => rfl]
  exact (List.append_nil _).trans (List.append_nil _)

theorem mem_of_mem_distinct {label : Label} {labels : List Label}
    (found : label ∈ distinct labels) : label ∈ labels := by
  induction labels with
  | nil => exact found
  | cons first others ih =>
    rcases List.mem_cons.mp found with same | old
    · exact List.mem_cons.mpr (.inl same)
    · exact List.mem_cons_of_mem _ (ih (List.mem_filter.mp old).1)

theorem insertOrdered_text (content : String) (contents : List String) :
    insertOrdered (text content) (contents.map text)
      = (Text.insertSorted content contents).map text := by
  induction contents with
  | nil => rfl
  | cons first others ih =>
    simp only [List.map_cons, insertOrdered, Text.insertSorted, same_text, before_text,
      beq_iff_eq, decide_eq_true_eq, ih]
    split
    · rename_i same
      rw [same, List.map_cons]
    · split <;> rfl

theorem ascending_text (contents : List String) :
    ascending (contents.map text) = (Text.sorted contents).map text := by
  induction contents with
  | nil => rfl
  | cons first others ih =>
    rw [ascending, List.map_cons, List.foldr_cons, ← ascending, ih]
    exact insertOrdered_text first _

end Label

end MonkeyLang.Registry
