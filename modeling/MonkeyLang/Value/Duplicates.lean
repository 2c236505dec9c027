import MonkeyLang.Value

/-!
# Duplicates

Whether a value occurs twice in a list. Values that can all be put in order are compared with their
neighbours in that order; other values are compared each with each. In order, a truth value inside
an array stands with the number one or zero, so two equal arrays may be kept apart by one that
differs from them in such a place only. Texts have duplicates exactly when one occurs twice.
-/
namespace MonkeyLang.Value

mutual

/-- A value with the number one or zero in place of each truth value. -/
def numeric : Value → Value
  | bool value => int (if value then 1 else 0)
  | array items => array (numericItems items)
  | object fields => object (numericFields fields)
  | value => value

/-- The items of an array, each with numbers in place of truth values. -/
def numericItems : List Value → List Value
  | [] => []
  | item :: items => numeric item :: numericItems items

/-- The fields of an object, each with numbers in place of truth values. -/
def numericFields : List (String × Value) → List (String × Value)
  | [] => []
  | (name, value) :: fields => (name, numeric value) :: numericFields fields

end

/-- The value that gives a value its place in order. -/
def orderKey : Value → Value
  | array items => array (numericItems items)
  | value => value

mutual

/-- Whether two values have an order: numbers, texts, and arrays whose first different items have
one. -/
def comparable : Value → Value → Bool
  | string _, string _ => true
  | array as, array bs => comparableItems as bs
  | a, b => a.magnitude?.isSome && b.magnitude?.isSome

/-- Whether the first different items of two lists have an order, if there are such items. -/
def comparableItems : List Value → List Value → Bool
  | a :: as, b :: bs => if same a b then comparableItems as bs else comparable a b
  | _, _ => true

end

/-- Whether all values of a list can be put in order. -/
def allComparable : List Value → Bool
  | [] => true
  | value :: values =>
    values.all (comparable value.orderKey ·.orderKey) && allComparable values

/-- Whether some value occurs twice, all values compared. -/
def hasEqual : List Value → Bool
  | [] => false
  | value :: values => values.any value.same || hasEqual values

/-- Whether some value is the same as its next neighbour in order. -/
def hasEqualNeighbours : List Value → Bool
  | [] => false
  | value :: values =>
    (values.find? (same value.orderKey ·.orderKey)).any value.same || hasEqualNeighbours values

/-- Whether some value occurs twice, which shows in their order if they have one. -/
def hasDuplicates (values : List Value) : Bool :=
  if allComparable values then hasEqualNeighbours values else hasEqual values

theorem allComparable_string (contents : List String) :
    allComparable (contents.map string) = true := by
  induction contents with
  | nil => rfl
  | cons content contents ih =>
    rw [List.map_cons, allComparable, ih, Bool.and_true, List.all_eq_true]
    intro value found
    obtain ⟨other, _, rfl⟩ := List.mem_map.mp found
    rfl

theorem find?_any_string (content : String) (contents : List String) :
    ((contents.map string).find? (same (string content).orderKey ·.orderKey)).any
      (string content).same = contents.contains content := by
  induction contents with
  | nil => rfl
  | cons other contents ih =>
    have key : same (string content).orderKey (string other).orderKey = (content == other) := rfl
    have equal : (string content).same (string other) = (content == other) := rfl
    rw [List.map_cons, List.find?_cons, key, List.contains_cons]
    cases h : content == other
    · simpa using ih
    · simp [equal, h]

/-- Texts have duplicates exactly when one of them occurs twice. -/
theorem hasDuplicates_string (contents : List String) :
    hasDuplicates (contents.map string) = true ↔ ¬ contents.Nodup := by
  rw [hasDuplicates, if_pos (allComparable_string contents)]
  induction contents with
  | nil => simp [hasEqualNeighbours]
  | cons content contents ih =>
    rw [List.map_cons, hasEqualNeighbours, Bool.or_eq_true, find?_any_string, ih, List.nodup_cons,
      List.contains_iff_mem, Decidable.not_and_iff_not_or_not, Decidable.not_not]

end MonkeyLang.Value
