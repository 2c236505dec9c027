import MonkeyLang.Schema.Pattern
import MonkeyLang.Text.Sorted
import MonkeyLang.Value.Duplicates

/-!
# Schemas

A schema says which values are allowed. A rule about one type of value allows every value of
another type. What a value breaks is found rule by rule, each time with the path from the whole
value to the part that breaks the rule; the violation closest to the whole value stands for all.
-/
namespace MonkeyLang

/-- The types that a schema can ask for. -/
inductive ValueType where
  | string
  | integer
  | number
  | array
  | object
  | boolean
  | null
  deriving Repr, DecidableEq

namespace ValueType

/-- Every type. -/
def all : List ValueType := [string, integer, number, array, object, boolean, null]

/-- The name of a type in a schema. -/
def name : ValueType → String
  | string => "string"
  | integer => "integer"
  | number => "number"
  | array => "array"
  | object => "object"
  | boolean => "boolean"
  | null => "null"

/-- The type with a given name, if there is one. -/
def ofName? (text : String) : Option ValueType := all.find? (·.name == text)

/-- Whether a value is of a type. A number without a fraction counts as an integer. -/
def has : ValueType → Value → Bool
  | string, .string _ | integer, .int _ | number, .int _ | number, .double _ => true
  | integer, .double value => value.isWhole
  | array, .array _ | object, .object _ | boolean, .bool _ | null, .null => true
  | _, _ => false

end ValueType

/-- A set of allowed values, as rules. -/
inductive Schema where
  | anything
  | nothing
  | type (expected : ValueType)
  | oneOf (choices : List Value)
  /-- A rule about texts. -/
  | minLength (least : Nat)
  /-- A rule about texts. -/
  | matching (pattern : Pattern)
  /-- A rule about arrays. -/
  | minItems (least : Nat)
  /-- A rule about arrays: no item occurs twice. -/
  | uniqueItems
  /-- A rule about the items of an array. -/
  | items (schema : Schema)
  /-- A rule about objects. -/
  | minFields (least : Nat)
  /-- A rule about objects: the named fields are there. -/
  | required (names : List String)
  /-- A rule about objects: no fields are there but the named ones. -/
  | onlyFields (names : List String)
  /-- A rule about the names of an object's fields. -/
  | fieldNames (schema : Schema)
  /-- A rule about one field of an object, if it is there. -/
  | field (name : String) (schema : Schema)
  /-- A rule about the fields of an object that are not named. -/
  | otherFields (names : List String) (schema : Schema)
  | both (first second : Schema)
  deriving Repr

namespace Schema

/-- All rules of a list. -/
def all (schemas : List Schema) : Schema := schemas.foldr both anything

/-- What a schema means: which values keep its rules. -/
def Holds : Schema → Value → Prop
  | anything, _ => True
  | nothing, _ => False
  | type expected, value => expected.has value = true
  | oneOf choices, value => ∃ choice ∈ choices, value.same choice = true
  | minLength least, value => ∀ text, value = .string text → least ≤ text.length
  | matching pattern, value => ∀ text, value = .string text → pattern.isIn text = true
  | minItems least, value => ∀ items, value = .array items → least ≤ items.length
  | uniqueItems, value =>
    ∀ items, value = .array items → items.Pairwise fun first later => ¬ first.same later = true
  | items schema, value => ∀ items, value = .array items → ∀ item ∈ items, schema.Holds item
  | minFields least, value => ∀ fields, value = .object fields → least ≤ fields.length
  | required names, value =>
    ∀ fields, value = .object fields → ∀ name ∈ names, ∃ content, fields.lookup name = some content
  | onlyFields names, value =>
    ∀ fields, value = .object fields → ∀ field ∈ fields, field.1 ∈ names
  | fieldNames schema, value =>
    ∀ fields, value = .object fields → ∀ field ∈ fields, schema.Holds (.string field.1)
  | field name schema, value =>
    ∀ fields, value = .object fields → ∀ content, fields.lookup name = some content →
      schema.Holds content
  | otherFields names schema, value =>
    ∀ fields, value = .object fields → ∀ field ∈ fields, field.1 ∉ names → schema.Holds field.2
  | both first second, value => first.Holds value ∧ second.Holds value

end Schema

/-- What a value breaks, with the offending part of it. -/
inductive Breach where
  | wrongType (value : Value) (expected : ValueType)
  | notAmong (value : Value) (choices : List Value)
  | tooShort (value : Value) (least : Nat)
  | mismatch (text : String) (pattern : Pattern)
  | duplicates (value : Value)
  | tooFewFields (value : Value) (least : Nat)
  | missing (name : String)
  | unexpected (names : List String)
  | forbidden (value : Value)
  deriving Repr

namespace Breach

/-- What is said about a value that ought not to be empty, or about one that is too small. -/
def tooSmall? (value : Value) (least : Nat) (otherwise : String) : Option String := do
  return (← value.shown?) ++ (if least = 1 then " should be non-empty" else otherwise)

/-- What is said about a broken rule, if the value that breaks it can be shown. -/
def message? : Breach → Option String
  | wrongType value expected => do
    return (← value.shown?) ++ " is not of type " ++ Text.quoted expected.name
  | notAmong value choices => do
    return (← value.shown?) ++ " is not one of " ++ (← (Value.array choices).shown?)
  | tooShort value least => tooSmall? value least " is too short"
  | mismatch text pattern =>
    some (Text.quoted text ++ " does not match " ++ Text.quoted pattern.source)
  | duplicates value => do return (← value.shown?) ++ " has non-unique elements"
  | tooFewFields value least => tooSmall? value least " does not have enough properties"
  | missing name => some (Text.quoted name ++ " is a required property")
  | unexpected names =>
    some ("Additional properties are not allowed (" ++ ", ".intercalate (names.map Text.quoted)
      ++ (if names.length = 1 then " was" else " were") ++ " unexpected)")
  | forbidden value => do return "False schema does not allow " ++ (← value.shown?)

end Breach

/-- A step from a value to a part of it. -/
inductive PathStep where
  | field (name : String)
  | item (index : Nat)
  deriving Repr, DecidableEq

/-- A step as it stands in a path. -/
def PathStep.text : PathStep → String
  | field name => name
  | item index => toString index

/-- A broken rule, and the path to the part that breaks it. -/
structure Violation where
  breach : Breach
  path : List PathStep := []
  deriving Repr

namespace Violation

/-- The violation as seen from a value one step further out. -/
def under (violation : Violation) (step : PathStep) : Violation :=
  { violation with path := step :: violation.path }

/-- The first of the violations with the shortest path, among one and some others. -/
def closest (violation : Violation) (others : List Violation) : Violation :=
  others.foldl (fun best other => if other.path.length < best.path.length then other else best)
    violation

end Violation

namespace Schema

/-- A breach of the value as a whole, when a test fails. -/
def ensure (allowed : Bool) (breach : Breach) : List Violation :=
  if allowed then [] else [{ breach }]

/-- All violations of a schema by a value, rule by rule. -/
def violations : Schema → Value → List Violation
  | anything, _ => []
  | nothing, value => [{ breach := .forbidden value }]
  | type expected, value => ensure (expected.has value) (.wrongType value expected)
  | oneOf choices, value => ensure (choices.any value.same) (.notAmong value choices)
  | minLength least, .string text => ensure (least ≤ text.length) (.tooShort (.string text) least)
  | matching pattern, .string text => ensure (pattern.isIn text) (.mismatch text pattern)
  | minItems least, .array values =>
    ensure (least ≤ values.length) (.tooShort (.array values) least)
  | uniqueItems, .array values =>
    ensure (!Value.hasDuplicates values) (.duplicates (.array values))
  | items schema, .array values =>
    values.zipIdx.flatMap fun item => (schema.violations item.1).map (·.under (.item item.2))
  | minFields least, .object fields =>
    ensure (least ≤ fields.length) (.tooFewFields (.object fields) least)
  | required names, .object fields =>
    (names.filter fun name => (fields.lookup name).isNone).map fun name =>
      { breach := .missing name }
  | onlyFields names, .object fields =>
    let others := (fields.map Prod.fst).filter (!names.contains ·)
    ensure others.isEmpty (.unexpected (Text.sorted others))
  | fieldNames schema, .object fields =>
    fields.flatMap fun field => schema.violations (.string field.1)
  | field name schema, .object fields =>
    (fields.lookup name).toList.flatMap fun value =>
      (schema.violations value).map (·.under (.field name))
  | otherFields names schema, .object fields =>
    (fields.filter fun field => !names.contains field.1).flatMap fun field =>
      (schema.violations field.2).map (·.under (.field field.1))
  | both first second, value => first.violations value ++ second.violations value
  | _, _ => []

end Schema

end MonkeyLang
