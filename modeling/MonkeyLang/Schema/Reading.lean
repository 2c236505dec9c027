import MonkeyLang.Schema

/-!
# Schemas from documents

A schema can be written as a value: true and false allow everything and nothing, and an object
holds a keyword in each of its fields. Most keywords stand for one rule, some for one rule with
every part of their value, and a few only say something about the schema itself. A rule about all
other fields takes the names of the fields that are not meant from beside it.
-/
namespace MonkeyLang

/-- Why a value is no schema. -/
inductive SchemaError where
  /-- The value has no place in a schema where it stands. -/
  | invalid (value : Value)
  /-- The keyword or the pattern is none that can be read. -/
  | unread (text : String)
  deriving Repr

namespace Schema

/-- The number that a limit stands for. -/
def limit : Value → Except SchemaError Nat
  | .int (.ofNat least) => .ok least
  | value => .error (.invalid value)

/-- The text that a value stands for. -/
def textOf : Value → Except SchemaError String
  | .string text => .ok text
  | value => .error (.invalid value)

/-- The type that a name stands for. -/
def typeOf (value : Value) : Except SchemaError ValueType := do
  match ValueType.ofName? (← textOf value) with
  | some expected => return expected
  | none => throw (.invalid value)

/-- The pattern that a text stands for. -/
def patternOf (value : Value) : Except SchemaError Pattern := do
  let text ← textOf value
  match Pattern.ofText? text with
  | some pattern => return pattern
  | none => throw (.unread text)

/-- The keywords that say something about a schema and not about the values that it allows. -/
def annotations : List String :=
  ["$schema", "$id", "$comment", "title", "description", "default", "examples"]

/-- The rules of a keyword whose value holds no schema. -/
def ofKeyword (keyword : String) (value : Value) : Except SchemaError (List Schema) :=
  match keyword, value with
  | "type", value => do return [type (← typeOf value)]
  | "enum", .array choices => .ok [oneOf choices]
  | "pattern", value => do return [matching (← patternOf value)]
  | "minLength", value => do return [minLength (← limit value)]
  | "minItems", value => do return [minItems (← limit value)]
  | "minProperties", value => do return [minFields (← limit value)]
  | "uniqueItems", .bool unique => .ok (if unique then [uniqueItems] else [])
  | "required", .array names => do return [required (← names.mapM textOf)]
  | "enum", value | "uniqueItems", value | "required", value => .error (.invalid value)
  | _, _ => if annotations.contains keyword then .ok [] else .error (.unread keyword)

/-- The names of the fields about which the keywords of a schema have rules of their own. -/
def fieldsNamed (keywords : List (String × Value)) : List String :=
  match keywords.lookup "properties" with
  | some (.object fields) => fields.map Prod.fst
  | _ => []

mutual

/-- Reads a schema. -/
def ofValue : Value → Except SchemaError Schema
  | .bool true => .ok anything
  | .bool false => .ok nothing
  | .object keywords => do return all (← ofKeywords (fieldsNamed keywords) keywords)
  | value => .error (.invalid value)

/-- Reads the keywords of a schema, given the names of the fields that have rules of their own. -/
def ofKeywords (named : List String) : List (String × Value) → Except SchemaError (List Schema)
  | [] => .ok []
  | ("items", value) :: keywords => do
    return items (← ofValue value) :: (← ofKeywords named keywords)
  | ("propertyNames", value) :: keywords => do
    return fieldNames (← ofValue value) :: (← ofKeywords named keywords)
  | ("additionalProperties", .bool false) :: keywords => do
    return onlyFields named :: (← ofKeywords named keywords)
  | ("additionalProperties", value) :: keywords => do
    return otherFields named (← ofValue value) :: (← ofKeywords named keywords)
  | ("properties", .object fields) :: keywords => do
    return (← ofFields fields) ++ (← ofKeywords named keywords)
  | ("properties", value) :: _ => .error (.invalid value)
  | (keyword, value) :: keywords => do
    return (← ofKeyword keyword value) ++ (← ofKeywords named keywords)

/-- Reads a schema for each of some fields. -/
def ofFields : List (String × Value) → Except SchemaError (List Schema)
  | [] => .ok []
  | (name, value) :: fields => do return field name (← ofValue value) :: (← ofFields fields)

end

end Schema

end MonkeyLang
