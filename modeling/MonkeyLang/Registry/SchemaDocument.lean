import MonkeyLang.Registry
import MonkeyLang.Schema.Reading

/-!
# The schema of registries as a document

The form of a registry as it is written down, and the rules that are read from it.
-/
namespace MonkeyLang.Registry

/-- Texts as an array. -/
def textArray (texts : List String) : Value := .array (texts.map .string)

/-- The form of an entry, written down. -/
def entrySchemaDocument : Value := .object [
  ("type", .string "object"),
  ("required", textArray ["category"]),
  ("additionalProperties", .bool false),
  ("properties", .object [
    ("category", .object [
      ("enum", textArray ["special", "literal", "operator", "delimiter", "keyword"])]),
    ("lexeme", .object [("type", .string "string"), ("minLength", .int 1)]),
    ("precedence", .object [
      ("enum", textArray ["EQUALS", "LESSGREATER", "SUM", "PRODUCT", "CALL"])]),
    ("roles", .object [
      ("type", .string "array"),
      ("items", .object [("enum", textArray ["prefix", "infix"])]),
      ("uniqueItems", .bool true),
      ("minItems", .int 1)])])]

/-- The form of a registry, written down. -/
def schemaDocument : Value := .object [
  ("$schema", .string "https://json-schema.org/draft/2020-12/schema"),
  ("title", .string "Monkey token registry"),
  ("type", .string "object"),
  ("required", textArray ["version", "tokens"]),
  ("additionalProperties", .bool false),
  ("properties", .object [
    ("version", .object [("type", .string "string"), ("pattern", .string "^\\d+\\.\\d+$")]),
    ("tokens", .object [
      ("type", .string "object"),
      ("minProperties", .int 1),
      ("propertyNames", .object [("pattern", .string "^[A-Z][A-Z_]*$")]),
      ("additionalProperties", entrySchemaDocument)])])]

/-- The form of a registry is read from the document. -/
theorem ofValue_schemaDocument : Schema.ofValue schemaDocument = .ok schema := by rfl

end MonkeyLang.Registry
