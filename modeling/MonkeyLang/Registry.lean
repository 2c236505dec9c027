import MonkeyLang.Registry.Label
import MonkeyLang.Schema

/-!
# Token registries

A registry documents the token kinds: for each name a category, perhaps a lexeme, a binding power
and the roles that a token plays in expressions. It is a document with a version and the entries.
-/
namespace MonkeyLang.Registry

/-- One documented name, with the fields that are given for it. -/
structure Entry where
  name : String
  fields : List (String × Value)
  deriving Repr

namespace Entry

/-- A field of an entry, if it is given. -/
def field? (entry : Entry) (name : String) : Option Value := entry.fields.lookup name

/-- The category of an entry, if it is given. -/
def category? (entry : Entry) : Option Value := entry.field? "category"

/-- The lexeme of an entry, if it is given. -/
def lexeme? (entry : Entry) : Option Value := entry.field? "lexeme"

/-- The binding power of an entry, if it is given. -/
def precedence? (entry : Entry) : Option Value := entry.field? "precedence"

/-- The roles of an entry; without the field it has none. -/
def roles (entry : Entry) : Except Failure (List Label) :=
  Label.listOf ((entry.field? "roles").getD (.array []))

/-- Whether an entry is in the category of reserved words. -/
def isKeyword (entry : Entry) : Bool :=
  entry.category?.any (Value.string "keyword").same

end Entry

/-- A name with what a registry says about it. -/
abbrev Definition := String × Value

/-- Reads an entry from its definition. -/
def entryOf (definition : Definition) : Except Failure Entry :=
  match definition.2 with
  | .object fields => .ok ⟨definition.1, fields⟩
  | value => .error (.noFields value.typeName)

/-- The definition of an entry. -/
def Entry.definition (entry : Entry) : Definition := (entry.name, .object entry.fields)

@[simp] theorem entryOf_definition (entry : Entry) : entryOf entry.definition = .ok entry := rfl

/-- The value that holds the definitions of a registry, an empty object if there is none. -/
def tokens : Value → Except Failure Value
  | .object fields => .ok ((fields.lookup "tokens").getD (.object []))
  | value => .error (.noFields value.typeName)

/-- The definitions that a value holds, for the checks. -/
def definitionsOf : Value → Except Failure (List Definition)
  | .object fields => .ok fields
  | value => .error (.noListing value.typeName)

/-- The definitions that a value holds, for the summary, which counts them first. -/
def countedDefinitions : Value → Except Failure (List Definition)
  | .object fields => .ok fields
  | .array items => .error (.noEntries (Value.array items).typeName)
  | .string text => .error (.noEntries (Value.string text).typeName)
  | value => .error (.noSize value.typeName)

/-- The form of an entry. -/
def entrySchema : Schema := .all [
  .type .object,
  .required ["category"],
  .onlyFields ["category", "lexeme", "precedence", "roles"],
  .field "category" (.all [.oneOf
    [.string "special", .string "literal", .string "operator", .string "delimiter",
      .string "keyword"]]),
  .field "lexeme" (.all [.type .string, .minLength 1]),
  .field "precedence" (.all [.oneOf
    [.string "EQUALS", .string "LESSGREATER", .string "SUM", .string "PRODUCT", .string "CALL"]]),
  .field "roles" (.all [
    .type .array, .items (.all [.oneOf [.string "prefix", .string "infix"]]), .uniqueItems,
    .minItems 1])]

/-- The form of a registry. -/
def schema : Schema := .all [
  .type .object,
  .required ["version", "tokens"],
  .onlyFields ["version", "tokens"],
  .field "version" (.all [.type .string, .matching .version]),
  .field "tokens" (.all [
    .type .object, .minFields 1, .fieldNames (.all [.matching .capitals]),
    .otherFields [] entrySchema])]

end MonkeyLang.Registry
