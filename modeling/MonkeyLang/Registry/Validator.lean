import MonkeyLang.Registry.SchemaDocument

/-!
# Validators

Whether a document has the form that a schema asks for is told by a validator from outside. It gets
the schema and the document as values. What is asked of it is no more than what a schema means: it
finds those documents valid for which the rules of the schema hold. Which one of several violations
it reports, in what words, and whether it stops on a document that it does not find valid, is left
to it.
-/
namespace MonkeyLang.Registry

/-- What a validator makes of a schema and a document. -/
inductive Validation where
  | valid
  /-- A violation of the schema, with the path to the part of the document that is meant. -/
  | invalid (message : String) (path : List PathStep)
  /-- The schema is none. -/
  | malformed (message : String)
  | failed (failure : Failure)
  deriving Repr, DecidableEq

/-- What is said about a document: one line for a violation, and one for the path unless it is
empty. -/
def Validation.lines : Validation → Except Failure (List String)
  | valid => .ok []
  | invalid message path => .ok (("Schema validation error: " ++ message) ::
      (if path.isEmpty then [] else ["  at path: " ++ " -> ".intercalate (path.map PathStep.text)]))
  | malformed message => .ok ["Invalid schema: " ++ message]
  | failed failure => .error failure

/-- A way to hold a document, given second, against a schema, given first. -/
abbrev Validator := Value → Value → Validation

/-- What is said about the form of a document. -/
def formLines (validate : Validator) (schema document : Value) : Except Failure (List String) :=
  (validate schema document).lines

namespace Validator

/-- A validator goes by what a schema means: the documents that it finds valid are those for which
the rules of the schema hold. -/
def Implements (validate : Validator) (schema : Value) : Prop :=
  ∀ rules, Schema.ofValue schema = .ok rules →
    ∀ document, validate schema document = .valid ↔ rules.Holds document

/-- A validator comes to a verdict on a document: it is valid, or there is a violation. -/
def Decides (validate : Validator) (schema document : Value) : Prop :=
  validate schema document = .valid ∨
    ∃ message path, validate schema document = .invalid message path

/-! ## A validator -/

/-- The verdict on a document with some violations. All of them have to be put into words; the one
closest to the whole document is reported. -/
def verdict : List Violation → Validation
  | [] => .valid
  | violation :: others =>
    let closest := violation.closest others
    match (violation :: others).mapM (·.breach.message?), closest.breach.message? with
    | some _, some message => .invalid message closest.path
    | _, _ => .failed .tooManyDigits

/-- The report on a schema that cannot be read. -/
def refusal : SchemaError → Validation
  | .invalid value =>
    match value.shown? with
    | some text => .malformed (text ++ " is not valid under any of the given schemas")
    | none => .failed .tooManyDigits
  | .unread text => .failed (.foreign ("cannot read " ++ Text.quoted text))

/-- The validator that goes through the rules of a schema one after the other. -/
def byRules : Validator := fun schema document =>
  match Schema.ofValue schema with
  | .ok rules => verdict (rules.violations document)
  | .error reason => refusal reason

end Validator

end MonkeyLang.Registry
