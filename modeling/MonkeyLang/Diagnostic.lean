import MonkeyLang.Location

/-!
# Diagnostics

A diagnostic is one message about a text: how serious it is, what it says, where it belongs and
any notes that go with it.
-/
namespace MonkeyLang

/-- How serious a message is. Only an error spoils a result. -/
inductive Severity where
  | error
  | warning
  | info
  deriving Repr, DecidableEq

namespace Severity

/-- From the most to the least serious. -/
def all : List Severity := [error, warning, info]

/-- The word that stands in a message line. -/
def word : Severity → String
  | error => "error"
  | warning => "warning"
  | info => "info"

/-- The name under which the level is listed. -/
def name : Severity → String
  | error => "ERROR"
  | warning => "WARNING"
  | info => "INFO"

/-- The level with a given word, if there is one. Case counts. -/
def ofWord? (text : String) : Option Severity :=
  all.find? (·.word == text)

theorem ofWord?_word (severity : Severity) : ofWord? severity.word = some severity := by
  cases severity <;> decide

end Severity

/-- One message. -/
structure Diagnostic where
  severity : Severity
  message : String
  location : Option Location := none
  notes : List String := []
  deriving Repr, DecidableEq

namespace Diagnostic

/-- Whether the message is about an error. -/
def isError (diagnostic : Diagnostic) : Bool := diagnostic.severity = .error

/-- The location if there is one, the severity and the message; each note on a line of its own. -/
def text (diagnostic : Diagnostic) : String :=
  let place := match diagnostic.location with
    | some location => location.text ++ ": "
    | none => ""
  let notes := diagnostic.notes.map ("\n  note: " ++ ·)
  place ++ diagnostic.severity.word ++ ": " ++ diagnostic.message ++ String.join notes

end Diagnostic

end MonkeyLang
