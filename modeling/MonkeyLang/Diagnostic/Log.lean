import MonkeyLang.Diagnostic

/-!
# Logs

A log keeps diagnostics in the order in which they were reported, and only ever grows.
-/
namespace MonkeyLang

/-- The diagnostics reported so far, first to last. -/
structure Log where
  entries : List Diagnostic := []
  deriving Repr, DecidableEq

namespace Log

/-- A log with nothing in it. -/
def empty : Log := {}

/-- Adds one diagnostic at the end. -/
def report (log : Log) (diagnostic : Diagnostic) : Log := ⟨log.entries ++ [diagnostic]⟩

/-- Adds diagnostics at the end, in their order. -/
def append (log : Log) (diagnostics : List Diagnostic) : Log := ⟨log.entries ++ diagnostics⟩

/-- The number of diagnostics. -/
def size (log : Log) : Nat := log.entries.length

/-- Whether an error was reported. -/
def hasErrors (log : Log) : Bool := log.entries.any Diagnostic.isError

/-- The errors alone. -/
def errors (log : Log) : List Diagnostic := log.entries.filter Diagnostic.isError

/-- The bare messages, whatever their severity. -/
def messages (log : Log) : List String := log.entries.map Diagnostic.message

/-- The diagnostics as lines of text, a newline between any two. -/
def text (log : Log) : String := "\n".intercalate (log.entries.map Diagnostic.text)

@[simp] theorem entries_empty : empty.entries = [] := rfl

@[simp] theorem entries_report (log : Log) (diagnostic : Diagnostic) :
    (log.report diagnostic).entries = log.entries ++ [diagnostic] := rfl

@[simp] theorem entries_append (log : Log) (diagnostics : List Diagnostic) :
    (log.append diagnostics).entries = log.entries ++ diagnostics := rfl

theorem hasErrors_eq_false_iff (log : Log) : log.hasErrors = false ↔ log.errors = [] := by
  simp [hasErrors, errors]

end Log

end MonkeyLang
