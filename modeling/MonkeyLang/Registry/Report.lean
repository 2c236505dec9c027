import MonkeyLang.Registry.Agreement
import MonkeyLang.Registry.Summary

/-!
# Validation reports

The report on a registry names the documents it was made from, every problem that was found, and
the summary. It fails when there is a problem, or when a document could not be read.
-/
namespace MonkeyLang.Registry

/-- A document as it was found. -/
inductive Document where
  | found (content : Value)
  | missing
  /-- The text at the place is none of the expected format, for the reason that is given. -/
  | malformed (reason : String)

/-- A report: its text, and whether the registry passed. -/
structure Report where
  passed : Bool
  text : String
  deriving Repr, DecidableEq

namespace Report

/-- The status with which a program ends that makes the report. -/
def exitCode (report : Report) : UInt32 := if report.passed then 0 else 1

/-- A report that ends early. -/
def failed (lines : List String) : Report := ⟨false, ofLines lines⟩

/-- What is said about a document that is not there. -/
def notFound (path : String) : String := "ERROR: File not found: " ++ path

/-- What is said about a document in no proper format. -/
def notReadable (format path reason : String) : String :=
  "ERROR: Invalid " ++ format ++ " in " ++ path ++ ": " ++ reason

/-- The problems as lines, none if there are no problems. -/
def problemLines (problems : List String) : List String :=
  if problems.isEmpty then [] else "ERRORS:" :: problems.map ("  ✗ " ++ ·) ++ [""]

/-- The last line. -/
def verdict (passed : Bool) : String :=
  if passed then "Validation PASSED." else "Validation FAILED with errors."

/-- The lines before the first document is read. -/
def opening (registryPath : String) : List String :=
  ["Monkey Token Registry Validator", Summary.rule '-', "",
    "Loading tokens from: " ++ registryPath]

/-- The lines before the second document is read. -/
def continuing (registryPath schemaPath : String) : List String :=
  opening registryPath ++ ["Loading schema from: " ++ schemaPath]

/-- The report on a registry that was read. -/
def ofContent (validate : Validator) (heading : List String) (document schema : Value) :
    Except Failure Report := do
  let problems ← problems validate schema document
  let summary ← Summary.ofDefinitions (← countedDefinitions (← tokens document))
  let passed := problems.isEmpty
  return ⟨passed, ofLines
    (heading ++ [""] ++ problemLines problems ++ summary.lines ++ [verdict passed])⟩

/-- The report on a registry, with the paths of the two documents. -/
def of (validate : Validator) (registryPath schemaPath : String) (registry schema : Document) :
    Except Failure Report :=
  let first := opening registryPath
  let second := continuing registryPath schemaPath
  match registry with
  | .missing => .ok (failed (first ++ [notFound registryPath]))
  | .malformed reason => .ok (failed (first ++ [notReadable "YAML" registryPath reason]))
  | .found document =>
    match schema with
    | .missing => .ok (failed (second ++ [notFound schemaPath]))
    | .malformed reason => .ok (failed (second ++ [notReadable "JSON" schemaPath reason]))
    | .found schema => ofContent validate second document schema

end Report

end MonkeyLang.Registry
