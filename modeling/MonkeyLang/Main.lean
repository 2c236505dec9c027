import MonkeyLang.Registry.Report
import MonkeyLang.Registry.Standard

/-!
# Command line

Validates the standard registry against its schema and the tables of the language, prints the
report, and ends with its status.
-/
namespace MonkeyLang

/-- The report on the standard registry. -/
def standardReport : Except Registry.Failure Registry.Report :=
  Registry.Report.of .byRules "tokens.yaml" "schema.json" (.found Registry.standard)
    (.found Registry.schemaDocument)

end MonkeyLang

def main : IO UInt32 := do
  match MonkeyLang.standardReport with
  | .ok report =>
    IO.print report.text
    return report.exitCode
  | .error failure =>
    IO.eprintln failure.message
    return 1
