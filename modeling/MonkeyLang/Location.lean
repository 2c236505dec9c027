/-!
# Locations

Where a token or a message belongs: a file, a line and a column, both counted from one, and
perhaps the line and column of an end.
-/
namespace MonkeyLang

/-- A place in a file. The numbers are data of whoever reports, so no range is imposed on them. -/
structure Location where
  file : String
  line : Int
  column : Int
  endLine : Option Int := none
  endColumn : Option Int := none
  deriving Repr, DecidableEq

namespace Location

/-- `file:line:column`, followed by the end when both its line and its column are known. -/
def text (location : Location) : String :=
  let start := location.file ++ ":" ++ toString location.line ++ ":" ++ toString location.column
  match location.endLine, location.endColumn with
  | some line, some column => start ++ "-" ++ toString line ++ ":" ++ toString column
  | _, _ => start

end Location

end MonkeyLang
