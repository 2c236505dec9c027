import MonkeyLang.Diagnostic.Log
import MonkeyLang.Grammar.Expression
import MonkeyLang.Lexer

/-!
# Programs from text

Reading a program always gives a tree, together with a log of what is wrong with the text. A
strict reading refuses a text with errors.
-/
namespace MonkeyLang

/-- The outcome of a parser at the lexer's place, with all of the lexer's tokens before it. -/
def Parser.runOn {α : Type} (parser : Parser α) (lexer : Lexer) : Outcome α :=
  let drained := lexer.drain
  parser.run drained.2.next.1 drained.1

/-- A program as it was read. -/
structure Parsed where
  tree : Node
  log : Log

/-- Reads a program. -/
def parse (text : String) (file : String := Lexer.unnamed) : Parsed :=
  let outcome := Grammar.program.runOn (.ofText text file)
  ⟨outcome.value, .append .empty (outcome.faults.map Fault.diagnostic)⟩

/-- Why a strict reading was refused: the name of the file and all that was reported. -/
structure ParseError where
  file : String
  log : Log

namespace ParseError

/-- The errors alone. -/
def errors (error : ParseError) : List Diagnostic := error.log.errors

/-- The number of errors, and the log. -/
def message (error : ParseError) : String :=
  toString error.errors.length ++ " error(s) while parsing " ++ error.file ++ ":\n"
    ++ error.log.text

/-- The location of the first error. -/
def location (error : ParseError) : Option Location :=
  error.errors.head?.bind Diagnostic.location

end ParseError

/-- Reads a program that has to be free of errors. -/
def parseStrict (text : String) (file : String := Lexer.unnamed) : Except ParseError Node :=
  let parsed := parse text file
  if parsed.log.hasErrors then .error ⟨file, parsed.log⟩ else .ok parsed.tree

end MonkeyLang
