import MonkeyLang.Diagnostic
import MonkeyLang.Text.Quoted
import MonkeyLang.Token

/-!
# Faults

What can be wrong with a text of the language. Each fault names the token at which it was found,
and is reported as an error at the place of that token.
-/
namespace MonkeyLang

/-- The cause of an error, with the token at which it was found. -/
inductive Fault where
  /-- Another kind of token had to stand here. -/
  | unexpected (expected : Kind) (found : Token)
  /-- The digits denote no integer of the language. -/
  | malformedInteger (found : Token)
  /-- No expression starts with this token. -/
  | noExpression (found : Token)
  /-- The expression that starts here lies deeper than the limit allows. -/
  | tooDeep (limit : Int) (found : Token)
  deriving Repr, DecidableEq

namespace Fault

/-- The token at which a fault was found. -/
def token : Fault → Token
  | unexpected _ found | malformedInteger found | noExpression found | tooDeep _ found => found

/-- What is said about a fault. -/
def message : Fault → String
  | unexpected expected found =>
    "Expected next token to be " ++ expected.name ++ ", got " ++ found.kind.name ++ " "
      ++ Text.quoted found.lexeme
  | malformedInteger found => "Could not parse " ++ Text.quoted found.lexeme ++ " as integer"
  | noExpression found => "No prefix parse function for " ++ found.kind.name ++ " found"
  | tooDeep limit _ => "Expression nesting exceeds " ++ toString limit ++ " levels"

/-- A fault as an error without notes. -/
def diagnostic (fault : Fault) : Diagnostic :=
  { severity := .error, message := fault.message, location := fault.token.location }

end Fault

end MonkeyLang
