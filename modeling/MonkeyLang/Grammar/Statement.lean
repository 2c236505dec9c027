import MonkeyLang.Grammar.Role
import MonkeyLang.Node
import MonkeyLang.Parser.Repeat

/-!
# Statements and blocks

The rules for statements, over a given parser for expressions. Each leaves the last token of the
statement current.
-/
namespace MonkeyLang.Grammar

open MonkeyLang.Parser

/-- A parser for expressions whose operators bind tighter than a floor. -/
abbrev ExpressionParser := Int → Parser Node

/-- An expression with any operators. -/
def anyExpression (expression : ExpressionParser) : Parser Node :=
  expression Precedence.lowest.rank

/-- A name, an equals sign and a value, perhaps with a semicolon. -/
def letStatement (expression : ExpressionParser) : Parser Node := do
  let token ← current
  expect .ident .absent do
    let name ← current
    expect .assign .absent do
      advance
      let value ← anyExpression expression
      skipOptional .semicolon
      return .letStatement token (.identifier name name.lexeme) value

/-- A value, and whatever stands between it and the next semicolon. -/
def returnStatement (expression : ExpressionParser) : Parser Node := do
  let token ← current
  advance
  let value ← anyExpression expression
  skipTo .semicolon
  return .returnStatement token value

/-- An expression, perhaps with a semicolon. -/
def exprStatement (expression : ExpressionParser) : Parser Node := do
  let token ← current
  let value ← anyExpression expression
  skipOptional .semicolon
  return .exprStatement token value

/-- One statement, told by its first token. -/
def statement (expression : ExpressionParser) : Parser Node := do
  match (← current).kind with
  | .kwLet => letStatement expression
  | .kwReturn => returnStatement expression
  | _ => exprStatement expression

/-- Statements up to a stop kind or the end; those that could not be built are left out. -/
def statements (stop : Kind → Bool) (expression : ExpressionParser) : Parser (List Node) := do
  return (← manyUntil stop (statement expression)).filter Node.isPresent

/-- Statements between braces; the current token is the opening one. The end of the text closes a
block too. -/
def block (expression : ExpressionParser) : Parser Node := do
  let brace ← current
  advance
  return .block brace (← statements (· == .rbrace) expression)

end MonkeyLang.Grammar
