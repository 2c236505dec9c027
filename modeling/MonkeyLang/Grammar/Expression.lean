import MonkeyLang.Grammar.Statement

/-!
# Expressions

An expression is an opening followed by continuations, each taken as long as it binds tighter
than a floor. An operator reads its right side with its own rank as the floor, so operators of
one rank group to the left. The rules are over a parser for the inner expressions; the parser for
all of them runs on a budget that shrinks by one with each level of nesting.
-/
namespace MonkeyLang.Grammar

open MonkeyLang.Parser

/-- The deepest nesting of expressions. -/
def maxNesting : Nat := 100

/-- The greatest integer of the language: the last that fits in 64 bits with a sign. -/
def maxInteger : Nat := 0x7fffffffffffffff

/-- The greatest number of digits in which an integer may be written. -/
def maxDigits : Nat := 4300

/-- The integer that a run of digits denotes, if it is one of the language. -/
def integerValue? (digits : List Char) : Option Nat :=
  if maxDigits < digits.length then none
  else
    let value := Nat.ofDigitChars 10 digits 0
    if maxInteger < value then none else some value

/-- A name. -/
def identifier : Parser Node := do
  let token ← current
  return .identifier token token.lexeme

/-- An integer in digits. -/
def integer : Parser Node := do
  let token ← current
  match integerValue? token.lexeme.toList with
  | some value => return .integer token value
  | none => do
    report (.malformedInteger token)
    return .absent

/-- A string. -/
def string : Parser Node := do
  let token ← current
  return .string token token.lexeme

/-- A truth value. -/
def boolean (value : Bool) : Parser Node := do
  return .boolean (← current) value

/-- An operator in front of its operand. -/
def unary (expression : ExpressionParser) : Parser Node := do
  let token ← current
  advance
  return .unary token token.lexeme (← expression Precedence.unary.rank)

/-- An expression in parentheses, which leave no node. -/
def group (expression : ExpressionParser) : Parser Node := do
  advance
  let inner ← anyExpression expression
  expect .rparen .absent (return inner)

/-- A condition in parentheses and a block, perhaps with an else and another block. -/
def conditional (expression : ExpressionParser) : Parser Node := do
  let token ← current
  expect .lparen .absent do
    advance
    let condition ← anyExpression expression
    expect .rparen .absent do
      expect .lbrace .absent do
        let consequence ← block expression
        if (← upcoming).kind = .kwElse then do
          advance
          expect .lbrace .absent do
            return .conditional token condition consequence (← block expression)
        else
          return .conditional token condition consequence .absent

/-- A name in a parameter list. -/
def parameter : Parser Node := do
  let token ← current
  if token.kind = .ident then
    return .identifier token token.lexeme
  else do
    report (.unexpected .ident token)
    return .absent

/-- Parameters in parentheses and a block. No block is read unless every parameter is a name. -/
def function (expression : ExpressionParser) : Parser Node := do
  let token ← current
  expect .lparen .absent do
    match ← commaList .rparen parameter with
    | none => return .absent
    | some parameters =>
      if parameters.all Node.isPresent then
        expect .lbrace .absent do
          return .function token parameters (← block expression)
      else
        return .absent

/-- Elements in brackets. -/
def array (expression : ExpressionParser) : Parser Node := do
  let token ← current
  match ← commaList .rbracket (anyExpression expression) with
  | none => return .absent
  | some elements => return .array token elements

/-- An operator behind its left side. -/
def binary (expression : ExpressionParser) (left : Node) : Parser Node := do
  let token ← current
  advance
  return .binary token token.lexeme left (← expression token.kind.rank)

/-- Arguments in parentheses behind what is called. -/
def call (expression : ExpressionParser) (callee : Node) : Parser Node := do
  let token ← current
  match ← commaList .rparen (anyExpression expression) with
  | none => return .absent
  | some arguments => return .call token callee arguments

/-- A position in brackets behind a collection. -/
def index (expression : ExpressionParser) (collection : Node) : Parser Node := do
  let token ← current
  advance
  let position ← anyExpression expression
  expect .rbracket .absent (return .index token collection position)

/-- The rule for an opening; its token is current. -/
def opening (expression : ExpressionParser) : Opening → Parser Node
  | .identifier => identifier
  | .integer => integer
  | .string => string
  | .boolean value => boolean value
  | .unary => unary expression
  | .group => group expression
  | .conditional => conditional expression
  | .function => function expression
  | .array => array expression

/-- The rule for the continuation of a left side; its token is current. -/
def continuation (expression : ExpressionParser) (left : Node) : Parser Node := do
  match (← current).kind.continuation? with
  | some .binary => binary expression left
  | some .call => call expression left
  | some .index => index expression left
  | none => return left

/-- Whether a kind of token continues an expression above a floor. -/
def continues (floor : Int) (kind : Kind) : Bool :=
  kind.continuation?.isSome && decide (floor < kind.rank)

/-- An expression above a floor, with the inner expressions left to another parser. -/
def expressionOver (expression : ExpressionParser) : ExpressionParser := fun floor => do
  let token ← current
  match token.kind.opening? with
  | none => do
    report (.noExpression token)
    return .absent
  | some start => do
    let left ← opening expression start
    whileNext (continues floor) (continuation expression) left

/-- An expression above a floor, nested no deeper than a budget. -/
def expressionWithin : Nat → ExpressionParser
  | 0, _ => do
    report (.tooDeep maxNesting (← current))
    return .absent
  | budget + 1, floor => expressionOver (expressionWithin budget) floor

/-- An expression above a floor. -/
def expression : ExpressionParser := expressionWithin maxNesting

/-- A whole program. -/
def program : Parser Node := do
  return .program (← statements (fun _ => false) expression)

end MonkeyLang.Grammar
