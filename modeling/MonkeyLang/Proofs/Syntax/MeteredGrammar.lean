import MonkeyLang.Grammar.Expression

/-!
# The grammar on a meter

A second form of the grammar, which trusts no measure. A metered parser has fuel for its loops and
for the expressions inside of each other, carries the depth at which it is, and can give up. It
gives up where its fuel runs out, where a turn of a loop moves past no token, and where an
expression starts inside of another one without being at a later token.
-/
namespace MonkeyLang

/-- The number of tokens from the current one on. -/
def Parser.left : Parser Nat where
  run _ tokens := ⟨tokens.length, 0, tokens, []⟩
  rest_run _ _ := rfl

/-- A parser that knows its depth and can give up. -/
abbrev Metered := StateT Nat (OptionT Parser)

namespace Metered

open MonkeyLang.Parser MonkeyLang.Grammar

variable {α : Type}

/-- Gives up unless fewer tokens are left than before. -/
def progress (before : Nat) : Metered Unit := do
  if (← left) < before then return () else failure

/-- Moves to the next token and goes on there if it has the kind; otherwise reports it, stays and
gives the other value. -/
def expect (kind : Kind) (missing : α) (found : Metered α) : Metered α := do
  let token ← upcoming
  if token.kind = kind then do
    advance
    found
  else do
    report (.unexpected kind token)
    return missing

/-- Moves on until a token of the kind or the end is current. -/
def skipTo (kind : Kind) : Nat → Metered Unit
  | 0 => failure
  | fuel + 1 => do
    let token ← current
    if token.kind = kind ∨ token.kind = .eof then return ()
    else do
      let before ← left
      advance
      progress before
      skipTo kind fuel

/-- Runs a parser and moves one token on, again and again, until a stop kind or the end is
current. -/
def manyUntil (stop : Kind → Bool) (item : Metered α) : Nat → Metered (List α)
  | 0 => failure
  | fuel + 1 => do
    let token ← current
    if stop token.kind ∨ token.kind = .eof then return []
    else do
      let before ← left
      let value ← item
      advance
      progress before
      return value :: (← manyUntil stop item fuel)

/-- As long as the next token is of an accepted kind, moves to it and takes a step from the value
reached so far. -/
def whileNext (test : Kind → Bool) (step : α → Metered α) : Nat → α → Metered α
  | 0, _ => failure
  | fuel + 1, value => do
    let token ← upcoming
    if test token.kind then do
      let before ← left
      advance
      progress before
      whileNext test step fuel (← step value)
    else return value

/-- Items with commas between them, up to a closing kind; the current token is the opener. -/
def commaList (fuel : Nat) (close : Kind) (item : Metered α) : Metered (Option (List α)) := do
  if (← upcoming).kind = close then
    advance
    return some []
  else
    advance
    let first ← item
    let items ← whileNext (· == .comma)
      (fun items => do
        advance
        return (← item) :: items)
      fuel [first]
    expect close none (return some items.reverse)

/-! ### Rules

They are the rules of the grammar over metered loops. The inner expressions are left to another
parser. -/

section

variable (fuel : Nat) (expression : Int → Metered Node)

def letStatement : Metered Node := do
  let token ← current
  expect .ident .absent do
    let name ← current
    expect .assign .absent do
      advance
      let value ← expression Precedence.lowest.rank
      skipOptional .semicolon
      return .letStatement token (.identifier name name.lexeme) value

def returnStatement : Metered Node := do
  let token ← current
  advance
  let value ← expression Precedence.lowest.rank
  skipTo .semicolon fuel
  return .returnStatement token value

def exprStatement : Metered Node := do
  let token ← current
  let value ← expression Precedence.lowest.rank
  skipOptional .semicolon
  return .exprStatement token value

def statement : Metered Node := do
  match (← current).kind with
  | .kwLet => letStatement expression
  | .kwReturn => returnStatement fuel expression
  | _ => exprStatement expression

def statements (stop : Kind → Bool) : Metered (List Node) := do
  return (← manyUntil stop (statement fuel expression) fuel).filter Node.isPresent

def block : Metered Node := do
  let brace ← current
  advance
  return .block brace (← statements fuel expression (· == .rbrace))

def unary : Metered Node := do
  let token ← current
  advance
  return .unary token token.lexeme (← expression Precedence.unary.rank)

def group : Metered Node := do
  advance
  let inner ← expression Precedence.lowest.rank
  expect .rparen .absent (return inner)

def conditional : Metered Node := do
  let token ← current
  expect .lparen .absent do
    advance
    let condition ← expression Precedence.lowest.rank
    expect .rparen .absent do
      expect .lbrace .absent do
        let consequence ← block fuel expression
        if (← upcoming).kind = .kwElse then do
          advance
          expect .lbrace .absent do
            return .conditional token condition consequence (← block fuel expression)
        else
          return .conditional token condition consequence .absent

def function : Metered Node := do
  let token ← current
  expect .lparen .absent do
    match ← commaList fuel .rparen parameter with
    | none => return .absent
    | some parameters =>
      if parameters.all Node.isPresent then
        expect .lbrace .absent do
          return .function token parameters (← block fuel expression)
      else
        return .absent

def array : Metered Node := do
  let token ← current
  match ← commaList fuel .rbracket (expression Precedence.lowest.rank) with
  | none => return .absent
  | some elements => return .array token elements

def binary (left : Node) : Metered Node := do
  let token ← current
  advance
  return .binary token token.lexeme left (← expression token.kind.rank)

def call (callee : Node) : Metered Node := do
  let token ← current
  match ← commaList fuel .rparen (expression Precedence.lowest.rank) with
  | none => return .absent
  | some arguments => return .call token callee arguments

def index (collection : Node) : Metered Node := do
  let token ← current
  advance
  let position ← expression Precedence.lowest.rank
  expect .rbracket .absent (return .index token collection position)

def opening : Opening → Metered Node
  | .identifier => identifier
  | .integer => integer
  | .string => string
  | .boolean value => boolean value
  | .unary => unary expression
  | .group => group expression
  | .conditional => conditional fuel expression
  | .function => function fuel expression
  | .array => array fuel expression

def continuation (left : Node) : Metered Node := do
  match (← current).kind.continuation? with
  | some .binary => binary expression left
  | some .call => call fuel expression left
  | some .index => index expression left
  | none => return left

/-- An expression above a floor. -/
def expressionOver (floor : Int) : Metered Node := do
  let token ← current
  match token.kind.opening? with
  | none => do
    report (.noExpression token)
    return .absent
  | some start => do
    let left ← opening fuel expression start
    whileNext (continues floor) (continuation fuel expression) fuel left

end

/-- An expression above a floor, one level deeper than what it stands in, unless that is the last
level. What it is made of starts at later tokens. -/
def expression : Nat → Int → Metered Node
  | 0, _ => failure
  | fuel + 1, floor => do
    let depth ← get
    if maxNesting ≤ depth then do
      report (.tooDeep maxNesting (← current))
      return .absent
    else do
      modify (· + 1)
      let here ← left
      let inner := fun floor => do
        progress here
        expression fuel floor
      let node ← expressionOver (fuel + 1) inner floor
      modify (· - 1)
      return node

/-- A whole program. -/
def program (fuel : Nat) : Metered Node := do
  return .program (← statements fuel (expression fuel) (fun _ => false))

end Metered

end MonkeyLang
