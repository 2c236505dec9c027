import MonkeyLang.Token

/-!
# Syntax trees

One type for programs, statements and expressions, so that a tree may also hold what no program
gives: an absent child, a plain text or a foreign object at any place. A node keeps the token
that introduced it.
-/
namespace MonkeyLang

/-- A node of a syntax tree. -/
inductive Node where
  /-- A child that could not be built. -/
  | absent
  /-- A text in place of a node. -/
  | text (content : String)
  /-- An object of another type in place of a node. -/
  | foreign (typeName : String)
  | identifier (token : Token) (name : String)
  | integer (token : Token) (value : Int)
  /-- A string literal; its value leaves out the quotes. -/
  | string (token : Token) (value : String)
  | boolean (token : Token) (value : Bool)
  | unary (token : Token) (operator : String) (operand : Node)
  | binary (token : Token) (operator : String) (left right : Node)
  /-- A choice between two blocks; without an else branch the alternative is absent. -/
  | conditional (token : Token) (condition consequence alternative : Node)
  | function (token : Token) (parameters : List Node) (body : Node)
  /-- A call; its token is the opening parenthesis. -/
  | call (token : Token) (callee : Node) (arguments : List Node)
  | array (token : Token) (elements : List Node)
  /-- An element of a collection; its token is the opening bracket. -/
  | index (token : Token) (collection position : Node)
  | letStatement (token : Token) (name value : Node)
  | returnStatement (token : Token) (value : Node)
  /-- An expression in place of a statement; its token is the first of the expression. -/
  | exprStatement (token : Token) (expression : Node)
  | block (token : Token) (statements : List Node)
  | program (statements : List Node)
  deriving Repr, Inhabited

namespace Node

/-- Whether there is a node at all. -/
def isPresent : Node → Bool
  | absent => false
  | _ => true

/-- The token that introduced a node. A program has none, nor has anything that is no node. -/
def token? : Node → Option Token
  | absent | text _ | foreign _ | program _ => none
  | identifier token _ | integer token _ | string token _ | boolean token _ | unary token _ _
  | binary token _ _ _ | conditional token _ _ _ | function token _ _ | call token _ _
  | array token _ | index token _ _ | letStatement token _ _ | returnStatement token _
  | exprStatement token _ | block token _ => some token

/-- The text of the token that introduced a node. A program has that of its first statement, an
empty one the empty text. -/
def tokenLiteral : Node → Option String
  | program [] => some ""
  | program (first :: _) => first.tokenLiteral
  | node => node.token?.map Token.lexeme

end Node

end MonkeyLang
