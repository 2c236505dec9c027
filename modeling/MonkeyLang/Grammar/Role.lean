import MonkeyLang.Token.Kind

/-!
# Roles of token kinds

Which kinds can start an expression, which can continue one, and how tightly a continuation
binds. The parser consults nothing else to decide where an expression goes on.
-/
namespace MonkeyLang

/-- The binding powers, weakest first. -/
inductive Precedence where
  | lowest
  | equals
  | lessGreater
  | sum
  | product
  | unary
  | call
  deriving Repr, DecidableEq

namespace Precedence

/-- From the weakest to the strongest. -/
def all : List Precedence := [lowest, equals, lessGreater, sum, product, unary, call]

/-- The name under which the registry speaks of a binding power. -/
def name : Precedence → String
  | lowest => "LOWEST"
  | equals => "EQUALS"
  | lessGreater => "LESSGREATER"
  | sum => "SUM"
  | product => "PRODUCT"
  | unary => "PREFIX"
  | call => "CALL"

/-- Binding powers as numbers, to be compared with any other number. -/
def rank : Precedence → Int
  | lowest => 1
  | equals => 2
  | lessGreater => 3
  | sum => 4
  | product => 5
  | unary => 6
  | call => 7

/-- The binding power with a given name, if there is one. -/
def ofName? (text : String) : Option Precedence := all.find? (·.name == text)

end Precedence

/-- What an expression can start with. -/
inductive Opening where
  | identifier
  | integer
  | string
  | boolean (value : Bool)
  | unary
  | group
  | conditional
  | function
  | array
  deriving Repr, DecidableEq

/-- What an expression can go on with. -/
inductive Continuation where
  | binary
  | call
  | index
  deriving Repr, DecidableEq

namespace Kind

/-- The expression that a token of the kind starts, if it starts one. -/
def opening? : Kind → Option Opening
  | ident => some .identifier
  | int => some .integer
  | string => some .string
  | kwTrue => some (.boolean true)
  | kwFalse => some (.boolean false)
  | bang | minus => some .unary
  | lparen => some .group
  | kwIf => some .conditional
  | kwFunction => some .function
  | lbracket => some .array
  | _ => none

/-- How a token of the kind continues an expression, if it can. -/
def continuation? : Kind → Option Continuation
  | plus | minus | slash | asterisk | eq | notEq | lt | gt => some .binary
  | lparen => some .call
  | lbracket => some .index
  | _ => none

/-- The binding power of a kind that continues an expression. -/
def precedence? : Kind → Option Precedence
  | eq | notEq => some .equals
  | lt | gt => some .lessGreater
  | plus | minus => some .sum
  | slash | asterisk => some .product
  | lparen | lbracket => some .call
  | _ => none

/-- The rank of a kind; one without a binding power has the lowest. -/
def rank (kind : Kind) : Int := (kind.precedence?.getD .lowest).rank

/-- Just the kinds with a binding power continue an expression. -/
theorem isSome_continuation? (kind : Kind) :
    kind.continuation?.isSome = kind.precedence?.isSome := by
  cases kind <;> rfl

end Kind

end MonkeyLang
