import MonkeyLang.Grammar.Expression

/-!
# Derivations

The grammar of the language as a relation between tokens and trees, stated without the parser.
A phrase relates the tokens from a place on, the tokens behind it, and the value that it denotes.
Every rule is stated over the expressions one level further in, so the depth of a derivation is
visible in its type: an expression on a budget of levels uses those on a budget of one less.
-/
namespace MonkeyLang.Derivation

/-- A reading of tokens: from the first list up to the second stands a phrase for the value. -/
abbrev Phrase (α : Type) := List Token → List Token → α → Prop

/-- Whether an expression above the floor has to go on with the next token. The greedy reading
leaves no such token behind it. -/
def Stops (floor : Int) (rest : List Token) : Prop :=
  ∀ token ∈ rest.head?, token.kind.continuation?.isSome → token.kind.rank ≤ floor

/-- A token that is an expression of its own. -/
inductive Atom : Token → Node → Prop
  | identifier {token : Token} (kind : token.kind = .ident) :
    Atom token (.identifier token token.lexeme)
  | integer {token : Token} (kind : token.kind = .int)
    (digits : token.lexeme.toList.length ≤ 4300)
    (range : Nat.ofDigitChars 10 token.lexeme.toList 0 ≤ 0x7fffffffffffffff) :
    Atom token (.integer token (Nat.ofDigitChars 10 token.lexeme.toList 0))
  | string {token : Token} (kind : token.kind = .string) : Atom token (.string token token.lexeme)
  | true {token : Token} (kind : token.kind = .kwTrue) : Atom token (.boolean token Bool.true)
  | false {token : Token} (kind : token.kind = .kwFalse) : Atom token (.boolean token Bool.false)

/-- One name. -/
inductive Name : Phrase Node
  | intro {token : Token} {rest : List Token} (kind : token.kind = .ident) :
    Name (token :: rest) rest (.identifier token token.lexeme)

/-- One or more items with commas between them. -/
inductive Items (item : Phrase Node) : Phrase (List Node)
  | last {tokens rest : List Token} {node : Node} (head : item tokens rest node) :
    Items item tokens rest [node]
  | more {tokens middle rest : List Token} {comma : Token} {node : Node} {nodes : List Node}
    (head : item tokens (comma :: middle) node) (kind : comma.kind = .comma)
    (tail : Items item middle rest nodes) : Items item tokens rest (node :: nodes)

/-- Any number of items with commas between them, and the token that closes the list. -/
inductive Listing (close : Kind) (item : Phrase Node) : Phrase (List Node)
  | empty {closer : Token} {rest : List Token} (kind : closer.kind = close) :
    Listing close item (closer :: rest) rest []
  | items {tokens rest : List Token} {closer : Token} {nodes : List Node}
    (items : Items item tokens (closer :: rest) nodes) (kind : closer.kind = close) :
    Listing close item tokens rest nodes

/-- A semicolon that may be missing. -/
inductive OptionalSemicolon : List Token → List Token → Prop
  | missing {rest : List Token} : OptionalSemicolon rest rest
  | present {semicolon : Token} {rest : List Token} (kind : semicolon.kind = .semicolon) :
    OptionalSemicolon (semicolon :: rest) rest

/-- A semicolon, or the end of the input in its place. -/
inductive Terminator : List Token → List Token → Prop
  | semicolon {semicolon : Token} {rest : List Token} (kind : semicolon.kind = .semicolon) :
    Terminator (semicolon :: rest) rest
  | endOfInput : Terminator [] []

section

variable (inner : Int → Phrase Node)

/-- One statement. Between the value of a return and the end of the statement anything but a
semicolon may stand. -/
inductive Statement : Phrase Node
  | letTo {keyword name assign : Token} {tokens middle rest : List Token} {value : Node}
    (keyword_kind : keyword.kind = .kwLet) (name_kind : name.kind = .ident)
    (assign_kind : assign.kind = .assign)
    (value_phrase : inner Precedence.lowest.rank tokens middle value)
    (semicolon : OptionalSemicolon middle rest) :
    Statement (keyword :: name :: assign :: tokens) rest
      (.letStatement keyword (.identifier name name.lexeme) value)
  | returned {keyword : Token} {tokens skipped middle rest : List Token} {value : Node}
    (keyword_kind : keyword.kind = .kwReturn)
    (value_phrase : inner Precedence.lowest.rank tokens (skipped ++ middle) value)
    (skips : ∀ token ∈ skipped, token.kind ≠ .semicolon) (terminator : Terminator middle rest) :
    Statement (keyword :: tokens) rest (.returnStatement keyword value)
  | expression {first : Token} {tokens middle rest : List Token} {value : Node}
    (value_phrase : inner Precedence.lowest.rank (first :: tokens) middle value)
    (semicolon : OptionalSemicolon middle rest) :
    Statement (first :: tokens) rest (.exprStatement first value)

/-- Statements in a row. -/
inductive Statements : Phrase (List Node)
  | nil {rest : List Token} : Statements rest rest []
  | cons {tokens middle rest : List Token} {node : Node} {nodes : List Node}
    (head : Statement inner tokens middle node) (tail : Statements middle rest nodes) :
    Statements tokens rest (node :: nodes)

/-- Statements between braces. The closing brace may be missing at the end of the input only. -/
inductive Block : Phrase Node
  | closed {brace closer : Token} {tokens rest : List Token} {nodes : List Node}
    (brace_kind : brace.kind = .lbrace) (body : Statements inner tokens (closer :: rest) nodes)
    (closer_kind : closer.kind = .rbrace) : Block (brace :: tokens) rest (.block brace nodes)
  | unclosed {brace : Token} {tokens : List Token} {nodes : List Node}
    (brace_kind : brace.kind = .lbrace) (body : Statements inner tokens [] nodes) :
    Block (brace :: tokens) [] (.block brace nodes)

/-- What an expression starts with. A choice without an else branch is not followed by an else. -/
inductive Primary : Phrase Node
  | atom {token : Token} {rest : List Token} {node : Node} (atom : Atom token node) :
    Primary (token :: rest) rest node
  | unary {token : Token} {tokens rest : List Token} {operand : Node}
    (kind : token.kind = .bang ∨ token.kind = .minus)
    (operand_phrase : inner Precedence.unary.rank tokens rest operand) :
    Primary (token :: tokens) rest (.unary token token.lexeme operand)
  | group {opener closer : Token} {tokens rest : List Token} {node : Node}
    (opener_kind : opener.kind = .lparen)
    (phrase : inner Precedence.lowest.rank tokens (closer :: rest) node)
    (closer_kind : closer.kind = .rparen) : Primary (opener :: tokens) rest node
  | conditional {keyword opener closer : Token} {tokens body rest : List Token}
    {condition consequence : Node} (keyword_kind : keyword.kind = .kwIf)
    (opener_kind : opener.kind = .lparen)
    (condition_phrase : inner Precedence.lowest.rank tokens (closer :: body) condition)
    (closer_kind : closer.kind = .rparen) (consequence_phrase : Block inner body rest consequence)
    (no_else : ∀ token ∈ rest.head?, token.kind ≠ .kwElse) :
    Primary (keyword :: opener :: tokens) rest (.conditional keyword condition consequence .absent)
  | conditionalElse {keyword opener closer kwElse : Token} {tokens body other rest : List Token}
    {condition consequence alternative : Node} (keyword_kind : keyword.kind = .kwIf)
    (opener_kind : opener.kind = .lparen)
    (condition_phrase : inner Precedence.lowest.rank tokens (closer :: body) condition)
    (closer_kind : closer.kind = .rparen)
    (consequence_phrase : Block inner body (kwElse :: other) consequence)
    (else_kind : kwElse.kind = .kwElse) (alternative_phrase : Block inner other rest alternative) :
    Primary (keyword :: opener :: tokens) rest
      (.conditional keyword condition consequence alternative)
  | function {keyword opener : Token} {tokens body rest : List Token} {parameters : List Node}
    {node : Node} (keyword_kind : keyword.kind = .kwFunction)
    (opener_kind : opener.kind = .lparen)
    (parameters_phrase : Listing .rparen Name tokens body parameters)
    (body_phrase : Block inner body rest node) :
    Primary (keyword :: opener :: tokens) rest (.function keyword parameters node)
  | array {opener : Token} {tokens rest : List Token} {elements : List Node}
    (kind : opener.kind = .lbracket)
    (elements_phrase : Listing .rbracket (inner Precedence.lowest.rank) tokens rest elements) :
    Primary (opener :: tokens) rest (.array opener elements)

/-- One continuation of a left side. An operator reads its right side above its own rank. -/
inductive Tail (floor : Int) (left : Node) : Phrase Node
  | binary {operator : Token} {tokens rest : List Token} {right : Node}
    (kind : operator.kind.continuation? = some .binary) (binds : floor < operator.kind.rank)
    (right_phrase : inner operator.kind.rank tokens rest right) :
    Tail floor left (operator :: tokens) rest (.binary operator operator.lexeme left right)
  | call {opener : Token} {tokens rest : List Token} {arguments : List Node}
    (kind : opener.kind = .lparen) (binds : floor < Precedence.call.rank)
    (arguments_phrase : Listing .rparen (inner Precedence.lowest.rank) tokens rest arguments) :
    Tail floor left (opener :: tokens) rest (.call opener left arguments)
  | index {opener closer : Token} {tokens rest : List Token} {position : Node}
    (kind : opener.kind = .lbracket) (binds : floor < Precedence.call.rank)
    (position_phrase : inner Precedence.lowest.rank tokens (closer :: rest) position)
    (closer_kind : closer.kind = .rbracket) :
    Tail floor left (opener :: tokens) rest (.index opener left position)

/-- Continuations in a row, each of what stands before it. -/
inductive Tails (floor : Int) : Node → Phrase Node
  | nil {left : Node} {rest : List Token} : Tails floor left rest rest left
  | cons {left node result : Node} {tokens middle rest : List Token}
    (head : Tail inner floor left tokens middle node) (tail : Tails floor node middle rest result) :
    Tails floor left tokens rest result

/-- An opening and its continuations, wherever these end. -/
inductive Segment (floor : Int) : Phrase Node
  | intro {tokens middle rest : List Token} {left node : Node}
    (primary : Primary inner tokens middle left) (tails : Tails inner floor left middle rest node) :
    Segment floor tokens rest node

end

section

variable {inner : Int → Phrase Node} {floor : Int} {tokens middle rest : List Token}
  {left node : Node}

theorem Tails.append {start : Node} (h : Tails inner floor start tokens middle left)
    (h' : Tails inner floor left middle rest node) : Tails inner floor start tokens rest node := by
  induction h with
  | nil => exact h'
  | cons head tail ih => exact .cons head (ih h')

/-- A segment goes on with one more continuation. -/
theorem Segment.extend (h : Segment inner floor tokens middle left)
    (h' : Tail inner floor left middle rest node) : Segment inner floor tokens rest node := by
  obtain ⟨primary, tails⟩ := h
  exact .intro primary (tails.append (.cons h' .nil))

theorem stops_cons {token : Token} (h : token.kind.rank ≤ floor) :
    Stops floor (token :: rest) := by
  intro other ho _
  obtain rfl : token = other := by simpa using ho
  exact h

end

/-- An expression above a floor, on a budget of levels of nesting: the longest one that starts at
its place. -/
def Expression : Nat → Int → Phrase Node
  | 0, _ => fun _ _ _ => False
  | budget + 1, floor => fun tokens rest node =>
    Segment (Expression budget) floor tokens rest node ∧ Stops floor rest

/-- A whole token sequence, the end token last. -/
inductive Program : List Token → Node → Prop
  | intro {tokens : List Token} {eof : Token} {nodes : List Node}
    (before_end : ∀ token ∈ tokens, token.kind ≠ .eof) (eof_kind : eof.kind = .eof)
    (body : Statements (Expression 100) tokens [] nodes) :
    Program (tokens ++ [eof]) (.program nodes)

end MonkeyLang.Derivation
