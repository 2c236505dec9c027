import MonkeyLang.Proofs.Syntax.Relocation

/-!
# Legible trees

The trees whose canonical text is text of the language: names, integers and truth values under
signs, binary operators, calls, arrays and positions, each node with the token that it is written
with. Their text is given by its tokens, and the nesting of that text by a count of levels.
Parentheses around each operator cost levels that the tree alone does not show.
-/
namespace MonkeyLang

/-- The operators in front of an operand. -/
def signs : List (Kind × String) := [(.bang, "!"), (.minus, "-")]

/-- The operators between two operands. -/
def operators : List (Kind × String) :=
  [(.plus, "+"), (.minus, "-"), (.asterisk, "*"), (.slash, "/"), (.lt, "<"), (.gt, ">"),
    (.eq, "=="), (.notEq, "!=")]

/-- A name that is no reserved word. -/
inductive LegibleName : Node → Prop
  | intro {token : Token} (kind : token.kind = .ident) (nonempty : token.lexeme ≠ "")
    (letters : ∀ c ∈ token.lexeme.toList, isWordChar c)
    (unreserved : token.lexeme ∉ Kind.keywords.map Prod.fst) :
    LegibleName (.identifier token token.lexeme)

/-- An expression whose canonical text is text of the language. -/
inductive Legible : Node → Prop
  | name {node : Node} (name : LegibleName node) : Legible node
  | integer {token : Token} (kind : token.kind = .int) (nonempty : token.lexeme ≠ "")
    (digits : ∀ c ∈ token.lexeme.toList, c.isDigit) (length : token.lexeme.toList.length ≤ 4300)
    (range : Nat.ofDigitChars 10 token.lexeme.toList 0 ≤ 0x7fffffffffffffff) :
    Legible (.integer token (Nat.ofDigitChars 10 token.lexeme.toList 0))
  | true {token : Token} (content : token.content = (.kwTrue, "true")) :
    Legible (.boolean token Bool.true)
  | false {token : Token} (content : token.content = (.kwFalse, "false")) :
    Legible (.boolean token Bool.false)
  | unary {token : Token} {operand : Node} (sign : token.content ∈ signs)
    (operand_legible : Legible operand) : Legible (.unary token token.lexeme operand)
  | binary {token : Token} {left right : Node} (operator : token.content ∈ operators)
    (left_legible : Legible left) (right_legible : Legible right) :
    Legible (.binary token token.lexeme left right)
  | call {token : Token} {callee : Node} {arguments : List Node}
    (content : token.content = (.lparen, "(")) (callee_legible : Legible callee)
    (arguments_legible : ∀ argument ∈ arguments, Legible argument) :
    Legible (.call token callee arguments)
  | array {token : Token} {elements : List Node} (content : token.content = (.lbracket, "["))
    (elements_legible : ∀ element ∈ elements, Legible element) : Legible (.array token elements)
  | index {token : Token} {collection position : Node}
    (content : token.content = (.lbracket, "[")) (collection_legible : Legible collection)
    (position_legible : Legible position) : Legible (.index token collection position)

namespace Node

mutual

/-- The levels of nesting in the canonical text of an expression. -/
def levels : Node → Nat
  | unary _ _ operand => 2 + levels operand
  | binary _ _ left right => max (1 + levels left) (2 + levels right)
  | call _ callee arguments => max (levels callee) (levelsWithin arguments)
  | array _ elements => max 1 (levelsWithin elements)
  | index _ collection position => max (levels collection) (1 + levels position)
  | _ => 1

/-- The levels of a list, each node one level further in. -/
def levelsWithin : List Node → Nat
  | [] => 0
  | node :: rest => max (1 + levels node) (levelsWithin rest)

end

theorem levelsWithin_le {nodes : List Node} {bound : Nat} (h : levelsWithin nodes ≤ bound) :
    ∀ node ∈ nodes, 1 + node.levels ≤ bound := by
  induction nodes with
  | nil => simp
  | cons first rest ih =>
    rw [levelsWithin] at h
    intro node hn
    rcases List.mem_cons.mp hn with rfl | hn
    · omega
    · exact ih (by omega) node hn

end Node

theorem Legible.ne_absent {node : Node} (h : Legible node) : node ≠ .absent := by
  cases h with
  | name name =>
    cases name
    exact Node.noConfusion
  | _ => exact Node.noConfusion

theorem Legible.levels_pos {node : Node} (h : Legible node) : 0 < node.levels := by
  induction h with
  | name h =>
    cases h
    exact Nat.one_pos
  | integer => exact Nat.one_pos
  | true => exact Nat.one_pos
  | false => exact Nat.one_pos
  | unary => rw [Node.levels]; omega
  | binary => rw [Node.levels]; omega
  | call _ _ _ ih _ => rw [Node.levels]; omega
  | array => rw [Node.levels]; omega
  | index _ _ _ ih _ => rw [Node.levels]; omega

/-- Let and return statements with legible values of at most a hundred levels, behind which one
such expression may stand. -/
inductive LegibleProgram : List Node → Prop
  | empty : LegibleProgram []
  | expression {token : Token} {value : Node} (value_legible : Legible value)
    (value_levels : value.levels ≤ 100) : LegibleProgram [.exprStatement token value]
  | letTo {token : Token} {name value : Node} {rest : List Node}
    (content : token.content = (.kwLet, "let")) (name_legible : LegibleName name)
    (value_legible : Legible value) (value_levels : value.levels ≤ 100)
    (rest_legible : LegibleProgram rest) : LegibleProgram (.letStatement token name value :: rest)
  | returned {token : Token} {value : Node} {rest : List Node}
    (content : token.content = (.kwReturn, "return")) (value_legible : Legible value)
    (value_levels : value.levels ≤ 100) (rest_legible : LegibleProgram rest) :
    LegibleProgram (.returnStatement token value :: rest)

namespace Node

mutual

/-- The tokens of the canonical text, each as its kind with its text. Nothing but what can be part
of a legible program has any. -/
def written : Node → List (Kind × String)
  | identifier token _ | integer token _ | boolean token _ => [token.content]
  | unary token _ operand => (.lparen, "(") :: token.content :: written operand ++ [(.rparen, ")")]
  | binary token _ left right =>
    (.lparen, "(") :: written left ++ token.content :: written right ++ [(.rparen, ")")]
  | call token callee arguments =>
    written callee ++ token.content :: writtenList arguments ++ [(.rparen, ")")]
  | array token elements => token.content :: writtenList elements ++ [(.rbracket, "]")]
  | index token collection position =>
    written collection ++ token.content :: written position ++ [(.rbracket, "]")]
  | letStatement token name value =>
    token.content :: written name ++ (.assign, "=") :: written value ++ [(.semicolon, ";")]
  | returnStatement token value => token.content :: written value ++ [(.semicolon, ";")]
  | exprStatement _ expression => written expression
  | program statements => writtenAll statements
  | _ => []

/-- The tokens of nodes with a comma between any two. -/
def writtenList : List Node → List (Kind × String)
  | [] => []
  | [node] => written node
  | node :: second :: rest => written node ++ (.comma, ",") :: writtenList (second :: rest)

/-- The tokens of nodes one behind another. -/
def writtenAll : List Node → List (Kind × String)
  | [] => []
  | node :: rest => written node ++ writtenAll rest

end

section

variable (token : Token) (operator : String)

@[simp] theorem written_identifier (name : String) :
    (identifier token name).written = [token.content] := rfl

@[simp] theorem written_integer (value : Int) :
    (integer token value).written = [token.content] := rfl

@[simp] theorem written_boolean (value : Bool) :
    (boolean token value).written = [token.content] := rfl

@[simp] theorem written_unary (operand : Node) : (unary token operator operand).written =
    (.lparen, "(") :: token.content :: operand.written ++ [(.rparen, ")")] := rfl

@[simp] theorem written_binary (left right : Node) : (binary token operator left right).written =
    (.lparen, "(") :: left.written ++ token.content :: right.written ++ [(.rparen, ")")] := rfl

@[simp] theorem written_call (callee : Node) (arguments : List Node) :
    (call token callee arguments).written =
      callee.written ++ token.content :: writtenList arguments ++ [(.rparen, ")")] := rfl

@[simp] theorem written_array (elements : List Node) : (array token elements).written =
    token.content :: writtenList elements ++ [(.rbracket, "]")] := rfl

@[simp] theorem written_index (collection position : Node) :
    (index token collection position).written =
      collection.written ++ token.content :: position.written ++ [(.rbracket, "]")] := rfl

@[simp] theorem written_letStatement (name value : Node) :
    (letStatement token name value).written =
      token.content :: name.written ++ (.assign, "=") :: value.written ++ [(.semicolon, ";")] :=
  rfl

@[simp] theorem written_returnStatement (value : Node) : (returnStatement token value).written =
    token.content :: value.written ++ [(.semicolon, ";")] := rfl

@[simp] theorem written_exprStatement (expression : Node) :
    (exprStatement token expression).written = expression.written := rfl

@[simp] theorem writtenList_cons_cons (first second : Node) (others : List Node) :
    writtenList (first :: second :: others) =
      first.written ++ (.comma, ",") :: writtenList (second :: others) := rfl

@[simp] theorem writtenAll_nil : writtenAll [] = [] := rfl

@[simp] theorem writtenAll_cons (node : Node) (rest : List Node) :
    writtenAll (node :: rest) = node.written ++ writtenAll rest := rfl

end

/-- A statement without its own token if it is an expression, which only repeats where that
starts. -/
def withoutStart : Node → Node
  | exprStatement _ expression => exprStatement ⟨.eof, "", none⟩ expression
  | node => node

/-- A program up to the places of its tokens, and up to the own tokens of its expressions. -/
def outline (node : Node) : Node :=
  match node.relocate .unplaced with
  | program statements => program (statements.map withoutStart)
  | other => other

end Node

end MonkeyLang
