import MonkeyLang.Proofs.Tree.Subtrees

/-!
# Well-formed trees

A node is well-formed in itself if it agrees with its token and its children are of the right sorts.
A tree is well-formed if each of its nodes is. A child that is an expression may be missing at every
place: this is what an error leaves. Nothing else may be missing but the alternative of a choice.
-/
namespace MonkeyLang

/-- A text of decimal digits, at least one. -/
def isNumeral (text : String) : Bool := !text.isEmpty && text.toList.all Char.isDigit

namespace Node

/-! ## Sorts of nodes -/

/-- Whether a node is an expression. -/
def isExpression : Node → Bool
  | identifier .. | integer .. | string .. | boolean .. | unary .. | binary .. | conditional ..
  | function .. | call .. | array .. | index .. => true
  | _ => false

/-- Whether a node may stand at the place of an expression. -/
def isOperand (node : Node) : Bool := !node.isPresent || node.isExpression

def isIdentifier : Node → Bool
  | identifier .. => true
  | _ => false

def isStatement : Node → Bool
  | letStatement .. | returnStatement .. | exprStatement .. => true
  | _ => false

def isBlock : Node → Bool
  | block .. => true
  | _ => false

/-- The kinds of the operators that stand between their sides. -/
def binaryKinds : List Kind := [.plus, .minus, .asterisk, .slash, .lt, .gt, .eq, .notEq]

/-! ## Agreement with the token -/

/-- A node agrees with its token, and its children are of the right sorts. -/
def Formed : Node → Prop
  | absent => True
  | text _ | foreign _ => False
  | identifier token name => token.kind = .ident ∧ name = token.lexeme
  | integer token value => token.kind = .int ∧ isNumeral token.lexeme ∧
    value = Nat.ofDigitChars 10 token.lexeme.toList 0 ∧ 0 ≤ value ∧ value ≤ 0x7fffffffffffffff
  | string token value => token.kind = .string ∧ value = token.lexeme
  | boolean token value => token.kind = if value then .kwTrue else .kwFalse
  | unary token operator operand =>
    (token.kind = .bang ∨ token.kind = .minus) ∧ operator = token.lexeme ∧ operand.isOperand
  | binary token operator left right =>
    token.kind ∈ binaryKinds ∧ operator = token.lexeme ∧ left.isOperand ∧ right.isOperand
  | conditional token condition consequence alternative =>
    token.kind = .kwIf ∧ condition.isOperand ∧ consequence.isBlock ∧
      (alternative.isPresent → alternative.isBlock)
  | function token parameters body =>
    token.kind = .kwFunction ∧ (∀ node ∈ parameters, node.isIdentifier) ∧ body.isBlock
  | call token callee arguments =>
    token.kind = .lparen ∧ callee.isOperand ∧ ∀ node ∈ arguments, node.isOperand
  | array token elements => token.kind = .lbracket ∧ ∀ node ∈ elements, node.isOperand
  | index token collection position =>
    token.kind = .lbracket ∧ collection.isOperand ∧ position.isOperand
  | letStatement token name value => token.kind = .kwLet ∧ name.isIdentifier ∧ value.isOperand
  | returnStatement token value => token.kind = .kwReturn ∧ value.isOperand
  | exprStatement _ expression => expression.isOperand
  | block token statements => token.kind = .lbrace ∧ ∀ node ∈ statements, node.isStatement
  | program statements => ∀ node ∈ statements, node.isStatement

/-- All nodes of a tree agree with their tokens. -/
def WellFormed (node : Node) : Prop := ∀ sub ∈ node.subtrees, sub.Formed

/-- A well-formed tree whose root is of the sort. -/
structure WellFormedAs (sort : Node → Bool) (node : Node) : Prop where
  root : sort node
  tree : node.WellFormed

/-! ## Trees from their roots -/

/-- The children of a node, whether they are there or not. -/
def children : Node → List Node
  | absent | text _ | foreign _ | identifier .. | integer .. | string .. | boolean .. => []
  | unary _ _ operand => [operand]
  | binary _ _ left right => [left, right]
  | conditional _ condition consequence alternative => [condition, consequence, alternative]
  | function _ parameters body => parameters ++ [body]
  | call _ callee arguments => callee :: arguments
  | array _ elements => elements
  | index _ collection position => [collection, position]
  | letStatement _ name value => [name, value]
  | returnStatement _ value => [value]
  | exprStatement _ expression => [expression]
  | block _ statements => statements
  | program statements => statements

theorem subtreesOf_append (nodes more : List Node) :
    subtreesOf (nodes ++ more) = subtreesOf nodes ++ subtreesOf more := by
  induction nodes with
  | nil => rfl
  | cons node nodes ih => rw [List.cons_append, subtreesOf, ih, subtreesOf, List.append_assoc]

/-- Below the root of a tree stand the trees of its children. -/
theorem subtrees_eq (node : Node) : node.subtrees = node :: subtreesOf node.children := by
  cases node <;> simp [subtrees, children, subtreesOf, subtreesOf_append]

theorem forall_subtreesOf {p : Node → Prop} {nodes : List Node} :
    (∀ sub ∈ subtreesOf nodes, p sub) ↔ ∀ node ∈ nodes, ∀ sub ∈ node.subtrees, p sub := by
  induction nodes with
  | nil => simp [subtreesOf]
  | cons node nodes ih => rw [subtreesOf, List.forall_mem_append, ih, List.forall_mem_cons]

theorem wellFormed_iff {node : Node} :
    node.WellFormed ↔ node.Formed ∧ ∀ child ∈ node.children, child.WellFormed := by
  rw [WellFormed, subtrees_eq, List.forall_mem_cons, forall_subtreesOf]
  rfl

theorem wellFormed_absent : WellFormed absent :=
  wellFormed_iff.mpr ⟨trivial, by simp [children]⟩

end Node

end MonkeyLang
