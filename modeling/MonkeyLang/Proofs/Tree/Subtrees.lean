import MonkeyLang.Node
import Mathlib.Data.List.Basic

/-!
# Subtrees

The nodes of a tree, each in front of those below it, and the tokens that they keep. An expression
statement keeps the first token of its expression, which may be the parenthesis of a grouping.
-/
namespace MonkeyLang.Node

mutual

/-- The nodes of a tree, its root first. -/
def subtrees : Node → List Node
  | absent => [absent]
  | text content => [text content]
  | foreign typeName => [foreign typeName]
  | identifier token name => [identifier token name]
  | integer token value => [integer token value]
  | string token value => [string token value]
  | boolean token value => [boolean token value]
  | unary token operator operand => unary token operator operand :: subtrees operand
  | binary token operator left right =>
    binary token operator left right :: (subtrees left ++ subtrees right)
  | conditional token condition consequence alternative =>
    conditional token condition consequence alternative ::
      (subtrees condition ++ subtrees consequence ++ subtrees alternative)
  | function token parameters body =>
    function token parameters body :: (subtreesOf parameters ++ subtrees body)
  | call token callee arguments =>
    call token callee arguments :: (subtrees callee ++ subtreesOf arguments)
  | array token elements => array token elements :: subtreesOf elements
  | index token collection position =>
    index token collection position :: (subtrees collection ++ subtrees position)
  | letStatement token name value =>
    letStatement token name value :: (subtrees name ++ subtrees value)
  | returnStatement token value => returnStatement token value :: subtrees value
  | exprStatement token expression => exprStatement token expression :: subtrees expression
  | block token statements => block token statements :: subtreesOf statements
  | program statements => program statements :: subtreesOf statements

/-- The nodes of trees in a row. -/
def subtreesOf : List Node → List Node
  | [] => []
  | node :: nodes => subtrees node ++ subtreesOf nodes

end

/-- The tokens that the nodes of a tree keep. -/
def stored (node : Node) : List Token := node.subtrees.filterMap token?

/-- The tokens that the nodes of trees in a row keep. -/
def storedOf (nodes : List Node) : List Token := (subtreesOf nodes).filterMap token?

/-- The brace and the statements of a block. -/
def block? : Node → Option (Token × List Node)
  | block token statements => some (token, statements)
  | _ => none

/-- The blocks of a tree, each as its brace and its statements. -/
def blocks (node : Node) : List (Token × List Node) := node.subtrees.filterMap block?

theorem mem_blocks {node : Node} {brace : Token} {statements : List Node} :
    (brace, statements) ∈ node.blocks ↔ block brace statements ∈ node.subtrees := by
  rw [blocks, List.mem_filterMap]
  constructor
  · rintro ⟨other, member, split⟩
    cases other with
    | block token statements =>
      obtain ⟨rfl, rfl⟩ := Prod.mk.inj (Option.some.inj split)
      exact member
    | _ => simp [block?] at split
  · intro member
    exact ⟨block brace statements, member, rfl⟩

@[simp] theorem storedOf_nil : storedOf [] = [] := rfl

@[simp] theorem storedOf_cons (node : Node) (nodes : List Node) :
    storedOf (node :: nodes) = node.stored ++ storedOf nodes :=
  List.filterMap_append

section

variable (token : Token)

@[simp] theorem stored_absent : absent.stored = [] := rfl

@[simp] theorem stored_identifier (name : String) : (identifier token name).stored = [token] := rfl

@[simp] theorem stored_integer (value : Int) : (integer token value).stored = [token] := rfl

@[simp] theorem stored_string (value : String) : (string token value).stored = [token] := rfl

@[simp] theorem stored_boolean (value : Bool) : (boolean token value).stored = [token] := rfl

@[simp] theorem stored_unary (operator : String) (operand : Node) :
    (unary token operator operand).stored = token :: operand.stored := rfl

@[simp] theorem stored_binary (operator : String) (left right : Node) :
    (binary token operator left right).stored = token :: (left.stored ++ right.stored) :=
  congrArg (token :: ·) List.filterMap_append

@[simp] theorem stored_conditional (condition consequence alternative : Node) :
    (conditional token condition consequence alternative).stored =
      token :: (condition.stored ++ consequence.stored ++ alternative.stored) := by
  change token ::
    (subtrees condition ++ subtrees consequence ++ subtrees alternative).filterMap token? = _
  rw [List.filterMap_append, List.filterMap_append]
  rfl

@[simp] theorem stored_function (parameters : List Node) (body : Node) :
    (function token parameters body).stored = token :: (storedOf parameters ++ body.stored) :=
  congrArg (token :: ·) List.filterMap_append

@[simp] theorem stored_call (callee : Node) (arguments : List Node) :
    (call token callee arguments).stored = token :: (callee.stored ++ storedOf arguments) :=
  congrArg (token :: ·) List.filterMap_append

@[simp] theorem stored_array (elements : List Node) :
    (array token elements).stored = token :: storedOf elements := rfl

@[simp] theorem stored_index (collection position : Node) :
    (index token collection position).stored =
      token :: (collection.stored ++ position.stored) :=
  congrArg (token :: ·) List.filterMap_append

@[simp] theorem stored_letStatement (name value : Node) :
    (letStatement token name value).stored = token :: (name.stored ++ value.stored) :=
  congrArg (token :: ·) List.filterMap_append

@[simp] theorem stored_returnStatement (value : Node) :
    (returnStatement token value).stored = token :: value.stored := rfl

@[simp] theorem stored_exprStatement (expression : Node) :
    (exprStatement token expression).stored = token :: expression.stored := rfl

@[simp] theorem stored_block (statements : List Node) :
    (block token statements).stored = token :: storedOf statements := rfl

end

end MonkeyLang.Node
