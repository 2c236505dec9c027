import MonkeyLang.Node

/-!
# Canonical text of a tree

Operators come out fully parenthesised, so the text shows how a tree is grouped. A node is split
into texts and child nodes in the order of output; a stack of such parts is worked off from the
left, so the depth of a tree costs no recursion. A foreign object has no text: the first one that
is reached ends the work.
-/
namespace MonkeyLang

/-- Why a tree has no text. -/
inductive RenderError where
  /-- An object of the named type was reached. -/
  | unrenderable (typeName : String)
  deriving Repr, DecidableEq

/-- What is said about a tree that has no text. -/
def RenderError.message : RenderError → String
  | unrenderable typeName => "Cannot render node type: " ++ typeName

namespace Node

/-- Nodes with a comma between any two. -/
def commaSeparated (nodes : List Node) : List Node := nodes.intersperse (text ", ")

/-- The parts of a node in the order of output. The condition of a choice is not shown, and
neither is an absent alternative; a return without a value has no space. Anything but a node with
parts has none. -/
def parts : Node → List Node
  | absent | text _ | foreign _ => []
  | identifier _ name => [text name]
  | integer token _ | string token _ | boolean token _ => [text token.lexeme]
  | unary _ operator operand => [text ("(" ++ operator), operand, text ")"]
  | binary _ operator left right => [text "(", left, text (" " ++ operator ++ " "), right, text ")"]
  | conditional _ _ consequence absent => [text "if ", consequence]
  | conditional _ _ consequence alternative =>
    [text "if ", consequence, text "else ", alternative]
  | function token parameters body =>
    text (token.lexeme ++ "(") :: commaSeparated parameters ++ [text ") ", body]
  | call _ callee arguments => callee :: text "(" :: commaSeparated arguments ++ [text ")"]
  | array _ elements => text "[" :: commaSeparated elements ++ [text "]"]
  | index _ collection position => [collection, text "[", position, text "]"]
  | letStatement token name value =>
    [text (token.lexeme ++ " "), name, text " = ", value, text ";"]
  | returnStatement token absent => [text (token.lexeme ++ ";")]
  | returnStatement token value => [text (token.lexeme ++ " "), value, text ";"]
  | exprStatement _ expression => [expression]
  | block _ statements | program statements => statements

mutual

/-- A bound on the parts that a node splits into, all in all. -/
def weight : Node → Nat
  | absent | text _ | foreign _ => 1
  | identifier _ _ | integer _ _ | string _ _ | boolean _ _ => 4
  | unary _ _ operand => 4 + weight operand
  | binary _ _ left right => 4 + weight left + weight right
  | conditional _ _ consequence alternative => 4 + weight consequence + weight alternative
  | function _ parameters body => 4 + weights parameters + weight body
  | call _ callee arguments => 4 + weight callee + weights arguments
  | array _ elements => 4 + weights elements
  | index _ collection position => 4 + weight collection + weight position
  | letStatement _ name value => 4 + weight name + weight value
  | returnStatement _ value => 4 + weight value
  | exprStatement _ expression => 4 + weight expression
  | block _ statements | program statements => 4 + weights statements

/-- The weights of nodes, each with a separator. -/
def weights : List Node → Nat
  | [] => 0
  | node :: rest => weight node + 1 + weights rest

end

/-- The weight of a stack of parts. -/
def load : List Node → Nat
  | [] => 0
  | node :: stack => node.weight + load stack

@[simp] theorem load_nil : load [] = 0 := rfl

@[simp] theorem load_cons (node : Node) (stack : List Node) :
    load (node :: stack) = node.weight + load stack := rfl

@[simp] theorem load_append (upper lower : List Node) :
    load (upper ++ lower) = load upper + load lower := by
  induction upper with
  | nil => simp
  | cons node upper ih => simp [ih, Nat.add_assoc]

theorem load_le_weights (nodes : List Node) : load nodes ≤ weights nodes := by
  induction nodes with
  | nil => simp [weights]
  | cons node rest ih => simp only [load_cons, weights]; omega

theorem load_commaSeparated_le (nodes : List Node) :
    load (commaSeparated nodes) ≤ weights nodes := by
  induction nodes with
  | nil => simp [commaSeparated, weights]
  | cons node rest ih =>
    cases rest with
    | nil => simp [commaSeparated, weights]
    | cons second rest =>
      simp only [commaSeparated, List.intersperse_cons_cons, load_cons] at ih ⊢
      rw [weights]
      simp only [weight]
      omega

/-- A node that is split leaves a lighter stack. -/
theorem load_parts_lt (node : Node) : load node.parts < node.weight := by
  cases node with
  | function token parameters body =>
    have := load_commaSeparated_le parameters
    simp [parts, weight]; omega
  | call token callee arguments =>
    have := load_commaSeparated_le arguments
    simp [parts, weight]; omega
  | array token elements =>
    have := load_commaSeparated_le elements
    simp [parts, weight]; omega
  | block token statements =>
    have := load_le_weights statements
    simp [parts, weight]; omega
  | program statements =>
    have := load_le_weights statements
    simp [parts, weight]; omega
  | conditional token condition consequence alternative =>
    cases alternative <;> simp [parts, weight] <;> omega
  | returnStatement token value => cases value <;> simp [parts, weight] <;> omega
  | absent => simp [parts, weight]
  | text content => simp [parts, weight]
  | foreign typeName => simp [parts, weight]
  | identifier token name => simp [parts, weight]
  | integer token value => simp [parts, weight]
  | string token value => simp [parts, weight]
  | boolean token value => simp [parts, weight]
  | unary token operator operand => simp [parts, weight]; omega
  | binary token operator left right => simp [parts, weight]; omega
  | index token collection position => simp [parts, weight]; omega
  | letStatement token name value => simp [parts, weight]; omega
  | exprStatement token expression => simp [parts, weight]

/-- Works off a stack of parts, behind the text that is already there. -/
def renderStack (stack : List Node) (done : String) : Except RenderError String :=
  match stack with
  | [] => .ok done
  | absent :: rest => renderStack rest done
  | text content :: rest => renderStack rest (done ++ content)
  | foreign typeName :: _ => .error (.unrenderable typeName)
  | node :: rest => renderStack (node.parts ++ rest) done
termination_by load stack
decreasing_by
  all_goals simp only [load_cons, load_append, weight]
  · omega
  · omega
  · have := load_parts_lt node; omega

/-- The canonical text of a tree. -/
def render (node : Node) : Except RenderError String := renderStack [node] ""

end Node

end MonkeyLang
