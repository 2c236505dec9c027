import MonkeyLang.Node.Render

/-!
# The canonical text by recursion

The text of a tree, stated by one equation for each kind of node. Working off a stack of parts
gives the texts of its nodes one behind another, so both ways of writing a tree agree, also about
the foreign object that ends the work.
-/
namespace MonkeyLang.Node

mutual

/-- The text of a tree. A child that is absent has none, and a condition is not shown. -/
def textOf : Node → Except RenderError String
  | absent => return ""
  | text content => return content
  | foreign typeName => throw (.unrenderable typeName)
  | identifier _ name => return name
  | integer token _ | string token _ | boolean token _ => return token.lexeme
  | unary _ operator operand => return "(" ++ operator ++ (← textOf operand) ++ ")"
  | binary _ operator left right =>
    return "(" ++ (← textOf left) ++ " " ++ operator ++ " " ++ (← textOf right) ++ ")"
  | conditional _ _ consequence absent => return "if " ++ (← textOf consequence)
  | conditional _ _ consequence alternative =>
    return "if " ++ (← textOf consequence) ++ "else " ++ (← textOf alternative)
  | function token parameters body =>
    return token.lexeme ++ "(" ++ (← textOfList parameters) ++ ") " ++ (← textOf body)
  | call _ callee arguments => return (← textOf callee) ++ "(" ++ (← textOfList arguments) ++ ")"
  | array _ elements => return "[" ++ (← textOfList elements) ++ "]"
  | index _ collection position =>
    return (← textOf collection) ++ "[" ++ (← textOf position) ++ "]"
  | letStatement token name value =>
    return token.lexeme ++ " " ++ (← textOf name) ++ " = " ++ (← textOf value) ++ ";"
  | returnStatement token absent => return token.lexeme ++ ";"
  | returnStatement token value => return token.lexeme ++ " " ++ (← textOf value) ++ ";"
  | exprStatement _ expression => textOf expression
  | block _ statements | program statements => textOfAll statements

/-- The texts of nodes with a comma between any two. -/
def textOfList : List Node → Except RenderError String
  | [] => return ""
  | [node] => textOf node
  | node :: second :: rest => return (← textOf node) ++ ", " ++ (← textOfList (second :: rest))

/-- The texts of nodes one behind another. -/
def textOfAll : List Node → Except RenderError String
  | [] => return ""
  | node :: rest => return (← textOf node) ++ (← textOfAll rest)

end

theorem textOfAll_append (upper lower : List Node) :
    textOfAll (upper ++ lower) = do return (← textOfAll upper) ++ (← textOfAll lower) := by
  induction upper with
  | nil => simp only [List.nil_append, textOfAll, pure_bind, String.empty_append, bind_pure]
  | cons node upper ih =>
    simp only [List.cons_append, textOfAll, ih, bind_assoc, pure_bind, String.append_assoc]

theorem textOfAll_commaSeparated (nodes : List Node) :
    textOfAll (commaSeparated nodes) = textOfList nodes := by
  induction nodes with
  | nil => rfl
  | cons node rest ih =>
    cases rest with
    | nil =>
      have alone : commaSeparated [node] = [node] := rfl
      simp only [alone, textOfAll, textOfList, pure_bind, String.append_empty, bind_pure]
    | cons second rest =>
      have separated : commaSeparated (node :: second :: rest) =
          node :: text ", " :: commaSeparated (second :: rest) := rfl
      simp only [separated, textOfAll, ih, textOfList, textOf, pure_bind, bind_assoc,
        String.append_assoc]

/-- Whether a node is split into parts, rather than written, passed over or refused. -/
def isSplit : Node → Bool
  | absent | text _ | foreign _ => false
  | _ => true

theorem isSplit_of_ne {node : Node} (absent : node ≠ absent) (text : ∀ content, node ≠ text content)
    (foreign : ∀ typeName, node ≠ foreign typeName) : node.isSplit := by
  cases node with
  | absent => exact absurd rfl absent
  | text content => exact absurd rfl (text content)
  | foreign typeName => exact absurd rfl (foreign typeName)
  | _ => rfl

/-- A node that is split has the texts of its parts. -/
theorem textOfAll_parts {node : Node} (h : node.isSplit) : textOfAll node.parts = textOf node := by
  cases node with
  | absent => simp [isSplit] at h
  | text content => simp [isSplit] at h
  | foreign typeName => simp [isSplit] at h
  | conditional token condition consequence alternative =>
    cases alternative <;> simp only [parts, textOfAll, textOf, pure_bind, bind_assoc, bind_pure,
      String.append_assoc, String.append_empty]
  | returnStatement token value =>
    cases value <;> simp only [parts, textOfAll, textOf, pure_bind, bind_assoc, bind_pure,
      String.append_assoc, String.append_empty]
  | _ => simp only [parts, List.cons_append, textOfAll, textOfAll_append,
      textOfAll_commaSeparated, textOf, pure_bind, bind_assoc, bind_pure, String.append_assoc,
      String.append_empty]

/-- Working off a stack gives the texts of its nodes behind what is done. -/
theorem renderStack_eq (stack : List Node) (done : String) :
    renderStack stack done = do return done ++ (← textOfAll stack) := by
  fun_induction renderStack stack done with
  | case1 done => simp only [textOfAll, pure_bind, String.append_empty]; rfl
  | case2 done rest ih =>
    rw [ih, textOfAll, textOf]
    simp only [pure_bind, String.empty_append, bind_pure]
  | case3 done content rest ih =>
    rw [ih, textOfAll, textOf]
    simp only [pure_bind, bind_assoc, String.append_assoc]
  | case4 done typeName rest => rfl
  | case5 done node rest hne htext hforeign ih =>
    have split : node.isSplit := isSplit_of_ne hne htext hforeign
    rw [ih, textOfAll_append, textOfAll_parts split, textOfAll]

/-- Working off a stack that holds the tree alone writes it as the recursion does. -/
theorem render_eq (node : Node) : node.render = node.textOf := by
  rw [render, renderStack_eq, textOfAll, textOfAll]
  cases node.textOf with
  | ok text =>
    change Except.ok ("" ++ (text ++ "")) = Except.ok text
    rw [String.append_empty, String.empty_append]
  | error error => rfl

/-- A tree that has a text by recursion is written as this text. -/
theorem render_of_textOf {node : Node} {text : String} (h : node.textOf = .ok text) :
    node.render = .ok text :=
  node.render_eq.trans h

end MonkeyLang.Node
