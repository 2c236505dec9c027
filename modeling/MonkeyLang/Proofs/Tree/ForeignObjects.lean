import MonkeyLang.Proofs.Tree.StructuralText

/-!
# Foreign objects in a tree

A foreign object has no text, so a tree that shows one has none. Writing goes from left to right:
the object that it fails on is the first of those that the text would show, whatever stands behind
it or in a condition.
-/
namespace MonkeyLang.Node

mutual

/-- The types of the foreign objects that the text of a tree would show, in the order of output. A
condition is not shown. -/
def foreigners : Node → List String
  | absent | text _ | identifier _ _ | integer _ _ | string _ _ | boolean _ _ => []
  | foreign typeName => [typeName]
  | unary _ _ operand => foreigners operand
  | binary _ _ left right => foreigners left ++ foreigners right
  | conditional _ _ consequence alternative => foreigners consequence ++ foreigners alternative
  | function _ parameters body => foreignersAll parameters ++ foreigners body
  | call _ callee arguments => foreigners callee ++ foreignersAll arguments
  | array _ elements => foreignersAll elements
  | index _ collection position => foreigners collection ++ foreigners position
  | letStatement _ name value => foreigners name ++ foreigners value
  | returnStatement _ value => foreigners value
  | exprStatement _ expression => foreigners expression
  | block _ statements | program statements => foreignersAll statements

/-- The types of the foreign objects that the texts of nodes would show, one node behind another. -/
def foreignersAll : List Node → List String
  | [] => []
  | node :: nodes => foreigners node ++ foreignersAll nodes

end

/-- Among objects in a row the first decides: without one there is a text, and otherwise writing
fails on it. -/
inductive FailsOnFirst : List String → Except RenderError String → Prop
  | none (text : String) : FailsOnFirst [] (.ok text)
  | first (typeName : String) (others : List String) :
    FailsOnFirst (typeName :: others) (.error (.unrenderable typeName))

section

variable {names more : List String} {written : Except RenderError String}

theorem failsOnFirst_bind {continued : String → Except RenderError String}
    (h : FailsOnFirst names written) (behind : ∀ text, FailsOnFirst more (continued text)) :
    FailsOnFirst (names ++ more) (written >>= continued) := by
  cases h with
  | none text => exact behind text
  | first typeName others => exact .first typeName (others ++ more)

/-- Text around what is written has no say in it. -/
theorem failsOnFirst_map (h : FailsOnFirst names written) (frame : String → String) :
    FailsOnFirst names (do return frame (← written)) := by
  have framed := failsOnFirst_bind h fun text => .none (frame text)
  rwa [List.append_nil] at framed

theorem failsOnFirst_both {later : Except RenderError String} (h : FailsOnFirst names written)
    (h' : FailsOnFirst more later) (join : String → String → String) :
    FailsOnFirst (names ++ more) (do return join (← written) (← later)) :=
  failsOnFirst_bind h fun text => failsOnFirst_map h' (join text)

theorem FailsOnFirst.ok_iff (h : FailsOnFirst names written) :
    (∃ text, written = .ok text) ↔ names = [] := by
  cases h <;> simp

theorem FailsOnFirst.error_iff (h : FailsOnFirst names written) (error : RenderError) :
    written = .error error ↔ ∃ typeName ∈ names.head?, error = .unrenderable typeName := by
  cases h <;> simp [eq_comm]

end

mutual

theorem failsOnFirst_textOf (node : Node) : FailsOnFirst node.foreigners node.textOf := by
  cases node with
  | absent => exact .none _
  | text content => exact .none _
  | foreign typeName => exact .first typeName []
  | identifier token name => exact .none _
  | integer token value => exact .none _
  | string token value => exact .none _
  | boolean token value => exact .none _
  | unary token operator operand =>
    rw [foreigners, textOf]
    exact failsOnFirst_map (failsOnFirst_textOf operand) _
  | binary token operator left right =>
    rw [foreigners, textOf]
    exact failsOnFirst_both (failsOnFirst_textOf left) (failsOnFirst_textOf right) _
  | conditional token condition consequence alternative =>
    rw [foreigners]
    by_cases missing : alternative = absent
    · rw [missing, foreigners, List.append_nil, textOf]
      exact failsOnFirst_map (failsOnFirst_textOf consequence) _
    · rw [textOf]
      · exact failsOnFirst_both (failsOnFirst_textOf consequence)
          (failsOnFirst_textOf alternative) _
      · exact missing
  | function token parameters body =>
    rw [foreigners, textOf]
    exact failsOnFirst_both (failsOnFirst_textOfList parameters) (failsOnFirst_textOf body) _
  | call token callee arguments =>
    rw [foreigners, textOf]
    exact failsOnFirst_both (failsOnFirst_textOf callee) (failsOnFirst_textOfList arguments) _
  | array token elements =>
    rw [foreigners, textOf]
    exact failsOnFirst_map (failsOnFirst_textOfList elements) _
  | index token collection position =>
    rw [foreigners, textOf]
    exact failsOnFirst_both (failsOnFirst_textOf collection) (failsOnFirst_textOf position) _
  | letStatement token name value =>
    rw [foreigners, textOf]
    exact failsOnFirst_both (failsOnFirst_textOf name) (failsOnFirst_textOf value) _
  | returnStatement token value =>
    rw [foreigners]
    by_cases missing : value = absent
    · rw [missing, foreigners, textOf]
      exact .none _
    · rw [textOf]
      · exact failsOnFirst_map (failsOnFirst_textOf value) _
      · exact missing
  | exprStatement token expression =>
    rw [foreigners, textOf]
    exact failsOnFirst_textOf expression
  | block token statements =>
    rw [foreigners, textOf]
    exact failsOnFirst_textOfAll statements
  | program statements =>
    rw [foreigners, textOf]
    exact failsOnFirst_textOfAll statements

theorem failsOnFirst_textOfList (nodes : List Node) :
    FailsOnFirst (foreignersAll nodes) (textOfList nodes) := by
  match nodes with
  | [] => exact .none _
  | [node] =>
    rw [foreignersAll, foreignersAll, List.append_nil, textOfList]
    exact failsOnFirst_textOf node
  | node :: second :: rest =>
    rw [foreignersAll, textOfList]
    exact failsOnFirst_both (failsOnFirst_textOf node)
      (failsOnFirst_textOfList (second :: rest)) _

theorem failsOnFirst_textOfAll (nodes : List Node) :
    FailsOnFirst (foreignersAll nodes) (textOfAll nodes) := by
  cases nodes with
  | nil => exact .none _
  | cons node rest =>
    rw [foreignersAll, textOfAll]
    exact failsOnFirst_both (failsOnFirst_textOf node) (failsOnFirst_textOfAll rest) _

end

/-- Working off the stack of parts writes every tree as the recursion does. There is a text exactly
if no foreign object would be shown; otherwise the first one in the order of output is refused. -/
theorem render_eq_textOf (node : Node) :
    node.render = node.textOf ∧
    ((∃ text, node.render = .ok text) ↔ node.foreigners = []) ∧
    ∀ error, node.render = .error error ↔
      ∃ typeName ∈ node.foreigners.head?, error = .unrenderable typeName := by
  have written := failsOnFirst_textOf node
  rw [← render_eq] at written
  exact ⟨render_eq node, written.ok_iff, written.error_iff⟩

end MonkeyLang.Node
