import MonkeyLang.Proofs.Tree.WellFormed

/-!
# Levels of nesting

How deep the expressions of a tree lie in each other, counted as a parser does that goes on with an
expression in a loop: a left side, a callee and a collection are on the level of the whole, while
everything behind an operator or inside of brackets, braces and parentheses is one level further
in. A statement is on the level of the expression that it holds.
-/
namespace MonkeyLang.Node

mutual

/-- The number of levels of expressions in a tree. Names that are bound are not expressions. -/
def nest : Node → Nat
  | absent | text _ | foreign _ => 0
  | identifier .. | integer .. | string .. | boolean .. => 1
  | unary _ _ operand => 1 + nest operand
  | binary _ _ left right => max (nest left) (1 + nest right)
  | conditional _ condition consequence alternative =>
    1 + max (nest condition) (max (nest consequence) (nest alternative))
  | function _ _ body => 1 + nest body
  | call _ callee arguments => max (nest callee) (1 + nestOf arguments)
  | array _ elements => 1 + nestOf elements
  | index _ collection position => max (nest collection) (1 + nest position)
  | letStatement _ _ value => nest value
  | returnStatement _ value => nest value
  | exprStatement _ expression => nest expression
  | block _ statements => nestOf statements
  | program statements => nestOf statements

/-- The number of levels in the deepest of some trees. -/
def nestOf : List Node → Nat
  | [] => 0
  | node :: nodes => max (nest node) (nestOf nodes)

end

theorem nestOf_le_iff {nodes : List Node} {limit : Nat} :
    nestOf nodes ≤ limit ↔ ∀ node ∈ nodes, node.nest ≤ limit := by
  induction nodes with
  | nil => simp [nestOf]
  | cons node nodes ih => rw [nestOf, Nat.max_le, ih, List.forall_mem_cons]

theorem nest_le_nestOf {node : Node} {nodes : List Node} (h : node ∈ nodes) :
    node.nest ≤ nestOf nodes :=
  nestOf_le_iff.mp (Nat.le_refl _) node h

theorem nest_of_isIdentifier {node : Node} (h : node.isIdentifier) : node.nest = 1 := by
  cases node with
  | identifier => simp [nest]
  | _ => simp [isIdentifier] at h

/-- No child lies deeper than the node, but for a bound name, which has one level. -/
theorem nest_child_le {node child : Node} (formed : node.Formed) (h : child ∈ node.children) :
    child.nest ≤ max 1 node.nest := by
  cases node with
  | function token parameters body =>
    rw [nest]
    rcases List.mem_append.mp h with bound | inside
    · have := nest_of_isIdentifier (formed.2.1 child bound)
      omega
    · rw [List.mem_singleton.mp inside]
      omega
  | letStatement token name value =>
    rw [nest]
    rcases List.mem_pair.mp h with rfl | rfl
    · have := nest_of_isIdentifier formed.2.1
      omega
    · omega
  | call token callee arguments =>
    rw [nest]
    rcases List.mem_cons.mp h with rfl | inside
    · omega
    · have := nest_le_nestOf inside
      omega
  | array token elements =>
    have : child.nest ≤ nestOf elements := nest_le_nestOf h
    rw [nest]
    omega
  | block token statements | program statements =>
    have : child.nest ≤ nestOf statements := nest_le_nestOf h
    rw [nest]
    omega
  | unary | binary | conditional | index | returnStatement | exprStatement =>
    simp only [children, List.mem_cons, List.not_mem_nil, or_false] at h
    simp only [nest]
    grind
  | _ => simp [children] at h

theorem sizeOf_child_lt {node child : Node} (h : child ∈ node.children) :
    sizeOf child < sizeOf node := by
  cases node with
  | function token parameters body =>
    rcases List.mem_append.mp h with bound | inside
    · have := List.sizeOf_lt_of_mem bound
      simp only [function.sizeOf_spec]
      omega
    · simp only [List.mem_singleton.mp inside, function.sizeOf_spec]
      omega
  | call token callee arguments =>
    rcases List.mem_cons.mp h with rfl | inside
    · simp only [call.sizeOf_spec]
      omega
    · have := List.sizeOf_lt_of_mem inside
      simp only [call.sizeOf_spec]
      omega
  | array token nodes | block token nodes | program nodes =>
    have : sizeOf child < sizeOf nodes := List.sizeOf_lt_of_mem h
    simp only [array.sizeOf_spec, block.sizeOf_spec, program.sizeOf_spec]
    omega
  | unary | binary | conditional | index | letStatement | returnStatement | exprStatement =>
    simp only [children, List.mem_cons, List.not_mem_nil, or_false] at h
    grind
  | _ => simp [children] at h

/-- No part of a well-formed tree lies deeper than the whole, but for a bound name. -/
theorem nest_subtree_le {node : Node} (formed : node.WellFormed) :
    ∀ sub ∈ node.subtrees, sub.nest ≤ max 1 node.nest := by
  obtain ⟨root, below⟩ := wellFormed_iff.mp formed
  rw [subtrees_eq, List.forall_mem_cons, forall_subtreesOf]
  refine ⟨Nat.le_max_right .., fun child member sub inside => ?_⟩
  have inner := nest_subtree_le (below child member) sub inside
  have outer := nest_child_le root member
  omega
termination_by sizeOf node
decreasing_by exact sizeOf_child_lt member

end MonkeyLang.Node
