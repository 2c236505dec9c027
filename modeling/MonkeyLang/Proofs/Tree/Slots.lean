import MonkeyLang.Node
import Mathlib.Data.List.ReduceOption

/-!
# Slots of a tree

The slots of a tree are the tokens that its nodes keep, in the order of the source, with a gap at
each place where a child could not be built. An operator stands between its sides, the opener of a
call or an index behind what it applies to, and every other token before its children. The tokens
alone and the number of gaps are both read off the slots.
-/
namespace MonkeyLang.Node

/-- What an absent child leaves: one empty slot. -/
def gap : Node → List (Option Token)
  | absent => [none]
  | _ => []

mutual

/-- The slots of a tree. The alternative of a choice may be missing without a gap, and the token of
an expression statement is that of its expression. -/
def slots : Node → List (Option Token)
  | absent | text _ | foreign _ => []
  | identifier token _ | integer token _ | string token _ | boolean token _ => [some token]
  | unary token _ operand => some token :: (operand.gap ++ slots operand)
  | binary token _ left right =>
    left.gap ++ slots left ++ some token :: (right.gap ++ slots right)
  | conditional token condition consequence alternative =>
    some token :: (condition.gap ++ slots condition ++ slots consequence ++ slots alternative)
  | function token parameters body => some token :: (memberSlots parameters ++ slots body)
  | call token callee arguments => callee.gap ++ slots callee ++ some token :: childSlots arguments
  | array token elements => some token :: childSlots elements
  | index token collection position =>
    collection.gap ++ slots collection ++ some token :: (position.gap ++ slots position)
  | letStatement token name value => some token :: (slots name ++ (value.gap ++ slots value))
  | returnStatement token value => some token :: (value.gap ++ slots value)
  | exprStatement _ expression => expression.gap ++ slots expression
  | block token statements => some token :: memberSlots statements
  | program statements => memberSlots statements

/-- The slots of children in a row, each of which may be a gap. -/
def childSlots : List Node → List (Option Token)
  | [] => []
  | node :: nodes => node.gap ++ slots node ++ childSlots nodes

/-- The slots of nodes in a row that leave no gaps themselves. -/
def memberSlots : List Node → List (Option Token)
  | [] => []
  | node :: nodes => slots node ++ memberSlots nodes

end

/-- The slots of a node in place of a child. -/
def child (node : Node) : List (Option Token) := node.gap ++ node.slots

/-- The tokens that the nodes of a tree keep, in the order of the source. -/
def sourceTokens (node : Node) : List Token := node.slots.reduceOption

/-- The number of children of nodes of a tree that could not be built. -/
def absentChildren (node : Node) : Nat := node.slots.count none

@[simp] theorem child_absent : absent.child = [none] := rfl

theorem gap_of_isPresent {node : Node} (h : node.isPresent) : node.gap = [] := by
  cases node with
  | absent => simp [isPresent] at h
  | _ => rfl

theorem child_of_isPresent {node : Node} (h : node.isPresent) : node.child = node.slots := by
  rw [child, gap_of_isPresent h, List.nil_append]

theorem eq_absent_of_not_isPresent {node : Node} (h : ¬ node.isPresent) : node = absent := by
  cases node with
  | absent => rfl
  | _ => simp [isPresent] at h

theorem childSlots_eq_flatMap (nodes : List Node) : childSlots nodes = nodes.flatMap child := by
  induction nodes with
  | nil => rfl
  | cons node nodes ih => rw [childSlots, ih, List.flatMap_cons, child]

theorem memberSlots_eq_flatMap (nodes : List Node) : memberSlots nodes = nodes.flatMap slots := by
  induction nodes with
  | nil => rfl
  | cons node nodes ih => rw [memberSlots, ih, List.flatMap_cons]

/-- An absent node has no slots, so it may be left out of a row. -/
theorem memberSlots_filter (nodes : List Node) :
    memberSlots (nodes.filter isPresent) = memberSlots nodes := by
  induction nodes with
  | nil => rfl
  | cons node nodes ih =>
    by_cases h : node.isPresent
    · rw [List.filter_cons_of_pos h, memberSlots, memberSlots, ih]
    · rw [List.filter_cons_of_neg h, ih, memberSlots, eq_absent_of_not_isPresent h, slots,
        List.nil_append]

/-- Where every child is present there are no gaps between the children. -/
theorem childSlots_of_all {nodes : List Node} (h : nodes.all isPresent) :
    childSlots nodes = memberSlots nodes := by
  induction nodes with
  | nil => rfl
  | cons node nodes ih =>
    obtain ⟨head, tail⟩ := Bool.and_eq_true_iff.mp ((List.all_cons ..).symm.trans h)
    rw [childSlots, memberSlots, gap_of_isPresent head, List.nil_append, ih tail]

/-- Where some child is absent there is a gap. -/
theorem none_mem_childSlots {nodes : List Node} (h : ¬ nodes.all isPresent) :
    none ∈ childSlots nodes := by
  rw [childSlots_eq_flatMap, List.mem_flatMap]
  obtain ⟨node, member, missing⟩ := List.all_eq_false.mp (Bool.not_eq_true _ ▸ h)
  obtain rfl := eq_absent_of_not_isPresent missing
  exact ⟨absent, member, List.mem_singleton_self none⟩

end MonkeyLang.Node
