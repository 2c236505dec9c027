import MonkeyLang.Proofs.Syntax.Derivation
import Mathlib.Data.List.Basic

/-!
# More tokens behind a phrase

A phrase is decided by its own tokens and the first one behind it. So what is derived in front of
some tokens is derived as well when these are followed by more. Only at the end of the input this
may fail: there a block needs no brace, a return no semicolon, and an expression may still go on.
-/
namespace MonkeyLang.Derivation

variable {α : Type} {tokens rest : List Token}

/-- What is derived in front of some tokens is derived when more tokens follow these. -/
def Extends (phrase : Phrase α) : Prop :=
  ∀ {tokens rest : List Token} {value : α}, phrase tokens rest value → rest ≠ [] →
    ∀ more, phrase (tokens ++ more) (rest ++ more) value

theorem Stops.append {floor : Int} (h : Stops floor rest) (behind : rest ≠ []) (more : List Token) :
    Stops floor (rest ++ more) := by
  intro token ht
  rw [List.head?_append_of_ne_nil rest behind] at ht
  exact h token ht

theorem extends_name : Extends Name := by
  intro tokens rest value h _ more
  cases h with
  | intro kind => exact .intro kind

theorem extends_items {item : Phrase Node} (hitem : Extends item) : Extends (Items item) := by
  intro tokens rest nodes h behind more
  induction h with
  | last head => exact .last (hitem head behind more)
  | more head kind tail ih =>
    exact .more (hitem head (List.cons_ne_nil _ _) more) kind (ih behind)

theorem extends_listing {close : Kind} {item : Phrase Node} (hitem : Extends item) :
    Extends (Listing close item) := by
  intro tokens rest nodes h behind more
  cases h with
  | empty kind => exact .empty kind
  | items items kind => exact .items (extends_items hitem items (List.cons_ne_nil _ _) more) kind

theorem OptionalSemicolon.ne_nil (h : OptionalSemicolon tokens rest) (behind : rest ≠ []) :
    tokens ≠ [] := by
  cases h with
  | missing => exact behind
  | present => exact List.cons_ne_nil _ _

theorem OptionalSemicolon.append (h : OptionalSemicolon tokens rest) (more : List Token) :
    OptionalSemicolon (tokens ++ more) (rest ++ more) := by
  cases h with
  | missing => exact .missing
  | present kind => exact .present kind

section

variable {inner : Int → Phrase Node} (hinner : ∀ floor, Extends (inner floor))
include hinner

theorem extends_statement : Extends (Statement inner) := by
  intro tokens rest node h behind more
  cases h with
  | letTo keyword_kind name_kind assign_kind value semicolon =>
    have value := hinner _ value (semicolon.ne_nil behind) more
    exact .letTo keyword_kind name_kind assign_kind value (semicolon.append more)
  | @returned keyword tokens skipped middle rest _ keyword_kind value skips terminator =>
    cases terminator with
    | semicolon kind =>
      have value := hinner _ value (by simp) more
      rw [List.append_assoc] at value
      exact .returned keyword_kind value skips (.semicolon kind)
    | endOfInput => exact absurd rfl behind
  | expression value semicolon =>
    have value := hinner _ value (semicolon.ne_nil behind) more
    exact .expression value (semicolon.append more)

omit hinner in
theorem Statements.ne_nil {nodes : List Node} (h : Statements inner tokens rest nodes)
    (behind : rest ≠ []) : tokens ≠ [] := by
  cases h with
  | nil => exact behind
  | cons head tail => cases head <;> exact List.cons_ne_nil _ _

theorem extends_statements : Extends (Statements inner) := by
  intro tokens rest nodes h behind more
  induction h with
  | nil => exact .nil
  | cons head tail ih =>
    exact .cons (extends_statement hinner head (tail.ne_nil behind) more) (ih behind)

theorem extends_block : Extends (Block inner) := by
  intro tokens rest node h behind more
  cases h with
  | closed brace_kind body closer_kind =>
    have extended := extends_statements hinner body (List.cons_ne_nil _ _) more
    exact .closed brace_kind extended closer_kind
  | unclosed => exact absurd rfl behind

omit hinner in
theorem Block.ne_nil {node : Node} (h : Block inner tokens rest node) : tokens ≠ [] := by
  cases h <;> exact List.cons_ne_nil _ _

theorem extends_primary : Extends (Primary inner) := by
  intro tokens rest node h behind more
  cases h with
  | atom atom => exact .atom atom
  | unary kind operand => exact .unary kind (hinner _ operand behind more)
  | group opener_kind phrase closer_kind =>
    exact .group opener_kind (hinner _ phrase (List.cons_ne_nil _ _) more) closer_kind
  | conditional keyword_kind opener_kind condition closer_kind consequence no_else =>
    refine .conditional keyword_kind opener_kind (hinner _ condition (List.cons_ne_nil _ _) more)
      closer_kind (extends_block hinner consequence behind more) fun token ht => ?_
    rw [List.head?_append_of_ne_nil rest behind] at ht
    exact no_else token ht
  | conditionalElse keyword_kind opener_kind condition closer_kind consequence else_kind
      alternative =>
    exact .conditionalElse keyword_kind opener_kind
      (hinner _ condition (List.cons_ne_nil _ _) more) closer_kind
      (extends_block hinner consequence (List.cons_ne_nil _ _) more) else_kind
      (extends_block hinner alternative behind more)
  | function keyword_kind opener_kind parameters body =>
    exact .function keyword_kind opener_kind
      (extends_listing extends_name parameters body.ne_nil more)
      (extends_block hinner body behind more)
  | array kind elements =>
    exact .array kind (extends_listing (hinner _) elements behind more)

theorem extends_tail {floor : Int} {left : Node} : Extends (Tail inner floor left) := by
  intro tokens rest node h behind more
  cases h with
  | binary kind binds right => exact .binary kind binds (hinner _ right behind more)
  | call kind binds arguments =>
    exact .call kind binds (extends_listing (hinner _) arguments behind more)
  | index kind binds position closer_kind =>
    exact .index kind binds (hinner _ position (List.cons_ne_nil _ _) more) closer_kind

omit hinner in
theorem Tails.ne_nil {floor : Int} {left node : Node} (h : Tails inner floor left tokens rest node)
    (behind : rest ≠ []) : tokens ≠ [] := by
  cases h with
  | nil => exact behind
  | cons head tail => cases head <;> exact List.cons_ne_nil _ _

theorem extends_tails {floor : Int} {left : Node} : Extends (Tails inner floor left) := by
  intro tokens rest node h behind more
  induction h with
  | nil => exact .nil
  | cons head tail ih =>
    exact .cons (extends_tail hinner head (tail.ne_nil behind) more) (ih behind)

theorem extends_segment {floor : Int} : Extends (Segment inner floor) := by
  intro tokens rest node h behind more
  obtain ⟨primary, tails⟩ := h
  exact .intro (extends_primary hinner primary (tails.ne_nil behind) more)
    (extends_tails hinner tails behind more)

end

/-- By induction on the levels of nesting expressions extend. -/
theorem extends_expression (budget : Nat) (floor : Int) : Extends (Expression budget floor) := by
  induction budget generalizing floor with
  | zero => exact fun h => absurd h not_false
  | succ budget ih =>
    intro tokens rest node h behind more
    obtain ⟨segment, stops⟩ := h
    exact ⟨extends_segment ih segment behind more, stops.append behind more⟩

end MonkeyLang.Derivation
