import MonkeyLang.Grammar.Expression

/-!
# Congruences of parsers

The rules of the grammar are put together from a few building blocks. A relation between parsers
that each building block keeps is kept by every rule: when the parsers for the inner expressions are
related, so are the rules over them. A rule for expressions moves before it comes to an inner one,
so there it is enough that these are related behind a move. With a relation that holds of an
exhausted budget, whatever stands beside it, expressions on a budget are related to those on every
greater one.
-/
namespace MonkeyLang.Grammar
open MonkeyLang.Parser

/-- A relation that the building blocks of the grammar keep. -/
structure Congruence (R : ∀ {α : Type}, Parser α → Parser α → Prop) : Prop where
  pure {α : Type} (value : α) : R (Pure.pure value) (Pure.pure value)
  bind {α β : Type} {p q : Parser α} {f g : α → Parser β} :
    R p q → (∀ value, R (f value) (g value)) → R (p >>= f) (q >>= g)
  current : R Parser.current Parser.current
  advance : R Parser.advance Parser.advance
  report (fault : Fault) : R (Parser.report fault) (Parser.report fault)
  skipOptional : R (Parser.skipOptional .semicolon) (Parser.skipOptional .semicolon)
  skipTo : R (Parser.skipTo .semicolon) (Parser.skipTo .semicolon)
  expect {α : Type} (kind : Kind) (missing : α) {p q : Parser α} :
    R p q → R (Parser.expect kind missing p) (Parser.expect kind missing q)
  whetherElse {α : Type} {p q p' q' : Parser α} : R p q → R p' q' →
    R (do if (← upcoming).kind = .kwElse then p else p')
      (do if (← upcoming).kind = .kwElse then q else q')
  manyUntil {α : Type} (stop : Kind → Bool) {p q : Parser α} :
    R p q → R (Parser.manyUntil stop p) (Parser.manyUntil stop q)
  whileNext {α : Type} (floor : Int) {s t : α → Parser α} (value : α) :
    (∀ value, R (s value) (t value)) →
      R (Parser.whileNext (continues floor) s value) (Parser.whileNext (continues floor) t value)
  commaList {α : Type} (close : Kind) {p q : Parser α} :
    R p q → R (Parser.commaList close p) (Parser.commaList close q)

namespace Congruence

variable {R : ∀ {α : Type}, Parser α → Parser α → Prop} (h : Congruence R)
  {e e' : ExpressionParser} (inner : ∀ floor, R (e floor) (e' floor))
include h

theorem identifier : R identifier identifier :=
  h.bind h.current fun _ => h.pure _

theorem integer : R integer integer := by
  apply h.bind h.current
  intro token
  split
  · exact h.pure _
  · exact h.bind (h.report _) fun _ => h.pure _

theorem string : R string string :=
  h.bind h.current fun _ => h.pure _

theorem boolean (value : Bool) : R (boolean value) (boolean value) :=
  h.bind h.current fun _ => h.pure _

theorem parameter : R parameter parameter := by
  apply h.bind h.current
  intro token
  split
  · exact h.pure _
  · exact h.bind (h.report _) fun _ => h.pure _

include inner

theorem letStatement : R (letStatement e) (letStatement e') := by
  apply h.bind h.current
  intro token
  apply h.expect
  apply h.bind h.current
  intro name
  apply h.expect
  apply h.bind h.advance
  intro _
  apply h.bind (inner _)
  intro value
  exact h.bind h.skipOptional fun _ => h.pure _

theorem returnStatement : R (returnStatement e) (returnStatement e') := by
  apply h.bind h.current
  intro token
  apply h.bind h.advance
  intro _
  apply h.bind (inner _)
  intro value
  exact h.bind h.skipTo fun _ => h.pure _

theorem exprStatement : R (exprStatement e) (exprStatement e') := by
  apply h.bind h.current
  intro token
  apply h.bind (inner _)
  intro value
  exact h.bind h.skipOptional fun _ => h.pure _

theorem statement : R (statement e) (statement e') := by
  apply h.bind h.current
  intro token
  split
  · exact h.letStatement inner
  · exact h.returnStatement inner
  · exact h.exprStatement inner

theorem statements (stop : Kind → Bool) : R (statements stop e) (statements stop e') :=
  h.bind (h.manyUntil stop (h.statement inner)) fun _ => h.pure _

theorem block : R (block e) (block e') := by
  apply h.bind h.current
  intro brace
  apply h.bind h.advance
  intro _
  exact h.bind (h.statements inner _) fun _ => h.pure _

end Congruence

/-- A relation that a rule keeps when another one relates what stands behind its first move. -/
structure Descent (R S : ∀ {α : Type}, Parser α → Parser α → Prop) : Prop where
  start : Congruence R
  behind : Congruence S
  advance {α : Type} {f g : Unit → Parser α} :
    S (f ()) (g ()) → R (Parser.advance >>= f) (Parser.advance >>= g)
  expect {α : Type} (kind : Kind) (missing : α) {p q : Parser α} :
    S p q → R (Parser.expect kind missing p) (Parser.expect kind missing q)
  commaList {α : Type} (close : Kind) {p q : Parser α} :
    S p q → R (Parser.commaList close p) (Parser.commaList close q)

/-- A congruence may go on behind each move as it is. -/
theorem Congruence.descent {R : ∀ {α : Type}, Parser α → Parser α → Prop} (h : Congruence R) :
    Descent R R where
  start := h
  behind := h
  advance related := h.bind h.advance fun _ => related
  expect := h.expect
  commaList := h.commaList

namespace Descent

variable {R S : ∀ {α : Type}, Parser α → Parser α → Prop} (h : Descent R S)
  {e e' : ExpressionParser} (inner : ∀ floor, S (e floor) (e' floor))
include h inner

theorem unary : R (unary e) (unary e') := by
  apply h.start.bind h.start.current
  intro token
  apply h.advance
  exact h.behind.bind (inner _) fun _ => h.behind.pure _

theorem group : R (group e) (group e') := by
  apply h.advance
  apply h.behind.bind (inner _)
  intro node
  exact h.behind.expect _ _ (h.behind.pure _)

theorem conditional : R (conditional e) (conditional e') := by
  apply h.start.bind h.start.current
  intro token
  apply h.expect
  apply h.behind.bind h.behind.advance
  intro _
  apply h.behind.bind (inner _)
  intro condition
  apply h.behind.expect
  apply h.behind.expect
  apply h.behind.bind (h.behind.block inner)
  intro consequence
  apply h.behind.whetherElse
  · apply h.behind.bind h.behind.advance
    intro _
    apply h.behind.expect
    exact h.behind.bind (h.behind.block inner) fun _ => h.behind.pure _
  · exact h.behind.pure _

theorem function : R (function e) (function e') := by
  apply h.start.bind h.start.current
  intro token
  apply h.expect
  apply h.behind.bind (h.behind.commaList _ h.behind.parameter)
  intro listed
  cases listed with
  | none => exact h.behind.pure _
  | some parameters =>
    by_cases present : parameters.all Node.isPresent
    · simp only [if_pos present]
      apply h.behind.expect
      exact h.behind.bind (h.behind.block inner) fun _ => h.behind.pure _
    · simp only [if_neg present]
      exact h.behind.pure _

theorem array : R (array e) (array e') := by
  apply h.start.bind h.start.current
  intro token
  apply h.start.bind (h.commaList _ (inner _))
  intro listed
  cases listed with
  | none => exact h.start.pure _
  | some elements => exact h.start.pure _

theorem binary (left : Node) : R (binary e left) (binary e' left) := by
  apply h.start.bind h.start.current
  intro token
  apply h.advance
  exact h.behind.bind (inner _) fun _ => h.behind.pure _

theorem call (callee : Node) : R (call e callee) (call e' callee) := by
  apply h.start.bind h.start.current
  intro token
  apply h.start.bind (h.commaList _ (inner _))
  intro listed
  cases listed with
  | none => exact h.start.pure _
  | some arguments => exact h.start.pure _

theorem index (collection : Node) : R (index e collection) (index e' collection) := by
  apply h.start.bind h.start.current
  intro token
  apply h.advance
  apply h.behind.bind (inner _)
  intro position
  exact h.behind.expect _ _ (h.behind.pure _)

theorem opening (start : Opening) : R (opening e start) (opening e' start) := by
  cases start with
  | identifier => exact h.start.identifier
  | integer => exact h.start.integer
  | string => exact h.start.string
  | boolean value => exact h.start.boolean value
  | unary => exact h.unary inner
  | group => exact h.group inner
  | conditional => exact h.conditional inner
  | function => exact h.function inner
  | array => exact h.array inner

theorem continuation (left : Node) : R (continuation e left) (continuation e' left) := by
  apply h.start.bind h.start.current
  intro token
  split
  · exact h.binary inner left
  · exact h.call inner left
  · exact h.index inner left
  · exact h.start.pure _

/-- Every rule for expressions moves before it comes to an inner one. -/
theorem expressionOver (floor : Int) : R (expressionOver e floor) (expressionOver e' floor) := by
  apply h.start.bind h.start.current
  intro token
  split
  · exact h.start.bind (h.start.report _) fun _ => h.start.pure _
  · apply h.start.bind (h.opening inner _)
    intro left
    exact h.start.whileNext floor left (h.continuation inner)

end Descent

/-- Expressions on a budget are related to those on any greater one, if an exhausted budget is. -/
theorem Congruence.expressionWithin {R : ∀ {α : Type}, Parser α → Parser α → Prop}
    (h : Congruence R) (exhausted : ∀ floor q, R (expressionWithin 0 floor) q)
    {budget budget' : Nat} (le : budget ≤ budget') (floor : Int) :
    R (expressionWithin budget floor) (expressionWithin budget' floor) := by
  induction budget generalizing budget' floor with
  | zero => exact exhausted floor _
  | succ budget ih =>
    obtain ⟨more, rfl⟩ : ∃ more, budget' = more + 1 := ⟨budget' - 1, by omega⟩
    exact h.descent.expressionOver (fun floor => ih (by omega) floor) floor

end MonkeyLang.Grammar
