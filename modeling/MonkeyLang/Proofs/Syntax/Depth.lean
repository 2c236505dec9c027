import MonkeyLang.Proofs.Syntax.Agreement

/-!
# Deeper budgets

A run that never meets the limit of nesting does not depend on it: on any greater budget the parser
does the same, faults and all.
-/
namespace MonkeyLang

namespace Fault

/-- Whether the limit of nesting was met. -/
def isTooDeep : Fault → Bool
  | tooDeep .. => true
  | _ => false

end Fault

namespace Parser

variable {α : Type}

/-- The limit of nesting is not among the faults. -/
def Shallow (faults : List Fault) : Prop := ∀ fault ∈ faults, ¬ fault.isTooDeep

instance (faults : List Fault) : Decidable (Shallow faults) :=
  inferInstanceAs (Decidable (∀ fault ∈ faults, ¬ fault.isTooDeep))

/-- Wherever the first parser does not meet the limit of nesting, the second one does the same. -/
def Deepens (p q : Parser α) : Prop :=
  ∀ eof tokens, Shallow (p.run eof tokens).faults → q.run eof tokens = p.run eof tokens

theorem divides_shallow : Divides fun _ faults => Shallow faults :=
  fun _ _ _ _ _ shallow => List.forall_mem_append.mp shallow

end Parser

namespace Grammar
open MonkeyLang.Parser

theorem congruence_deepens : Congruence Deepens :=
  .forall fun _ => congruence_agreesWhen divides_shallow

/-- On an exhausted budget every expression meets the limit. -/
theorem not_shallow_exhausted (floor : Int) (eof : Token) (tokens : List Token) :
    ¬ Shallow ((expressionWithin 0 floor).run eof tokens).faults :=
  fun shallow => shallow (.tooDeep maxNesting (currentOf eof tokens)) (by simp [expressionWithin])
    rfl

theorem deepens_expressionWithin {budget budget' : Nat} (le : budget ≤ budget') (floor : Int) :
    Deepens (expressionWithin budget floor) (expressionWithin budget' floor) :=
  congruence_deepens.expressionWithin
    (fun floor _ eof tokens shallow => absurd shallow (not_shallow_exhausted floor eof tokens)) le floor

end Grammar

end MonkeyLang
