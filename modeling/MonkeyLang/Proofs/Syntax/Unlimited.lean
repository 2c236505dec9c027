import MonkeyLang.Proofs.Syntax.Agreement

/-!
# Expressions without a limit

A rule moves before it comes to an inner expression, so what it does depends on the parser for the
inner ones at fewer tokens only. Hence a budget greater than the number of tokens is never used up.
A parser for expressions of any depth gives each run such a budget, and is the only parser that
reads expressions by the rules over itself.
-/
namespace MonkeyLang

namespace Parser

/-- The parsers do the same on fewer tokens than a bound. -/
def AgreesBelow {α : Type} (eof : Token) (bound : Nat) : Parser α → Parser α → Prop :=
  AgreesWhen eof fun tokens _ => tokens.length < bound

theorem divides_length (bound : Nat) : Divides fun tokens _ => tokens.length < bound :=
  fun _ _ _ _ suffix short => ⟨short, Nat.lt_of_le_of_lt suffix.length_le short⟩

theorem divides_tail (bound : Nat) : Divides fun tokens _ => tokens.tail.length < bound := by
  intro tokens rest before after suffix short
  have shorter : rest.tail.length ≤ tokens.tail.length := by
    have := suffix.length_le
    simp only [List.length_tail]
    omega
  exact ⟨short, Nat.lt_of_le_of_lt shorter short⟩

end Parser

namespace Grammar
open MonkeyLang.Parser

variable {eof : Token} {e e' : ExpressionParser}

theorem congruence_agreesBelow (bound : Nat) : Congruence (AgreesBelow eof bound) :=
  congruence_agreesWhen (divides_length bound)

/-- Over parsers that agree below a number of tokens the rules for expressions agree at that number
as well. -/
theorem agreesBelow_expressionOver (ended : eof.kind = .eof) {bound : Nat}
    (inner : ∀ floor, AgreesBelow eof bound (e floor) (e' floor)) (floor : Int) :
    AgreesBelow eof (bound + 1) (expressionOver e floor) (expressionOver e' floor) := by
  intro tokens short
  cases tokens with
  | nil => simp [expressionOver, ended, Kind.opening?]
  | cons token tokens =>
    -- behind a move, there are fewer tokens than the bound
    have descent : Descent (AgreesWhen eof fun tokens _ => tokens.tail.length < bound)
        (AgreesBelow eof bound) :=
      descent_agreesWhen (divides_tail bound) (divides_length bound) fun _ _ => id
    exact descent.expressionOver inner floor _ (Nat.lt_of_succ_lt_succ short)

/-- The parser reads expressions by the rules over itself, with no limit of nesting. -/
def IsUnlimited (eof : Token) (e : ExpressionParser) : Prop :=
  ∀ floor tokens, (e floor).run eof tokens = (expressionOver e floor).run eof tokens

/-- Expressions of any depth, each read on more levels than there are tokens. -/
def unlimited : ExpressionParser := fun floor =>
  { run := fun eof tokens => (expressionWithin (tokens.length + 1) floor).run eof tokens
    rest_run := fun eof tokens => (expressionWithin (tokens.length + 1) floor).rest_run eof tokens }

/-- A limit above the number of tokens is none. -/
theorem agreesBelow_unlimited (ended : eof.kind = .eof) (h : IsUnlimited eof e) (budget : Nat)
    (floor : Int) : AgreesBelow eof budget (expressionWithin budget floor) (e floor) := by
  induction budget generalizing floor with
  | zero => exact fun _ short => absurd short (Nat.not_lt_zero _)
  | succ budget ih =>
    intro tokens short
    rw [h floor tokens]
    exact agreesBelow_expressionOver ended ih floor tokens short

theorem agreesBelow_expressionWithin (ended : eof.kind = .eof) {budget budget' : Nat}
    (le : budget ≤ budget') (floor : Int) :
    AgreesBelow eof budget (expressionWithin budget floor) (expressionWithin budget' floor) := by
  induction budget generalizing budget' floor with
  | zero => exact fun _ short => absurd short (Nat.not_lt_zero _)
  | succ budget ih =>
    obtain ⟨more, rfl⟩ : ∃ more, budget' = more + 1 := ⟨budget' - 1, by omega⟩
    exact agreesBelow_expressionOver ended (fun floor => ih (by omega) floor) floor

theorem isUnlimited_unlimited (ended : eof.kind = .eof) : IsUnlimited eof unlimited := by
  intro floor tokens
  -- inside, each run has fewer tokens and so a smaller budget, which is as good as the one here
  have inner (floor : Int) : AgreesBelow eof tokens.length (unlimited floor)
      (expressionWithin tokens.length floor) :=
    fun rest short => agreesBelow_expressionWithin ended short floor rest (Nat.lt_succ_self _)
  exact agreesBelow_expressionOver ended inner floor tokens (Nat.lt_succ_self _)

end Grammar

end MonkeyLang
