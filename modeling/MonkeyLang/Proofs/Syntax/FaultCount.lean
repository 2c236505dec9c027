import MonkeyLang.Proofs.Lexing.Layout
import MonkeyLang.Proofs.Syntax.TracedParsing

/-!
# The number of faults

Each token that is moved past pays for one fault, and the end token for one more. So however many
rules around a fault fail in turn, a text has no more faults than tokens. A row of open parentheses
has as many.
-/
namespace MonkeyLang
open MonkeyLang.Parser

/-- The faults of a run outnumber the tokens that it moves past by no more than the debt. -/
theorem Trace.length_faults_le {eof : Token} {stage : Stage} {debt moves : Nat}
    {tokens : List Token} {faults : List Fault} {before after : List (Option Token)}
    (h : Trace eof stage debt tokens moves faults before after) :
    faults.length + (tokens.length - moves) ≤ tokens.length + debt := by
  induction h with
  | idle => simp
  | ended => simp
  | andThen first second ih ih' =>
    rw [List.length_drop] at ih'
    rw [List.length_append]
    omega
  | move rest ih =>
    -- the token that is left behind pays for one more fault of what follows
    rw [List.length_cons]
    omega
  | missing other => simp; omega
  | refused justified here => simp; omega
  | skip keyword count rest ih => omega
  | keep legal rest ih => exact ih
  | pass unkept rest ih => exact ih
  | behind earlier rest ih => exact ih
  | collapse gap rest ih => exact ih
  | unbound keyword rest ih => exact ih

/-- Parentheses that are opened and never closed. -/
def openParentheses (count : Nat) : String := String.ofList (List.replicate count '(')

theorem layout_openParentheses (count : Nat) :
    Layout (List.replicate count ⟨.lparen, ['('], true⟩) (List.replicate count '(') := by
  induction count with
  | zero => exact .blank (by simp)
  | succ count ih =>
    rw [List.replicate_succ, List.replicate_succ]
    have fits : Piece.Fits ⟨.lparen, ['('], true⟩ (List.replicate count '(') :=
      .symbol rfl (by simp)
    exact .piece (List.forall_mem_nil _) fits ih

theorem tokens_openParentheses (count : Nat) (file : String) :
    (Lexer.ofText (openParentheses count) file).tokens.map Token.content =
      List.replicate count (.lparen, "(") := by
  rw [Lexer.tokens_of_layout (layout_openParentheses count) String.toList_ofList,
    List.map_replicate]
  rfl

namespace Grammar

/-- Each open parenthesis misses its closing one, behind the expression that is missing at the
end. -/
theorem run_openParentheses {eof : Token} (ended : eof.kind = .eof) {budget : Nat} (floor : Int)
    {tokens : List Token} (open_only : ∀ token ∈ tokens, token.kind = .lparen)
    (levels : tokens.length ≤ budget) :
    ((expressionWithin budget floor).run eof tokens).rest = [] ∧
      ((expressionWithin budget floor).run eof tokens).faults.length = tokens.length + 1 := by
  induction budget generalizing floor tokens with
  | zero =>
    obtain rfl := List.length_eq_zero_iff.mp (Nat.le_zero.mp levels)
    exact ⟨rfl, rfl⟩
  | succ budget ih =>
    cases tokens with
    | nil =>
      simp [expressionWithin, expressionOver, ended, Kind.opening?, Outcome.andThen]
    | cons token tokens =>
      have kind := open_only token List.mem_cons_self
      obtain ⟨left, count⟩ := ih Precedence.lowest.rank
        (fun other ho => open_only other (List.mem_cons_of_mem token ho)) (by simpa using levels)
      simp [expressionWithin, expressionOver, kind, Kind.opening?, opening, group, anyExpression,
        run_expect, left, ended, whileNextOutcome, count]

theorem faults_program_openParentheses {eof : Token} (ended : eof.kind = .eof) {tokens : List Token}
    (nonempty : tokens ≠ []) (open_only : ∀ token ∈ tokens, token.kind = .lparen)
    (levels : tokens.length ≤ maxNesting) :
    (program.run eof tokens).faults.length = tokens.length + 1 := by
  obtain ⟨left, count⟩ := run_openParentheses ended Precedence.lowest.rank open_only levels
  cases tokens with
  | nil => exact absurd rfl nonempty
  | cons token tokens =>
    have kind := open_only token List.mem_cons_self
    simp [program, statements, statement, exprStatement, anyExpression, expression, kind,
      manyUntilOutcome, run_skipOptional, left, ended, count]

end Grammar

/-- A text has at most as many faults as tokens, the end token included; and as many if it consists
of open parentheses, up to the deepest nesting. -/
theorem size_log_le_length_tokenize :
    (∀ text file : String, (parse text file).log.size ≤ (tokenize text file).length) ∧
    ∀ (count : Nat) (file : String), 0 < count → count ≤ 100 →
      (parse (openParentheses count) file).log.size =
        (tokenize (openParentheses count) file).length := by
  constructor
  · intro text file
    obtain ⟨moves, faults, reported, reached, trace⟩ := parse_trace text file
    have bound := trace.length_faults_le
    rw [Log.size, reported, List.length_map, length_tokenize]
    omega
  · intro count file positive levels
    have said := tokens_openParentheses count file
    have length : (Lexer.ofText (openParentheses count) file).tokens.length = count := by
      simpa using congrArg List.length said
    have open_only : ∀ token ∈ (Lexer.ofText (openParentheses count) file).tokens,
        token.kind = .lparen := by
      intro token member
      have content := List.mem_map_of_mem (f := Token.content) member
      rw [said] at content
      exact congrArg Prod.fst (List.eq_of_mem_replicate content)
    have nonempty := List.ne_nil_of_length_pos (positive.trans_eq length.symm)
    have faults := Grammar.faults_program_openParentheses
      (Lexer.kind_eof (.ofText (openParentheses count) file)) nonempty open_only (length.trans_le levels)
    have reported : (parse (openParentheses count) file).log.size = _ :=
      (List.length_map _).trans faults
    rw [reported, length_tokenize]

theorem size_log_three_openParentheses : (parse (openParentheses 3)).log.size = 4 ∧
    (tokenize (openParentheses 3)).length = 4 := by
  have length : (tokenize (openParentheses 3)).length = 4 := by decide +kernel
  have tight := size_log_le_length_tokenize.2 3 Lexer.unnamed (by decide) (by decide)
  exact ⟨tight.trans length, length⟩

end MonkeyLang
