import MonkeyLang.Proofs.Syntax.Depth
import MonkeyLang.Proofs.Syntax.FaultOrder
import MonkeyLang.Proofs.Syntax.Unlimited
import MonkeyLang.Proofs.Syntax.WellFormedParsing
import MonkeyLang.Proofs.Tree.Nest

/-!
# The limit of nesting

A rule over expressions of so many levels gives an expression of at most one level more: what it
goes on with in a loop stays on the level of the rule. So the budget bounds the levels of every
tree, with errors or without. A text of which nothing is reported that tells of the limit is read as
if there were none.
-/
namespace MonkeyLang

namespace Grammar
open MonkeyLang.Parser MonkeyLang.Node

section

variable {eof : Token} {text : List Token} {required : Token → Prop} {e : ExpressionParser}
  {limit : Nat}

/-- Wherever it starts, a parser for expressions gives a tree of no more levels than the limit. -/
def Nests (eof : Token) (text : List Token) (limit : Nat) (e : ExpressionParser) : Prop :=
  ∀ floor, Gives eof text (fun _ => True) (·.nest ≤ limit) (e floor)

theorem nest_absent_le (limit : Nat) : absent.nest ≤ limit := Nat.zero_le limit

theorem nests_integer : Gives eof text required (·.nest ≤ limit + 1) integer := by
  refine gives_behind fun token => ?_
  split
  · exact gives_pure (Nat.le_add_left ..)
  · exact gives_behind fun _ => gives_pure (nest_absent_le _)

section

variable (h : Nests eof text limit e)
include h

/-! ## Statements -/

theorem nests_letStatement : Gives eof text required (·.nest ≤ limit) (letStatement e) := by
  refine gives_behind fun token => gives_expect (nest_absent_le _) ?_
  refine gives_behind fun name => gives_expect (nest_absent_le _) ?_
  refine gives_behind fun _ => gives_bind (h _) fun value levels => ?_
  exact gives_behind fun _ => gives_pure levels

theorem nests_returnStatement : Gives eof text required (·.nest ≤ limit) (returnStatement e) := by
  refine gives_behind fun token => gives_behind fun _ => gives_bind (h _) fun value levels => ?_
  exact gives_behind fun _ => gives_pure levels

theorem nests_exprStatement : Gives eof text required (·.nest ≤ limit) (exprStatement e) := by
  refine gives_behind fun token => gives_bind (h _) fun value levels => ?_
  exact gives_behind fun _ => gives_pure levels

theorem nests_statement : Gives eof text required (·.nest ≤ limit) (statement e) := by
  refine gives_behind fun token => ?_
  split
  · exact nests_letStatement h
  · exact nests_returnStatement h
  · exact nests_exprStatement h

theorem nests_statements (stop : Kind → Bool) :
    Gives eof text required (∀ node ∈ ·, node.nest ≤ limit) (statements stop e) := by
  refine gives_bind (gives_manyUntil (nests_statement h)) fun nodes levels => ?_
  exact gives_pure fun node member => levels node (List.mem_of_mem_filter member)

theorem nests_block : Gives eof text required (·.nest ≤ limit) (block e) := by
  refine gives_behind fun brace => gives_behind fun _ => ?_
  exact gives_bind (nests_statements h _) fun nodes levels => gives_pure (nestOf_le_iff.mpr levels)

/-! ## Expressions -/

theorem nests_unary : Gives eof text required (·.nest ≤ limit + 1) (unary e) := by
  refine gives_behind fun token => gives_behind fun _ => gives_bind (h _) fun operand levels => ?_
  exact gives_pure (by rw [nest]; omega)

theorem nests_group : Gives eof text required (·.nest ≤ limit + 1) (group e) := by
  refine gives_behind fun _ => gives_bind (h _) fun inner levels => ?_
  exact gives_expect (nest_absent_le _) (gives_pure (Nat.le_succ_of_le levels))

theorem nests_conditional : Gives eof text required (·.nest ≤ limit + 1) (conditional e) := by
  refine gives_behind fun token => gives_expect (nest_absent_le _) ?_
  refine gives_behind fun _ => gives_bind (h _) fun condition levels => ?_
  refine gives_expect (nest_absent_le _) (gives_expect (nest_absent_le _) ?_)
  refine gives_bind (nests_block h) fun consequence levels' => gives_behind fun next => ?_
  split_ifs
  · refine gives_behind fun _ => gives_expect (nest_absent_le _) ?_
    refine gives_bind (nests_block h) fun alternative levels'' => gives_pure ?_
    rw [nest]
    omega
  · refine gives_pure ?_
    rw [nest, nest]
    omega

theorem nests_function : Gives eof text required (·.nest ≤ limit + 1) (function e) := by
  refine gives_behind fun token => gives_expect (nest_absent_le _) (gives_behind fun listed => ?_)
  cases listed with
  | none => exact gives_pure (nest_absent_le _)
  | some parameters =>
    by_cases present : parameters.all Node.isPresent
    · simp only [if_pos present]
      refine gives_expect (nest_absent_le _) (gives_bind (nests_block h) fun body levels => ?_)
      exact gives_pure (by rw [nest]; omega)
    · simp only [if_neg present]
      exact gives_pure (nest_absent_le _)

theorem nests_array : Gives eof text required (·.nest ≤ limit + 1) (array e) := by
  refine gives_behind fun token => gives_bind (gives_commaList (h _)) fun listed levels => ?_
  cases listed with
  | none => exact gives_pure (nest_absent_le _)
  | some elements =>
    have := nestOf_le_iff.mpr (levels elements rfl)
    exact gives_pure (by rw [nest]; omega)

theorem nests_binary {left : Node} (before : left.nest ≤ limit + 1) :
    Gives eof text required (·.nest ≤ limit + 1) (binary e left) := by
  refine gives_behind fun token => gives_behind fun _ => gives_bind (h _) fun right levels => ?_
  exact gives_pure (by rw [nest]; omega)

theorem nests_call {callee : Node} (before : callee.nest ≤ limit + 1) :
    Gives eof text required (·.nest ≤ limit + 1) (call e callee) := by
  refine gives_behind fun token => gives_bind (gives_commaList (h _)) fun listed levels => ?_
  cases listed with
  | none => exact gives_pure (nest_absent_le _)
  | some arguments =>
    have := nestOf_le_iff.mpr (levels arguments rfl)
    exact gives_pure (by rw [nest]; omega)

theorem nests_index {collection : Node} (before : collection.nest ≤ limit + 1) :
    Gives eof text required (·.nest ≤ limit + 1) (index e collection) := by
  refine gives_behind fun token => gives_behind fun _ => gives_bind (h _) fun position levels => ?_
  exact gives_expect (nest_absent_le _) (gives_pure (by rw [nest]; omega))

theorem nests_opening (start : Opening) :
    Gives eof text required (·.nest ≤ limit + 1) (opening e start) := by
  cases start with
  | identifier => exact gives_behind fun _ => gives_pure (Nat.le_add_left ..)
  | integer => exact nests_integer
  | string => exact gives_behind fun _ => gives_pure (Nat.le_add_left ..)
  | boolean value => exact gives_behind fun _ => gives_pure (Nat.le_add_left ..)
  | unary => exact nests_unary h
  | group => exact nests_group h
  | conditional => exact nests_conditional h
  | function => exact nests_function h
  | array => exact nests_array h

theorem nests_continuation {left : Node} (before : left.nest ≤ limit + 1) :
    Gives eof text required (·.nest ≤ limit + 1) (continuation e left) := by
  refine gives_behind fun operator => ?_
  split
  · exact nests_binary h before
  · exact nests_call h before
  · exact nests_index h before
  · exact gives_pure before

/-- However often an expression goes on, it stays one level above the inner ones. -/
theorem nests_expressionOver : Nests eof text (limit + 1) (expressionOver e) := by
  refine fun floor => gives_behind fun token => ?_
  split
  · exact gives_behind fun _ => gives_pure (nest_absent_le _)
  · refine gives_bind (nests_opening h _) fun left levels => ?_
    exact gives_whileNext (fun left before => nests_continuation h before) levels

end

/-- An expression on a budget has no more levels than the budget. -/
theorem nests_expressionWithin (budget : Nat) : Nests eof text budget (expressionWithin budget) := by
  induction budget with
  | zero => exact fun _ => gives_behind fun _ => gives_behind fun _ => gives_pure (nest_absent_le 0)
  | succ budget ih => exact nests_expressionOver ih

theorem nests_program : Gives eof text (fun _ => True) (·.nest ≤ maxNesting) program := by
  refine gives_bind (nests_statements (nests_expressionWithin maxNesting) _) fun nodes levels => ?_
  exact gives_pure (nestOf_le_iff.mpr levels)

end

/-! ## Programs without a limit -/

/-- A whole program over a parser for expressions. -/
def programOver (e : ExpressionParser) : Parser Node := do
  return .program (← statements (fun _ => false) e)

theorem Congruence.programOver {R : ∀ {α : Type}, Parser α → Parser α → Prop} (h : Congruence R)
    {e e' : ExpressionParser} (inner : ∀ floor, R (e floor) (e' floor)) :
    R (programOver e) (programOver e') :=
  h.bind (h.statements inner _) fun _ => h.pure _

/-- A program that never meets the limit is read in the same way without one. -/
theorem run_programOver {eof : Token} (ended : eof.kind = .eof) {e : ExpressionParser}
    (h : IsUnlimited eof e) {tokens : List Token} (shallow : Shallow (program.run eof tokens).faults) :
    (programOver e).run eof tokens = program.run eof tokens := by
  -- more levels than there are tokens, and no fewer than the limit
  obtain ⟨budget, enough, more⟩ : ∃ budget, tokens.length < budget ∧ maxNesting ≤ budget :=
    ⟨maxNesting + tokens.length + 1, by omega, by omega⟩
  have deeper : (programOver (expressionWithin budget)).run eof tokens = program.run eof tokens :=
    congruence_deepens.programOver (deepens_expressionWithin more) eof tokens shallow
  have same : (programOver e).run eof tokens = (programOver (expressionWithin budget)).run eof tokens :=
    (congruence_agreesBelow budget).programOver (agreesBelow_unlimited ended h budget) tokens enough
  rw [same, deeper]

end Grammar

open Grammar

/-- Reads a program with a given parser for expressions. -/
def parseOver (e : ExpressionParser) (text : String) (file : String := Lexer.unnamed) : Parsed :=
  let outcome := (programOver e).runOn (.ofText text file)
  ⟨outcome.value, .append .empty (outcome.faults.map Fault.diagnostic)⟩

/-- What is reported where an expression lies too deep. -/
def nestingMessage : String := "Expression nesting exceeds 100 levels"

/-- A text of which the limit is not reported does not meet it. -/
theorem shallow_of_messages {text file : String}
    (quiet : nestingMessage ∉ (parse text file).log.messages) :
    Parser.Shallow (program.runOn (.ofText text file)).faults := by
  intro fault found deep
  have ended := Lexer.kind_eof (Lexer.ofText text file)
  have justified := (traced_program ended (Lexer.ofText text file).tokens).justified fault found
  cases justified with
  | tooDeep => exact quiet (List.mem_map_of_mem (List.mem_map_of_mem found))
  | _ => simp [Fault.isTooDeep] at deep

/-- Whatever a text is, no node of its tree has more levels of expressions than the limit. There is a
parser that reads expressions of any depth by the same rules; and with every such parser the tree
and the log are the same, unless it is reported that the text meets the limit. -/
theorem parse_nesting (text file : String) :
    (∀ node ∈ (parse text file).tree.subtrees, node.nest ≤ maxNesting) ∧
    IsUnlimited (Lexer.ofText text file).eof unlimited ∧
    ∀ e, IsUnlimited (Lexer.ofText text file).eof e →
      nestingMessage ∉ (parse text file).log.messages → parseOver e text file = parse text file := by
  have ended := Lexer.kind_eof (Lexer.ofText text file)
  refine ⟨fun node member => ?_, isUnlimited_unlimited ended, fun e h quiet => ?_⟩
  · have whole : (parse text file).tree.nest ≤ maxNesting :=
      nests_program _ (List.suffix_refl _) trivial
    have part := Node.nest_subtree_le (wellFormed_parse text file) node member
    exact part.trans (Nat.max_le.mpr ⟨by decide, whole⟩)
  · have same : (programOver e).runOn (.ofText text file) = program.runOn (.ofText text file) :=
      run_programOver ended h (shallow_of_messages quiet)
    rw [parseOver, same, parse]

/-- A callee in parentheses, its call and the position behind it lie on one level, inside of the
operator in front. -/
def sampleNesting : String := "let x = !(-f)(1)[2];"

theorem parse_nesting_sample : (parse sampleNesting).tree.nest = 3 ∧
    parseOver unlimited sampleNesting = parse sampleNesting := by
  obtain ⟨-, own, same⟩ := parse_nesting sampleNesting Lexer.unnamed
  exact ⟨by decide +kernel, same unlimited own (by decide +kernel)⟩

end MonkeyLang
