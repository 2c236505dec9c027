import MonkeyLang.Proofs.Lexing.ClosedText
import MonkeyLang.Proofs.Syntax.Depth
import MonkeyLang.Proofs.Syntax.Enclosure
import MonkeyLang.Proofs.Syntax.RoundTrip

/-!
# Parentheses

An expression that is complete within its text is the same expression in parentheses, wherever these
stand, and in the parentheses of a call or the brackets of an index: what stands around has no say in
how it is read, and the parentheses leave no trace. Two levels of nesting are left for what stands
around.
-/
namespace MonkeyLang
open MonkeyLang.Derivation MonkeyLang.Grammar MonkeyLang.Parser

/-! ## Complete expressions -/

/-- The text is read without a report as one expression statement with the expression. The statement
ends with the last token, which is no semicolon; the text does not end in an open string; and no
more than 98 expressions lie within one another. -/
structure ClosedExpression (text file : String) (expression : Node) : Prop where
  quiet : (parse text file).log.entries = []
  alone : ∃ first, (parse text file).tree = .program [.exprStatement first expression]
  final : ∃ last : Token, last.kind ≠ .semicolon ∧
    ((statement Grammar.expression).runOn (.ofText text file)).rest = [last]
  settled : endsOpen (extents text) = false
  shallow : Shallow ((statement (expressionWithin 98)).runOn (.ofText text file)).faults

section

variable {eof last first : Token} {tokens left : List Token} {node : Node} {e : ExpressionParser}

/-- Of the statements only an expression gives an expression statement, and without a semicolon at
its end it is read up to the last token. -/
theorem reads_expression_of_statement
    (h : Reads (statement e) eof tokens (.exprStatement first node) [last])
    (kind : last.kind ≠ .semicolon) :
    Reads (anyExpression e) eof tokens node [last] := by
  rw [statement, reads_current_bind] at h
  -- let and return statements give other nodes, whatever they read
  split at h
  · rw [letStatement, reads_current_bind, reads_expect, reads_current_bind, reads_expect,
      reads_advance_bind, reads_bind] at h
    obtain ⟨-, -, value, middle, -, h⟩ := h
    rw [reads_skipOptional_bind, reads_pure] at h
    exact absurd h.1 (by simp)
  · rw [returnStatement, reads_current_bind, reads_advance_bind, reads_bind] at h
    obtain ⟨value, middle, -, h⟩ := h
    rw [reads_skipTo_bind, reads_pure] at h
    exact absurd h.1 (by simp)
  · rw [exprStatement, reads_current_bind, reads_bind] at h
    obtain ⟨value, middle, read, h⟩ := h
    rw [reads_skipOptional_bind, reads_pure] at h
    obtain ⟨same, behind⟩ := h
    obtain ⟨-, rfl⟩ := Node.exprStatement.inj same
    by_cases semicolon : (upcomingOf eof middle).kind = .semicolon
    · rw [if_pos semicolon] at behind
      rw [upcomingOf_of_tail behind.symm] at semicolon
      exact absurd semicolon kind
    · rw [if_neg semicolon] at behind
      rwa [behind]

/-- Where one statement leaves the last token of all, it is the only statement. -/
theorem reads_statement_of_program
    (h : Reads program eof tokens (.program [.exprStatement first node]) left)
    (stops : ((statement expression).run eof tokens).rest = [last]) :
    Reads (statement expression) eof tokens (.exprStatement first node) [last] := by
  rw [program, statements, bind_assoc, reads_bind] at h
  obtain ⟨values, middle, turns, h⟩ := h
  simp only [pure_bind, reads_pure, Node.program.injEq] at h
  obtain ⟨all, rfl⟩ := h
  rw [reads_manyUntil] at turns
  cases turns with
  | ended => simp at all
  | stopped stopped => exact absurd stopped (by decide)
  | @turn token tokens behind left value values go head tail =>
    -- no further turn starts on the last token
    obtain rfl : behind = [last] := head.rest_eq.symm.trans stops
    obtain rfl : values = [] := by
      cases tail
      rfl
    by_cases present : value.isPresent
    · rw [List.filter_cons_of_pos present] at all
      obtain ⟨rfl, -⟩ := List.cons.inj all
      exact head
    · rw [List.filter_cons_of_neg present] at all
      simp at all

end

/-- What the tokens of a text say, without their places. -/
def contentsOf (text file : String) : List (Kind × String) :=
  (Lexer.ofText text file).tokens.map Token.content

/-- A token without a place has none to be taken away. -/
@[simp] theorem Relocation.unplaced_ofContent (said : Kind × String) :
    unplaced.move (.ofContent said) = .ofContent said := rfl

/-- What is read is read from moved tokens as well, up to their places. -/
theorem Parser.Reads.relocate {α β : Type} {r : Relocation} {g : α → β} {p : Parser α}
    {q : Parser β} {eof : Token} {tokens left : List Token} {value : α}
    (read : Reads p eof tokens value left) (follows : Follows r g p q) :
    Reads q (r.move eof) (tokens.map r.move) (g value) (left.map r.move) := by
  obtain ⟨rfl, rfl, faultless⟩ := read
  constructor <;> rw [follows]
  · rfl
  · rfl
  · exact List.map_eq_nil_iff.mpr faultless

namespace ClosedExpression

variable {text file : String} {node : Node}

/-- A complete expression is read up to its last token on 98 levels. -/
theorem reads (h : ClosedExpression text file node) :
    ∃ last, Reads (anyExpression (expressionWithin 98)) (Lexer.ofText text file).eof
      (Lexer.ofText text file).tokens node [last] := by
  obtain ⟨first, tree⟩ := h.alone
  obtain ⟨last, kind, stops⟩ := h.final
  have whole : Reads program (Lexer.ofText text file).eof (Lexer.ofText text file).tokens
      (.program [.exprStatement first node]) _ := ⟨tree, rfl, List.map_eq_nil_iff.mp h.quiet⟩
  -- no report tells of the depth, so fewer levels do as well
  have same : (statement expression).run (Lexer.ofText text file).eof
      (Lexer.ofText text file).tokens = (statement (expressionWithin 98)).run _ _ :=
    congruence_deepens.statement (deepens_expressionWithin (by decide)) _ _ h.shallow
  obtain ⟨value, rest, faults⟩ := reads_statement_of_program whole stops
  rw [same] at value rest faults
  exact ⟨last, reads_expression_of_statement ⟨value, rest, faults⟩ kind⟩

/-- In front of a closing token a complete expression is derived on any number of levels that
suffices for it alone. -/
theorem phrase (h : ClosedExpression text file node) {budget : Nat} (le : 98 ≤ budget)
    {closer : Token} (closes : closer.kind.IsOuter) (rest : List Token) :
    Expression budget Precedence.lowest.rank
      ((contentsOf text file).map Token.ofContent ++ closer :: rest) (closer :: rest)
      (node.relocate .unplaced) := by
  obtain ⟨last, read⟩ := h.reads
  have ended : (Relocation.unplaced.move (Lexer.ofText text file).eof).kind = .eof := by
    rw [Relocation.kind_move, Lexer.kind_eof]
  have outer : (Relocation.unplaced.move (Lexer.ofText text file).eof).kind.IsOuter := by
    rw [ended]
    decide
  -- first the places are taken away, then the closing token comes in place of the end
  have moved := read.relocate (relocates_expressionWithin (r := .unplaced) 98 _)
  have enclosed : Reads _ (Relocation.unplaced.move (Lexer.ofText text file).eof) _ _ _ :=
    persists_expressionWithin outer closes rest le _ _ _ _ moved (by simp)
  have tokens : (contentsOf text file).map Token.ofContent =
      (Lexer.ofText text file).tokens.map Relocation.unplaced.move := by
    rw [contentsOf, List.map_map]
    rfl
  rw [tokens]
  exact ((expressionWithin_recognizes ended budget).sound enclosed).1

/-- The text of a complete expression is written as its tokens. -/
theorem writes (h : ClosedExpression text file node) : Writes text (contentsOf text file) := by
  apply writes_tokens h.settled file
  intro token member
  -- the first token opens an expression, so no sign in front can join with it
  obtain ⟨last, read⟩ := h.reads
  have recognized := expressionWithin_recognizes (Lexer.kind_eof (.ofText text file)) 98
  have opens := recognized.starts (recognized.sound read).1
  obtain ⟨others, tokens⟩ := List.head?_eq_some_iff.mp member
  rw [tokens, currentOf_cons] at opens
  constructor <;> intro kind <;> simp [kind, Kind.opening?] at opens

/-- A complete expression in parentheses can start an expression. -/
theorem group (h : ClosedExpression text file node) {budget : Nat} (le : 98 ≤ budget)
    (rest : List Token) :
    Primary (Expression budget) (.ofContent (.lparen, "(") ::
      ((contentsOf text file).map Token.ofContent ++ .ofContent (.rparen, ")") :: rest)) rest
      (node.relocate .unplaced) :=
  .group rfl (h.phrase le (by decide) rest) rfl

end ClosedExpression

/-! ## What stands around -/

/-- The text is read without a report as one expression statement with the expression, up to the
places of its tokens. -/
def ReadsAs (text file : String) (expression : Node) : Prop :=
  (parse text file).log.entries = [] ∧ ∃ first, (parse text file).tree.relocate .unplaced =
    .program [.exprStatement first (expression.relocate .unplaced)]

theorem stops_nil (floor : Int) : Stops floor [] := by simp [Stops]

theorem Derivation.Segment.ne_nil {inner : Int → Phrase Node} {floor : Int}
    {tokens rest : List Token} {node : Node} (h : Segment inner floor tokens rest node) :
    tokens ≠ [] := by
  obtain ⟨primary, -⟩ := h
  cases primary <;> exact List.cons_ne_nil _ _

/-- A text whose tokens are a segment of the grammar is read as that segment. -/
theorem readsAs_of_segment {text file : String} {said : List (Kind × String)}
    {tokens : List Token} {node : Node} (writes : Writes text said)
    (same : said.map Token.ofContent = tokens)
    (segment : Segment (Expression 99) Precedence.lowest.rank tokens []
      (node.relocate .unplaced)) : ReadsAs text file node := by
  have blank : Layout [] [] := .blank (by simp)
  have layout := writes.layout [] [] apart_nil blank
  rw [List.append_nil, List.append_nil] at layout
  have contents : (Lexer.ofText text file).tokens.map Token.content = said := by
    rw [Lexer.tokens_of_layout layout rfl, List.map_map]
    simp [Function.comp_def]
  obtain ⟨first, others, rfl⟩ := List.exists_cons_of_ne_nil segment.ne_nil
  have phrase : Expression 100 Precedence.lowest.rank (first :: others) []
      (node.relocate .unplaced) := ⟨segment, stops_nil _⟩
  have derived : Statements (Expression 100) (first :: others) []
      [.exprStatement first (node.relocate .unplaced)] := .cons (.expression phrase .missing) .nil
  rw [← same] at derived
  obtain ⟨quiet, tree⟩ := parse_of_contents contents derived
  exact ⟨quiet, first, tree⟩

section

variable {e₁ e₂ file : String} {node₁ node₂ : Node} (h₁ : ClosedExpression e₁ file node₁)
  (h₂ : ClosedExpression e₂ file node₂)
include h₁

theorem readsAs_group : ReadsAs ("(" ++ e₁ ++ ")") file node₁ := by
  have written := h₁.writes.paren
  rw [← String.append_assoc] at written
  exact readsAs_of_segment written (by simp) (.intro (h₁.group (by decide) []) .nil)

theorem readsAs_unary {sign : Kind × String} (member : sign ∈ signs) :
    ReadsAs (sign.2 ++ "(" ++ e₁ ++ ")") file (.unary (.ofContent sign) sign.2 node₁) := by
  obtain ⟨spelled, other⟩ := spelled_sign member
  have written := h₁.writes.paren.symbol spelled other
  simp only [← String.append_assoc] at written
  have said : (Token.ofContent sign).content ∈ signs := member
  have operand : Expression 99 Precedence.unary.rank _ [] _ :=
    ⟨.intro (h₁.group (by decide) []) .nil, stops_nil _⟩
  exact readsAs_of_segment written (by simp) (.intro (.unary (kind_sign said) operand) .nil)

include h₂

theorem readsAs_binary {operator : Kind × String} (member : operator ∈ operators) :
    ReadsAs ("(" ++ e₁ ++ ")" ++ " " ++ operator.2 ++ " " ++ "(" ++ e₂ ++ ")") file
      (.binary (.ofContent operator) operator.2 node₁ node₂) := by
  have behind := h₂.writes.paren.blank.spaced (spelled_operator member)
  have written := h₁.writes.paren.beside behind (apart_append apart_blank)
  simp only [← String.append_assoc] at written
  have said : (Token.ofContent operator).content ∈ operators := member
  obtain ⟨kind, above, -⟩ := kind_operator said
  have right : Expression 99 (Token.ofContent operator).kind.rank _ [] _ :=
    ⟨.intro (h₂.group (by decide) []) .nil, stops_nil _⟩
  exact readsAs_of_segment written (by simp)
    (.intro (h₁.group (by decide) _) (.cons (.binary kind above right) .nil))

theorem readsAs_call : ReadsAs ("(" ++ e₁ ++ ")" ++ "(" ++ e₂ ++ ")") file
    (.call (.ofContent (.lparen, "(")) node₁ [node₂]) := by
  have spelled : Kind.lparen.spelling? = some "(".toList := rfl
  have written := h₁.writes.paren.beside h₂.writes.paren
    (apart_append (apart_spelled spelled (by decide)))
  simp only [← String.append_assoc] at written
  have closes : (Token.ofContent (.rparen, ")")).kind.IsOuter := by decide
  have argument := h₂.phrase (by decide : 98 ≤ 99) closes []
  have arguments : Listing .rparen (Expression 99 Precedence.lowest.rank) _ [] _ :=
    .items (.last argument) rfl
  exact readsAs_of_segment written (by simp)
    (.intro (h₁.group (by decide) _) (.cons (.call rfl (by decide) arguments) .nil))

theorem readsAs_index : ReadsAs ("(" ++ e₁ ++ ")" ++ "[" ++ e₂ ++ "]") file
    (.index (.ofContent (.lbracket, "[")) node₁ node₂) := by
  have spelled : Kind.lbracket.spelling? = some "[".toList := rfl
  have written := h₁.writes.paren.beside h₂.writes.bracket
    (apart_append (apart_spelled spelled (by decide)))
  simp only [← String.append_assoc] at written
  have closes : (Token.ofContent (.rbracket, "]")).kind.IsOuter := by decide
  have place := h₂.phrase (by decide : 98 ≤ 99) closes []
  exact readsAs_of_segment written (by simp)
    (.intro (h₁.group (by decide) _) (.cons (.index rfl (by decide) place rfl) .nil))

end

/-- A complete expression in parentheses is read as the expression itself, behind a sign as its
operand, on both sides of any operator as a side, in front of parentheses as what is called, and in
front of brackets as what is indexed. In the parentheses of the call and in the brackets a complete
expression is the argument and the position. -/
theorem parse_parentheses {e₁ e₂ file : String} {node₁ node₂ : Node}
    (h₁ : ClosedExpression e₁ file node₁) (h₂ : ClosedExpression e₂ file node₂) :
    ReadsAs ("(" ++ e₁ ++ ")") file node₁ ∧
    (∀ sign ∈ signs,
      ReadsAs (sign.2 ++ "(" ++ e₁ ++ ")") file (.unary (.ofContent sign) sign.2 node₁)) ∧
    (∀ operator ∈ operators,
      ReadsAs ("(" ++ e₁ ++ ")" ++ " " ++ operator.2 ++ " " ++ "(" ++ e₂ ++ ")") file
        (.binary (.ofContent operator) operator.2 node₁ node₂)) ∧
    ReadsAs ("(" ++ e₁ ++ ")" ++ "(" ++ e₂ ++ ")") file
      (.call (.ofContent (.lparen, "(")) node₁ [node₂]) ∧
    ReadsAs ("(" ++ e₁ ++ ")" ++ "[" ++ e₂ ++ "]") file
      (.index (.ofContent (.lbracket, "[")) node₁ node₂) := by
  refine ⟨readsAs_group h₁, ?_, ?_, readsAs_call h₁ h₂, readsAs_index h₁ h₂⟩
  · intro sign member
    exact readsAs_unary h₁ member
  · intro operator member
    exact readsAs_binary h₁ h₂ member

/-- The expression of a tree that is one expression statement. -/
def soleExpression : Node → Node
  | .program [.exprStatement _ expression] => expression
  | _ => .absent

theorem eq_of_soleExpression {tree : Node} (h : (soleExpression tree).isPresent) :
    ∃ first, tree = .program [.exprStatement first (soleExpression tree)] := by
  unfold soleExpression at h ⊢
  split
  · exact ⟨_, rfl⟩
  · simp [Node.isPresent] at h

/-- A sum and a choice whose block returns keep together in a product. -/
theorem parse_parentheses_product :
    (soleExpression (parse "a + b").tree).render = .ok "(a + b)" ∧
    (soleExpression (parse "if (c) \x7b return d e; \x7d").tree).render = .ok "if return d;" ∧
    ReadsAs "(a + b) * (if (c) \x7b return d e; \x7d)" Lexer.unnamed
      (.binary (.ofContent (.asterisk, "*")) "*" (soleExpression (parse "a + b").tree)
        (soleExpression (parse "if (c) \x7b return d e; \x7d").tree)) := by
  have sum : ClosedExpression "a + b" Lexer.unnamed (soleExpression (parse "a + b").tree) := by
    exact ⟨by decide +kernel, eq_of_soleExpression (by decide +kernel),
      ⟨⟨.ident, "b", some ⟨Lexer.unnamed, 1, 5, none, none⟩⟩, by decide, by decide +kernel⟩,
      by decide +kernel, by decide +kernel⟩
  have choice : ClosedExpression "if (c) \x7b return d e; \x7d" Lexer.unnamed
      (soleExpression (parse "if (c) \x7b return d e; \x7d").tree) := by
    exact ⟨by decide +kernel, eq_of_soleExpression (by decide +kernel),
      ⟨⟨.rbrace, "\x7d", some ⟨Lexer.unnamed, 1, 22, none, none⟩⟩, by decide, by decide +kernel⟩,
      by decide +kernel, by decide +kernel⟩
  have whole := (parse_parentheses sum choice).2.2.1 (.asterisk, "*") (by decide)
  exact ⟨by decide +kernel, by decide +kernel, whole⟩

end MonkeyLang
