import MonkeyLang.Proofs.Syntax.Acceptance
import MonkeyLang.Proofs.Syntax.Relocation

/-!
# Parsing moved tokens

Each rule of the grammar follows itself on moved tokens, given that the parser for the inner
expressions does; by induction on the levels of nesting so does the parser for all of them. A
program is therefore known, up to places, from what its tokens say.
-/
namespace MonkeyLang.Grammar
open MonkeyLang.Parser

variable {r : Relocation} {expression : ExpressionParser}

/-- The parser gives moved trees on moved tokens. -/
abbrev Relocates (r : Relocation) (p q : Parser Node) : Prop := Follows r (Node.relocate r) p q

theorem relocates_pure (node : Node) : Relocates r (pure node) (pure (node.relocate r)) :=
  follows_pure node

theorem relocates_expect {found found' : Parser Node} (kind : Kind)
    (hfound : Relocates r found found') :
    Relocates r (expect kind .absent found) (expect kind .absent found') :=
  follows_expect kind hfound

section

variable (inner : ∀ floor, Relocates r (expression floor) (expression floor))
include inner

theorem relocates_letStatement :
    Relocates r (letStatement expression) (letStatement expression) := by
  refine follows_bind follows_current fun token => ?_
  refine relocates_expect .ident ?_
  refine follows_bind follows_current fun name => ?_
  refine relocates_expect .assign ?_
  refine follows_bind follows_advance fun _ => ?_
  refine follows_bind (inner _) fun value => ?_
  refine follows_bind (follows_skipOptional .semicolon) fun _ => ?_
  rw [r.lexeme_move]
  exact relocates_pure (.letStatement token (.identifier name name.lexeme) value)

theorem relocates_returnStatement :
    Relocates r (returnStatement expression) (returnStatement expression) := by
  refine follows_bind follows_current fun token => ?_
  refine follows_bind follows_advance fun _ => ?_
  refine follows_bind (inner _) fun value => ?_
  refine follows_bind (follows_skipTo .semicolon) fun _ => ?_
  exact relocates_pure (.returnStatement token value)

theorem relocates_exprStatement :
    Relocates r (exprStatement expression) (exprStatement expression) := by
  refine follows_bind follows_current fun token => ?_
  refine follows_bind (inner _) fun value => ?_
  refine follows_bind (follows_skipOptional .semicolon) fun _ => ?_
  exact relocates_pure (.exprStatement token value)

theorem relocates_statement : Relocates r (statement expression) (statement expression) := by
  refine follows_bind follows_current fun token => ?_
  rw [r.kind_move]
  split
  · exact relocates_letStatement inner
  · exact relocates_returnStatement inner
  · exact relocates_exprStatement inner

theorem follows_statements (stop : Kind → Bool) :
    Follows r (List.map (Node.relocate r)) (statements stop expression)
      (statements stop expression) := by
  refine follows_bind (follows_manyUntil stop (relocates_statement inner)) fun nodes => ?_
  have present : (nodes.map (Node.relocate r)).filter Node.isPresent =
      (nodes.filter Node.isPresent).map (Node.relocate r) := by
    rw [List.filter_map]
    congr 2
    funext node
    exact node.isPresent_relocate r
  rw [present]
  exact follows_pure (nodes.filter Node.isPresent)

theorem relocates_block : Relocates r (block expression) (block expression) := by
  refine follows_bind follows_current fun brace => ?_
  refine follows_bind follows_advance fun _ => ?_
  refine follows_bind (follows_statements inner (· == .rbrace)) fun nodes => ?_
  rw [← Node.relocateAll_eq_map]
  exact relocates_pure (.block brace nodes)

theorem relocates_unary : Relocates r (unary expression) (unary expression) := by
  refine follows_bind follows_current fun token => ?_
  refine follows_bind follows_advance fun _ => ?_
  refine follows_bind (inner _) fun operand => ?_
  rw [r.lexeme_move]
  exact relocates_pure (.unary token token.lexeme operand)

theorem relocates_group : Relocates r (group expression) (group expression) := by
  refine follows_bind follows_advance fun _ => ?_
  refine follows_bind (inner _) fun node => ?_
  exact relocates_expect .rparen (relocates_pure node)

theorem relocates_conditional : Relocates r (conditional expression) (conditional expression) := by
  refine follows_bind follows_current fun token => ?_
  refine relocates_expect .lparen ?_
  refine follows_bind follows_advance fun _ => ?_
  refine follows_bind (inner _) fun condition => ?_
  refine relocates_expect .rparen (relocates_expect .lbrace ?_)
  refine follows_bind (relocates_block inner) fun consequence => ?_
  refine follows_bind follows_upcoming fun next => ?_
  rw [r.kind_move]
  split
  · refine follows_bind follows_advance fun _ => ?_
    refine relocates_expect .lbrace ?_
    refine follows_bind (relocates_block inner) fun alternative => ?_
    exact relocates_pure (.conditional token condition consequence alternative)
  · exact relocates_pure (.conditional token condition consequence .absent)

omit inner in
theorem relocates_parameter : Relocates r parameter parameter := by
  refine follows_bind follows_current fun token => ?_
  rw [r.kind_move, r.lexeme_move]
  split
  · exact relocates_pure (.identifier token token.lexeme)
  · exact follows_bind (follows_report (.unexpected .ident token)) fun _ => relocates_pure .absent

theorem relocates_function : Relocates r (function expression) (function expression) := by
  refine follows_bind follows_current fun token => ?_
  refine relocates_expect .lparen ?_
  refine follows_bind (follows_commaList .rparen relocates_parameter) fun parameters? => ?_
  cases parameters? with
  | none => exact relocates_pure .absent
  | some parameters =>
    have present : (parameters.map (Node.relocate r)).all Node.isPresent =
        parameters.all Node.isPresent := by
      rw [List.all_map]
      congr 1
      funext node
      exact node.isPresent_relocate r
    simp only [Option.map_some, present]
    split
    · refine relocates_expect .lbrace ?_
      refine follows_bind (relocates_block inner) fun body => ?_
      rw [← Node.relocateAll_eq_map]
      exact relocates_pure (.function token parameters body)
    · exact relocates_pure .absent

theorem relocates_array : Relocates r (array expression) (array expression) := by
  refine follows_bind follows_current fun token => ?_
  refine follows_bind (follows_commaList .rbracket (inner _)) fun elements? => ?_
  cases elements? with
  | none => exact relocates_pure .absent
  | some elements =>
    simp only [Option.map_some]
    rw [← Node.relocateAll_eq_map]
    exact relocates_pure (.array token elements)

theorem relocates_binary (left : Node) :
    Relocates r (binary expression left) (binary expression (left.relocate r)) := by
  refine follows_bind follows_current fun token => ?_
  refine follows_bind follows_advance fun _ => ?_
  rw [r.kind_move, r.lexeme_move]
  refine follows_bind (inner _) fun right => ?_
  exact relocates_pure (.binary token token.lexeme left right)

theorem relocates_call (callee : Node) :
    Relocates r (call expression callee) (call expression (callee.relocate r)) := by
  refine follows_bind follows_current fun token => ?_
  refine follows_bind (follows_commaList .rparen (inner _)) fun arguments? => ?_
  cases arguments? with
  | none => exact relocates_pure .absent
  | some arguments =>
    simp only [Option.map_some]
    rw [← Node.relocateAll_eq_map]
    exact relocates_pure (.call token callee arguments)

theorem relocates_index (collection : Node) :
    Relocates r (index expression collection) (index expression (collection.relocate r)) := by
  refine follows_bind follows_current fun token => ?_
  refine follows_bind follows_advance fun _ => ?_
  refine follows_bind (inner _) fun position => ?_
  exact relocates_expect .rbracket (relocates_pure (.index token collection position))

theorem relocates_opening (start : Opening) :
    Relocates r (opening expression start) (opening expression start) := by
  cases start with
  | identifier =>
    refine follows_bind follows_current fun token => ?_
    rw [r.lexeme_move]
    exact relocates_pure (.identifier token token.lexeme)
  | integer =>
    refine follows_bind follows_current fun token => ?_
    rw [r.lexeme_move]
    split
    · rename_i value _
      exact relocates_pure (.integer token value)
    · exact follows_bind (follows_report (.malformedInteger token)) fun _ => relocates_pure .absent
  | string =>
    refine follows_bind follows_current fun token => ?_
    rw [r.lexeme_move]
    exact relocates_pure (.string token token.lexeme)
  | boolean value => exact follows_bind follows_current fun token => relocates_pure (.boolean token value)
  | unary => exact relocates_unary inner
  | group => exact relocates_group inner
  | conditional => exact relocates_conditional inner
  | function => exact relocates_function inner
  | array => exact relocates_array inner

theorem relocates_continuation (left : Node) :
    Relocates r (continuation expression left) (continuation expression (left.relocate r)) := by
  refine follows_bind follows_current fun token => ?_
  rw [r.kind_move]
  split
  · exact relocates_binary inner left
  · exact relocates_call inner left
  · exact relocates_index inner left
  · exact relocates_pure left

theorem relocates_expressionOver (floor : Int) :
    Relocates r (expressionOver expression floor) (expressionOver expression floor) := by
  refine follows_bind follows_current fun token => ?_
  rw [r.kind_move]
  split
  · exact follows_bind (follows_report (.noExpression token)) fun _ => relocates_pure .absent
  · rename_i start _
    refine follows_bind (relocates_opening inner start) fun left => ?_
    exact follows_whileNext (continues floor) (relocates_continuation inner) left

end

theorem relocates_expressionWithin (budget : Nat) (floor : Int) :
    Relocates r (expressionWithin budget floor) (expressionWithin budget floor) := by
  induction budget generalizing floor with
  | zero =>
    refine follows_bind follows_current fun token => ?_
    exact follows_bind (follows_report (.tooDeep maxNesting token)) fun _ => relocates_pure .absent
  | succ budget ih => exact relocates_expressionOver ih floor

theorem relocates_program : Relocates r program program := by
  have inner (floor : Int) : Relocates r (expression floor) (expression floor) :=
    relocates_expressionWithin maxNesting floor
  refine follows_bind (follows_statements inner fun _ => false) fun nodes => ?_
  rw [← Node.relocateAll_eq_map]
  exact relocates_pure (.program nodes)

end MonkeyLang.Grammar

namespace MonkeyLang
open MonkeyLang.Derivation MonkeyLang.Parser

/-- Statements that are derived from what the tokens of a text say are read from the text, up to
the places of their tokens. -/
theorem parse_of_contents {text file : String} {said : List (Kind × String)} {nodes : List Node}
    (contents : (Lexer.ofText text file).tokens.map Token.content = said)
    (h : Statements (Expression 100) (said.map Token.ofContent) [] nodes) :
    (parse text file).log.entries = [] ∧
      (parse text file).tree.relocate .unplaced = .program nodes := by
  have moved : said.map Token.ofContent =
      (Lexer.ofText text file).tokens.map Relocation.unplaced.move := by
    rw [← contents, List.map_map]
    rfl
  rw [moved] at h
  have ended := Lexer.kind_eof (Lexer.ofText text file)
  rw [← Relocation.unplaced.kind_move] at ended
  obtain ⟨value, -, faultless⟩ := (reads_program ended).mpr ⟨rfl, nodes, rfl, h⟩
  rw [Grammar.relocates_program] at value faultless
  have unreported := List.map_eq_nil_iff.mp faultless
  exact ⟨List.map_eq_nil_iff.mpr unreported, value⟩

end MonkeyLang
