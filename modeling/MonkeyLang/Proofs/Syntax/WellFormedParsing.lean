import MonkeyLang.Program
import MonkeyLang.Proofs.Lexing.Layout
import MonkeyLang.Proofs.Syntax.ExpressionReading
import MonkeyLang.Proofs.Syntax.Guarantee
import MonkeyLang.Proofs.Tree.WellFormed

/-!
# Well-formed trees from parsing

Each rule of the grammar gives a node that agrees with the token at which the rule was chosen, and
puts at every place a child of the sort that belongs there, whatever the text is. An expression that
could not be read is missing; statements, blocks and names are never missing.
-/
namespace MonkeyLang

/-! ## Numerals -/

theorem Piece.Fits.isNumeral {piece : Piece} {after : List Char} (fits : piece.Fits after)
    (kind : piece.kind = .int) : MonkeyLang.isNumeral (String.ofList piece.lexeme) := by
  cases fits with
  | word nonempty letters ends => exact absurd kind (Kind.ofWord_ne _ (by decide))
  | number nonempty digits ends => simpa [MonkeyLang.isNumeral, nonempty] using digits
  | symbol spelled ends =>
    obtain rfl : _ = Kind.int := kind
    exact absurd spelled (by simp [Kind.spelling?])
  | _ => simp at kind

theorem Layout.isNumeral {pieces : List Piece} {text : List Char} (h : Layout pieces text) :
    ∀ piece ∈ pieces, piece.kind = .int → MonkeyLang.isNumeral (String.ofList piece.lexeme) := by
  induction h with
  | blank => simp
  | piece blank fits rest ih => exact List.forall_mem_cons.mpr ⟨fits.isNumeral, ih⟩

/-- Each token of the kind of integers is written in digits. -/
def Numerals (tokens : List Token) : Prop :=
  ∀ token ∈ tokens, token.kind = .int → isNumeral token.lexeme

theorem numerals_supply (lexer : Lexer) : Numerals (lexer.tokens ++ [lexer.eof]) := by
  intro token member kind
  obtain ⟨pieces, layout, contents⟩ := lexer.exists_layout
  rcases List.mem_append.mp member with member | member
  · have said : token.content ∈ pieces.map Piece.content :=
      contents ▸ List.mem_map_of_mem member
    obtain ⟨piece, hpiece, same⟩ := List.mem_map.mp said
    obtain ⟨same_kind, same_lexeme⟩ := Prod.mk.inj same
    rw [← same_lexeme]
    exact layout.isNumeral piece hpiece (same_kind.trans kind)
  · obtain rfl := List.mem_singleton.mp member
    exact absurd (kind.symm.trans lexer.kind_eof) (by decide)

namespace Grammar
open MonkeyLang.Parser Node

theorem mem_binaryKinds {kind : Kind} (h : kind.continuation? = some .binary) :
    kind ∈ binaryKinds := by
  revert h
  cases kind <;> decide

theorem kind_of_call {kind : Kind} (h : kind.continuation? = some .call) : kind = .lparen := by
  revert h
  cases kind <;> decide

theorem kind_of_index {kind : Kind} (h : kind.continuation? = some .index) : kind = .lbracket := by
  revert h
  cases kind <;> decide

section

variable {eof : Token} {text : List Token} {required : Token → Prop}
  {expression : ExpressionParser}

/-- Wherever it starts, a parser for expressions gives a well-formed tree, or nothing. -/
def GivesOperands (eof : Token) (text : List Token) (expression : ExpressionParser) : Prop :=
  ∀ floor, Gives eof text (fun _ => True) (WellFormedAs isOperand) (expression floor)

theorem absent_operand : WellFormedAs isOperand absent := ⟨rfl, wellFormed_absent⟩

/-! ## Expressions without parts -/

theorem gives_identifier :
    Gives eof text (·.kind = .ident) (WellFormedAs isOperand) identifier := by
  refine gives_current_bind fun token kind _ => gives_pure ⟨rfl, ?_⟩
  exact wellFormed_iff.mpr ⟨⟨kind, rfl⟩, by simp [children]⟩

theorem gives_integer (numerals : Numerals (text ++ [eof])) :
    Gives eof text (·.kind = .int) (WellFormedAs isOperand) integer := by
  refine gives_current_bind fun token kind member => ?_
  split
  · rename_i value found
    obtain ⟨-, bound, same⟩ := Derivation.integerValue?_eq_some.mp found
    refine gives_pure ⟨rfl, wellFormed_iff.mpr ⟨⟨kind, numerals token member kind, ?_⟩, ?_⟩⟩
    · exact ⟨congrArg Nat.cast same, by omega, by omega⟩
    · simp [children]
  · exact gives_behind fun _ => gives_pure absent_operand

theorem gives_string : Gives eof text (·.kind = .string) (WellFormedAs isOperand) string := by
  refine gives_current_bind fun token kind _ => gives_pure ⟨rfl, ?_⟩
  exact wellFormed_iff.mpr ⟨⟨kind, rfl⟩, by simp [children]⟩

theorem gives_boolean (value : Bool) :
    Gives eof text (·.kind = if value then .kwTrue else .kwFalse) (WellFormedAs isOperand)
      (boolean value) := by
  refine gives_current_bind fun token kind _ => gives_pure ⟨rfl, ?_⟩
  exact wellFormed_iff.mpr ⟨kind, by simp [children]⟩

/-- A name in a list of parameters. One that is missing makes the whole function missing. -/
theorem gives_parameter :
    Gives eof text (fun _ => True) (fun node => node.isPresent → node.WellFormedAs isIdentifier)
      parameter := by
  refine gives_current_bind fun token _ _ => ?_
  split_ifs with kind
  · refine gives_pure fun _ => ⟨rfl, wellFormed_iff.mpr ⟨⟨kind, rfl⟩, by simp [children]⟩⟩
  · exact gives_behind fun _ => gives_pure (by simp [isPresent])

section

variable (h : GivesOperands eof text expression)
include h

/-! ## Statements -/

theorem gives_letStatement (token : Token) (kind : token.kind = .kwLet) :
    Gives eof text (· = token)
      (fun node => node.isPresent → node.WellFormedAs isStatement ∧ node.token? = some token)
      (letStatement expression) := by
  refine gives_current_bind fun start here _ => ?_
  subst here
  refine gives_expect (by simp [isPresent]) ?_
  refine gives_current_bind fun name name_kind _ => ?_
  refine gives_expect (by simp [isPresent]) ?_
  refine gives_behind fun _ => gives_bind (h _) fun value hvalue => ?_
  refine gives_behind fun _ => gives_pure fun _ => ⟨⟨rfl, ?_⟩, rfl⟩
  have named : WellFormed (.identifier name name.lexeme) :=
    wellFormed_iff.mpr ⟨⟨name_kind, rfl⟩, by simp [children]⟩
  exact wellFormed_iff.mpr ⟨⟨kind, rfl, hvalue.root⟩, by simp [children, named, hvalue.tree]⟩

theorem gives_returnStatement (token : Token) (kind : token.kind = .kwReturn) :
    Gives eof text (· = token)
      (fun node => node.isPresent → node.WellFormedAs isStatement ∧ node.token? = some token)
      (returnStatement expression) := by
  refine gives_current_bind fun start here _ => ?_
  subst here
  refine gives_behind fun _ => gives_bind (h _) fun value hvalue => ?_
  refine gives_behind fun _ => gives_pure fun _ => ⟨⟨rfl, ?_⟩, rfl⟩
  exact wellFormed_iff.mpr ⟨⟨kind, hvalue.root⟩, by simp [children, hvalue.tree]⟩

theorem gives_exprStatement (token : Token) :
    Gives eof text (· = token)
      (fun node => node.isPresent → node.WellFormedAs isStatement ∧ node.token? = some token)
      (exprStatement expression) := by
  refine gives_current_bind fun start here _ => ?_
  subst here
  refine gives_bind (h _).anywhere fun value hvalue => ?_
  refine gives_behind fun _ => gives_pure fun _ => ⟨⟨rfl, ?_⟩, rfl⟩
  exact wellFormed_iff.mpr ⟨hvalue.root, by simp [children, hvalue.tree]⟩

/-- A statement that could be read keeps the token at which it starts. -/
theorem gives_statement (token : Token) :
    Gives eof text (· = token)
      (fun node => node.isPresent → node.WellFormedAs isStatement ∧ node.token? = some token)
      (statement expression) := by
  refine gives_current_bind fun start here _ => ?_
  subst here
  split
  · rename_i kind
    exact gives_letStatement h start kind
  · rename_i kind
    exact gives_returnStatement h start kind
  · exact gives_exprStatement h start

theorem gives_statements (stop : Kind → Bool) :
    Gives eof text required (∀ node ∈ ·, node.WellFormedAs isStatement)
      (statements stop expression) := by
  have item : Gives eof text (fun _ => True)
      (fun node => node.isPresent → node.WellFormedAs isStatement) (statement expression) :=
    gives_of_forall fun token _ =>
      (gives_statement h token).mono (fun _ => id) fun _ given present => (given present).1
  refine gives_bind (gives_manyUntil item) fun nodes hnodes => gives_pure fun node member => ?_
  obtain ⟨read, present⟩ := List.mem_filter.mp member
  exact hnodes node read present

theorem gives_block : Gives eof text (·.kind = .lbrace) (WellFormedAs isBlock) (block expression) := by
  refine gives_current_bind fun brace kind _ => gives_behind fun _ => ?_
  refine gives_bind (gives_statements h _) fun nodes hnodes => gives_pure ⟨rfl, ?_⟩
  exact wellFormed_iff.mpr ⟨⟨kind, fun node member => (hnodes node member).root⟩,
    fun node member => (hnodes node member).tree⟩

/-! ## Expressions with parts -/

theorem gives_unary : Gives eof text (fun token => token.kind = .bang ∨ token.kind = .minus)
    (WellFormedAs isOperand) (unary expression) := by
  refine gives_current_bind fun token kind _ => gives_behind fun _ => ?_
  refine gives_bind (h _) fun operand hoperand => gives_pure ⟨rfl, ?_⟩
  exact wellFormed_iff.mpr ⟨⟨kind, rfl, hoperand.root⟩, by simp [children, hoperand.tree]⟩

theorem gives_group : Gives eof text required (WellFormedAs isOperand) (group expression) := by
  refine gives_behind fun _ => gives_bind (h _) fun inner hinner => ?_
  exact gives_expect absent_operand (gives_pure hinner)

theorem gives_conditional :
    Gives eof text (·.kind = .kwIf) (WellFormedAs isOperand) (conditional expression) := by
  refine gives_current_bind fun token kind _ => gives_expect absent_operand ?_
  refine gives_behind fun _ => gives_bind (h _) fun condition hcondition => ?_
  refine gives_expect absent_operand (gives_expect absent_operand ?_)
  refine gives_bind (gives_block h) fun consequence hconsequence => gives_behind fun next => ?_
  split_ifs
  · refine gives_behind fun _ => gives_expect absent_operand ?_
    refine gives_bind (gives_block h) fun alternative halternative => gives_pure ⟨rfl, ?_⟩
    refine wellFormed_iff.mpr ⟨⟨kind, hcondition.root, hconsequence.root, ?_⟩, ?_⟩
    · exact fun _ => halternative.root
    · simp [children, hcondition.tree, hconsequence.tree, halternative.tree]
  · refine gives_pure ⟨rfl, ?_⟩
    refine wellFormed_iff.mpr ⟨⟨kind, hcondition.root, hconsequence.root, by simp [isPresent]⟩, ?_⟩
    simp [children, hcondition.tree, hconsequence.tree, wellFormed_absent]

theorem gives_function :
    Gives eof text (·.kind = .kwFunction) (WellFormedAs isOperand) (function expression) := by
  refine gives_current_bind fun token kind _ => gives_expect absent_operand ?_
  refine gives_bind (gives_commaList gives_parameter) fun listed hlisted => ?_
  cases listed with
  | none => exact gives_pure absent_operand
  | some parameters =>
    by_cases present : parameters.all Node.isPresent
    · simp only [if_pos present]
      refine gives_expect absent_operand ?_
      refine gives_bind (gives_block h) fun body hbody => gives_pure ⟨rfl, ?_⟩
      have named (node : Node) (member : node ∈ parameters) : node.WellFormedAs isIdentifier :=
        hlisted parameters rfl node member (List.all_eq_true.mp present node member)
      refine wellFormed_iff.mpr ⟨⟨kind, fun node member => (named node member).root, hbody.root⟩, ?_⟩
      exact List.forall_mem_append.mpr
        ⟨fun node member => (named node member).tree, by simp [hbody.tree]⟩
    · simp only [if_neg present]
      exact gives_pure absent_operand

theorem gives_array :
    Gives eof text (·.kind = .lbracket) (WellFormedAs isOperand) (array expression) := by
  refine gives_current_bind fun token kind _ => ?_
  refine gives_bind (gives_commaList (h _)) fun listed hlisted => ?_
  cases listed with
  | none => exact gives_pure absent_operand
  | some elements =>
    have good := hlisted elements rfl
    refine gives_pure ⟨rfl, wellFormed_iff.mpr ⟨⟨kind, fun node member => ?_⟩, ?_⟩⟩
    · exact (good node member).root
    · exact fun node member => (good node member).tree

theorem gives_binary {left : Node} (hleft : left.WellFormedAs isOperand) :
    Gives eof text (·.kind ∈ binaryKinds) (WellFormedAs isOperand) (binary expression left) := by
  refine gives_current_bind fun token kind _ => gives_behind fun _ => ?_
  refine gives_bind (h _) fun right hright => gives_pure ⟨rfl, ?_⟩
  refine wellFormed_iff.mpr ⟨⟨kind, rfl, hleft.root, hright.root⟩, ?_⟩
  simp [children, hleft.tree, hright.tree]

theorem gives_call {callee : Node} (hcallee : callee.WellFormedAs isOperand) :
    Gives eof text (·.kind = .lparen) (WellFormedAs isOperand) (call expression callee) := by
  refine gives_current_bind fun token kind _ => ?_
  refine gives_bind (gives_commaList (h _)) fun listed hlisted => ?_
  cases listed with
  | none => exact gives_pure absent_operand
  | some arguments =>
    have good := hlisted arguments rfl
    refine gives_pure ⟨rfl, wellFormed_iff.mpr ⟨⟨kind, hcallee.root, fun node member => ?_⟩, ?_⟩⟩
    · exact (good node member).root
    · exact List.forall_mem_cons.mpr ⟨hcallee.tree, fun node member => (good node member).tree⟩

theorem gives_index {collection : Node} (hcollection : collection.WellFormedAs isOperand) :
    Gives eof text (·.kind = .lbracket) (WellFormedAs isOperand) (index expression collection) := by
  refine gives_current_bind fun token kind _ => gives_behind fun _ => ?_
  refine gives_bind (h _) fun position hposition => ?_
  refine gives_expect absent_operand (gives_pure ⟨rfl, ?_⟩)
  refine wellFormed_iff.mpr ⟨⟨kind, hcollection.root, hposition.root⟩, ?_⟩
  simp [children, hcollection.tree, hposition.tree]

/-! ## Choices by kind -/

theorem gives_opening (numerals : Numerals (text ++ [eof])) (start : Opening) :
    Gives eof text (·.kind.opening? = some start) (WellFormedAs isOperand)
      (opening expression start) := by
  refine gives_of_forall fun token opens => ?_
  -- each opening belongs to the kinds of one rule
  cases kind : token.kind <;> rw [kind] at opens <;>
    simp only [Kind.opening?, Option.some.injEq, reduceCtorEq] at opens <;> subst opens
  case ident => exact gives_identifier.only kind
  case int => exact (gives_integer numerals).only kind
  case string => exact gives_string.only kind
  case kwTrue => exact (gives_boolean true).only kind
  case kwFalse => exact (gives_boolean false).only kind
  case bang => exact (gives_unary h).only (.inl kind)
  case minus => exact (gives_unary h).only (.inr kind)
  case lparen => exact gives_group h
  case kwIf => exact (gives_conditional h).only kind
  case kwFunction => exact (gives_function h).only kind
  case lbracket => exact (gives_array h).only kind

theorem gives_continuation {left : Node} (hleft : left.WellFormedAs isOperand) :
    Gives eof text required (WellFormedAs isOperand) (continuation expression left) := by
  refine gives_current_bind fun operator _ _ => ?_
  split
  · rename_i goes
    exact (gives_binary h hleft).only (mem_binaryKinds goes)
  · rename_i goes
    exact (gives_call h hleft).only (kind_of_call goes)
  · rename_i goes
    exact (gives_index h hleft).only (kind_of_index goes)
  · exact gives_pure hleft

theorem gives_expressionOver (numerals : Numerals (text ++ [eof])) :
    GivesOperands eof text (expressionOver expression) := by
  intro floor
  refine gives_current_bind fun token _ _ => ?_
  split
  · exact gives_behind fun _ => gives_pure absent_operand
  · rename_i start opens
    have opened : Gives eof text (· = token) (WellFormedAs isOperand) (opening expression start) :=
      (gives_opening h numerals start).only opens
    refine gives_bind opened fun left hleft => ?_
    exact gives_whileNext (fun left hleft => gives_continuation h hleft) hleft

end

/-- By induction on the levels of nesting expressions are well-formed or missing. -/
theorem gives_expressionWithin (numerals : Numerals (text ++ [eof])) (budget : Nat) :
    GivesOperands eof text (expressionWithin budget) := by
  induction budget with
  | zero => exact fun _ => gives_behind fun _ => gives_behind fun _ => gives_pure absent_operand
  | succ budget ih => exact gives_expressionOver ih numerals

end

theorem gives_program {eof : Token} {text : List Token} (numerals : Numerals (text ++ [eof])) :
    Gives eof text (fun _ => True) WellFormed program := by
  refine gives_bind (gives_statements (gives_expressionWithin numerals maxNesting) _)
    fun nodes hnodes => gives_pure ?_
  exact wellFormed_iff.mpr
    ⟨fun node member => (hnodes node member).root, fun node member => (hnodes node member).tree⟩

/-- The statements of a program, each with the token at which it starts. Those that could not be
read are among them. -/
def startedStatements : Parser (List (Token × Node)) :=
  manyUntil (fun _ => false) (marked (statement expression))

theorem program_eq_map : program =
    (fun started => .program ((started.filter (·.2.isPresent)).map Prod.snd)) <$>
      startedStatements := by
  have read : manyUntil (fun _ => false) (statement expression) =
      List.map Prod.snd <$> startedStatements := by
    rw [startedStatements, ← manyUntil_map, map_snd_marked]
  rw [program, statements, read]
  simp only [bind_pure_comp, Functor.map_map, List.filter_map]
  rfl

theorem gives_startedStatements {eof : Token} {text : List Token}
    (numerals : Numerals (text ++ [eof])) :
    Gives eof text (fun _ => True)
      (∀ item ∈ ·, item.2.isPresent →
        item.2.WellFormedAs isStatement ∧ item.2.token? = some item.1) startedStatements := by
  refine gives_manyUntil (gives_marked fun token _ => ?_)
  exact gives_statement (gives_expressionWithin numerals maxNesting) token

end Grammar

theorem Node.tokenLiteral_of_token? {node : Node} {token : Token} (h : node.token? = some token) :
    node.tokenLiteral = some token.lexeme := by
  cases node <;> simp_all [token?, tokenLiteral]

/-- Whatever a text is, its tree is well-formed. -/
theorem wellFormed_parse (text file : String) : (parse text file).tree.WellFormed :=
  Grammar.gives_program (numerals_supply (.ofText text file)) _ (List.suffix_refl _) trivial

/-- Whatever a text is, its tree consists of the statements that could be read. Each node of the
tree agrees with its token and has children of the right sorts. The token text of the tree is that
of the token at which the first of its statements starts, and empty if there is none. -/
theorem parse_wellFormed (text file : String) :
    let started := (Grammar.startedStatements.runOn (.ofText text file)).value.filter
      (·.2.isPresent)
    (parse text file).tree = .program (started.map Prod.snd) ∧
    (∀ node ∈ (parse text file).tree.subtrees, node.Formed) ∧
    (parse text file).tree.tokenLiteral =
      some ((started.head?.map (·.1.lexeme)).getD "") := by
  intro started
  have tree : (parse text file).tree = .program (started.map Prod.snd) := by
    show (Grammar.program.runOn (.ofText text file)).value = _
    rw [Grammar.program_eq_map]
    rfl
  have good (item : Token × Node) (member : item ∈ started) :
      item.2.WellFormedAs Node.isStatement ∧ item.2.token? = some item.1 := by
    obtain ⟨read, present⟩ := List.mem_filter.mp member
    have numerals := numerals_supply (.ofText text file)
    exact Grammar.gives_startedStatements numerals _ (List.suffix_refl _) trivial item read present
  refine ⟨tree, wellFormed_parse text file, ?_⟩
  · rw [tree]
    cases whole : started with
    | nil => rfl
    | cons first others =>
      have start := (good first (by simp [whole])).2
      show first.2.tokenLiteral = _
      rw [Node.tokenLiteral_of_token? start]
      rfl

end MonkeyLang
