import MonkeyLang.Proofs.Lexing.WrittenText
import MonkeyLang.Proofs.Syntax.RelocatedParsing

/-!
# Reading a legible program back

The tokens of a legible expression derive the expression itself, wherever they stand. A group
costs one level, an operand behind a sign or an operator one more, and what is called or indexed
stands on the level of the call or the index. So the levels of a tree are what its text needs, and
a program within the limit is what its own text is read as.
-/
namespace MonkeyLang
open MonkeyLang.Derivation

namespace Node

/-- The tokens of the canonical text, without places. -/
def tokens (node : Node) : List Token := node.written.map .ofContent

/-- The tokens of nodes with a comma between any two, without places. -/
def tokensList (nodes : List Node) : List Token := (writtenList nodes).map .ofContent

variable (token : Token) (operator : String) (rest : List Token)

theorem tokens_unary (operand : Node) : (unary token operator operand).tokens ++ rest =
    .ofContent (.lparen, "(") :: .ofContent token.content ::
      (operand.tokens ++ .ofContent (.rparen, ")") :: rest) := by
  simp [tokens]

theorem tokens_binary (left right : Node) : (binary token operator left right).tokens ++ rest =
    .ofContent (.lparen, "(") :: (left.tokens ++ .ofContent token.content ::
      (right.tokens ++ .ofContent (.rparen, ")") :: rest)) := by
  simp [tokens]

theorem tokens_call (callee : Node) (arguments : List Node) :
    (call token callee arguments).tokens ++ rest = callee.tokens ++ .ofContent token.content ::
      (tokensList arguments ++ .ofContent (.rparen, ")") :: rest) := by
  simp [tokens, tokensList]

theorem tokens_array (elements : List Node) : (array token elements).tokens ++ rest =
    .ofContent token.content :: (tokensList elements ++ .ofContent (.rbracket, "]") :: rest) := by
  simp [tokens, tokensList]

theorem tokens_index (collection position : Node) :
    (index token collection position).tokens ++ rest = collection.tokens ++
      .ofContent token.content :: (position.tokens ++ .ofContent (.rbracket, "]") :: rest) := by
  simp [tokens]

theorem tokensList_cons_cons (first second : Node) (others : List Node) :
    tokensList (first :: second :: others) ++ rest = first.tokens ++ .ofContent (.comma, ",") ::
      (tokensList (second :: others) ++ rest) := by
  simp [tokens, tokensList]

end Node

theorem kind_sign {token : Token} (h : token.content ∈ signs) :
    token.kind = .bang ∨ token.kind = .minus := by
  have kinds : ∀ said ∈ signs, said.1 = .bang ∨ said.1 = .minus := by decide
  exact kinds _ h

theorem kind_operator {token : Token} (h : token.content ∈ operators) :
    token.kind.continuation? = some .binary ∧ Precedence.lowest.rank < token.kind.rank ∧
      token.kind.rank < Precedence.call.rank := by
  have kinds : ∀ said ∈ operators, said.1.continuation? = some .binary ∧
      Precedence.lowest.rank < said.1.rank ∧ said.1.rank < Precedence.call.rank := by decide
  exact kinds _ h

section

variable {budget : Nat} {floor : Int} {rest : List Token}

theorem segment_group {inside : List Token} {node : Node}
    (h : Segment (Expression budget) Precedence.lowest.rank inside
      (.ofContent (.rparen, ")") :: rest) node) :
    Segment (Expression (budget + 1)) floor (.ofContent (.lparen, "(") :: inside) rest node := by
  have phrase : Expression (budget + 1) Precedence.lowest.rank _ _ node :=
    ⟨h, stops_cons (by decide)⟩
  exact .intro (.group rfl phrase rfl) .nil

/-- The tokens of nodes with commas between them are items of the grammar, if those of each node
derive it before anything that does not go on with it. -/
theorem items_written {first : Node} {others : List Node}
    (h : ∀ node ∈ first :: others, ∀ behind, Stops Precedence.lowest.rank behind →
      Expression budget Precedence.lowest.rank (node.tokens ++ behind) behind
        (node.relocate .unplaced)) (stops : Stops Precedence.lowest.rank rest) :
    Items (Expression budget Precedence.lowest.rank) (Node.tokensList (first :: others) ++ rest)
      rest ((first :: others).map (Node.relocate .unplaced)) := by
  induction others generalizing first with
  | nil => exact .last (h first List.mem_cons_self rest stops)
  | cons second others ih =>
    have tail := ih fun node hn => h node (List.mem_cons_of_mem first hn)
    have head := h first List.mem_cons_self
      (.ofContent (.comma, ",") :: (Node.tokensList (second :: others) ++ rest))
      (stops_cons (by decide))
    rw [Node.tokensList_cons_cons]
    exact .more head rfl tail

/-- A list of nodes stands one level further in than what it is a part of. -/
theorem listing_written {close : Kind} {mark : String} (closes : close.rank ≤ 1)
    {nodes : List Node} (legible : ∀ node ∈ nodes, Legible node)
    (levels : Node.levelsWithin nodes ≤ budget + 1)
    (h : ∀ node ∈ nodes, ∀ {inner : Nat} {floor : Int} {rest : List Token},
      node.levels ≤ inner + 1 → floor < Precedence.call.rank →
      Segment (Expression inner) floor (node.tokens ++ rest) rest (node.relocate .unplaced)) :
    Listing close (Expression budget Precedence.lowest.rank)
      (Node.tokensList nodes ++ .ofContent (close, mark) :: rest) rest
      (Node.relocateAll .unplaced nodes) := by
  have phrase : ∀ node ∈ nodes, ∀ behind, Stops Precedence.lowest.rank behind →
      Expression budget Precedence.lowest.rank (node.tokens ++ behind) behind
        (node.relocate .unplaced) := by
    intro node hn behind stops
    have positive := (legible node hn).levels_pos
    have within := Node.levelsWithin_le levels node hn
    obtain ⟨inner, rfl⟩ : ∃ inner, budget = inner + 1 := ⟨budget - 1, by omega⟩
    exact ⟨h node hn (by omega) (by decide), stops⟩
  rw [Node.relocateAll_eq_map]
  cases nodes with
  | nil => exact .empty rfl
  | cons first others =>
    have stops : Stops Precedence.lowest.rank (.ofContent (close, mark) :: rest) :=
      stops_cons closes
    exact .items (items_written phrase stops) rfl

/-- The tokens of a legible expression derive it on as many levels as it has. -/
theorem Legible.segment {node : Node} (h : Legible node) (levels : node.levels ≤ budget + 1)
    (binds : floor < Precedence.call.rank) :
    Segment (Expression budget) floor (node.tokens ++ rest) rest (node.relocate .unplaced) := by
  induction h generalizing budget floor rest with
  | name h =>
    cases h with
    | intro kind => exact .intro (.atom (.identifier kind)) .nil
  | integer kind _ _ length range => exact .intro (.atom (.integer kind length range)) .nil
  | true content => exact .intro (.atom (.true (Prod.mk.inj content).1)) .nil
  | false content => exact .intro (.atom (.false (Prod.mk.inj content).1)) .nil
  | unary sign operand_legible ih =>
    have positive := operand_legible.levels_pos
    rw [Node.levels] at levels
    obtain ⟨inner, rfl⟩ : ∃ inner, budget = inner + 2 := ⟨budget - 2, by omega⟩
    have close : Stops Precedence.unary.rank (.ofContent (.rparen, ")") :: rest) :=
      stops_cons (by decide)
    have operand_phrase : Expression (inner + 1) Precedence.unary.rank _ _ _ :=
      ⟨ih (by omega) (by decide), close⟩
    rw [Node.tokens_unary]
    exact segment_group (.intro (.unary (kind_sign sign) operand_phrase) .nil)
  | @binary token left right operator _ right_legible ihl ihr =>
    have positive := right_legible.levels_pos
    rw [Node.levels] at levels
    obtain ⟨inner, rfl⟩ : ∃ inner, budget = inner + 2 := ⟨budget - 2, by omega⟩
    obtain ⟨binary, above, below⟩ := kind_operator operator
    have close : Stops token.kind.rank (.ofContent (.rparen, ")") :: rest) :=
      stops_cons (Int.le_of_lt above)
    have right_phrase : Expression (inner + 1) token.kind.rank _ _ _ :=
      ⟨ihr (by omega) below, close⟩
    rw [Node.tokens_binary]
    apply segment_group
    exact (ihl (by omega) (by decide)).extend (.binary binary above right_phrase)
  | @call token callee arguments content _ arguments_legible ihc iha =>
    rw [Node.levels] at levels
    have given : Listing .rparen (Expression budget Precedence.lowest.rank)
        (Node.tokensList arguments ++ .ofContent (.rparen, ")") :: rest) rest _ :=
      listing_written (by decide) arguments_legible (by omega) iha
    rw [Node.tokens_call]
    exact (ihc (by omega) binds).extend (.call (Prod.mk.inj content).1 binds given)
  | @array token elements content elements_legible ih =>
    rw [Node.levels] at levels
    have listed : Listing .rbracket (Expression budget Precedence.lowest.rank)
        (Node.tokensList elements ++ .ofContent (.rbracket, "]") :: rest) rest _ :=
      listing_written (by decide) elements_legible (by omega) ih
    rw [Node.tokens_array]
    exact .intro (.array (Prod.mk.inj content).1 listed) .nil
  | @index token collection position content _ position_legible ihc ihp =>
    have positive := position_legible.levels_pos
    rw [Node.levels] at levels
    obtain ⟨inner, rfl⟩ : ∃ inner, budget = inner + 1 := ⟨budget - 1, by omega⟩
    have close : Stops Precedence.lowest.rank (.ofContent (.rbracket, "]") :: rest) :=
      stops_cons (by decide)
    have place : Expression (inner + 1) Precedence.lowest.rank _ _ _ :=
      ⟨ihp (by omega) (by decide), close⟩
    rw [Node.tokens_index]
    exact (ihc (by omega) binds).extend (.index (Prod.mk.inj content).1 binds place rfl)

end

theorem Legible.phrase {node : Node} {rest : List Token} (h : Legible node)
    (levels : node.levels ≤ 100) (stops : Stops Precedence.lowest.rank rest) :
    Expression 100 Precedence.lowest.rank (node.tokens ++ rest) rest (node.relocate .unplaced) :=
  ⟨h.segment levels (by decide), stops⟩

theorem Legible.exists_tokens_cons {node : Node} (h : Legible node) :
    ∃ first behind, node.tokens = first :: behind := by
  apply List.exists_cons_of_ne_nil
  cases h with
  | name name =>
    cases name
    simp [Node.tokens]
  | _ => simp [Node.tokens]

/-- The tokens of a legible program derive it, up to the own tokens of its expressions. -/
theorem LegibleProgram.derivable {statements : List Node} (h : LegibleProgram statements) :
    ∃ nodes, Statements (Expression 100) ((Node.writtenAll statements).map .ofContent) [] nodes ∧
      nodes.map Node.withoutStart =
        (Node.relocateAll .unplaced statements).map Node.withoutStart := by
  induction h with
  | empty => exact ⟨[], .nil, rfl⟩
  | @expression token value value_legible value_levels =>
    obtain ⟨first, behind, hcons⟩ := value_legible.exists_tokens_cons
    have phrase := value_legible.phrase value_levels (by simp [Stops] : Stops _ [])
    rw [List.append_nil, hcons] at phrase
    refine ⟨[.exprStatement first (value.relocate .unplaced)], ?_, rfl⟩
    have alone : (Node.writtenAll [.exprStatement token value]).map Token.ofContent =
        first :: behind := by
      rw [← hcons]
      simp [Node.tokens]
    rw [alone]
    exact .cons (.expression phrase .missing) .nil
  | @letTo token name value rest content name_legible value_legible value_levels _ ih =>
    obtain ⟨nodes, derived, same⟩ := ih
    obtain @⟨name, kind⟩ := name_legible
    have close : Stops Precedence.lowest.rank
        (.ofContent (.semicolon, ";") :: (Node.writtenAll rest).map .ofContent) :=
      stops_cons (by decide)
    have phrase := value_legible.phrase value_levels close
    have split : (Node.writtenAll
          (.letStatement token (.identifier name name.lexeme) value :: rest)).map Token.ofContent =
        .ofContent token.content :: .ofContent name.content :: .ofContent (.assign, "=") ::
          (value.tokens ++ .ofContent (.semicolon, ";") ::
            (Node.writtenAll rest).map .ofContent) := by
      simp [Node.tokens]
    rw [split]
    refine ⟨_, .cons (.letTo (Prod.mk.inj content).1 kind rfl phrase (.present rfl)) derived, ?_⟩
    rw [List.map_cons, same]
    rfl
  | @returned token value rest content value_legible value_levels _ ih =>
    obtain ⟨nodes, derived, same⟩ := ih
    have close : Stops Precedence.lowest.rank
        (.ofContent (.semicolon, ";") :: (Node.writtenAll rest).map .ofContent) :=
      stops_cons (by decide)
    -- Nothing is skipped between the value and the semicolon.
    have phrase : Expression 100 Precedence.lowest.rank _
        ([] ++ .ofContent (.semicolon, ";") :: (Node.writtenAll rest).map .ofContent) _ :=
      value_legible.phrase value_levels close
    have split : (Node.writtenAll (.returnStatement token value :: rest)).map Token.ofContent =
        .ofContent token.content :: (value.tokens ++ .ofContent (.semicolon, ";") ::
          (Node.writtenAll rest).map .ofContent) := by
      simp [Node.tokens]
    rw [split]
    refine ⟨_, .cons (.returned (Prod.mk.inj content).1 phrase (by simp) (.semicolon rfl))
      derived, ?_⟩
    rw [List.map_cons, same]
    rfl

/-- The canonical text of a legible program is read without a report as that program, up to the
places of its tokens and the own tokens of its expressions. -/
theorem parse_render {statements : List Node} (h : LegibleProgram statements) (file : String) :
    ∃ text, (Node.program statements).render = .ok text ∧
      (parse text file).log.entries = [] ∧
      (parse text file).tree.outline = (Node.program statements).outline := by
  obtain ⟨text, htext, writes⟩ := h.writes
  obtain ⟨nodes, derived, same⟩ := h.derivable
  have blank : Layout [] [] := .blank (by simp)
  have layout := writes.layout [] [] apart_nil blank
  rw [List.append_nil, List.append_nil] at layout
  have contents : (Lexer.ofText text file).tokens.map Token.content =
      Node.writtenAll statements := by
    rw [Lexer.tokens_of_layout layout rfl, List.map_map]
    simp [Function.comp_def]
  obtain ⟨clean, tree⟩ := parse_of_contents contents derived
  refine ⟨text, Node.render_of_textOf htext, clean, ?_⟩
  rw [Node.outline, tree]
  exact congrArg Node.program same

/-- A name without a place. -/
def Node.name (lexeme : String) : Node := .identifier (.ofContent (.ident, lexeme)) lexeme

/-- The call of `f` with a list of a name and an integer. -/
def sampleCall : Node :=
  .call (.ofContent (.lparen, "(")) (.name "f")
    [.array (.ofContent (.lbracket, "[")) [.name "x", .integer (.ofContent (.int, "007")) 7]]

/-- A value behind two signs, an indexed call, and a comparison that starts with a parenthesis. -/
def sampleStatements : List Node :=
  [.letStatement (.ofContent (.kwLet, "let")) (.name "f")
      (.unary (.ofContent (.bang, "!")) "!" (.unary (.ofContent (.minus, "-")) "-" (.name "x"))),
    .returnStatement (.ofContent (.kwReturn, "return"))
      (.index (.ofContent (.lbracket, "[")) sampleCall (.name "x")),
    .exprStatement (.ofContent (.ident, "x"))
      (.binary (.ofContent (.eq, "==")) "==" (.name "x")
        (.call (.ofContent (.lparen, "(")) (.name "f") []))]

theorem legible_sampleStatements : LegibleProgram sampleStatements := by
  have f : LegibleName (.name "f") := .intro rfl (by decide) (List.all_eq_true.mp (by decide)) (by decide)
  have x : LegibleName (.name "x") := .intro rfl (by decide) (List.all_eq_true.mp (by decide)) (by decide)
  have seven : Legible (.integer (.ofContent (.int, "007")) 7) :=
    .integer rfl (by decide) (List.all_eq_true.mp (by decide)) (by decide) (by decide)
  have listed : Legible (.array (.ofContent (.lbracket, "["))
      [.name "x", .integer (.ofContent (.int, "007")) 7]) := by
    refine .array rfl fun element he => ?_
    rcases List.mem_cons.mp he with rfl | he
    · exact .name x
    · obtain rfl := List.mem_singleton.mp he
      exact seven
  have called : Legible sampleCall := by
    refine .call rfl (.name f) fun argument ha => ?_
    obtain rfl := List.mem_singleton.mp ha
    exact listed
  have empty : Legible (.call (.ofContent (.lparen, "(")) (.name "f") []) :=
    .call rfl (.name f) (by simp)
  refine .letTo rfl f (.unary (by decide) (.unary (by decide) (.name x))) (by decide) ?_
  refine .returned rfl (.index rfl called (.name x)) (by decide) ?_
  exact .expression (.binary (by decide) (.name x) empty) (by decide)

/-- The own token of the last expression is its parenthesis, whatever the tree has there. -/
theorem parse_render_sampleStatements : LegibleProgram sampleStatements ∧
    (Node.program sampleStatements).render =
      .ok "let f = (!(-x));return f([x, 007])[x];(x == f())" ∧
    (parse "let f = (!(-x));return f([x, 007])[x];(x == f())").log.entries = [] ∧
    (parse "let f = (!(-x));return f([x, 007])[x];(x == f())").tree.outline =
      (Node.program sampleStatements).outline := by
  have written : (Node.program sampleStatements).render =
      .ok "let f = (!(-x));return f([x, 007])[x];(x == f())" :=
    Node.render_of_textOf rfl
  obtain ⟨text, htext, clean, tree⟩ := parse_render legible_sampleStatements Lexer.unnamed
  obtain rfl := Except.ok.inj (written.symm.trans htext)
  exact ⟨legible_sampleStatements, written, clean, tree⟩

end MonkeyLang
