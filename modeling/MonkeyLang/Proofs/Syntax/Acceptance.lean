import MonkeyLang.Program
import MonkeyLang.Proofs.Lexing.Supply
import MonkeyLang.Proofs.Syntax.ExpressionReading

/-!
# Acceptance

A text is read without complaint exactly when the grammar derives its tokens, and the tree that is
read is then the one that the grammar derives. So the grammar gives no text two trees.
-/
namespace MonkeyLang
open MonkeyLang.Parser MonkeyLang.Derivation

theorem reads_program {eof : Token} (ended : eof.kind = .eof) {tokens left : List Token}
    {tree : Node} :
    Reads Grammar.program eof tokens tree left ↔
      left = [] ∧ ∃ nodes, tree = .program nodes ∧ Statements (Expression 100) tokens [] nodes := by
  have recognized := expressionWithin_recognizes ended Grammar.maxNesting
  have body (nodes : List Node) (left : List Token) :
      Reads (Grammar.statements (fun _ => false) (Grammar.expressionWithin Grammar.maxNesting)) eof
        tokens nodes left ↔ Statements (Expression 100) tokens left nodes ∧
          ∀ token ∈ left.head?, (false : Bool) := reads_statements ended recognized (by simp)
  rw [Grammar.program, Grammar.expression, reads_bind]
  simp only [reads_pure, body]
  constructor
  · rintro ⟨nodes, left, ⟨phrase, at_stop⟩, rfl, rfl⟩
    cases left with
    | nil => exact ⟨rfl, nodes, rfl, phrase⟩
    | cons token rest => exact absurd (at_stop token rfl) (by decide)
  · rintro ⟨rfl, nodes, rfl, phrase⟩
    exact ⟨nodes, [], ⟨phrase, by simp⟩, rfl, rfl⟩

/-- A text is read without a report exactly when its tokens are derived statements. -/
theorem parse_clean_iff {text file : String} {tree : Node} :
    (parse text file).log.entries = [] ∧ (parse text file).tree = tree ↔
      ∃ nodes, tree = .program nodes ∧
        Statements (Expression 100) (Lexer.ofText text file).tokens [] nodes := by
  have hfaults : (parse text file).log.entries =
      (Grammar.program.run (Lexer.ofText text file).eof (Lexer.ofText text file).tokens).faults.map
        Fault.diagnostic := rfl
  have hreads (left : List Token) : Reads Grammar.program (Lexer.ofText text file).eof
      (Lexer.ofText text file).tokens tree left ↔ left = [] ∧ ∃ nodes, tree = .program nodes ∧
        Statements (Expression 100) (Lexer.ofText text file).tokens [] nodes :=
    reads_program (Lexer.kind_eof _)
  rw [hfaults, List.map_eq_nil_iff]
  constructor
  · rintro ⟨clean, rfl⟩
    exact ((hreads _).mp ⟨rfl, rfl, clean⟩).2
  · intro h
    have read := (hreads []).mpr ⟨rfl, h⟩
    exact ⟨read.faults_eq, read.value_eq⟩

/-- Derived statements are read as they are derived. -/
theorem parse_of_statements {text file : String} {nodes : List Node}
    (h : Statements (Expression 100) (Lexer.ofText text file).tokens [] nodes) :
    (parse text file).log.entries = [] ∧ (parse text file).tree = .program nodes :=
  parse_clean_iff.mpr ⟨nodes, rfl, h⟩

theorem program_tokenize_iff {text file : String} {tree : Node} :
    Program (tokenize text file) tree ↔ ∃ nodes, tree = .program nodes ∧
      Statements (Expression 100) (Lexer.ofText text file).tokens [] nodes := by
  constructor
  · intro h
    generalize hall : tokenize text file = all at h
    cases h with
    | @intro tokens eof nodes before_end eof_kind body =>
      obtain ⟨rfl, -⟩ := List.append_inj' hall rfl
      exact ⟨nodes, rfl, body⟩
  · rintro ⟨nodes, rfl, body⟩
    exact .intro (Lexer.kind_ne_eof_of_mem_tokens _) (Lexer.kind_eof _) body

/-- Nothing is reported exactly when the tokens of the text have a derivation, and the tree is
then the one of the derivation. -/
theorem parse_eq_iff_derivable (text file : String) :
    ((parse text file).log.entries = [] ↔ ∃ tree, Program (tokenize text file) tree) ∧
    ∀ tree, Program (tokenize text file) tree ↔
      (parse text file).log.entries = [] ∧ (parse text file).tree = tree := by
  have derivable (tree : Node) : Program (tokenize text file) tree ↔
      (parse text file).log.entries = [] ∧ (parse text file).tree = tree := by
    rw [parse_clean_iff, program_tokenize_iff]
  refine ⟨?_, derivable⟩
  constructor
  · intro clean
    exact ⟨_, (derivable _).mpr ⟨clean, rfl⟩⟩
  · rintro ⟨tree, h⟩
    exact ((derivable tree).mp h).1

end MonkeyLang
