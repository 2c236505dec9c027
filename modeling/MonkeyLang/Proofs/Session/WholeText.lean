import MonkeyLang.Proofs.Session.Reply
import MonkeyLang.Proofs.Session.SharedLexer
import MonkeyLang.Proofs.Syntax.MeteredParsing
import MonkeyLang.Proofs.Syntax.TracedParsing

/-!
# Reading a whole text

A reader of a program comes to the end of its text, whatever the text is, and has drawn all of the
tokens by then. The reading takes no more turns of any loop and no more levels of expressions than
there are tokens.
-/
namespace MonkeyLang

theorem endMarked_tokens (lexer : Lexer) : EndMarked lexer.eof lexer.tokens :=
  ⟨lexer.kind_eof, lexer.kind_ne_eof_of_mem_tokens⟩

namespace Session

/-- A reader of a program moves past all tokens, and ends at the end token. -/
theorem current_of_program {cursor : Cursor} {lexer : Lexer} {tokens : List Token}
    (h : cursor.Faces lexer tokens) :
    (Call.program.replyAt cursor lexer).cursor.current = lexer.eof := by
  have facing := h.pushAll (Grammar.program.run lexer.eof tokens).advances
  rw [← Grammar.program.rest_run, Grammar.rest_program] at facing
  have ended := facing.finished.1
  rw [Lexer.eof_take, ← h.outcome_eq] at ended
  exact ended

/-- What is drawn for a program are the first two tokens, and one for each move. -/
theorem tokensFrom_program (text file : String) :
    tokensFrom 0 (history {} (alone text file ++ [.program 0])) =
      ((Lexer.ofText text file).take (2 + (Grammar.program.run (Lexer.ofText text file).eof
        (Lexer.ofText text file).tokens).advances)).1 := by
  have stands := stands_alone text file
  have primed : tokensFrom 0 (history {} (alone text file)) =
      ((Lexer.ofText text file).take 2).1 := rfl
  rw [history_append, tokensFrom_append, primed, Lexer.take_add, history, history,
    List.append_nil, draws, request?, readerRequest?_of_some stands.opened stands.supplied,
    Option.elim_some, tokensFrom_fulfil, if_pos rfl, draw_of_some stands.supplied,
    (Cursor.faces_opened (Lexer.ofText text file)).outcome_eq, Lexer.eof_take]

/-- Reading a program always ends, at the end token and with the program of the text, and the
reader has drawn all tokens by then. Fuel for one turn more than there are tokens before the end is
never used up, and each expression inside of another one starts at a later token. This holds of
every expression at any depth too. -/
theorem program_reads_whole_text (text file : String) (extra : Nat) :
    let lexer := Lexer.ofText text file
    let fuel := (tokenize text file).length + extra
    (∃ cursor, cursor.current = lexer.eof ∧
      (run {} (alone text file)).1.reply 0 .program =
        some ⟨some (parse text file).tree, cursor, (parse text file).log.entries⟩) ∧
    tokenize text file <+: tokensFrom 0 (history {} (alone text file ++ [.program 0])) ∧
    ((Metered.program fuel).start 0).run lexer.eof lexer.tokens =
      (Metered.settled Grammar.program 0).run lexer.eof lexer.tokens ∧
    ∀ (depth count : Nat) (floor : Int),
      ((Metered.expression fuel floor).start depth).run lexer.eof (lexer.tokens.drop count) =
        (Metered.settled (Grammar.expressionWithin (Grammar.maxNesting - depth) floor) depth).run
          lexer.eof (lexer.tokens.drop count) := by
  intro lexer fuel
  have facing := Cursor.faces_opened lexer
  have marked := endMarked_tokens lexer
  have enough (count : Nat) : (lexer.tokens.drop count).length < fuel := by
    have more : fuel = lexer.tokens.length + 1 + extra :=
      congrArg (· + extra) (length_tokenize text file)
    have fewer := (List.drop_suffix count lexer.tokens).length_le
    omega
  have whole := Grammar.rest_program lexer.eof lexer.tokens
  rw [Grammar.program.rest_run, List.drop_eq_nil_iff] at whole
  refine ⟨⟨(Call.program.replyAt lexer.cursor (lexer.take 2).2).cursor, ?_, ?_⟩, ?_,
    Metered.agrees_program (enough 0) marked, fun depth count floor =>
    Metered.agrees_expression floor (enough count) (marked.of_suffix (List.drop_suffix _ _))⟩
  · rw [current_of_program facing, Lexer.eof_take]
  · rw [(stands_alone text file).reply_eq, Call.replyAt, facing.outcome_eq, Lexer.eof_take]
    rfl
  · rw [tokensFrom_program]
    exact lexer.prefix_take (Nat.add_le_add (Nat.le_succ 1) whole)

end Session

end MonkeyLang
