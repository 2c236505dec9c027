import MonkeyLang.Lexer

/-!
# The supply of tokens

A lexer gives tokens that are no end, then the end token for ever. What is before the end is a
list that never holds an end token, so the end of the list is the end of the text.
-/
namespace MonkeyLang.Lexer

theorem drain_of_end {lexer : Lexer} (h : lexer.next.1.kind = .eof) :
    lexer.drain = ([], lexer.next.2) := by
  rw [drain]
  exact dif_pos h

theorem drain_of_token {lexer : Lexer} (h : lexer.next.1.kind ≠ .eof) :
    lexer.drain = (lexer.next.1 :: lexer.next.2.drain.1, lexer.next.2.drain.2) := by
  rw [drain]
  exact dif_neg h

theorem skipBlanks_of_nil {lexer : Lexer} (h : lexer.rest = []) :
    lexer.skipBlanks = lexer := by
  cases lexer
  simp only at h
  simp [skipBlanks, h]

/-- At the end a further step changes nothing. -/
theorem next_of_end {lexer : Lexer} (h : lexer.next.1.kind = .eof) :
    lexer.next = (lexer.skipBlanks.endAt, lexer.skipBlanks) ∧
      lexer.next.2.next = lexer.next := by
  have blank := (kind_next_eq_eof_iff lexer).mp h
  have step := next_of_nil blank
  refine ⟨step, ?_⟩
  rw [step, next_of_nil (by rw [skipBlanks_of_nil blank, blank]), skipBlanks_of_nil blank]

theorem tokens_of_end {lexer : Lexer} (h : lexer.next.1.kind = .eof) : lexer.tokens = [] := by
  rw [tokens, drain_of_end h]

theorem tokens_of_token {lexer : Lexer} (h : lexer.next.1.kind ≠ .eof) :
    lexer.tokens = lexer.next.1 :: lexer.next.2.tokens := by
  rw [tokens, drain_of_token h, tokens]

/-- A property of lexers that holds at the end, and before each token if it holds behind it. -/
theorem drain_induction {motive : Lexer → Prop}
    (atEnd : ∀ lexer, lexer.next.1.kind = .eof → motive lexer)
    (atToken : ∀ lexer, lexer.next.1.kind ≠ .eof → motive lexer.next.2 → motive lexer)
    (lexer : Lexer) : motive lexer := by
  by_cases h : lexer.next.1.kind = .eof
  · exact atEnd lexer h
  · have shorter := length_next_lt h
    exact atToken lexer h (drain_induction atEnd atToken lexer.next.2)
termination_by lexer.rest.length

theorem eof_of_token {lexer : Lexer} (h : lexer.next.1.kind ≠ .eof) :
    lexer.eof = lexer.next.2.eof := by
  rw [eof, drain_of_token h, eof]

theorem eof_of_end {lexer : Lexer} (h : lexer.next.1.kind = .eof) :
    lexer.eof = lexer.next.1 := by
  rw [eof, drain_of_end h, (next_of_end h).2]

/-- The end token is of the kind of the end. -/
theorem kind_eof (lexer : Lexer) : lexer.eof.kind = .eof := by
  induction lexer using drain_induction with
  | atEnd lexer h => rw [eof_of_end h, h]
  | atToken lexer h ih => rw [eof_of_token h, ih]

/-- Before the end there is no end token. -/
theorem kind_ne_eof_of_mem_tokens (lexer : Lexer) : ∀ token ∈ lexer.tokens, token.kind ≠ .eof := by
  induction lexer using drain_induction with
  | atEnd lexer h => simp [tokens_of_end h]
  | atToken lexer h ih =>
    rw [tokens_of_token h]
    intro token ht
    rcases List.mem_cons.mp ht with rfl | ht
    · exact h
    · exact ih token ht

end MonkeyLang.Lexer
