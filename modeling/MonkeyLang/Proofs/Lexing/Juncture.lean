import MonkeyLang.Proofs.Lexing.Layout
import Mathlib.Data.List.Basic

/-!
# Texts in a row

A text may stand before another one when each of its pieces is closed and could not go on with what
follows it there. Then the other text is read as if it stood alone, only further on in its file: no
token reaches over the juncture, and none is missed. Blanks at a juncture go unseen.
-/
namespace MonkeyLang

theorem not_isWordChar_of_isWhitespace {c : Char} (blank : c.isWhitespace) : ¬ isWordChar c :=
  fun word => not_isWhitespace_of (by decide) word blank

theorem not_isDigit_of_isWhitespace {c : Char} (blank : c.isWhitespace) : ¬ c.isDigit :=
  fun digit => not_isWhitespace_of (by decide) digit blank

theorem ne_equals_of_isWhitespace {c : Char} (blank : c.isWhitespace) : c ≠ '=' := by
  rintro rfl
  exact absurd blank (by decide)

namespace Piece

/-- Whether a closed piece could go on depends on the first character behind it alone, and with a
blank there it could not. -/
theorem Fits.of_head {piece : Piece} {after other : List Char} (fits : piece.Fits after)
    (closed : piece.closed) (heads : ∀ c ∈ other.head?, c ∈ after.head? ∨ c.isWhitespace) :
    piece.Fits other := by
  cases fits with
  | word nonempty letters ends =>
    refine .word nonempty letters fun c hc => ?_
    rcases heads c hc with same | blank
    · exact ends c same
    · exact not_isWordChar_of_isWhitespace blank
  | number nonempty digits ends =>
    refine .number nonempty digits fun c hc => ?_
    rcases heads c hc with same | blank
    · exact ends c same
    · exact not_isDigit_of_isWhitespace blank
  | string quoteless => exact .string quoteless
  | openString => exact absurd closed Bool.false_ne_true
  | symbol spelled ends =>
    refine .symbol spelled fun sign c hc => ?_
    rcases heads c hc with same | blank
    · exact ends sign c same
    · exact ne_equals_of_isWhitespace blank
  | illegal foreign => exact .illegal foreign

/-- Only at the end of a text a piece may be open. -/
theorem Fits.closed {piece : Piece} {after : List Char} (fits : piece.Fits after)
    (more : after ≠ []) : piece.closed := by
  cases fits with
  | openString => exact absurd rfl more
  | _ => rfl

/-- A semicolon is a semicolon before any text. -/
theorem Fits.semicolon {piece : Piece} {after : List Char} (fits : piece.Fits after)
    (kind : piece.kind = .semicolon) (other : List Char) : piece.Fits other ∧ piece.closed := by
  cases fits with
  | word => exact absurd kind (Kind.ofWord_ne _ (by decide))
  | @symbol symbol text after spelled ends =>
    obtain rfl : symbol = .semicolon := kind
    exact ⟨.symbol spelled fun sign => by simp at sign, rfl⟩
  | number => exact absurd kind Kind.noConfusion
  | string => exact absurd kind Kind.noConfusion
  | openString => exact absurd kind Kind.noConfusion
  | illegal => exact absurd kind Kind.noConfusion

end Piece

/-- The text is laid out as the pieces in front of another one: each of them is closed and could not
go on with what follows it there. -/
inductive LayoutBefore (behind : List Char) : List Piece → List Char → Prop
  | blank {gap : List Char} (blank : ∀ c ∈ gap, c.isWhitespace) : LayoutBefore behind [] gap
  | piece {gap after : List Char} {piece : Piece} {pieces : List Piece}
    (blank : ∀ c ∈ gap, c.isWhitespace) (fits : piece.Fits (after ++ behind))
    (closed : piece.closed) (rest : LayoutBefore behind pieces after) :
    LayoutBefore behind (piece :: pieces) (gap ++ piece.raw ++ after)

theorem Layout.ne_nil {piece : Piece} {pieces : List Piece} {text : List Char}
    (h : Layout (piece :: pieces) text) : text ≠ [] := by
  cases h with
  | piece blank fits rest => simp [fits.raw_ne_nil]

/-- A text that ends in a semicolon, blanks aside, may stand before any text. -/
theorem Layout.before_of_semicolon {pieces : List Piece} {text : List Char}
    (h : Layout pieces text) (last : ∃ piece ∈ pieces.getLast?, piece.kind = .semicolon)
    (behind : List Char) : LayoutBefore behind pieces text := by
  induction h with
  | blank => simp at last
  | @piece gap after piece pieces blank fits rest ih =>
    cases pieces with
    | nil =>
      have kind : piece.kind = .semicolon := by simpa using last
      obtain ⟨fits, closed⟩ := fits.semicolon kind (after ++ behind)
      cases rest with
      | blank blank' => exact .piece blank fits closed (.blank blank')
    | cons next pieces =>
      -- what follows starts with a character of its own, so nothing behind it matters
      have closed := fits.closed rest.ne_nil
      have fits : piece.Fits (after ++ behind) := by
        apply fits.of_head closed
        intro c hc
        rw [List.head?_append_of_ne_nil after rest.ne_nil] at hc
        exact .inl hc
      rw [List.getLast?_cons_cons] at last
      exact .piece blank fits closed (ih last)

/-- Blanks may come between. -/
theorem LayoutBefore.blanks {behind blanks text : List Char} {pieces : List Piece}
    (h : LayoutBefore behind pieces text) (blank : ∀ c ∈ blanks, c.isWhitespace) :
    LayoutBefore (blanks ++ behind) pieces text := by
  induction h with
  | blank gap => exact .blank gap
  | @piece gap after piece pieces between fits closed rest ih =>
    refine .piece between (fits.of_head closed fun c hc => ?_) closed ih
    cases after with
    | cons d after => exact .inl hc
    | nil =>
      cases blanks with
      | nil => exact .inl hc
      | cons d blanks =>
        obtain rfl : d = c := by simpa using hc
        exact .inr (blank d List.mem_cons_self)

namespace Lexer

theorem drain_eq_of_next_eq {lexer other : Lexer} (h : lexer.next = other.next) :
    lexer.drain = other.drain := by
  rw [drain, h, ← drain]

/-- Blanks only move a lexer on. -/
theorem next_blanks {blanks : List Char} (blank : ∀ c ∈ blanks, c.isWhitespace) (file : String)
    (text : List Char) (position : Position) :
    (⟨file, blanks ++ text, position⟩ : Lexer).next =
      (⟨file, text, position.afterAll blanks⟩ : Lexer).next := by
  have same : (⟨file, blanks ++ text, position⟩ : Lexer).skipBlanks =
      (⟨file, text, position.afterAll blanks⟩ : Lexer).skipBlanks := by
    simp only [skipBlanks, List.takeWhile_append_of_pos blank, List.dropWhile_append_of_pos blank,
      Position.afterAll_append]
  rw [next, next, same]

theorem tokens_blanks {blanks : List Char} (blank : ∀ c ∈ blanks, c.isWhitespace) (file : String)
    (text : List Char) (position : Position) :
    (⟨file, blanks ++ text, position⟩ : Lexer).tokens =
      (⟨file, text, position.afterAll blanks⟩ : Lexer).tokens := by
  rw [tokens, drain_eq_of_next_eq (next_blanks blank file text position), tokens]

/-- In front of a character that is no blank the next token starts. -/
theorem next_cons {c : Char} (hc : ¬ c.isWhitespace) (cs : List Char) (file : String)
    (position : Position) :
    (⟨file, c :: cs, position⟩ : Lexer).next =
      ((⟨file, c :: cs, position⟩ : Lexer).tokenAt (Piece.first c cs).1,
        ⟨file, (Piece.first c cs).2, behind position (Piece.first c cs).1⟩) := by
  have start : (⟨file, c :: cs, position⟩ : Lexer).skipBlanks = ⟨file, c :: cs, position⟩ := by
    simp [skipBlanks, List.takeWhile_cons_of_neg hc, List.dropWhile_cons_of_neg hc]
  rw [next, start]

/-- The token that a closed piece gives before any text that it fits. -/
theorem next_piece {gap after : List Char} {piece : Piece} (blank : ∀ c ∈ gap, c.isWhitespace)
    (fits : piece.Fits after) (closed : piece.closed) (file : String) (position : Position) :
    (⟨file, gap ++ piece.raw ++ after, position⟩ : Lexer).next =
      (⟨piece.kind, String.ofList piece.lexeme, some ((position.afterAll gap).inFile file)⟩,
        ⟨file, after, position.afterAll (gap ++ piece.raw)⟩) := by
  obtain ⟨c, cs, hraw, hc, hfirst⟩ := Piece.first_of_fits fits
  rw [List.append_assoc, hraw, next_blanks blank, next_cons hc]
  simp only [hfirst, tokenAt, here, behind, closed, if_true, Position.afterAll_append]

/-- Behind a text that may stand before another one, the other one is read as if it stood alone,
from the place at which it starts. -/
theorem drain_append {behind text : List Char} {pieces : List Piece}
    (h : LayoutBefore behind pieces text) (file : String) (position : Position) :
    (⟨file, text ++ behind, position⟩ : Lexer).drain =
      ((⟨file, text, position⟩ : Lexer).tokens ++
        (⟨file, behind, position.afterAll text⟩ : Lexer).tokens,
        (⟨file, behind, position.afterAll text⟩ : Lexer).drain.2) := by
  induction h generalizing position with
  | @blank gap blank =>
    have ended : (⟨file, gap, position⟩ : Lexer).next.1.kind = .eof := by
      rw [kind_next_eq_eof_iff, skipBlanks_rest]
      exact List.dropWhile_eq_nil_iff.mpr blank
    rw [drain_eq_of_next_eq (next_blanks blank file behind position), tokens_of_end ended,
      List.nil_append, tokens]
  | @piece gap after piece pieces blank fits closed rest ih =>
    have alone : piece.Fits after := by
      apply fits.of_head closed
      intro c hc
      exact .inl (List.mem_head?_append_of_mem_head? hc)
    have step := next_piece blank fits closed file position
    have step' := next_piece blank alone closed file position
    rw [List.append_assoc (gap ++ piece.raw)]
    rw [drain_of_token (by rw [step]; exact fits.kind_ne_eof),
      tokens_of_token (by rw [step']; exact fits.kind_ne_eof), step, step']
    simp only [ih, List.cons_append, Position.afterAll_append]

/-- What the tokens of a text say depends neither on its file nor on its place. -/
theorem contents_eq_of_rest_eq {lexer other : Lexer} (h : lexer.rest = other.rest) :
    lexer.tokens.map Token.content = other.tokens.map Token.content := by
  obtain ⟨pieces, layout, contents⟩ := lexer.exists_layout
  rw [contents, tokens_of_layout layout h.symm]

theorem content_eof (lexer : Lexer) : lexer.eof.content = (.eof, "") := by
  induction lexer using drain_induction with
  | atEnd lexer h => rw [eof_of_end h, (next_of_end h).1]; rfl
  | atToken lexer h ih => rw [eof_of_token h, ih]

end Lexer

end MonkeyLang
