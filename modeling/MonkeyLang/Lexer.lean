import MonkeyLang.Position
import MonkeyLang.Token
import MonkeyLang.Token.Piece

/-!
# Lexing

A lexer is a place in a text: what is left to read, and where that stands. Each step gives one
token and the lexer behind it. At the end of the text every further step gives the same end
token, so a lexer is an endless supply of tokens.
-/
namespace MonkeyLang

/-- What is left of a text, and the position at which it starts. -/
structure Lexer where
  file : String
  rest : List Char
  position : Position := .start
  deriving Repr, DecidableEq

namespace Lexer

/-- The file name of a text that has none. -/
def unnamed : String := "<string>"

/-- A lexer at the start of a text. -/
def ofText (text : String) (file : String := unnamed) : Lexer := ⟨file, text.toList, .start⟩

/-- The location of what is left. -/
def here (lexer : Lexer) : Location := lexer.position.inFile lexer.file

/-- The lexer behind the blanks at its place. -/
def skipBlanks (lexer : Lexer) : Lexer :=
  { lexer with
    rest := lexer.rest.dropWhile Char.isWhitespace
    position := lexer.position.afterAll (lexer.rest.takeWhile Char.isWhitespace) }

/-- The position behind a piece. An open string counts one column for the quote that it lacks. -/
def behind (position : Position) (piece : Piece) : Position :=
  let place := position.afterAll piece.raw
  if piece.closed then place else place.right

/-- The token of a piece that starts at the lexer's place. -/
def tokenAt (lexer : Lexer) (piece : Piece) : Token :=
  ⟨piece.kind, String.ofList piece.lexeme, some lexer.here⟩

/-- The end token at the lexer's place. -/
def endAt (lexer : Lexer) : Token := ⟨.eof, "", some lexer.here⟩

/-- The next token, and the lexer behind it. -/
def next (lexer : Lexer) : Token × Lexer :=
  let start := lexer.skipBlanks
  match start.rest with
  | [] => (start.endAt, start)
  | c :: cs =>
    let found := Piece.first c cs
    (start.tokenAt found.1, ⟨start.file, found.2, behind start.position found.1⟩)

theorem next_of_nil {lexer : Lexer} (h : lexer.skipBlanks.rest = []) :
    lexer.next = (lexer.skipBlanks.endAt, lexer.skipBlanks) := by
  simp [next, h]

theorem next_of_cons {lexer : Lexer} {c : Char} {cs : List Char}
    (h : lexer.skipBlanks.rest = c :: cs) :
    lexer.next = (lexer.skipBlanks.tokenAt (Piece.first c cs).1,
      ⟨lexer.skipBlanks.file, (Piece.first c cs).2,
        behind lexer.skipBlanks.position (Piece.first c cs).1⟩) := by
  simp [next, h]

theorem length_skipBlanks_le (lexer : Lexer) :
    lexer.skipBlanks.rest.length ≤ lexer.rest.length :=
  (List.dropWhile_suffix Char.isWhitespace).length_le

/-- A step gives the end token exactly when only blanks are left. -/
theorem kind_next_eq_eof_iff (lexer : Lexer) :
    lexer.next.1.kind = .eof ↔ lexer.skipBlanks.rest = [] := by
  cases h : lexer.skipBlanks.rest with
  | nil => simp [next_of_nil h, endAt]
  | cons c cs => simp [next_of_cons h, tokenAt, Piece.kind_first_ne_eof]

/-- A token that is no end takes at least one character. -/
theorem length_next_lt {lexer : Lexer} (h : lexer.next.1.kind ≠ .eof) :
    lexer.next.2.rest.length < lexer.rest.length := by
  have blanks := lexer.length_skipBlanks_le
  cases text : lexer.skipBlanks.rest with
  | nil => exact absurd ((kind_next_eq_eof_iff lexer).mpr text) h
  | cons c cs =>
    have piece := Piece.length_first_lt c cs
    rw [text] at blanks
    simp only [next_of_cons text]
    omega

/-- The tokens up to the end, and the lexer at the end. -/
def drain (lexer : Lexer) : List Token × Lexer :=
  let step := lexer.next
  if _ended : step.1.kind = .eof then ([], step.2)
  else
    let more := step.2.drain
    (step.1 :: more.1, more.2)
termination_by lexer.rest.length
decreasing_by exact length_next_lt (by assumption)

/-- The tokens that are left, without the end token. -/
def tokens (lexer : Lexer) : List Token := lexer.drain.1

/-- The end token. -/
def eof (lexer : Lexer) : Token := lexer.drain.2.next.1

/-- The next tokens in a given number, and the lexer behind them. -/
def take (lexer : Lexer) : Nat → List Token × Lexer
  | 0 => ([], lexer)
  | count + 1 =>
    let more := lexer.next.2.take count
    (lexer.next.1 :: more.1, more.2)

end Lexer

/-- The tokens of a text, the end token last. -/
def tokenize (text : String) (file : String := Lexer.unnamed) : List Token :=
  let lexer := Lexer.ofText text file
  lexer.tokens ++ [lexer.eof]

end MonkeyLang
