import MonkeyLang.Lexer
import MonkeyLang.Parser

/-!
# Cursors

A parser that draws its tokens from a lexer one by one holds two of them: the current one and the
one behind it. A run over all that is left tells by the number of its moves how many tokens it
draws, and these push the two held ones out.
-/
namespace MonkeyLang

/-- The two tokens that are drawn but not yet behind the parser. -/
structure Cursor where
  current : Token
  upcoming : Token
  deriving Repr, DecidableEq

namespace Cursor

/-- The held tokens that stand before the end of the text. -/
def tokens (cursor : Cursor) : List Token :=
  [cursor.current, cursor.upcoming].filter (·.kind ≠ .eof)

/-- The cursor after one more token is drawn. -/
def push (cursor : Cursor) (token : Token) : Cursor := ⟨cursor.upcoming, token⟩

/-- The cursor after more tokens are drawn. -/
def pushAll (cursor : Cursor) (drawn : List Token) : Cursor := drawn.foldl push cursor

/-- The outcome of a parser that stands at the cursor and draws from the lexer. -/
def outcome {α : Type} (cursor : Cursor) (lexer : Lexer) (parser : Parser α) : Outcome α :=
  parser.run lexer.eof (cursor.tokens ++ lexer.tokens)

@[simp] theorem pushAll_nil (cursor : Cursor) : cursor.pushAll [] = cursor := rfl

@[simp] theorem pushAll_cons (cursor : Cursor) (token : Token) (drawn : List Token) :
    cursor.pushAll (token :: drawn) = (cursor.push token).pushAll drawn := rfl

end Cursor

end MonkeyLang
