import MonkeyLang.Location
import MonkeyLang.Token.Kind

/-!
# Tokens

A token is a kind with the text it was read from, and the place where that text starts.
-/
namespace MonkeyLang

/-- One token. The lexeme of a string is what stands between its quotes. -/
structure Token where
  kind : Kind
  lexeme : String
  location : Option Location := none
  deriving Repr, DecidableEq

namespace Token

/-- What a token says, apart from where it stands. -/
def content (token : Token) : Kind × String := (token.kind, token.lexeme)

end Token

end MonkeyLang
