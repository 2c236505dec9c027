import MonkeyLang.Registry

/-!
# The standard registry

The registry that documents the language as it is.
-/
namespace MonkeyLang.Registry

/-- A field with a text, if there is one. -/
def textField (name : String) (text : Option String) : List (String × Value) :=
  (text.map fun text => (name, Value.string text)).toList

/-- An entry of the standard registry. A kind without a role has no field for roles. -/
def standardEntry (name category : String) (lexeme precedence : Option String)
    (roles : List String) : String × Value :=
  (name, .object (textField "category" (some category) ++ textField "lexeme" lexeme
    ++ textField "precedence" precedence
    ++ if roles.isEmpty then [] else [("roles", .array (roles.map Value.string))]))

/-- The entries of the standard registry. -/
def standardTokens : List (String × Value) := [
  standardEntry "ILLEGAL" "special" none none [],
  standardEntry "EOF" "special" none none [],
  standardEntry "IDENT" "literal" none none ["prefix"],
  standardEntry "INT" "literal" none none ["prefix"],
  standardEntry "STRING" "literal" none none ["prefix"],
  standardEntry "ASSIGN" "operator" (some "=") none [],
  standardEntry "PLUS" "operator" (some "+") (some "SUM") ["infix"],
  standardEntry "MINUS" "operator" (some "-") (some "SUM") ["prefix", "infix"],
  standardEntry "BANG" "operator" (some "!") none ["prefix"],
  standardEntry "ASTERISK" "operator" (some "*") (some "PRODUCT") ["infix"],
  standardEntry "SLASH" "operator" (some "/") (some "PRODUCT") ["infix"],
  standardEntry "LT" "operator" (some "<") (some "LESSGREATER") ["infix"],
  standardEntry "GT" "operator" (some ">") (some "LESSGREATER") ["infix"],
  standardEntry "EQ" "operator" (some "==") (some "EQUALS") ["infix"],
  standardEntry "NOT_EQ" "operator" (some "!=") (some "EQUALS") ["infix"],
  standardEntry "COMMA" "delimiter" (some ",") none [],
  standardEntry "SEMICOLON" "delimiter" (some ";") none [],
  standardEntry "LPAREN" "delimiter" (some "(") (some "CALL") ["prefix", "infix"],
  standardEntry "RPAREN" "delimiter" (some ")") none [],
  standardEntry "LBRACE" "delimiter" (some "\x7b") none [],
  standardEntry "RBRACE" "delimiter" (some "\x7d") none [],
  standardEntry "LBRACKET" "delimiter" (some "[") (some "CALL") ["prefix", "infix"],
  standardEntry "RBRACKET" "delimiter" (some "]") none [],
  standardEntry "FUNCTION" "keyword" (some "function") none ["prefix"],
  standardEntry "LET" "keyword" (some "let") none [],
  standardEntry "TRUE" "keyword" (some "true") none ["prefix"],
  standardEntry "FALSE" "keyword" (some "false") none ["prefix"],
  standardEntry "IF" "keyword" (some "if") none ["prefix"],
  standardEntry "ELSE" "keyword" (some "else") none [],
  standardEntry "RETURN" "keyword" (some "return") none []]

/-- The standard registry as a document. -/
def standard : Value :=
  .object [("version", .string "1.0"), ("tokens", .object standardTokens)]

end MonkeyLang.Registry
