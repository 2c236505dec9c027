/-!
# Token kinds

The closed set of token kinds, and the spelling of those kinds that have only one.
-/
namespace MonkeyLang

/-- The class of a token. -/
inductive Kind where
  | illegal | eof
  | ident | int | string
  | assign | plus | minus | bang | asterisk | slash | lt | gt | eq | notEq
  | comma | semicolon | lparen | rparen | lbrace | rbrace | lbracket | rbracket
  | kwFunction | kwLet | kwTrue | kwFalse | kwIf | kwElse | kwReturn
  deriving Repr, DecidableEq

namespace Kind

/-- Every kind, in the order of declaration. -/
def all : List Kind :=
  [illegal, eof, ident, int, string,
    assign, plus, minus, bang, asterisk, slash, lt, gt, eq, notEq,
    comma, semicolon, lparen, rparen, lbrace, rbrace, lbracket, rbracket,
    kwFunction, kwLet, kwTrue, kwFalse, kwIf, kwElse, kwReturn]

theorem mem_all (kind : Kind) : kind ∈ all := by cases kind <;> decide

/-- The name under which messages and the registry speak of a kind. -/
def name : Kind → String
  | illegal => "ILLEGAL" | eof => "EOF"
  | ident => "IDENT" | int => "INT" | string => "STRING"
  | assign => "ASSIGN" | plus => "PLUS" | minus => "MINUS" | bang => "BANG"
  | asterisk => "ASTERISK" | slash => "SLASH" | lt => "LT" | gt => "GT"
  | eq => "EQ" | notEq => "NOT_EQ"
  | comma => "COMMA" | semicolon => "SEMICOLON"
  | lparen => "LPAREN" | rparen => "RPAREN" | lbrace => "LBRACE" | rbrace => "RBRACE"
  | lbracket => "LBRACKET" | rbracket => "RBRACKET"
  | kwFunction => "FUNCTION" | kwLet => "LET" | kwTrue => "TRUE" | kwFalse => "FALSE"
  | kwIf => "IF" | kwElse => "ELSE" | kwReturn => "RETURN"

/-- The kind with a given name, if there is one. -/
def ofName? (text : String) : Option Kind := all.find? (·.name == text)

/-- The reserved words. -/
def keywords : List (String × Kind) :=
  [("function", kwFunction), ("let", kwLet), ("true", kwTrue), ("false", kwFalse),
    ("if", kwIf), ("else", kwElse), ("return", kwReturn)]

/-- A reserved word has a kind of its own; any other word is an identifier. -/
def ofWord (word : String) : Kind := (keywords.lookup word).getD ident

/-- The kind of a token that is one symbol, whatever follows it. -/
def ofSymbol? : Char → Option Kind
  | '+' => some plus | '-' => some minus | '*' => some asterisk | '/' => some slash
  | '<' => some lt | '>' => some gt
  | ',' => some comma | ';' => some semicolon
  | '(' => some lparen | ')' => some rparen | '\x7b' => some lbrace | '\x7d' => some rbrace
  | '[' => some lbracket | ']' => some rbracket
  | _ => none

theorem name_injective {a b : Kind} (h : a.name = b.name) : a = b := by
  revert h; cases a <;> cases b <;> decide

theorem ofName?_name (kind : Kind) : ofName? kind.name = some kind := by
  cases kind <;> decide

end Kind

end MonkeyLang
