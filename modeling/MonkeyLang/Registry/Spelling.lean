import MonkeyLang.Lexer
import MonkeyLang.Registry.Failure

/-!
# Spellings

The value that an entry gives as its lexeme, read as source text. A text is its own spelling. An
array spells out a text by its items, each in the place of one character: an item counts as a
letter or digit when it lies between two of them in the order of texts. Only a text can be looked
up among the reserved words, so an array spells no word.
-/
namespace MonkeyLang.Registry

/-- Whether a text lies between two others. -/
def liesBetween (low high text : String) : Bool := decide (low ≤ text) && decide (text ≤ high)

/-- A character that is read as an item of a spelling is; for an item that cannot be read, one that
starts no token. -/
def standIn : Value → Char
  | .string text =>
    if [" ", "\t", "\n", "\r"].contains text then ' '
    else if liesBetween "a" "z" text || liesBetween "A" "Z" text || text = "_" then 'a'
    else if liesBetween "0" "9" text then '0'
    else match text.toList with
      | [c] => c
      | _ => '?'
  | _ => '?'

/-- An item that is compared with a text has to be one. -/
def checkCompared : Option Value → Except Failure Unit
  | none | some (.string _) => .ok ()
  | some value => .error (.unordered value.typeName)

/-- An item that starts a token is compared with texts, after it is looked up among the blanks. -/
def checkStart : Option Value → Except Failure Unit
  | some (.array items) => .error (.compound (Value.array items).typeName)
  | some (.object fields) => .error (.compound (Value.object fields).typeName)
  | item => checkCompared item

/-- The kind of a token that is read from the stand-ins of some items. -/
def spelledKind (items : List Value) (token : Token) : Except Failure String := do
  let start := token.location.elim 0 fun place => (place.column - 1).toNat
  let behind := items[start + token.lexeme.length]?
  match token.kind with
  | .illegal => checkStart items[start]?
  | .int => checkCompared behind
  | .ident =>
    checkCompared behind
    throw (.compound (Value.array items).typeName)
  | _ => return token.kind.name
  return token.kind.name

/-- The names of the kinds that a text is lexed into. -/
def lexedKinds (text : String) : List String := (Lexer.ofText text).tokens.map (·.kind.name)

/-- The names of the kinds that a lexeme is lexed into. -/
def lexemeKinds : Value → Except Failure (List String)
  | .string text => .ok (lexedKinds text)
  | .array items =>
    (Lexer.ofText (String.ofList (items.map standIn))).tokens.mapM (spelledKind items)
  | .object [] => .ok []
  | .object _ => .error .itemByNumber
  | value => .error (.noSize value.typeName)

end MonkeyLang.Registry
