import MonkeyLang.Grammar.Role
import MonkeyLang.Registry
import MonkeyLang.Registry.Order
import MonkeyLang.Registry.Spelling
import MonkeyLang.Registry.Validator
import MonkeyLang.Text.Sorted

/-!
# Agreement of a registry with the language

Each check compares the entries of a registry with one table of the language and gives a line for
each difference. A registry agrees with the language when no check gives a line.
-/
namespace MonkeyLang.Registry

/-- A label as it stands within a sentence. -/
def wordsOf (label : Label) : Except Failure String := written label.value.words?

/-- What is said about an entry that has the name of no token kind. -/
def unknownName (name : Label) : Except Failure String := do
  return "Registry entry '" ++ (← wordsOf name) ++ "' is not a TokenKind"

/-- Every token kind has an entry, and nothing else has one. -/
def nameDifferences (names : List Label) : Except Failure (List String) := do
  let known := Kind.all.map Kind.name
  let missing := Text.sorted (known.filter fun name => !names.any (Label.text name).same)
  let unknown := names.filter fun name => !known.any fun text => name.same (.text text)
  let others ← (← Label.ordered (Label.gathered unknown)).mapM unknownName
  return missing.map (fun name => "TokenKind." ++ name ++ " is missing from the registry") ++ others

/-- A given reserved word: its lexeme and the name of its entry. -/
def keywordOf (entry : Entry) : Except Failure (Label × String) :=
  match entry.lexeme? with
  | some lexeme => do return (← Label.ofValue lexeme, entry.name)
  | none => .error .lexemeMissing

/-- The reserved word that a definition gives, if it is in their category. -/
def keywordOf? (definition : Definition) : Except Failure (Option (Label × String)) := do
  let entry ← entryOf definition
  if entry.isKeyword then some <$> keywordOf entry else return none

/-- The reserved words of the language, with the names of their kinds. -/
def reservedWords : List (Label × String) :=
  Kind.keywords.map fun keyword => (.text keyword.1, keyword.2.name)

/-- The name that belongs to a word; of several with one word the last counts. -/
def nameOf? (words : List (Label × String)) (word : Label) : Option String :=
  (words.reverse.find? (·.1.same word)).map Prod.snd

/-- The words of a list that another list does not have. -/
def wordsMissing (words others : List (Label × String)) : List Label :=
  (words.map Prod.fst).filter fun word => (nameOf? others word).isNone

/-- What is said about a word that is a reserved word on one side alone. -/
def onlyOneSide (word : Label) : Except Failure String := do
  return "Keyword '" ++ (← wordsOf word) ++ "' is in only one of registry / KEYWORDS"

/-- What is said about a reserved word that has different names on the two sides. -/
def nameConflict (found : List (Label × String)) (word : String) : Option String :=
  match nameOf? reservedWords (.text word), nameOf? found (.text word) with
  | some kind, some name =>
    if kind = name then none
    else some ("Keyword '" ++ word ++ "' maps to " ++ kind ++ ", registry says " ++ name)
  | _, _ => none

/-- The differences between given reserved words and those of the language. -/
def keywordLines (found : List (Label × String)) : Except Failure (List String) := do
  let oneSided ← (← Label.ordered (Label.gathered
    (wordsMissing reservedWords found ++ wordsMissing found reservedWords))).mapM onlyOneSide
  let reserved := Text.sorted (Kind.keywords.map Prod.fst)
  return oneSided ++ reserved.filterMap (nameConflict found)

/-- The reserved words of a registry are those of the language. -/
def keywordDifferences (definitions : List Definition) : Except Failure (List String) := do
  keywordLines ((← definitions.mapM keywordOf?).filterMap id)

/-- The lexeme of an entry, if it has one, is one token of its kind. -/
def lexemeDifference (definition : Definition) : Except Failure (Option String) := do
  let entry ← entryOf definition
  match entry.lexeme? with
  | none | some .null => return none
  | some lexeme =>
    let kinds ← lexemeKinds lexeme
    if kinds = [entry.name] then return none
    return some ("Lexeme " ++ (← written lexeme.shown?) ++ " lexes as ["
      ++ ", ".intercalate (kinds.map Text.quoted) ++ "], expected [" ++ entry.name ++ "]")

/-- Every given lexeme is one token of its entry's kind. -/
def lexemeDifferences (definitions : List Definition) : Except Failure (List String) := do
  return (← definitions.mapM lexemeDifference).filterMap id

/-- The kinds with a binding power, by name. -/
def boundNames : List String := (Kind.all.filter (·.precedence?.isSome)).map Kind.name

/-- The name of the binding power that the language gives a named kind, or null. -/
def tablePrecedence (name : String) : Value :=
  match (Kind.ofName? name).bind Kind.precedence? with
  | some precedence => .string precedence.name
  | none => .null

/-- The name of the field for a binding power. -/
def precedenceField : String := "precedence"

/-- The binding power that a definition gives its name, if it gives one. -/
def givenPrecedence (definition : Definition) : Except Failure (String × Option Value) :=
  match definition.2 with
  | .object fields => .ok (definition.1, fields.lookup precedenceField)
  | .array items =>
    if items.any (Value.string precedenceField).same then .error .itemByName
    else .ok (definition.1, none)
  | .string text =>
    if (text.splitOn precedenceField).length = 1 then .ok (definition.1, none)
    else .error .characterByName
  | value => .error (.noMembers value.typeName)

/-- The line about a binding power that is not that of the language. -/
def precedenceDifference (given : List (String × Option Value)) (name : String) :
    Except Failure (Option String) := do
  let table := tablePrecedence name
  let registry := ((given.lookup name).bind id).getD .null
  if table.same registry then return none
  return some ("Precedence of " ++ name ++ ": parser has " ++ (← written table.words?)
    ++ ", registry has " ++ (← written registry.words?))

/-- The binding powers of a registry are those of the language. -/
def precedenceDifferences (definitions : List Definition) : Except Failure (List String) := do
  let given ← definitions.mapM givenPrecedence
  let names := (given.filter (·.2.isSome)).map Prod.fst
  return (← (Text.sorted (boundNames ++ names)).mapM (precedenceDifference given)).filterMap id

/-- Whether a token of the named kind starts an expression. -/
def startsExpression (name : String) : Bool := ((Kind.ofName? name).bind Kind.opening?).isSome

/-- Whether a token of the named kind continues an expression. -/
def continuesExpression (name : String) : Bool :=
  ((Kind.ofName? name).bind Kind.continuation?).isSome

/-- The roles of an entry are those that its kind plays in the grammar, and a kind that continues
an expression has a binding power. -/
def roleDifference (definition : Definition) : Except Failure (List String) := do
  let entry ← entryOf definition
  let roles ← entry.roles
  let starts := roles.any (Label.text "prefix").same
  let continues := roles.any (Label.text "infix").same
  return (if starts = startsExpression entry.name then []
      else [entry.name ++ ": prefix role disagrees with the parser's prefix table"]) ++
    (if continues = continuesExpression entry.name then []
      else [entry.name ++ ": infix role disagrees with the parser's infix table"]) ++
    (if continues && entry.precedence?.isNone then
      [entry.name ++ ": infix token has no precedence"] else [])

/-- The roles of all entries are those of the grammar. -/
def roleDifferences (definitions : List Definition) : Except Failure (List String) := do
  return (← definitions.mapM roleDifference).flatten

/-- All differences between the definitions of a registry and the language. -/
def differences (definitions : List Definition) : Except Failure (List String) := do
  let names ← nameDifferences (definitions.map fun definition => .text definition.1)
  let keywords ← keywordDifferences definitions
  let lexemes ← lexemeDifferences definitions
  let precedences ← precedenceDifferences definitions
  let roles ← roleDifferences definitions
  return names ++ keywords ++ lexemes ++ precedences ++ roles

/-- What is wrong with a document: where it breaks the schema or, if nothing is said about that,
where it differs from the language. -/
def problems (validate : Validator) (schema document : Value) : Except Failure (List String) := do
  let lines ← formLines validate schema document
  if lines.isEmpty then differences (← definitionsOf (← tokens document)) else return lines

end MonkeyLang.Registry
