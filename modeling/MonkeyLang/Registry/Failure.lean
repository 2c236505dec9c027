import MonkeyLang.Value

/-!
# Failures

A document of the wrong shape can stop its examination. Each cause has one message; where a cause
names types, they are those of the values that are in the way.
-/
namespace MonkeyLang.Registry

/-- What keeps a document from being examined as a registry. -/
inductive Failure where
  /-- An entry in the category of reserved words gives no lexeme. -/
  | lexemeMissing
  /-- A value that has no fields stands where fields are looked up. -/
  | noFields (typeName : String)
  /-- A value that has no fields stands where the entries have to be. -/
  | noEntries (typeName : String)
  /-- A value without a size stands where parts are counted. -/
  | noSize (typeName : String)
  /-- A value without parts stands where a list has to be. -/
  | noItems (typeName : String)
  /-- A value without parts stands where one is searched for. -/
  | noMembers (typeName : String)
  /-- A value that has no fields stands where the checked entries have to be. -/
  | noListing (typeName : String)
  /-- A field of an object is looked up by a number. -/
  | itemByNumber
  /-- An item of an array is looked up by a name. -/
  | itemByName
  /-- A character of a text is looked up by a name. -/
  | characterByName
  /-- A compound value stands where a simple one has to be. -/
  | compound (typeName : String)
  /-- A value that is no text is compared with the bounds of a class of characters. -/
  | unordered (typeName : String)
  /-- A value cannot be put in order with an earlier one. -/
  | incomparable (later earlier : String)
  /-- A text has to be shown, and there is no value. -/
  | nullLabel
  /-- A text has to be shown, and there is a number. -/
  | numberLabel (typeName : String)
  /-- An integer has to be shown that has too many digits. -/
  | tooManyDigits
  /-- A validator stops for a reason of its own. -/
  | foreign (reason : String)
  deriving Repr, DecidableEq

/-- What is said about a document that cannot be examined. -/
def Failure.message : Failure → String
  | lexemeMissing => Text.quoted "lexeme"
  | noFields typeName => Text.quoted typeName ++ " object has no attribute 'get'"
  | noEntries typeName => Text.quoted typeName ++ " object has no attribute 'values'"
  | noSize typeName => "object of type " ++ Text.quoted typeName ++ " has no len()"
  | noItems typeName => Text.quoted typeName ++ " object is not iterable"
  | noMembers typeName => "argument of type " ++ Text.quoted typeName ++ " is not iterable"
  | noListing typeName => Text.quoted typeName ++ " object has no attribute 'items'"
  | itemByNumber => "0"
  | itemByName => "list indices must be integers or slices, not str"
  | characterByName => "string indices must be integers, not 'str'"
  | compound typeName => "unhashable type: " ++ Text.quoted typeName
  | unordered typeName =>
    "'<=' not supported between instances of 'str' and " ++ Text.quoted typeName
  | incomparable later earlier =>
    "'<' not supported between instances of " ++ Text.quoted later ++ " and "
      ++ Text.quoted earlier
  | nullLabel => "unsupported format string passed to " ++ Value.null.typeName ++ ".__format__"
  | numberLabel typeName =>
    "Unknown format code 's' for object of type " ++ Text.quoted typeName
  | tooManyDigits =>
    "Exceeds the limit (4300 digits) for integer string conversion; use "
      ++ "sys.set_int_max_str_digits() to increase the limit"
  | foreign reason => reason

/-- A text that a message shows, where a value may have none. -/
def written : Option String → Except Failure String
  | some text => .ok text
  | none => .error .tooManyDigits

@[simp] theorem written_shown_string (text : String) :
    written (Value.string text).shown? = .ok (Text.quoted text) := rfl

@[simp] theorem written_words_string (text : String) :
    written (Value.string text).words? = .ok text := rfl

@[simp] theorem written_words_null : written Value.null.words? = .ok "None" := rfl

end MonkeyLang.Registry
