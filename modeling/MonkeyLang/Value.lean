import MonkeyLang.Double
import MonkeyLang.Text.Quoted

/-!
# Document values

The values that a document of lists and named fields holds. A number is an integer of any size or
has double precision; an integer too long to be written out leaves a value without a text. Fields
keep their order, which shows in the text of a value but not in its identity: two objects are the
same when the same names have the same values.
-/
namespace MonkeyLang

/-- A value of a document. -/
inductive Value where
  | null
  | bool (value : Bool)
  | int (value : Int)
  | double (value : Double)
  | string (value : String)
  | array (items : List Value)
  | object (fields : List (String × Value))
  deriving Repr, Inhabited

namespace Value

/-- The name of the type of a value, as messages give it. -/
def typeName : Value → String
  | null => "NoneType"
  | bool _ => "bool"
  | int _ => "int"
  | double _ => "float"
  | string _ => "str"
  | array _ => "list"
  | object _ => "dict"

/-- The value of a field of an object. -/
def field? (name : String) : Value → Option Value
  | object fields => fields.lookup name
  | _ => none

/-- The decimal digits of an integer, unless there are more than 4300 of them. -/
def decimal? (value : Int) : Option String :=
  if value.natAbs < Nat.pow 10 4300 then some (toString value) else none

mutual

/-- A value as messages show it, its texts in quoted form; none if it has an integer with too many
digits. -/
def shown? : Value → Option String
  | null => some "None"
  | bool true => some "True"
  | bool false => some "False"
  | int value => decimal? value
  | double value => some value.shown
  | string value => some (Text.quoted value)
  | array items => do return "[" ++ ", ".intercalate (← shownItems? items) ++ "]"
  | object fields => do return "\x7b" ++ ", ".intercalate (← shownFields? fields) ++ "\x7d"

/-- The items of an array, each as it is shown. -/
def shownItems? : List Value → Option (List String)
  | [] => some []
  | item :: items => do return (← shown? item) :: (← shownItems? items)

/-- The fields of an object, each as it is shown. -/
def shownFields? : List (String × Value) → Option (List String)
  | [] => some []
  | (name, value) :: fields => do
    return (Text.quoted name ++ ": " ++ (← shown? value)) :: (← shownFields? fields)

end

/-- A value as it stands within a sentence: a text is not quoted there. -/
def words? : Value → Option String
  | string value => some value
  | value => value.shown?

/-- Where a number lies. -/
def magnitude? : Value → Option Magnitude
  | int value => some (.ofInt value)
  | double value => some value.magnitude
  | _ => none

mutual

/-- Whether two values are the same. Numbers are the same when they lie at one place. -/
def same : Value → Value → Bool
  | null, null => true
  | bool a, bool b => a == b
  | string a, string b => a == b
  | array as, array bs => sameItems as bs
  | object as, object bs => as.length == bs.length && sameFields as bs
  | a, b => a.magnitude?.isSome && a.magnitude? == b.magnitude?

/-- Whether two lists hold the same values in the same order. -/
def sameItems : List Value → List Value → Bool
  | [], [] => true
  | a :: as, b :: bs => same a b && sameItems as bs
  | _, _ => false

/-- Whether each field has the same value among other fields. -/
def sameFields : List (String × Value) → List (String × Value) → Bool
  | [], _ => true
  | (name, a) :: as, bs =>
    (match bs.lookup name with
      | some b => same a b
      | none => false) && sameFields as bs

end

end Value

end MonkeyLang
