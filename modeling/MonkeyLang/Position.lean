import MonkeyLang.Location

/-!
# Positions in a text

A position counts lines and columns from one, by characters. Moving over a text adds up: the
position after two texts in a row is the position after the second, reached from the first.
-/
namespace MonkeyLang

/-- A line and a column. -/
structure Position where
  line : Nat := 1
  column : Nat := 1
  deriving Repr, DecidableEq

namespace Position

/-- Where a text starts. -/
def start : Position := {}

/-- One column to the right. -/
def right (position : Position) : Position := { position with column := position.column + 1 }

/-- Where the character behind `c` stands: a newline ends its line. -/
def after (position : Position) (c : Char) : Position :=
  if c = '\n' then ⟨position.line + 1, 1⟩ else position.right

/-- Where a text ends that starts at the position. -/
def afterAll (position : Position) (text : List Char) : Position := text.foldl after position

/-- The position as a location in a file. -/
def inFile (position : Position) (file : String) : Location :=
  ⟨file, position.line, position.column, none, none⟩

@[simp] theorem afterAll_nil (position : Position) : position.afterAll [] = position := rfl

@[simp] theorem afterAll_cons (position : Position) (c : Char) (text : List Char) :
    position.afterAll (c :: text) = (position.after c).afterAll text := rfl

theorem afterAll_append (position : Position) (text more : List Char) :
    position.afterAll (text ++ more) = (position.afterAll text).afterAll more :=
  List.foldl_append

end Position

end MonkeyLang
