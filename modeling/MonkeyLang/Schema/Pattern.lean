import MonkeyLang.Text.DecimalDigit

/-!
# Patterns of texts

The forms that a schema can ask of a text, read from the usual notation: single characters, classes
of characters in brackets or by a letter, repetitions of them, and the two ends of a text. A pattern
is found in a text when it fits somewhere in it. The end of a text is also before a final newline.
-/
namespace MonkeyLang

/-- A class of characters. -/
inductive CharClass where
  /-- The decimal digits of all scripts. -/
  | digit
  /-- The characters that lie between the ends of one of some ranges. -/
  | among (ranges : List (Char × Char))
  deriving Repr, DecidableEq

/-- Whether a character is in a class. -/
def CharClass.has : CharClass → Char → Bool
  | digit, c => Text.isDecimalDigit c
  | among ranges, c => ranges.any fun range => decide (range.1 ≤ c) && decide (c ≤ range.2)

/-- A part of a pattern. -/
inductive PatternPart where
  | start
  | finish
  | once (chars : CharClass)
  | atLeastOnce (chars : CharClass)
  | anyTimes (chars : CharClass)
  deriving Repr, DecidableEq

namespace PatternPart

/-! ## Reading -/

/-- Where the reading of a pattern is: between parts, behind a backslash, in brackets behind some
ranges, or there behind the hyphen of one. -/
inductive Mode where
  | between
  | escaped
  | bracketed (ranges : List (Char × Char))
  | ranging (ranges : List (Char × Char)) (low : Char)
  deriving DecidableEq

/-- The parts that are read so far, the last one first, and where the reading is. -/
abbrev Progress := List PatternPart × Mode

/-- The last part, repeated in the way of a sign behind it. -/
def repeated (how : CharClass → PatternPart) : List PatternPart → Option Progress
  | once chars :: parts => some (how chars :: parts, .between)
  | _ => none

/-- One more character of a pattern. Signs that are used for nothing here are not read. -/
def read : Progress → Char → Option Progress
  | (parts, .between), c =>
    if c = '^' then some (start :: parts, .between)
    else if c = '$' then some (finish :: parts, .between)
    else if c = '+' then repeated atLeastOnce parts
    else if c = '*' then repeated anyTimes parts
    else if c = '\\' then some (parts, .escaped)
    else if c = '[' then some (parts, .bracketed [])
    else if c ∈ ['.', '?', '|', '(', ')', ']', '\x7b', '\x7d'] then none
    else some (once (.among [(c, c)]) :: parts, .between)
  | (parts, .escaped), c =>
    if c = 'd' then some (once .digit :: parts, .between)
    else if c.isAlphanum then none
    else some (once (.among [(c, c)]) :: parts, .between)
  | (parts, .bracketed ranges), c =>
    match ranges, c with
    | [], _ => if c ∈ ['^', ']', '-', '\\', '['] then none
      else some (parts, .bracketed [(c, c)])
    | _, ']' => some (once (.among ranges.reverse) :: parts, .between)
    | (low, high) :: ranges, '-' =>
      if low = high then some (parts, .ranging ranges low) else none
    | _, _ => if c ∈ ['\\', '['] then none
      else some (parts, .bracketed ((c, c) :: ranges))
  | (parts, .ranging ranges low), c =>
    if low < c ∧ c ∉ [']', '\\', '['] then some (parts, .bracketed ((low, c) :: ranges)) else none

/-- The parts of a pattern, if its text is read to the end. -/
def ofText? (text : String) : Option (List PatternPart) :=
  match text.toList.foldlM read ([], .between) with
  | some (parts, .between) => Option.some parts.reverse
  | _ => none

/-! ## Fitting -/

/-- What is left of a text behind one or more of its first characters that pass a test, for each
number of them. -/
def remainders (test : Char → Bool) : List Char → List (List Char)
  | [] => []
  | c :: text => if test c then text :: remainders test text else []

/-- Whether parts fit one after the other from some place on, given what is left of the text there
and whether it is all of it. -/
def fit : List PatternPart → Bool → List Char → Bool
  | [], _, _ => true
  | start :: parts, whole, text => whole && fit parts whole text
  | finish :: parts, whole, text => (text == [] || text == ['\n']) && fit parts whole text
  | once chars :: parts, _, text =>
    match text with
    | [] => false
    | c :: text => chars.has c && fit parts false text
  | atLeastOnce chars :: parts, _, text => (remainders chars.has text).any (fit parts false)
  | anyTimes chars :: parts, whole, text =>
    fit parts whole text || (remainders chars.has text).any (fit parts false)

end PatternPart

/-- A pattern: its text, and the parts that are read from it. -/
structure Pattern where
  source : String
  parts : List PatternPart
  isRead : PatternPart.ofText? source = some parts
  deriving Repr, DecidableEq

namespace Pattern

/-- The pattern with a given text, if it can be read. -/
def ofText? (source : String) : Option Pattern :=
  match isRead : PatternPart.ofText? source with
  | some parts => some ⟨source, parts, isRead⟩
  | none => none

/-- Whether a pattern fits at some place in a text. -/
def isIn (pattern : Pattern) (text : String) : Bool :=
  PatternPart.fit pattern.parts true text.toList ||
    (PatternPart.remainders (fun _ => true) text.toList).any (PatternPart.fit pattern.parts false)

/-- Two numbers with a dot between them. -/
def version : Pattern where
  source := "^\\d+\\.\\d+$"
  parts := [.start, .atLeastOnce .digit, .once (.among [('.', '.')]), .atLeastOnce .digit, .finish]
  isRead := by decide

/-- A capital letter, followed by capital letters and underscores. -/
def capitals : Pattern where
  source := "^[A-Z][A-Z_]*$"
  parts := [.start, .once (.among [('A', 'Z')]), .anyTimes (.among [('A', 'Z'), ('_', '_')]),
    .finish]
  isRead := by decide

end Pattern

end MonkeyLang
