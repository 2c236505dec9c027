import MonkeyLang.Text.Printable

/-!
# Quoted text

The form in which a message shows a text: between quote marks, with the mark in use, the
backslash and every unprintable character escaped. A quoted text stays on one line.
-/
namespace MonkeyLang.Text

/-- Single marks, unless the text holds a single mark and no double one. -/
def quoteMark (text : List Char) : Char :=
  if text.contains '\'' && !text.contains '"' then '"' else '\''

/-- The lower-case hexadecimal digits of a code point, filled with zeros up to a width. -/
def hexDigits (width : Nat) (c : Char) : List Char :=
  (Nat.toDigits 16 c.toNat).leftpad width '0'

/-- A character as it stands between two `mark`s. An unprintable character without a letter of
its own is written by its code point, in the shortest of three widths. -/
def escapeChar (mark c : Char) : List Char :=
  if c = mark || c = '\\' then ['\\', c]
  else if c = '\n' then ['\\', 'n']
  else if c = '\r' then ['\\', 'r']
  else if c = '\t' then ['\\', 't']
  else if isPrintable c then [c]
  else if c.toNat < 0x100 then '\\' :: 'x' :: hexDigits 2 c
  else if c.toNat < 0x10000 then '\\' :: 'u' :: hexDigits 4 c
  else '\\' :: 'U' :: hexDigits 8 c

/-- The characters of a text in quoted form. -/
def quotedChars (text : List Char) : List Char :=
  quoteMark text :: text.flatMap (escapeChar (quoteMark text)) ++ [quoteMark text]

/-- A text in quoted form. -/
def quoted (text : String) : String := String.ofList (quotedChars text.toList)

theorem quoteMark_eq (text : List Char) : quoteMark text = '\'' ∨ quoteMark text = '"' := by
  unfold quoteMark; split <;> simp

end MonkeyLang.Text
