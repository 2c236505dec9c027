import MonkeyLang.Token.Kind

/-!
# Pieces of source text

A piece is what one token takes from a text, wherever the text stands in its file. The first
piece is the longest one that the characters allow; together with what it leaves it is the whole
text again.
-/
namespace MonkeyLang

/-- The characters of names and reserved words. -/
def isWordChar (c : Char) : Bool := c.isAlpha || c == '_'

/-- The characters of a string: all but the quote that ends it. -/
def isStringChar (c : Char) : Bool := c != '"'

/-- A kind with the characters it was read from. A string is open when its closing quote is
missing. -/
structure Piece where
  kind : Kind
  lexeme : List Char
  closed : Bool := true
  deriving Repr, DecidableEq

namespace Piece

/-- The characters that a piece covers: its lexeme, for a string together with the quotes. -/
def raw (piece : Piece) : List Char :=
  if piece.kind = .string then '"' :: piece.lexeme ++ (if piece.closed then ['"'] else [])
  else piece.lexeme

/-- A run of word characters: a reserved word or a name. -/
def word (run : List Char) : Piece := ⟨.ofWord (String.ofList run), run, true⟩

/-- A run of digits. -/
def number (run : List Char) : Piece := ⟨.int, run, true⟩

/-- The text behind an opening quote, up to the next quote or the end. -/
def stringBody (rest : List Char) : Piece × List Char :=
  let body := rest.takeWhile isStringChar
  match rest.dropWhile isStringChar with
  | [] => (⟨.string, body, false⟩, [])
  | _ :: after => (⟨.string, body, true⟩, after)

/-- A character that stands for one kind when an equals sign follows and for another without. -/
def pair (double single : Kind) (c : Char) : List Char → Piece × List Char
  | '=' :: after => (⟨double, [c, '='], true⟩, after)
  | rest => (⟨single, [c], true⟩, rest)

/-- One symbol, or one character that starts no token. -/
def symbol (c : Char) : Piece := ⟨(Kind.ofSymbol? c).getD .illegal, [c], true⟩

/-- The first piece of a text that starts with `c`, which is no blank, and what it leaves. -/
def first (c : Char) (rest : List Char) : Piece × List Char :=
  if isWordChar c then (word (c :: rest.takeWhile isWordChar), rest.dropWhile isWordChar)
  else if c.isDigit then (number (c :: rest.takeWhile Char.isDigit), rest.dropWhile Char.isDigit)
  else if c = '"' then stringBody rest
  else if c = '=' then pair .eq .assign c rest
  else if c = '!' then pair .notEq .bang c rest
  else (symbol c, rest)

end Piece

/-- A word is a name or one of the reserved words. -/
theorem Kind.ofWord_mem (text : String) : Kind.ofWord text ∈ ident :: keywords.map Prod.snd := by
  unfold Kind.ofWord Kind.keywords
  simp only [List.lookup_cons, List.lookup_nil]
  repeat' split
  all_goals simp

theorem Kind.ofWord_ne {kind : Kind} (text : String) (h : kind ∉ ident :: keywords.map Prod.snd) :
    Kind.ofWord text ≠ kind :=
  fun same => h (same ▸ Kind.ofWord_mem text)

theorem Kind.ofWord_ne_string (text : String) : Kind.ofWord text ≠ .string :=
  Kind.ofWord_ne text (by decide)

theorem Kind.ofWord_ne_eof (text : String) : Kind.ofWord text ≠ .eof :=
  Kind.ofWord_ne text (by decide)

theorem Kind.ofSymbol?_getD_ne (c : Char) :
    (Kind.ofSymbol? c).getD .illegal ≠ .string ∧ (Kind.ofSymbol? c).getD .illegal ≠ .eof := by
  unfold Kind.ofSymbol?
  split <;> simp

namespace Piece

theorem raw_stringBody (rest : List Char) :
    (stringBody rest).1.raw ++ (stringBody rest).2 = '"' :: rest := by
  have whole := List.takeWhile_append_dropWhile (p := isStringChar) (l := rest)
  cases tail : rest.dropWhile isStringChar with
  | nil =>
    rw [tail, List.append_nil] at whole
    simp [stringBody, tail, raw, whole]
  | cons c after =>
    have quote := List.head?_dropWhile_not isStringChar rest
    rw [tail] at whole quote
    obtain rfl : c = '"' := by simpa [isStringChar] using quote
    simp [stringBody, tail, raw, whole]

theorem raw_pair {double single : Kind} (hd : double ≠ .string) (hs : single ≠ .string)
    (c : Char) (rest : List Char) :
    (pair double single c rest).1.raw ++ (pair double single c rest).2 = c :: rest := by
  unfold pair
  split <;> simp [raw, hd, hs]

/-- The first piece and what it leaves are the whole text. -/
theorem raw_first (c : Char) (rest : List Char) :
    (first c rest).1.raw ++ (first c rest).2 = c :: rest := by
  unfold first
  split
  · simp [raw, word, Kind.ofWord_ne_string]
  split
  · simp [raw, number]
  split
  · rename_i quote
    rw [quote]; exact raw_stringBody rest
  split
  · exact raw_pair (by decide) (by decide) c rest
  split
  · exact raw_pair (by decide) (by decide) c rest
  · simp [raw, symbol, (Kind.ofSymbol?_getD_ne c).1]

/-- No piece of a text is the end of the text. -/
theorem kind_first_ne_eof (c : Char) (rest : List Char) : (first c rest).1.kind ≠ .eof := by
  unfold first stringBody pair
  repeat' split
  all_goals simp [word, number, symbol, Kind.ofWord_ne_eof, (Kind.ofSymbol?_getD_ne c).2]

theorem raw_ne_nil (c : Char) (rest : List Char) : (first c rest).1.raw ≠ [] := by
  unfold first stringBody pair
  repeat' split
  all_goals simp [raw, word, number, symbol, Kind.ofWord_ne_string, (Kind.ofSymbol?_getD_ne c).1]

/-- What the first piece leaves is shorter than the text. -/
theorem length_first_lt (c : Char) (rest : List Char) :
    (first c rest).2.length < (c :: rest).length := by
  have whole := congrArg List.length (raw_first c rest)
  have positive := List.length_pos_iff.mpr (raw_ne_nil c rest)
  simp only [List.length_append] at whole
  omega

end Piece

end MonkeyLang
