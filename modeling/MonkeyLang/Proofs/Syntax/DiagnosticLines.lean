import MonkeyLang.Proofs.Syntax.FaultOrder

/-!
# One line for each diagnostic

A string or a foreign character can bring a newline into a token, but a message shows a token in
quoted form, and a quoted text has no newline in it. All else in a line is fixed words, numbers and
the name of the file. So the diagnostics of a text and the lines of its log belong together one to
one, and a refusal puts one line in front of them.
-/
namespace MonkeyLang

namespace Text

/-- The lines of a text: what stands between its newlines. -/
def lines (text : String) : List String := (text.split '\n').toList.map String.Slice.copy

/-- A text without a newline. -/
def OnOneLine (text : String) : Prop := '\n' ∉ text.toList

instance (text : String) : Decidable (OnOneLine text) :=
  inferInstanceAs (Decidable ('\n' ∉ text.toList))

@[simp] theorem onOneLine_append {text more : String} :
    OnOneLine (text ++ more) ↔ OnOneLine text ∧ OnOneLine more := by
  simp [OnOneLine]

/-- Texts on one line each are the lines of the text that has a newline between any two. -/
theorem lines_intercalate {texts : List String} (single : ∀ text ∈ texts, OnOneLine text)
    (some : texts ≠ []) : lines ("\n".intercalate texts) = texts :=
  (String.toList_split_intercalate (c := '\n') single).trans (if_neg some)

/-! ## Numbers -/

theorem newline_notMem_toDigits {base : Nat} (least : 1 < base) (number : Nat) :
    '\n' ∉ Nat.toDigits base number := by
  induction number using Nat.strongRecOn with
  | ind number ih =>
    rw [Nat.toDigits_eq_if least]
    split
    · simp
    · have smaller : number / base < number := Nat.div_lt_self (by omega) least
      simp [ih _ smaller]

@[simp] theorem onOneLine_nat (number : Nat) : OnOneLine (toString number) := by
  rw [OnOneLine, Nat.toString_eq_ofList_toDigits, String.toList_ofList]
  exact newline_notMem_toDigits (by decide) number

@[simp] theorem onOneLine_int (number : Int) : OnOneLine (toString number) := by
  cases number with
  | ofNat number => exact onOneLine_nat number
  | negSucc number =>
    have sign : OnOneLine "-" := by decide
    exact onOneLine_append.mpr ⟨sign, onOneLine_nat (number + 1)⟩

/-! ## Quoted texts -/

theorem newline_notMem_hexDigits (width : Nat) (c : Char) : '\n' ∉ hexDigits width c := by
  simp [hexDigits, List.leftpad, newline_notMem_toDigits]

/-- A newline is written as a letter behind a backslash, any other character without newlines. -/
theorem newline_notMem_escapeChar {mark : Char} (other : mark ≠ '\n') (c : Char) :
    '\n' ∉ escapeChar mark c := by
  by_cases newline : c = '\n'
  · simp [escapeChar, newline, Ne.symm other]
  · unfold escapeChar
    split_ifs <;> simp [newline_notMem_hexDigits, Ne.symm newline]

@[simp] theorem onOneLine_quoted (text : String) : OnOneLine (quoted text) := by
  have other : quoteMark text.toList ≠ '\n' := by
    rcases quoteMark_eq text.toList with mark | mark <;> rw [mark] <;> decide
  rw [OnOneLine, quoted, String.toList_ofList, quotedChars]
  simp [Ne.symm other, newline_notMem_escapeChar other]

end Text

/-! ## Diagnostics -/

theorem Kind.onOneLine_name (kind : Kind) : Text.OnOneLine kind.name := by
  cases kind <;> decide

/-- No message about a token has a newline in it, whatever the token. -/
theorem Fault.onOneLine_message (fault : Fault) : Text.OnOneLine fault.message := by
  unfold Fault.message
  split <;>
    simp only [Text.onOneLine_append, Text.onOneLine_quoted, Text.onOneLine_int,
      Kind.onOneLine_name, and_true] <;>
    decide

theorem Location.onOneLine_text {location : Location} (named : Text.OnOneLine location.file) :
    Text.OnOneLine location.text := by
  unfold Location.text
  split <;>
    simp only [Text.onOneLine_append, Text.onOneLine_int, named, and_true, true_and] <;>
    decide

theorem Severity.onOneLine_word (severity : Severity) : Text.OnOneLine severity.word := by
  cases severity <;> decide

/-- A diagnostic without notes takes one line if its message and the name of its file do. -/
theorem Diagnostic.onOneLine_text {diagnostic : Diagnostic}
    (named : ∀ place ∈ diagnostic.location, Text.OnOneLine place.file)
    (message : Text.OnOneLine diagnostic.message) (bare : diagnostic.notes = []) :
    Text.OnOneLine diagnostic.text := by
  have empty : Text.OnOneLine "" := by decide
  have colon : Text.OnOneLine ": " := by decide
  have severity := diagnostic.severity.onOneLine_word
  simp only [Diagnostic.text, bare, List.map_nil, String.join, List.foldl_nil,
    Text.onOneLine_append]
  split
  · rename_i location located
    simp only [Text.onOneLine_append, Location.onOneLine_text (named location located), empty,
      colon, severity, message, and_self]
  · simp only [empty, colon, severity, message, and_self]

namespace Lexer

/-- The tokens of a text stand in its file. -/
theorem file_location (lexer : Lexer) : ∀ token ∈ lexer.tokens ++ [lexer.eof],
    ∀ place ∈ token.location, place.file = lexer.file := by
  have first (lexer : Lexer) : ∀ place ∈ lexer.next.1.location, place.file = lexer.file := by
    rw [location_next]
    intro place here
    rw [← Option.mem_some.mp here]
    rfl
  have file (lexer : Lexer) : lexer.next.2.file = lexer.file := by
    cases h : lexer.skipBlanks.rest with
    | nil => rw [next_of_nil h]; rfl
    | cons c cs => rw [next_of_cons h]; rfl
  induction lexer using drain_induction with
  | atEnd lexer h =>
    rw [supply_of_end h]
    intro token member
    obtain rfl := List.mem_singleton.mp member
    exact first lexer
  | atToken lexer h ih =>
    rw [supply_of_token h]
    intro token member
    rcases List.mem_cons.mp member with rfl | later
    · exact first lexer
    · rw [← file lexer]
      exact ih token later

end Lexer

/-! ## Logs -/

section

variable {text file : String}

/-- Nothing is reported with notes. -/
theorem notes_of_mem_parse {diagnostic : Diagnostic}
    (reported : diagnostic ∈ (parse text file).log.entries) : diagnostic.notes = [] := by
  obtain ⟨fault, -, rfl⟩ := List.mem_map.mp reported
  rfl

variable (named : Text.OnOneLine file)
include named

theorem onOneLine_of_mem_parse {diagnostic : Diagnostic}
    (reported : diagnostic ∈ (parse text file).log.entries) :
    Text.OnOneLine diagnostic.text := by
  obtain ⟨fault, -, member, message, location⟩ := exists_fault_of_mem_parse reported
  refine Diagnostic.onOneLine_text ?_ (message ▸ fault.onOneLine_message)
    (notes_of_mem_parse reported)
  intro place here
  rw [location] at here
  rwa [(Lexer.ofText text file).file_location fault.token member place here]

/-- A log that is not empty has its diagnostics as its lines. -/
theorem lines_log (some : (parse text file).log.entries ≠ []) :
    Text.lines (parse text file).log.text = (parse text file).log.entries.map Diagnostic.text := by
  apply Text.lines_intercalate
  · exact List.forall_mem_map.mpr fun diagnostic reported => onOneLine_of_mem_parse named reported
  · exact mt List.map_eq_nil_iff.mp some

/-- The message of a refusal has one line more, with the number of its diagnostics. -/
theorem lines_message (some : (parse text file).log.entries ≠ []) :
    Text.lines (ParseError.mk file (parse text file).log).message =
      (toString (parse text file).log.entries.length ++ " error(s) while parsing " ++ file ++ ":")
        :: (parse text file).log.entries.map Diagnostic.text := by
  have words : Text.OnOneLine " error(s) while parsing " ∧ Text.OnOneLine ":" := by
    decide
  have heading : Text.OnOneLine (toString (parse text file).log.entries.length ++
      " error(s) while parsing " ++ file ++ ":") := by
    simp only [Text.onOneLine_append, Text.onOneLine_nat, words, named, and_self]
  have joined : (ParseError.mk file (parse text file).log).message = "\n".intercalate
      ((toString (parse text file).log.entries.length ++ " error(s) while parsing " ++ file ++ ":")
        :: (parse text file).log.entries.map Diagnostic.text) := by
    have newline : ":\n" = ":" ++ "\n" := rfl
    rw [ParseError.message, ParseError.errors, errors_parse,
      String.intercalate_cons_of_ne_nil (mt List.map_eq_nil_iff.mp some), ← Log.text, newline]
    simp only [String.append_assoc]
  rw [joined]
  apply Text.lines_intercalate _ (List.cons_ne_nil _ _)
  refine List.forall_mem_cons.mpr ⟨heading, ?_⟩
  exact List.forall_mem_map.mpr fun diagnostic reported => onOneLine_of_mem_parse named reported

end

/-- The lines of a log are its diagnostics, one for each, if there are any. A strict reading is
refused with all of them, and the message of the refusal has in its first line how many they are and
in the others what they say. -/
theorem lines_of_diagnostics {text file : String} (named : Text.OnOneLine file) :
    ((parse text file).log.entries ≠ [] →
      Text.lines (parse text file).log.text =
        (parse text file).log.entries.map Diagnostic.text) ∧
    ∀ error, parseStrict text file = .error error →
      error.errors = (parse text file).log.entries ∧
      Text.lines error.message =
        (toString error.errors.length ++ " error(s) while parsing " ++ file ++ ":") ::
          error.errors.map Diagnostic.text := by
  refine ⟨lines_log named, fun error refused => ?_⟩
  obtain ⟨some, rfl⟩ := parseStrict_eq_error_iff.mp refused
  have all : (ParseError.mk file (parse text file).log).errors = (parse text file).log.entries :=
    errors_parse text file
  exact ⟨all, by rw [all, lines_message named some]⟩

/-- A text whose diagnostics show a newline and a control character. -/
def brokenString : String := "let \"a\nb\" \x01"

/-- Two diagnostics are three lines in a refusal, though one of them is about two lines. -/
theorem lines_of_diagnostics_brokenString : Text.OnOneLine "main.monkey" ∧
    ∃ error, parseStrict brokenString "main.monkey" = .error error ∧
      Text.lines error.message = [
        "2 error(s) while parsing main.monkey:",
        "main.monkey:1:5: error: Expected next token to be IDENT, got STRING 'a\\nb'",
        "main.monkey:2:4: error: No prefix parse function for ILLEGAL found"] := by
  have named : Text.OnOneLine "main.monkey" := by decide
  have reported : (parse brokenString "main.monkey").log.entries.map Diagnostic.text = [
      "main.monkey:1:5: error: Expected next token to be IDENT, got STRING 'a\\nb'",
      "main.monkey:2:4: error: No prefix parse function for ILLEGAL found"] := by
    decide +kernel
  have count : (parse brokenString "main.monkey").log.entries.length = 2 := by
    rw [← List.length_map Diagnostic.text, reported]
    rfl
  obtain ⟨-, refusal⟩ := @lines_of_diagnostics brokenString _ named
  have some : (parse brokenString "main.monkey").log.entries ≠ [] :=
    List.ne_nil_of_length_pos (by omega)
  have refused := parseStrict_eq_error_iff.mpr ⟨some, rfl⟩
  obtain ⟨all, lines⟩ := refusal _ refused
  refine ⟨named, _, refused, ?_⟩
  rw [lines, all, reported, count]
  rfl

end MonkeyLang
