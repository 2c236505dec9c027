import MonkeyLang.Proofs.Lexing.Juncture
import MonkeyLang.Proofs.Lexing.WrittenText
import Mathlib.Data.Bool.AllAny

/-!
# Printed tokens

Tokens are printed one behind another, a string between quotes and every other token as its text.
With a blank between any two of them the text is read back as these tokens, whatever they are: a
blank ends each token but a string, and a string ends at its own quote, whatever is written in it.
-/
namespace MonkeyLang

/-- A kind with a text that a token of the kind can have. -/
inductive Printable : Kind × String → Prop
  | name {word : String} (nonempty : word ≠ "") (letters : ∀ c ∈ word.toList, isWordChar c)
    (unreserved : word ∉ Kind.keywords.map Prod.fst) : Printable (.ident, word)
  | keyword {kind : Kind} {word : String} (reserved : (word, kind) ∈ Kind.keywords) :
    Printable (kind, word)
  | number {digits : String} (nonempty : digits ≠ "") (digit : ∀ c ∈ digits.toList, c.isDigit) :
    Printable (.int, digits)
  | string {body : String} (quoteless : ∀ c ∈ body.toList, c ≠ '"') : Printable (.string, body)
  | symbol {kind : Kind} {mark : String} (spelled : kind.spelling? = some mark.toList) :
    Printable (kind, mark)
  | illegal {mark : String} {c : Char} (single : mark.toList = [c]) (foreign : isForeign c) :
    Printable (.illegal, mark)

/-- A token as it is printed: its kind with its text, and the blanks behind it. -/
structure PrintedToken where
  said : Kind × String
  gap : String
  deriving Repr, DecidableEq

namespace PrintedToken

/-- The text of a token and of the blanks behind it. -/
def text (item : PrintedToken) : String :=
  (if item.said.1 = .string then "\"" ++ item.said.2 ++ "\"" else item.said.2) ++ item.gap

/-- The text of tokens one behind another. -/
def textOfAll : List PrintedToken → String
  | [] => ""
  | item :: items => item.text ++ textOfAll items

theorem toList_text (item : PrintedToken) :
    item.text.toList = (Piece.ofContent item.said).raw ++ item.gap.toList := by
  by_cases kind : item.said.1 = .string <;> simp [text, Piece.ofContent, Piece.raw, kind]

end PrintedToken

/-- A printable token is a whole piece in front of what keeps apart from it. -/
theorem Printable.fits {said : Kind × String} {after : List Char} (h : Printable said)
    (apart : Apart after) : (Piece.ofContent said).Fits after := by
  have outside : ∀ c ∈ after.head?, ¬ isWordChar c := fun c hc => (apart c hc).1
  cases h with
  | name nonempty letters unreserved =>
    have fits := Piece.fits_word nonempty letters outside
    rwa [Kind.ofWord_of_unreserved unreserved] at fits
  | keyword reserved =>
    obtain ⟨rfl, nonempty, letters⟩ := spelled_keyword reserved
    exact Piece.fits_word nonempty letters outside
  | number nonempty digit =>
    exact .number (by simpa using nonempty) digit fun c hc => (apart c hc).2.1
  | string quoteless => exact .string quoteless
  | symbol spelled => exact .symbol spelled fun _ c hc => (apart c hc).2.2
  | illegal single foreign =>
    rw [Piece.ofContent, single]
    exact .illegal foreign

/-- What starts with a blank keeps apart from any token, and so does the end of the text. -/
theorem apart_of_blank {text : List Char} (h : ∀ c ∈ text.head?, c.isWhitespace) : Apart text :=
  fun c hc => ⟨not_isWordChar_of_isWhitespace (h c hc), not_isDigit_of_isWhitespace (h c hc),
    ne_equals_of_isWhitespace (h c hc)⟩

section

variable {items : List PrintedToken} (printable : ∀ item ∈ items, Printable item.said)
  (blank : ∀ item ∈ items, ∀ c ∈ item.gap.toList, c.isWhitespace)
  (between : ∀ item ∈ items.dropLast, item.gap ≠ "")
include printable blank between

/-- Printed tokens are laid out as themselves, with blanks in front of them or not. -/
theorem layout_textOfAll {lead : List Char} (lead_blank : ∀ c ∈ lead, c.isWhitespace) :
    Layout (items.map fun item => .ofContent item.said)
      (lead ++ (PrintedToken.textOfAll items).toList) := by
  induction items generalizing lead with
  | nil => simpa [PrintedToken.textOfAll] using Layout.blank lead_blank
  | cons item items ih =>
    obtain ⟨item_printable, others_printable⟩ := List.forall_mem_cons.mp printable
    obtain ⟨gap_blank, others_blank⟩ := List.forall_mem_cons.mp blank
    have others_between : ∀ other ∈ items.dropLast, other.gap ≠ "" := by
      cases items with
      | nil => simp
      | cons second items => exact (List.forall_mem_cons.mp between).2
    have behind := ih others_printable others_blank others_between gap_blank
    have apart : Apart (item.gap.toList ++ (PrintedToken.textOfAll items).toList) := by
      apply apart_of_blank
      intro c hc
      cases gap : item.gap.toList with
      | cons d gap' =>
        obtain rfl : d = c := by simpa [gap] using hc
        exact gap_blank d (by simp [gap])
      | nil =>
        -- only behind the last token there may be no blank
        cases items with
        | nil => simp [gap, PrintedToken.textOfAll] at hc
        | cons second items => exact absurd (by simpa using gap) (between item (by simp))
    have whole := Layout.piece lead_blank (item_printable.fits apart) behind
    simpa [PrintedToken.textOfAll, PrintedToken.toList_text] using whole

end

/-- Printed tokens with blanks between them are read back as they are, with one end token behind
them. -/
theorem tokenize_printed {items : List PrintedToken} {lead : String}
    (printable : ∀ item ∈ items, Printable item.said)
    (lead_blank : ∀ c ∈ lead.toList, c.isWhitespace)
    (gaps_blank : ∀ item ∈ items, ∀ c ∈ item.gap.toList, c.isWhitespace)
    (between : ∀ item ∈ items.dropLast, item.gap ≠ "") (file : String) :
    (tokenize (lead ++ PrintedToken.textOfAll items) file).map Token.content =
      items.map PrintedToken.said ++ [(.eof, "")] := by
  have layout := layout_textOfAll printable gaps_blank between lead_blank
  rw [← String.toList_append] at layout
  have contents : (Lexer.ofText (lead ++ PrintedToken.textOfAll items) file).tokens.map
      Token.content = items.map PrintedToken.said := by
    rw [Lexer.tokens_of_layout layout rfl, List.map_map]
    simp [Function.comp_def]
  rw [tokenize, List.map_append, contents, List.map_singleton, Lexer.content_eof]

/-- A name that starts like a reserved word, two operators that would be one side by side, and a
string in which tokens and blanks are written. -/
def sampleTokens : List PrintedToken :=
  [⟨(.kwLet, "let"), " "⟩, ⟨(.ident, "lets"), "\r\n"⟩, ⟨(.bang, "!"), "\t"⟩, ⟨(.assign, "="), " "⟩,
    ⟨(.string, "let 1 != \n"), " "⟩, ⟨(.int, "007"), " "⟩, ⟨(.illegal, "@"), ""⟩]

theorem tokenize_printed_sampleTokens :
    (∀ item ∈ sampleTokens, Printable item.said) ∧
    (tokenize "\tlet lets\r\n!\t= \"let 1 != \n\" 007 @" "tokens.monkey").map Token.content =
      [(.kwLet, "let"), (.ident, "lets"), (.bang, "!"), (.assign, "="), (.string, "let 1 != \n"),
        (.int, "007"), (.illegal, "@"), (.eof, "")] := by
  have printable : ∀ item ∈ sampleTokens, Printable item.said := by
    simp only [sampleTokens, List.forall_mem_cons]
    refine ⟨.keyword (by decide), .name (by decide) (List.all_eq_true.mp (by decide)) (by decide),
      .symbol rfl, .symbol rfl, .string (List.all_iff_forall_prop.mp (by decide)),
      .number (by decide) ?_, .illegal rfl (by decide), by simp⟩
    exact List.all_eq_true.mp (by decide)
  have lead_blank : ∀ c ∈ "\t".toList, c.isWhitespace := List.all_eq_true.mp (by decide)
  have gaps_blank : ∀ item ∈ sampleTokens, ∀ c ∈ item.gap.toList, c.isWhitespace := by
    have all_blank : ∀ item ∈ sampleTokens, item.gap.toList.all Char.isWhitespace := by decide
    exact fun item member => List.all_eq_true.mp (all_blank item member)
  have read := tokenize_printed printable lead_blank gaps_blank (by decide) "tokens.monkey"
  exact ⟨printable, read⟩

end MonkeyLang
