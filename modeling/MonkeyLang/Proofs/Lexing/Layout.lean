import MonkeyLang.Proofs.Lexing.Supply
import Mathlib.Data.List.TakeWhile

/-!
# Layouts of a text

A layout cuts a text into pieces with blanks between them, so that no piece could be longer where
it stands. Every text has a layout, it has just one, and its pieces are what the lexer gives. So
the lexer loses nothing, and a text that is written piece by piece is read back as these pieces.
-/
namespace MonkeyLang

/-- The text of an operator or a delimiter. -/
def Kind.spelling? : Kind → Option (List Char)
  | assign => some ['='] | bang => some ['!']
  | eq => some ['=', '='] | notEq => some ['!', '=']
  | plus => some ['+'] | minus => some ['-'] | asterisk => some ['*'] | slash => some ['/']
  | lt => some ['<'] | gt => some ['>']
  | comma => some [','] | semicolon => some [';']
  | lparen => some ['('] | rparen => some [')'] | lbrace => some ['\x7b'] | rbrace => some ['\x7d']
  | lbracket => some ['['] | rbracket => some [']']
  | _ => none

/-- The characters of operators and delimiters. -/
def symbolChars : List Char :=
  ['=', '!', '+', '-', '*', '/', '<', '>', ',', ';', '(', ')', '\x7b', '\x7d', '[', ']']

/-- A character that is no blank and that no token of the language starts with. -/
def isForeign (c : Char) : Bool :=
  !c.isWhitespace && !isWordChar c && !c.isDigit && c != '"' && !symbolChars.contains c

namespace Piece

/-- What a piece is made of, and that it could not go on with the text behind it. -/
inductive Fits : Piece → List Char → Prop
  | word {run after : List Char} (nonempty : run ≠ []) (letters : ∀ c ∈ run, isWordChar c)
    (ends : ∀ c ∈ after.head?, ¬ isWordChar c) :
    Fits ⟨.ofWord (String.ofList run), run, true⟩ after
  | number {run after : List Char} (nonempty : run ≠ []) (digits : ∀ c ∈ run, c.isDigit)
    (ends : ∀ c ∈ after.head?, ¬ c.isDigit) : Fits ⟨.int, run, true⟩ after
  | string {body after : List Char} (quoteless : ∀ c ∈ body, c ≠ '"') :
    Fits ⟨.string, body, true⟩ after
  | openString {body : List Char} (quoteless : ∀ c ∈ body, c ≠ '"') :
    Fits ⟨.string, body, false⟩ []
  | symbol {kind : Kind} {text after : List Char} (spelled : kind.spelling? = some text)
    (ends : kind = .assign ∨ kind = .bang → ∀ c ∈ after.head?, c ≠ '=') :
    Fits ⟨kind, text, true⟩ after
  | illegal {c : Char} {after : List Char} (foreign : isForeign c) :
    Fits ⟨.illegal, [c], true⟩ after

/-- The kind and the text of a piece. -/
def content (piece : Piece) : Kind × String := (piece.kind, String.ofList piece.lexeme)

end Piece

@[simp] theorem Lexer.skipBlanks_rest (lexer : Lexer) :
    lexer.skipBlanks.rest = lexer.rest.dropWhile Char.isWhitespace := rfl

/-- Pieces in a row with blanks around them. -/
inductive Layout : List Piece → List Char → Prop
  | blank {gap : List Char} (blank : ∀ c ∈ gap, c.isWhitespace) : Layout [] gap
  | piece {gap after : List Char} {piece : Piece} {pieces : List Piece}
    (blank : ∀ c ∈ gap, c.isWhitespace) (fits : piece.Fits after) (rest : Layout pieces after) :
    Layout (piece :: pieces) (gap ++ piece.raw ++ after)

section

variable {p : Char → Bool} {run after : List Char}

theorem takeWhile_run (inside : ∀ c ∈ run, p c) (ends : ∀ c ∈ after.head?, ¬ p c) :
    (run ++ after).takeWhile p = run := by
  rw [List.takeWhile_append_of_pos inside]
  cases after with
  | nil => rw [List.takeWhile_nil, List.append_nil]
  | cons c cs => rw [List.takeWhile_cons_of_neg (ends c rfl), List.append_nil]

theorem dropWhile_run (inside : ∀ c ∈ run, p c) (ends : ∀ c ∈ after.head?, ¬ p c) :
    (run ++ after).dropWhile p = after := by
  rw [List.dropWhile_append_of_pos inside]
  cases after with
  | nil => rfl
  | cons c cs => rw [List.dropWhile_cons_of_neg (ends c rfl)]

theorem head_dropWhile (p : Char → Bool) (text : List Char) :
    ∀ c ∈ (text.dropWhile p).head?, ¬ p c := by
  intro c hc
  have h := List.head?_dropWhile_not p text
  rw [hc] at h
  simpa using h

end

section

variable {c : Char}

theorem not_isWordChar_of_isDigit (h : c.isDigit) : ¬ isWordChar c := by
  intro hw
  have digit := (Char.isDigit_iff_toNat.mp h).2
  have word : (c.isUpper || c.isLower || c == '_') = true := hw
  have h9 : '9'.toNat = 57 := rfl
  have hA : 'A'.toNat = 65 := rfl
  have ha : 'a'.toNat = 97 := rfl
  rw [Bool.or_eq_true, Bool.or_eq_true] at word
  rcases word with (upper | lower) | under
  · have above : 'A'.toNat ≤ c.toNat := UInt32.le_iff_toNat_le.mp (of_decide_eq_true upper).1
    omega
  · have bounds := Bool.and_eq_true_iff.mp lower
    have above : 'a'.toNat ≤ c.toNat := UInt32.le_iff_toNat_le.mp (of_decide_eq_true bounds.1)
    omega
  · obtain rfl : c = '_' := by simpa using under
    exact absurd h (by decide)

theorem isWhitespace_cases (h : c.isWhitespace) : c = ' ' ∨ c = '\t' ∨ c = '\r' ∨ c = '\n' := by
  simpa [Char.isWhitespace, or_assoc] using h

theorem not_isWhitespace_of {p : Char → Bool} (outside : [' ', '\t', '\r', '\n'].all fun c => !p c)
    (h : p c) : ¬ c.isWhitespace := by
  intro hw
  have blank : c ∈ [' ', '\t', '\r', '\n'] := by
    rcases isWhitespace_cases hw with rfl | rfl | rfl | rfl <;> decide
  have refused := List.all_eq_true.mp outside c blank
  rw [h] at refused
  exact Bool.false_ne_true refused

end

theorem Kind.spelling?_of_ofSymbol? {c : Char} {kind : Kind} (h : Kind.ofSymbol? c = some kind) :
    kind.spelling? = some [c] ∧ kind ≠ .assign ∧ kind ≠ .bang := by
  unfold Kind.ofSymbol? at h
  split at h <;> first
    | (obtain rfl := Option.some.inj h; decide)
    | simp at h

theorem not_mem_symbolChars_of_ofSymbol? {c : Char} (h : Kind.ofSymbol? c = none) (he : c ≠ '=')
    (hb : c ≠ '!') : c ∉ symbolChars := by
  unfold Kind.ofSymbol? at h
  split at h <;> simp_all [symbolChars]

namespace Piece

theorem fits_pair {double single : Kind} {c : Char} (hdouble : double.spelling? = some [c, '='])
    (hsingle : single.spelling? = some [c]) (ends : ¬ (double = .assign ∨ double = .bang))
    (rest : List Char) : (pair double single c rest).1.Fits (pair double single c rest).2 := by
  unfold pair
  split
  · exact .symbol hdouble fun h => absurd h ends
  · rename_i hne
    refine .symbol hsingle fun _ d hd he => ?_
    obtain ⟨after, ha⟩ := List.head?_eq_some_iff.mp hd
    exact hne after (he ▸ ha)

/-- The first piece fits before what it leaves. -/
theorem fits_first {c : Char} (hc : ¬ c.isWhitespace) (rest : List Char) :
    (first c rest).1.Fits (first c rest).2 := by
  unfold first
  split
  · rename_i hw
    refine .word (by simp) ?_ (head_dropWhile _ rest)
    intro d hd
    rcases List.mem_cons.mp hd with rfl | hd
    · exact hw
    · exact List.mem_takeWhile_imp hd
  split
  · rename_i hd
    refine .number (by simp) ?_ (head_dropWhile _ rest)
    intro d h
    rcases List.mem_cons.mp h with rfl | h
    · exact hd
    · exact List.mem_takeWhile_imp h
  split
  · have quoteless : ∀ d ∈ rest.takeWhile isStringChar, d ≠ '"' := by
      intro d hd
      have h := List.mem_takeWhile_imp hd
      simpa [isStringChar] using h
    unfold stringBody
    split
    · exact .openString quoteless
    · exact .string quoteless
  split
  · rename_i he
    rw [he]
    exact fits_pair rfl rfl (by decide) rest
  split
  · rename_i hb
    rw [hb]
    exact fits_pair rfl rfl (by decide) rest
  · rename_i hw hd hq he hb
    unfold symbol
    cases hs : Kind.ofSymbol? c with
    | some kind =>
      obtain ⟨spelled, hassign, hbang⟩ := Kind.spelling?_of_ofSymbol? hs
      exact .symbol spelled fun h => absurd h (by simp [hassign, hbang])
    | none =>
      have hsym := not_mem_symbolChars_of_ofSymbol? hs he hb
      refine .illegal ?_
      simp [isForeign, hc, hw, hd, hq, hsym]

theorem pair_single {double single : Kind} {c : Char} {after : List Char}
    (ends : ∀ d ∈ after.head?, d ≠ '=') :
    pair double single c after = (⟨single, [c], true⟩, after) := by
  unfold pair
  split
  · exact absurd rfl (ends '=' rfl)
  · rfl

theorem first_foreign {c : Char} (foreign : isForeign c) (after : List Char) :
    first c after = (⟨.illegal, [c], true⟩, after) := by
  have hs : Kind.ofSymbol? c = none := by
    unfold Kind.ofSymbol?
    split <;> first
      | rfl
      | exact absurd foreign (by decide)
  have he : c ≠ '=' := by rintro rfl; exact absurd foreign (by decide)
  have hb : c ≠ '!' := by rintro rfl; exact absurd foreign (by decide)
  simp only [isForeign, Bool.and_eq_true, Bool.not_eq_true', bne_iff_ne, ne_eq] at foreign
  simp [first, symbol, hs, he, hb, foreign]

/-- A fitting piece that stands before its text is the first piece there. -/
theorem first_of_fits {piece : Piece} {after : List Char} (h : piece.Fits after) :
    ∃ c cs, piece.raw ++ after = c :: cs ∧ ¬ c.isWhitespace ∧ first c cs = (piece, after) := by
  cases h with
  | @word run after nonempty letters ends =>
    obtain ⟨c, cs, rfl⟩ := List.exists_cons_of_ne_nil nonempty
    have hc := letters c List.mem_cons_self
    have hcs : ∀ d ∈ cs, isWordChar d := fun d hd => letters d (List.mem_cons_of_mem c hd)
    refine ⟨c, cs ++ after, ?_, not_isWhitespace_of (by decide) hc, ?_⟩
    · simp [raw, Kind.ofWord_ne_string]
    · rw [first, if_pos hc, takeWhile_run hcs ends, dropWhile_run hcs ends, Piece.word]
  | @number run after nonempty digits ends =>
    obtain ⟨c, cs, rfl⟩ := List.exists_cons_of_ne_nil nonempty
    have hc := digits c List.mem_cons_self
    have hcs : ∀ d ∈ cs, d.isDigit := fun d hd => digits d (List.mem_cons_of_mem c hd)
    refine ⟨c, cs ++ after, rfl, not_isWhitespace_of (by decide) hc, ?_⟩
    rw [first, if_neg (not_isWordChar_of_isDigit hc), if_pos hc, takeWhile_run hcs ends,
      dropWhile_run hcs ends, Piece.number]
  | @string body after quoteless =>
    have inside : ∀ d ∈ body, isStringChar d := by simpa [isStringChar] using quoteless
    have ends : ∀ d ∈ ('"' :: after).head?, ¬ isStringChar d := by simp [isStringChar]
    refine ⟨'"', body ++ '"' :: after, by simp [raw], by decide, ?_⟩
    simp only [first, stringBody, takeWhile_run inside ends, dropWhile_run inside ends]
    rfl
  | @openString body quoteless =>
    have inside : ∀ d ∈ body, isStringChar d := by simpa [isStringChar] using quoteless
    have ends : ∀ d ∈ ([] : List Char).head?, ¬ isStringChar d := by simp
    have taken := takeWhile_run inside ends
    have dropped := dropWhile_run inside ends
    rw [List.append_nil] at taken dropped
    refine ⟨'"', body, by simp [raw], by decide, ?_⟩
    simp only [first, stringBody, taken, dropped]
    rfl
  | @symbol kind text after spelled ends =>
    cases kind <;> simp only [Kind.spelling?, Option.some.injEq, reduceCtorEq] at spelled <;>
      subst spelled <;> refine ⟨_, _, rfl, by decide, ?_⟩
    case assign => exact pair_single (ends (.inl rfl))
    case bang => exact pair_single (ends (.inr rfl))
    all_goals rfl
  | @illegal c after foreign =>
    refine ⟨c, after, rfl, ?_, first_foreign foreign after⟩
    intro hw
    simp [isForeign, hw] at foreign

theorem Fits.raw_ne_nil {piece : Piece} {after : List Char} (h : piece.Fits after) :
    piece.raw ≠ [] := by
  obtain ⟨c, cs, -, -, hfirst⟩ := first_of_fits h
  have hraw := Piece.raw_ne_nil c cs
  rwa [hfirst] at hraw

theorem Fits.kind_ne_eof {piece : Piece} {after : List Char} (h : piece.Fits after) :
    piece.kind ≠ .eof := by
  obtain ⟨c, cs, -, -, hfirst⟩ := first_of_fits h
  have hk := kind_first_ne_eof c cs
  rwa [hfirst] at hk

end Piece

/-- No piece of a layout is empty, and none is the end. -/
theorem Layout.pieces_ne {pieces : List Piece} {text : List Char} (h : Layout pieces text) :
    ∀ piece ∈ pieces, piece.raw ≠ [] ∧ piece.kind ≠ .eof := by
  induction h with
  | blank => simp
  | piece blank fits rest ih =>
    intro piece hp
    rcases List.mem_cons.mp hp with rfl | hp
    · exact ⟨fits.raw_ne_nil, fits.kind_ne_eof⟩
    · exact ih piece hp

namespace Lexer

theorem content_tokenAt (lexer : Lexer) (piece : Piece) :
    (lexer.tokenAt piece).content = piece.content := rfl

/-- What is left of a text has a layout, and its pieces are the tokens that are left. -/
theorem exists_layout (lexer : Lexer) :
    ∃ pieces, Layout pieces lexer.rest ∧
      lexer.tokens.map Token.content = pieces.map Piece.content := by
  induction lexer using drain_induction with
  | atEnd lexer h =>
    have blank := (kind_next_eq_eof_iff lexer).mp h
    refine ⟨[], .blank ?_, by rw [tokens_of_end h]; rfl⟩
    exact List.dropWhile_eq_nil_iff.mp blank
  | atToken lexer h ih =>
    obtain ⟨pieces, layout, hpieces⟩ := ih
    cases text : lexer.skipBlanks.rest with
    | nil => exact absurd ((kind_next_eq_eof_iff lexer).mpr text) h
    | cons c cs =>
      have step := next_of_cons text
      have hc : ¬ c.isWhitespace := head_dropWhile _ lexer.rest c (by rw [← skipBlanks_rest, text]; rfl)
      have whole : lexer.rest.takeWhile Char.isWhitespace ++ (Piece.first c cs).1.raw ++
          (Piece.first c cs).2 = lexer.rest := by
        rw [List.append_assoc, Piece.raw_first, ← text, skipBlanks_rest,
          List.takeWhile_append_dropWhile]
      rw [step] at layout hpieces
      refine ⟨(Piece.first c cs).1 :: pieces, ?_, ?_⟩
      · rw [← whole]
        exact .piece (fun d hd => List.mem_takeWhile_imp hd) (Piece.fits_first hc cs) layout
      · rw [tokens_of_token h, step, List.map_cons, List.map_cons, hpieces, content_tokenAt]

/-- A text with a layout is read back as its pieces. -/
theorem tokens_of_layout {pieces : List Piece} {text : List Char} (h : Layout pieces text)
    {lexer : Lexer} (ht : lexer.rest = text) :
    lexer.tokens.map Token.content = pieces.map Piece.content := by
  induction h generalizing lexer with
  | blank blank =>
    have ended : lexer.next.1.kind = .eof := by
      rw [kind_next_eq_eof_iff, skipBlanks_rest, ht]
      exact List.dropWhile_eq_nil_iff.mpr blank
    rw [tokens_of_end ended]
    rfl
  | @piece gap after piece pieces blank fits rest ih =>
    obtain ⟨c, cs, hraw, hc, hfirst⟩ := Piece.first_of_fits fits
    have skipped : lexer.skipBlanks.rest = c :: cs := by
      rw [skipBlanks_rest, ht, List.append_assoc, hraw]
      exact dropWhile_run blank (by simpa using hc)
    have step := next_of_cons skipped
    have running : lexer.next.1.kind ≠ .eof := by
      rw [Ne, kind_next_eq_eof_iff, skipped]
      exact List.cons_ne_nil c cs
    rw [tokens_of_token running, List.map_cons, List.map_cons, step]
    rw [content_tokenAt, hfirst, ih rfl]

end Lexer

/-- The tokens of a text before the one end token are the pieces of a layout of the text: between
them stand only blanks, none is empty, and none could be longer where it stands. -/
theorem tokenize_layout (text file : String) :
    ∃ (tokens : List Token) (eof : Token) (pieces : List Piece),
      tokenize text file = tokens ++ [eof] ∧ eof.kind = .eof ∧
      (∀ token ∈ tokens, token.kind ≠ .eof) ∧
      Layout pieces text.toList ∧ (∀ piece ∈ pieces, piece.raw ≠ []) ∧
      tokens.map Token.content = pieces.map Piece.content := by
  obtain ⟨pieces, layout, contents⟩ := (Lexer.ofText text file).exists_layout
  refine ⟨_, _, pieces, rfl, Lexer.kind_eof _, Lexer.kind_ne_eof_of_mem_tokens _, layout, ?_,
    contents⟩
  exact fun piece hp => (layout.pieces_ne piece hp).1

end MonkeyLang
