import MonkeyLang.Proofs.Lexing.Ascent
import MonkeyLang.Proofs.Lexing.Extent

/-!
# Places by counting

A lexer counts lines and columns on its way, one character after the other. What it has counted in
front of a token is what a look back at the text gives: the number of newlines before the token, and
the distance to the last of them. At the end of the text this holds too, except that an open string
counts one column more for the quote that it lacks.
-/
namespace MonkeyLang

/-- The index of the last newline before an offset. -/
def lastNewline? (text : List Char) : Nat → Option Nat
  | 0 => none
  | offset + 1 => if text[offset]? = some '\n' then some offset else lastNewline? text offset

theorem lastNewline?_eq_none {text : List Char} {offset : Nat} :
    lastNewline? text offset = none ↔ ∀ i < offset, text[i]? ≠ some '\n' := by
  induction offset with
  | zero => simp [lastNewline?]
  | succ offset ih =>
    rw [lastNewline?, Nat.forall_lt_succ_right]
    split_ifs with newline
    · simp [newline]
    · simp [newline, ih]

theorem lastNewline?_eq_some {text : List Char} {offset newline : Nat} :
    lastNewline? text offset = some newline ↔ newline < offset ∧ text[newline]? = some '\n' ∧
      ∀ i < offset, newline < i → text[i]? ≠ some '\n' := by
  induction offset with
  | zero => simp [lastNewline?]
  | succ offset ih =>
    rw [lastNewline?, Nat.forall_lt_succ_right]
    split_ifs with here
    · constructor
      · intro same
        obtain rfl : offset = newline := Option.some.inj same
        refine ⟨Nat.lt_succ_self offset, here, fun i before behind => ?_, fun h => ?_⟩
        · omega
        · exact absurd h (lt_irrefl offset)
      · rintro ⟨before, -, -, last⟩
        by_contra other
        have behind : newline < offset := by
          have : offset ≠ newline := fun same => other (congrArg some same)
          omega
        exact last behind here
    · rw [ih]
      constructor
      · rintro ⟨before, found, last⟩
        exact ⟨by omega, found, last, fun _ => here⟩
      · rintro ⟨before, found, last, -⟩
        have other : newline ≠ offset := by
          rintro rfl
          exact here found
        exact ⟨by omega, found, last⟩

/-- The place of an offset in a text. The first line starts in front of the text, every other one at
its newline. -/
def Location.atOffset (file : String) (text : List Char) (offset : Nat) : Location where
  file := file
  line := 1 + (text.take offset).count '\n'
  column :=
    match lastNewline? text offset with
    | some newline => offset - newline
    | none => offset + 1

/-- Counting up to an offset gives its place. -/
theorem Position.inFile_afterAll_take (file : String) {text : List Char} {offset : Nat}
    (inside : offset ≤ text.length) :
    (start.afterAll (text.take offset)).inFile file = .atOffset file text offset := by
  induction offset with
  | zero => rfl
  | succ offset ih =>
    have counted := ih (by omega)
    have here : text[offset]? = some text[offset] := List.getElem?_eq_getElem inside
    simp only [inFile, Location.atOffset, Location.mk.injEq, true_and, and_true] at counted
    obtain ⟨line, column⟩ := counted
    rw [List.take_succ_eq_append_getElem inside, afterAll_append, afterAll_cons, afterAll_nil, after,
      Location.atOffset, List.take_succ_eq_append_getElem inside, List.count_append, lastNewline?,
      here]
    by_cases newline : text[offset] = '\n'
    · rw [if_pos newline, if_pos (congrArg some newline), newline]
      simp only [inFile, Location.mk.injEq, true_and, and_true]
      constructor
      · simp [line]
        omega
      · omega
    · have other : ¬ some text[offset] = some '\n' := fun same => newline (Option.some.inj same)
      rw [if_neg newline, if_neg other]
      simp only [inFile, right, Location.mk.injEq, true_and, and_true]
      constructor
      · simp [line, newline]
      · push_cast
        rw [column]
        cases lastNewline? text offset with
        | none => rfl
        | some newline => simp only; omega

/-- The extents of a text behind so many characters: pieces in a row with blanks around them, none
of which could be longer where it stands. -/
inductive LayoutFrom : Nat → List Extent → List Char → Prop
  | blank {start : Nat} {gap : List Char} (blank : ∀ c ∈ gap, c.isWhitespace) :
    LayoutFrom start [] gap
  | piece {start : Nat} {gap after : List Char} {piece : Piece} {found : List Extent}
    (blank : ∀ c ∈ gap, c.isWhitespace) (fits : piece.Fits after)
    (rest : LayoutFrom (start + gap.length + piece.raw.length) found after) :
    LayoutFrom start (⟨start + gap.length, piece⟩ :: found) (gap ++ piece.raw ++ after)

theorem layoutFrom_extentsFrom (start : Nat) (text : List Char) :
    LayoutFrom start (extentsFrom start text) text := by
  induction hlength : text.length using Nat.strong_induction_on generalizing start text with
  | h length ih =>
    rcases blank_or_exists_cons text with blank | ⟨gap, c, cs, rfl, blank, hc⟩
    · rw [extentsFrom_blank blank]
      exact .blank blank
    · have shorter := Piece.length_first_lt c cs
      rw [List.length_append] at hlength
      rw [extentsFrom_cons blank hc, ← Piece.raw_first c cs, ← List.append_assoc]
      exact .piece blank (Piece.fits_first hc cs) (ih _ (by omega) _ _ rfl)

namespace LayoutFrom

variable {start : Nat} {found : List Extent} {text : List Char}

theorem start_le (h : LayoutFrom start found text) :
    ∀ extent ∈ found, extent.start ≤ start + text.length := by
  induction h with
  | blank => simp
  | piece blank fits rest ih =>
    intro extent member
    rw [List.length_append, List.length_append]
    rcases List.mem_cons.mp member with rfl | member
    · show _ + _ ≤ _
      omega
    · have later := ih extent member
      omega

theorem kind_ne_eof (h : LayoutFrom start found text) :
    ∀ extent ∈ found, extent.piece.kind ≠ .eof := by
  induction h with
  | blank => simp
  | piece blank fits rest ih => exact List.forall_mem_cons.mpr ⟨fits.kind_ne_eof, ih⟩

theorem eq_nil (h : LayoutFrom start found []) : found = [] := by
  generalize hnil : [] = text at h
  cases h with
  | blank => rfl
  | piece blank fits rest => simp [fits.raw_ne_nil] at hnil

end LayoutFrom

/-- Whether the last of the extents is a string without its closing quote. -/
def endsOpen (found : List Extent) : Bool := found.getLast?.any fun extent => !extent.piece.closed

theorem endsOpen_cons {extent : Extent} (closed : extent.piece.closed) (found : List Extent) :
    endsOpen (extent :: found) = endsOpen found := by
  cases found with
  | nil => simp [endsOpen, closed]
  | cons next found => rw [endsOpen, List.getLast?_cons_cons, endsOpen]

/-- Behind the text, one column further if the text ends in an open string. -/
def Position.atEnd (found : List Extent) (position : Position) : Position :=
  if endsOpen found then position.right else position

theorem Position.inFile_atEnd (found : List Extent) (position : Position) (file : String) :
    (position.atEnd found).inFile file = { position.inFile file with
      column := (position.inFile file).column + if endsOpen found then 1 else 0 } := by
  unfold atEnd
  split_ifs
  · rfl
  · simp [inFile]

namespace Lexer

/-- The end token stands behind all of the text. -/
theorem eof_of_layoutFrom {start : Nat} {found : List Extent} {text : List Char}
    (h : LayoutFrom start found text) (file : String) (position : Position) :
    (⟨file, text, position⟩ : Lexer).eof =
      ⟨.eof, "", some (((position.afterAll text).atEnd found).inFile file)⟩ := by
  induction h generalizing position with
  | @blank start gap blank =>
    have ended : (⟨file, gap, position⟩ : Lexer).skipBlanks.rest = [] :=
      List.dropWhile_eq_nil_iff.mpr blank
    rw [eof_of_end ((kind_next_eq_eof_iff _).mpr ended), next_of_nil ended, endAt, here, skipBlanks,
      List.takeWhile_eq_self_iff.mpr blank]
    rfl
  | @piece start gap after piece found blank fits rest ih =>
    by_cases closed : piece.closed
    · have step := next_piece blank fits closed file position
      rw [eof_of_token (by rw [step]; exact fits.kind_ne_eof), step, ih, ← Position.afterAll_append,
        Position.atEnd, Position.atEnd, endsOpen_cons closed]
    · -- an open string is the last piece
      have last : after = [] := by
        by_contra more
        exact closed (fits.closed more)
      subst last
      obtain rfl := rest.eq_nil
      obtain ⟨c, cs, hraw, hc, hfirst⟩ := Piece.first_of_fits fits
      have step := next_cons hc cs file (position.afterAll gap)
      rw [hfirst, ← hraw, List.append_nil, ← next_blanks blank, ← List.append_nil (gap ++ _)] at step
      have unended : (⟨file, gap ++ piece.raw ++ [], position⟩ : Lexer).next.1.kind ≠ .eof := by
        rw [step]
        exact fits.kind_ne_eof
      have opened : endsOpen [⟨start + gap.length, piece⟩] = true := by simp [endsOpen, closed]
      have settled : endsOpen [] = false := rfl
      rw [eof_of_token unended, step, ih, Position.atEnd, Position.atEnd, if_pos opened, settled,
        if_neg Bool.false_ne_true, behind, if_neg closed, List.append_nil, Position.afterAll_append]
      rfl

end Lexer

/-- The place of the end of a text. -/
def Location.atEnd (file text : String) : Location :=
  let place := atOffset file text.toList text.toList.length
  { place with column := place.column + if endsOpen (extents text) then 1 else 0 }

/-- Each token stands at the place of the offset at which its raw text starts, the end token at the
place of the end of the text, except that an open string puts it one column further. So each token
stands before all that follow it. -/
theorem tokenize_located (text file : String) :
    LayoutFrom 0 (extents text) text.toList ∧
    (∀ extent ∈ extents text, extent.piece.kind ≠ .eof) ∧
    tokenize text file = (extents text).map (fun extent =>
        ⟨extent.piece.kind, String.ofList extent.piece.lexeme,
          some (.atOffset file text.toList extent.start)⟩) ++
      [⟨.eof, "", some (.atEnd file text)⟩] ∧
    (tokenize text file).Pairwise
      fun first second => Location.Before first.location second.location := by
  have layout := layoutFrom_extentsFrom 0 text.toList
  refine ⟨layout, layout.kind_ne_eof, ?_, (Lexer.ofText text file).pairwise_before⟩
  have tokens : (Lexer.ofText text file).tokens = (extents text).map fun extent =>
      ⟨extent.piece.kind, String.ofList extent.piece.lexeme,
        some (.atOffset file text.toList extent.start)⟩ := by
    rw [(extents_spec text file).1]
    refine List.map_congr_left fun extent member => ?_
    have inside := layout.start_le extent member
    rw [Nat.zero_add] at inside
    rw [Extent.token, Position.inFile_afterAll_take file inside]
  have eof : (Lexer.ofText text file).eof = ⟨.eof, "", some (.atEnd file text)⟩ := by
    have whole := Position.inFile_afterAll_take file (Nat.le_refl text.toList.length)
    rw [List.take_length] at whole
    rw [Lexer.ofText, Lexer.eof_of_layoutFrom layout, Position.inFile_atEnd, whole]
    rfl
  rw [tokenize, tokens, eof]

/-- A string that is never closed reaches over the second newline. -/
example : (tokenize "a\n\"b\nc").map Token.location =
    [some ⟨Lexer.unnamed, 1, 1, none, none⟩, some ⟨Lexer.unnamed, 2, 1, none, none⟩,
      some ⟨Lexer.unnamed, 3, 3, none, none⟩] := by
  decide +kernel

end MonkeyLang
