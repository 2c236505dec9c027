import MonkeyLang.Proofs.Lexing.Supply
import MonkeyLang.Proofs.Syntax.Relocation
import Mathlib.Data.List.DropRight

/-!
# A text in front

With another text in front of it, a text starts on a later line, and its first line in a later
column. Every position in it is moved by the lines of the other text, those on its first line by
what stands on the last line of the other text as well. So are the places of its tokens.
-/
namespace MonkeyLang

namespace Position

/-- Where a position of a text comes to stand when another text is put in front. -/
def shift (front : List Char) (position : Position) : Position :=
  ⟨position.line + front.count '\n',
    if position.line = 1 then position.column + (front.rtakeWhile (· != '\n')).length
    else position.column⟩

/-- A text ends where the start of the next one comes to stand. -/
theorem afterAll_start (text : List Char) : start.afterAll text = start.shift text := by
  induction text using List.reverseRecOn with
  | nil => rfl
  | append_singleton text c ih =>
    rw [afterAll_append, ih, afterAll_cons, afterAll_nil, after, shift, shift, List.count_append]
    split
    · rename_i newline
      subst newline
      simp [start, Nat.add_assoc]
    · rename_i other
      simp [right, start, other, Nat.add_assoc]

theorem line_le_after (position : Position) (c : Char) :
    position.line ≤ (position.after c).line := by
  unfold after
  split
  · exact Nat.le_succ position.line
  · exact Nat.le_refl position.line

theorem line_le_afterAll (position : Position) (text : List Char) :
    position.line ≤ (position.afterAll text).line := by
  induction text generalizing position with
  | nil => exact Nat.le_refl position.line
  | cons c text ih => exact (position.line_le_after c).trans (ih (position.after c))

theorem right_shift (front : List Char) (position : Position) :
    (position.shift front).right = position.right.shift front := by
  unfold shift right
  split <;> simp only [Nat.add_right_comm]

variable {position : Position} (counted : 1 ≤ position.line)
include counted

theorem after_shift (front : List Char) (c : Char) :
    (position.shift front).after c = (position.after c).shift front := by
  unfold after
  split
  · have later : position.line + 1 ≠ 1 := by omega
    simp only [shift, later, if_false, Nat.add_right_comm]
  · exact right_shift front position

theorem afterAll_shift (front text : List Char) :
    (position.shift front).afterAll text = (position.afterAll text).shift front := by
  induction text generalizing position with
  | nil => rfl
  | cons c text ih =>
    rw [afterAll_cons, after_shift counted, afterAll_cons]
    exact ih (counted.trans (position.line_le_after c))

end Position

/-- Where a location in a text comes to stand when another text is put in front: later by the
newlines of that text, on the first line also by what stands behind the last of these. -/
def Location.shift (front : String) (location : Location) : Location :=
  { location with
    line := location.line + front.toList.count '\n'
    column :=
      if location.line = 1 then location.column + (front.toList.rtakeWhile (· != '\n')).length
      else location.column }

/-- Every location is moved by a text in front. -/
def Relocation.shift (front : String) : Relocation where
  move token := { token with location := token.location.map (.shift front) }
  content_move _ := rfl

theorem Position.inFile_shift (front file : String) (position : Position) :
    (position.shift front.toList).inFile file = (position.inFile file).shift front := by
  by_cases first : position.line = 1
  · simp [shift, Location.shift, inFile, first]
  · have later : (position.line : Int) ≠ 1 := by omega
    simp [shift, Location.shift, inFile, first, later]

namespace Lexer

/-- The lexer with another text in front of its own. -/
def shift (front : String) (lexer : Lexer) : Lexer :=
  { lexer with position := lexer.position.shift front.toList }

variable {lexer : Lexer} (counted : 1 ≤ lexer.position.line)
include counted

omit counted in
theorem line_le_next (lexer : Lexer) : lexer.position.line ≤ lexer.next.2.position.line := by
  have blanks : lexer.position.line ≤ lexer.skipBlanks.position.line :=
    lexer.position.line_le_afterAll _
  cases text : lexer.skipBlanks.rest with
  | nil => rwa [next_of_nil text]
  | cons c cs =>
    have piece := lexer.skipBlanks.position.line_le_afterAll (Piece.first c cs).1.raw
    rw [next_of_cons text]
    unfold behind
    split
    · exact blanks.trans piece
    · exact blanks.trans piece

theorem skipBlanks_shift (front : String) :
    (lexer.shift front).skipBlanks = lexer.skipBlanks.shift front := by
  simp only [skipBlanks, shift, Position.afterAll_shift counted]

omit counted in
theorem behind_shift (front : List Char) {position : Position} (counted : 1 ≤ position.line)
    (piece : Piece) :
    behind (position.shift front) piece = (behind position piece).shift front := by
  unfold behind
  rw [Position.afterAll_shift counted]
  split
  · rfl
  · exact Position.right_shift front _

/-- A step with a text in front gives the moved token, and the lexer behind it with that text in
front. -/
theorem next_shift (front : String) : (lexer.shift front).next =
    ((Relocation.shift front).move lexer.next.1, lexer.next.2.shift front) := by
  have blanks := skipBlanks_shift counted front
  have located : (lexer.skipBlanks.shift front).here = lexer.skipBlanks.here.shift front :=
    Position.inFile_shift front lexer.file lexer.skipBlanks.position
  have counted' : 1 ≤ lexer.skipBlanks.position.line :=
    counted.trans (lexer.position.line_le_afterAll _)
  cases text : lexer.skipBlanks.rest with
  | nil =>
    rw [next_of_nil text, next_of_nil (by rw [blanks]; exact text), blanks]
    simp only [endAt, located, Relocation.shift, Option.map_some]
  | cons c cs =>
    rw [next_of_cons text, next_of_cons (by rw [blanks]; exact text), blanks]
    simp only [tokenAt, located, Relocation.shift, Option.map_some]
    rw [shift, shift, behind_shift front.toList counted']

theorem tokens_shift (front : String) :
    (lexer.shift front).tokens = lexer.tokens.map (Relocation.shift front).move := by
  induction lexer using drain_induction with
  | atEnd lexer ended =>
    have step := next_shift counted front
    rw [tokens_of_end ended, tokens_of_end (by rw [step, Relocation.kind_move]; exact ended),
      List.map_nil]
  | atToken lexer unended ih =>
    have step := next_shift counted front
    rw [tokens_of_token unended, List.map_cons, ← ih (counted.trans lexer.line_le_next),
      tokens_of_token (by rw [step, Relocation.kind_move]; exact unended), step]

theorem eof_shift (front : String) :
    (lexer.shift front).eof = (Relocation.shift front).move lexer.eof := by
  induction lexer using drain_induction with
  | atEnd lexer ended =>
    have step := next_shift counted front
    rw [eof_of_end ended, eof_of_end (by rw [step, Relocation.kind_move]; exact ended), step]
  | atToken lexer unended ih =>
    have step := next_shift counted front
    rw [eof_of_token unended, ← ih (counted.trans lexer.line_le_next),
      eof_of_token (by rw [step, Relocation.kind_move]; exact unended), step]

end Lexer

end MonkeyLang
