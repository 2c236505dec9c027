import MonkeyLang.Proofs.Lexing.Juncture
import Mathlib.Tactic.Set

/-!
# Extents of tokens

Where in a text each of its tokens starts and ends, counted in characters. A text that is cut in two
inside no token is a text in front of another one, so that any blanks may come between the two.
-/
namespace MonkeyLang

/-- A piece of a text and the number of characters before it. -/
structure Extent where
  start : Nat
  piece : Piece
  deriving Repr, DecidableEq

namespace Extent

/-- The number of characters up to the end of the piece. An open string ends behind the text, with
the quote that it lacks. -/
def stop (extent : Extent) : Nat :=
  extent.start + extent.piece.raw.length + if extent.piece.closed then 0 else 1

/-- Whether a place lies between two characters of the piece. -/
def divides (place : Nat) (extent : Extent) : Bool :=
  extent.start < place && place < extent.stop

/-- The token that a piece gives in a text of a file. -/
def token (text : List Char) (file : String) (extent : Extent) : Token :=
  ⟨extent.piece.kind, String.ofList extent.piece.lexeme,
    some ((Position.start.afterAll (text.take extent.start)).inFile file)⟩

end Extent

/-- The extents of the tokens of a text behind so many characters. -/
def extentsFrom (start : Nat) (text : List Char) : List Extent :=
  match _found : text.dropWhile Char.isWhitespace with
  | [] => []
  | c :: cs =>
    let here := start + (text.takeWhile Char.isWhitespace).length
    let first := Piece.first c cs
    ⟨here, first.1⟩ :: extentsFrom (here + first.1.raw.length) first.2
termination_by text.length
decreasing_by
  have piece := Piece.length_first_lt c cs
  have blanks := (List.dropWhile_suffix Char.isWhitespace (l := text)).length_le
  rw [_found] at blanks
  omega

/-- The extents of the tokens of a text. -/
def extents (text : String) : List Extent := extentsFrom 0 text.toList

theorem extentsFrom_blank {text : List Char} (blank : ∀ c ∈ text, c.isWhitespace) (start : Nat) :
    extentsFrom start text = [] := by
  rw [extentsFrom]
  split
  · rfl
  · rename_i c cs found
    rw [List.dropWhile_eq_nil_iff.mpr blank] at found
    exact absurd found.symm (List.cons_ne_nil c cs)

theorem extentsFrom_cons {gap : List Char} {c : Char} (blank : ∀ d ∈ gap, d.isWhitespace)
    (hc : ¬ c.isWhitespace) (start : Nat) (cs : List Char) :
    extentsFrom start (gap ++ c :: cs) = ⟨start + gap.length, (Piece.first c cs).1⟩ ::
      extentsFrom (start + gap.length + (Piece.first c cs).1.raw.length) (Piece.first c cs).2 := by
  have ends : ∀ d ∈ (c :: cs).head?, ¬ d.isWhitespace := by simpa using hc
  rw [extentsFrom, takeWhile_run blank ends]
  split
  · rename_i found
    rw [dropWhile_run blank ends] at found
    exact absurd found (List.cons_ne_nil c cs)
  · rename_i d ds found
    rw [dropWhile_run blank ends] at found
    obtain ⟨rfl, rfl⟩ := List.cons.inj found
    rfl

/-- Every text is blank or starts, behind some blanks, with another character. -/
theorem blank_or_exists_cons (text : List Char) :
    (∀ c ∈ text, c.isWhitespace) ∨ ∃ gap c cs, text = gap ++ c :: cs ∧
      (∀ d ∈ gap, d.isWhitespace) ∧ ¬ c.isWhitespace := by
  cases found : text.dropWhile Char.isWhitespace with
  | nil => exact .inl (List.dropWhile_eq_nil_iff.mp found)
  | cons c cs =>
    refine .inr ⟨text.takeWhile Char.isWhitespace, c, cs, ?_, ?_, ?_⟩
    · rw [← found, List.takeWhile_append_dropWhile]
    · exact fun d hd => List.mem_takeWhile_imp hd
    · exact head_dropWhile Char.isWhitespace text c (by rw [found]; rfl)

/-- Each piece stands in the text behind as many characters as its extent says. -/
theorem exists_of_mem_extentsFrom {pieces : List Piece} {text : List Char} (h : Layout pieces text)
    {start : Nat} {extent : Extent} (member : extent ∈ extentsFrom start text) :
    ∃ before after, text = before ++ extent.piece.raw ++ after ∧
      extent.start = start + before.length := by
  induction h generalizing start with
  | blank blank =>
    rw [extentsFrom_blank blank] at member
    exact absurd member List.not_mem_nil
  | @piece gap after piece pieces blank fits rest ih =>
    obtain ⟨c, cs, hraw, hc, hfirst⟩ := Piece.first_of_fits fits
    rw [List.append_assoc, hraw, extentsFrom_cons blank hc, hfirst] at member
    rcases List.mem_cons.mp member with rfl | member
    · exact ⟨gap, after, rfl, rfl⟩
    · obtain ⟨before, behind, rfl, place⟩ := ih member
      refine ⟨gap ++ piece.raw ++ before, behind, by simp only [List.append_assoc], ?_⟩
      rw [place, List.length_append, List.length_append]
      show start + gap.length + piece.raw.length + before.length = _
      omega

/-- The tokens of a text behind one that is done are those of its extents. -/
theorem tokens_eq_map_token (file : String) (done text : List Char) :
    (⟨file, text, Position.start.afterAll done⟩ : Lexer).tokens =
      (extentsFrom done.length text).map (Extent.token (done ++ text) file) := by
  induction hlength : text.length using Nat.strong_induction_on generalizing done text with
  | h length ih =>
    rcases blank_or_exists_cons text with blank | ⟨gap, c, cs, rfl, blank, hc⟩
    · have ended := List.dropWhile_eq_nil_iff.mpr blank
      rw [extentsFrom_blank blank, List.map_nil, Lexer.tokens_of_end]
      rw [Lexer.kind_next_eq_eof_iff, Lexer.skipBlanks_rest, ended]
    · have whole := Piece.raw_first c cs
      have fits := Piece.fits_first hc cs
      have shorter := Piece.length_first_lt c cs
      have step := Lexer.next_cons hc cs file (Position.start.afterAll (done ++ gap))
      have unended := Piece.kind_first_ne_eof c cs
      rw [Lexer.tokens_blanks blank, extentsFrom_cons blank hc, ← Position.afterAll_append,
        Lexer.tokens_of_token (by rw [step]; exact unended), step, List.map_cons,
        ← List.append_assoc, ← List.length_append]
      set piece := (Piece.first c cs).1
      set after := (Piece.first c cs).2
      congr 1
      · rw [Extent.token, List.take_left]
        rfl
      · by_cases closed : piece.closed
        · have less : after.length < length := by
            rw [← hlength, List.length_append]
            omega
          have more := ih after.length less (done ++ gap ++ piece.raw) after rfl
          rw [← whole, ← List.append_assoc, ← List.length_append, ← more, Lexer.behind,
            if_pos closed, ← Position.afterAll_append]
        · have ended : after = [] := by
            by_contra more
            exact closed (fits.closed more)
          rw [ended, extentsFrom_blank (by simp), List.map_nil]
          exact Lexer.tokens_of_end (Lexer.kind_next_eq_eof_iff _ |>.mpr rfl)

/-- The tokens of a text are those of its extents, in their order, and at each extent stands the raw
text of its token. -/
theorem extents_spec (text file : String) :
    (Lexer.ofText text file).tokens = (extents text).map (Extent.token text.toList file) ∧
    ∀ extent ∈ extents text, ∃ after,
      text.toList.drop extent.start = extent.piece.raw ++ after := by
  obtain ⟨pieces, layout, -⟩ := (Lexer.ofText text file).exists_layout
  refine ⟨tokens_eq_map_token file [] text.toList, fun extent member => ?_⟩
  obtain ⟨before, after, whole, place⟩ := exists_of_mem_extentsFrom layout member
  change text.toList = before ++ extent.piece.raw ++ after at whole
  rw [whole, place, Nat.zero_add, List.append_assoc, List.drop_left]
  exact ⟨after, rfl⟩

/-- A piece that ends at a cut or before it is closed, and what it leaves is cut there too. -/
theorem Piece.Fits.of_cut {piece : Piece} {after front back : List Char} (fits : piece.Fits after)
    (covers : piece.raw ++ after = front ++ back)
    (ends : piece.raw.length + (if piece.closed then 0 else 1) ≤ front.length) :
    piece.closed ∧ ∃ more, front = piece.raw ++ more ∧ after = more ++ back := by
  have closed : piece.closed := by
    by_contra opened
    have ended : after = [] := by
      by_contra more
      exact opened (fits.closed more)
    have all := congrArg List.length covers
    rw [ended, List.append_nil, List.length_append] at all
    rw [if_neg opened] at ends
    omega
  rw [if_pos closed, Nat.add_zero] at ends
  have inside : piece.raw <+: front :=
    List.prefix_of_prefix_length_le ⟨after, covers⟩ ⟨back, rfl⟩ ends
  obtain ⟨more, rfl⟩ := inside
  rw [List.append_assoc] at covers
  exact ⟨closed, more, rfl, List.append_cancel_left covers⟩

/-- A text that is cut in two inside no token is a text in front of another one. -/
theorem exists_layoutBefore {front back : List Char} {start : Nat}
    (whole : ∀ extent ∈ extentsFrom start (front ++ back),
      ¬ extent.divides (start + front.length)) :
    ∃ pieces, LayoutBefore back pieces front := by
  induction hlength : front.length using Nat.strong_induction_on generalizing start front with
  | h length ih =>
    rcases blank_or_exists_cons front with blank | ⟨gap, c, cs, rfl, blank, hc⟩
    · exact ⟨[], .blank blank⟩
    · rw [List.append_assoc, List.cons_append, extentsFrom_cons blank hc] at whole
      obtain ⟨here, further⟩ := List.forall_mem_cons.mp whole
      have covers := Piece.raw_first c (cs ++ back)
      have fits := Piece.fits_first hc (cs ++ back)
      set piece := (Piece.first c (cs ++ back)).1
      have nonempty : 0 < piece.raw.length := List.length_pos_iff.mpr fits.raw_ne_nil
      simp only [Extent.divides, Extent.stop, Bool.and_eq_true, decide_eq_true_eq,
        List.length_append, List.length_cons] at here hlength
      -- the piece starts before the cut, so it ends there or before it
      have ends : piece.raw.length + (if piece.closed then 0 else 1) ≤ (c :: cs).length := by
        rw [List.length_cons]
        omega
      obtain ⟨closed, more, hmore, hafter⟩ := fits.of_cut covers ends
      have count := congrArg List.length hmore
      rw [List.length_append, List.length_cons] at count
      have cut : start + gap.length + piece.raw.length + more.length =
          start + (gap ++ c :: cs).length := by
        rw [List.length_append, List.length_cons]
        omega
      rw [hafter] at fits further
      rw [← cut] at further
      obtain ⟨pieces, rest⟩ := ih more.length (by omega) further rfl
      rw [hmore, ← List.append_assoc]
      exact ⟨piece :: pieces, .piece blank fits closed rest⟩

end MonkeyLang
