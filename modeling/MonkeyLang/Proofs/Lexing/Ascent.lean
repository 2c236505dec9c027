import MonkeyLang.Proofs.Lexing.Supply
import Mathlib.Data.Prod.Lex
import Mathlib.Tactic.SplitIfs

/-!
# Ascending places

A lexer never moves back, and past a token it moves ahead. So each token of a text stands before all
that follow it, the end token among them, and no token occurs twice.
-/
namespace MonkeyLang

namespace Location

/-- The line and the column of a location. A later line stands behind an earlier one, whatever the
columns are. -/
def place (location : Location) : ℤ ×ₗ ℤ := toLex (location.line, location.column)

/-- The first of two locations is known to stand before the second. -/
def Before (first second : Option Location) : Prop :=
  ∃ here ∈ first, ∃ there ∈ second, here.place < there.place

/-- The first of two locations is known to stand at the second or before it. -/
def NotBehind (first second : Option Location) : Prop :=
  ∃ here ∈ first, ∃ there ∈ second, here.place ≤ there.place

variable {first second : Option Location}

theorem Before.notBehind (h : Before first second) : NotBehind first second := by
  obtain ⟨here, hhere, there, hthere, ascends⟩ := h
  exact ⟨here, hhere, there, hthere, ascends.le⟩

theorem Before.ne (h : Before first second) : first ≠ second := by
  obtain ⟨here, hhere, there, hthere, ascends⟩ := h
  rintro rfl
  obtain rfl := Option.mem_unique hhere hthere
  exact lt_irrefl _ ascends

end Location

namespace Position

variable (position : Position) (file : String)

theorem lt_right : (position.inFile file).place < (position.right.inFile file).place := by
  refine Prod.Lex.toLex_lt_toLex.mpr (.inr ⟨rfl, ?_⟩)
  exact Int.ofNat_lt.mpr position.column.lt_succ_self

theorem lt_after (c : Char) :
    (position.inFile file).place < ((position.after c).inFile file).place := by
  unfold after
  split_ifs
  · refine Prod.Lex.toLex_lt_toLex.mpr (.inl ?_)
    exact Int.ofNat_lt.mpr position.line.lt_succ_self
  · exact position.lt_right file

theorem le_afterAll (text : List Char) :
    (position.inFile file).place ≤ ((position.afterAll text).inFile file).place := by
  induction text generalizing position with
  | nil => exact le_refl _
  | cons c text ih => exact (position.lt_after file c).le.trans (ih (position.after c))

theorem lt_afterAll {text : List Char} (nonempty : text ≠ []) :
    (position.inFile file).place < ((position.afterAll text).inFile file).place := by
  cases text with
  | nil => exact absurd rfl nonempty
  | cons c text =>
    exact (position.lt_after file c).trans_le ((position.after c).le_afterAll file text)

end Position

namespace Lexer

theorem here_le_skipBlanks (lexer : Lexer) : lexer.here.place ≤ lexer.skipBlanks.here.place :=
  lexer.position.le_afterAll lexer.file _

/-- The quote that an open string lacks moves the place ahead too. -/
theorem lt_behind (position : Position) (file : String) {piece : Piece} (covers : piece.raw ≠ []) :
    (position.inFile file).place < ((behind position piece).inFile file).place := by
  have ahead := position.lt_afterAll file covers
  unfold behind
  split_ifs
  · exact ahead
  · exact ahead.trans (Position.lt_right ..)

theorem location_next (lexer : Lexer) : lexer.next.1.location = some lexer.skipBlanks.here := by
  cases h : lexer.skipBlanks.rest with
  | nil => rw [next_of_nil h, endAt]
  | cons c cs => rw [next_of_cons h, tokenAt]

theorem skipBlanks_lt_next {lexer : Lexer} (h : lexer.next.1.kind ≠ .eof) :
    lexer.skipBlanks.here.place < lexer.next.2.here.place := by
  cases text : lexer.skipBlanks.rest with
  | nil => exact absurd ((kind_next_eq_eof_iff lexer).mpr text) h
  | cons c cs =>
    rw [next_of_cons text]
    exact lt_behind lexer.skipBlanks.position lexer.skipBlanks.file (Piece.raw_ne_nil c cs)

theorem supply_of_end {lexer : Lexer} (h : lexer.next.1.kind = .eof) :
    lexer.tokens ++ [lexer.eof] = [lexer.next.1] := by
  rw [tokens_of_end h, eof_of_end h, List.nil_append]

theorem supply_of_token {lexer : Lexer} (h : lexer.next.1.kind ≠ .eof) :
    lexer.tokens ++ [lexer.eof] =
      lexer.next.1 :: (lexer.next.2.tokens ++ [lexer.next.2.eof]) := by
  rw [tokens_of_token h, eof_of_token h, List.cons_append]

/-- No token stands before the place of its lexer. -/
theorem le_location (lexer : Lexer) : ∀ token ∈ lexer.tokens ++ [lexer.eof],
    ∃ here ∈ token.location, lexer.here.place ≤ here.place := by
  have first (lexer : Lexer) : ∃ here ∈ lexer.next.1.location, lexer.here.place ≤ here.place :=
    ⟨_, lexer.location_next, lexer.here_le_skipBlanks⟩
  induction lexer using drain_induction with
  | atEnd lexer h =>
    rw [supply_of_end h]
    intro token ht
    obtain rfl := List.mem_singleton.mp ht
    exact first lexer
  | atToken lexer h ih =>
    rw [supply_of_token h]
    intro token ht
    rcases List.mem_cons.mp ht with rfl | ht
    · exact first lexer
    · obtain ⟨here, hhere, ahead⟩ := ih token ht
      exact ⟨here, hhere, lexer.here_le_skipBlanks.trans ((skipBlanks_lt_next h).le.trans ahead)⟩

/-- Each token stands before all that follow it. -/
theorem pairwise_before (lexer : Lexer) :
    (lexer.tokens ++ [lexer.eof]).Pairwise
      fun first second => Location.Before first.location second.location := by
  induction lexer using drain_induction with
  | atEnd lexer h =>
    rw [supply_of_end h]
    exact List.pairwise_singleton _ _
  | atToken lexer h ih =>
    rw [supply_of_token h]
    refine List.pairwise_cons.mpr ⟨fun token ht => ?_, ih⟩
    obtain ⟨there, hthere, ahead⟩ := lexer.next.2.le_location token ht
    exact ⟨_, lexer.location_next, there, hthere, (skipBlanks_lt_next h).trans_le ahead⟩

end Lexer

theorem nodup_tokenize (text file : String) : (tokenize text file).Nodup :=
  (Lexer.ofText text file).pairwise_before.imp fun ascends same =>
    ascends.ne (congrArg Token.location same)

end MonkeyLang
