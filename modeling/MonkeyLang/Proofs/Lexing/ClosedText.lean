import MonkeyLang.Proofs.Lexing.Placement
import MonkeyLang.Proofs.Lexing.WrittenText

/-!
# Texts without an open string

A text that does not end in an open string is written as its own tokens: it may stand before
whatever keeps apart from it, and its tokens stay what they are.
-/
namespace MonkeyLang

namespace LayoutFrom

variable {start : Nat} {found : List Extent} {text : List Char}

theorem layout (h : LayoutFrom start found text) : Layout (found.map Extent.piece) text := by
  induction h with
  | blank blank => exact .blank blank
  | piece blank fits rest ih => exact .piece blank fits ih

/-- Only the last piece can be open. -/
theorem closed (h : LayoutFrom start found text) (settled : endsOpen found = false) :
    ∀ extent ∈ found, extent.piece.closed := by
  induction h with
  | blank => simp
  | @piece start gap after piece found blank fits rest ih =>
    have here : piece.closed := by
      by_cases more : after = []
      · subst more
        obtain rfl := rest.eq_nil
        simpa [endsOpen] using settled
      · exact fits.closed more
    rw [endsOpen_cons here] at settled
    exact List.forall_mem_cons.mpr ⟨here, ih settled⟩

end LayoutFrom

namespace Piece

variable {piece : Piece} {after behind : List Char}

theorem ofContent_content (closed : piece.closed) : ofContent piece.content = piece := by
  obtain ⟨kind, lexeme, _⟩ := piece
  obtain rfl := closed
  simp [ofContent, content]

/-- A closed piece is not changed by what keeps apart from it. -/
theorem Fits.of_apart (fits : piece.Fits after) (closed : piece.closed) (apart : Apart behind) :
    piece.Fits (after ++ behind) := by
  cases after with
  | cons c after =>
    apply fits.of_head closed
    intro d hd
    exact .inl hd
  | nil =>
    cases fits with
    | word nonempty letters ends => exact .word nonempty letters fun c hc => (apart c hc).1
    | number nonempty digits ends => exact .number nonempty digits fun c hc => (apart c hc).2.1
    | string quoteless => exact .string quoteless
    | openString => exact absurd closed Bool.false_ne_true
    | symbol spelled ends => exact .symbol spelled fun _ c hc => (apart c hc).2.2
    | illegal foreign => exact .illegal foreign

/-- Only the equals signs start with one. -/
theorem Fits.unequal (fits : piece.Fits after) (other : piece.kind ≠ .assign ∧ piece.kind ≠ .eq)
    (behind : List Char) : Unequal (piece.raw ++ behind) := by
  have starts {p : Char → Bool} {c : Char} (h : p c) (outside : p '=' = false)
      (text : List Char) : Unequal (c :: text) := by
    intro d hd
    obtain rfl : c = d := by simpa using hd
    rintro rfl
    exact absurd (outside.symm.trans h) Bool.false_ne_true
  cases fits with
  | @word run after nonempty letters ends =>
    obtain ⟨c, cs, rfl⟩ := List.exists_cons_of_ne_nil nonempty
    rw [raw, if_neg (Kind.ofWord_ne_string _)]
    exact starts (letters c List.mem_cons_self) (by decide) _
  | @number run after nonempty digits ends =>
    obtain ⟨c, cs, rfl⟩ := List.exists_cons_of_ne_nil nonempty
    exact starts (digits c List.mem_cons_self) (by decide) _
  | string quoteless => simp [raw, Unequal]
  | openString quoteless => simp [raw, Unequal]
  | @symbol kind text after spelled ends =>
    have written : raw ⟨kind, text, true⟩ = text := by
      rw [raw, if_neg]
      rintro rfl
      simp [Kind.spelling?] at spelled
    rw [written]
    exact (apart_spelled spelled other behind).unequal
  | illegal foreign => exact starts foreign (by decide) _

end Piece

theorem Layout.blanks {gap after : List Char} {pieces : List Piece}
    (blank : ∀ c ∈ gap, c.isWhitespace) (h : Layout pieces after) :
    Layout pieces (gap ++ after) := by
  induction gap with
  | nil => exact h
  | cons c gap ih =>
    obtain ⟨hc, hgap⟩ := List.forall_mem_cons.mp blank
    exact (ih hgap).blank_cons hc

/-- Closed pieces stay what they are in front of a text that keeps apart from them. -/
theorem Layout.append {pieces others : List Piece} {text after : List Char}
    (h : Layout pieces text) (closed : ∀ piece ∈ pieces, piece.closed) (apart : Apart after)
    (behind : Layout others after) : Layout (pieces ++ others) (text ++ after) := by
  induction h with
  | blank blank => exact behind.blanks blank
  | piece blank fits rest ih =>
    obtain ⟨here, further⟩ := List.forall_mem_cons.mp closed
    rw [List.append_assoc]
    exact .piece blank (fits.of_apart here apart) (ih further)

theorem Layout.unequal {pieces : List Piece} {text after : List Char} (h : Layout pieces text)
    (other : ∀ piece ∈ pieces.head?, piece.kind ≠ .assign ∧ piece.kind ≠ .eq)
    (apart : Apart after) : Unequal (text ++ after) := by
  cases h with
  | blank blank => exact unequal_run blank (by decide) apart.unequal
  | @piece gap behind piece pieces blank fits rest =>
    rw [List.append_assoc, List.append_assoc]
    exact unequal_run blank (by decide) (fits.unequal (other piece rfl) _)

/-- A text that does not end in an open string, nor starts with an equals sign, is written as its
tokens. -/
theorem writes_tokens {text : String} (settled : endsOpen (extents text) = false) (file : String)
    (other : ∀ token ∈ (Lexer.ofText text file).tokens.head?,
      token.kind ≠ .assign ∧ token.kind ≠ .eq) :
    Writes text ((Lexer.ofText text file).tokens.map Token.content) := by
  have found := layoutFrom_extentsFrom 0 text.toList
  have tokens : (Lexer.ofText text file).tokens =
      (extents text).map (Extent.token text.toList file) :=
    tokens_eq_map_token file [] text.toList
  have closed := found.closed settled
  have pieces : ((Lexer.ofText text file).tokens.map Token.content).map Piece.ofContent =
      (extents text).map Extent.piece := by
    rw [tokens, List.map_map, List.map_map]
    apply List.map_congr_left
    intro extent member
    exact Piece.ofContent_content (closed extent member)
  constructor
  · intro after apart
    apply found.layout.unequal _ apart
    intro piece member
    rw [List.head?_map] at member
    obtain ⟨extent, first, rfl⟩ := Option.map_eq_some_iff.mp member
    apply other (extent.token text.toList file)
    rw [tokens, List.head?_map]
    exact Option.mem_map_of_mem _ first
  · intro others after apart behind
    rw [pieces]
    apply found.layout.append _ apart behind
    intro piece member
    obtain ⟨extent, inside, rfl⟩ := List.mem_map.mp member
    exact closed extent inside

end MonkeyLang
