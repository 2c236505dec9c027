import MonkeyLang.Proofs.Lexing.Layout
import MonkeyLang.Proofs.Tree.Legible
import MonkeyLang.Proofs.Tree.StructuralText

/-!
# The text of a legible tree

The canonical text of a legible tree is laid out as its tokens. Words and numbers keep apart,
since only symbols and blanks stand behind an operand; and a sign never meets an equals sign, with
which no operand starts.
-/
namespace MonkeyLang

/-- The piece that is written for a kind with its text. -/
def Piece.ofContent (said : Kind × String) : Piece := ⟨said.1, said.2.toList, true⟩

@[simp] theorem Piece.content_ofContent (said : Kind × String) :
    (Piece.ofContent said).content = said := by
  rw [content, ofContent, String.ofList_toList]

/-- A run of word characters is a whole piece before whatever starts with none. -/
theorem Piece.fits_word {run : String} {after : List Char} (nonempty : run ≠ "")
    (letters : ∀ c ∈ run.toList, isWordChar c) (ends : ∀ c ∈ after.head?, ¬ isWordChar c) :
    (ofContent (.ofWord run, run)).Fits after := by
  have hrun : run.toList ≠ [] := by simpa using nonempty
  have fits := Fits.word hrun letters ends
  rwa [String.ofList_toList] at fits

/-- No equals sign stands at the start of the text. -/
def Unequal (text : List Char) : Prop := ∀ c ∈ text.head?, c ≠ '='

/-- What stands before the text could not go on with it, whatever it is. -/
def Apart (text : List Char) : Prop :=
  ∀ c ∈ text.head?, ¬ isWordChar c ∧ ¬ c.isDigit ∧ c ≠ '='

theorem Apart.unequal {text : List Char} (h : Apart text) : Unequal text :=
  fun c hc => (h c hc).2.2

theorem apart_cons {c : Char} (h : ¬ isWordChar c ∧ ¬ c.isDigit ∧ c ≠ '=') (text : List Char) :
    Apart (c :: text) := by
  intro d hd
  obtain rfl : c = d := by simpa using hd
  exact h

theorem apart_nil : Apart [] := by simp [Apart]

/-- Among the symbols only the equals signs start with one, and none starts like a word. -/
theorem apart_spelled {kind : Kind} {text : List Char} (spelled : kind.spelling? = some text)
    (other : kind ≠ .assign ∧ kind ≠ .eq) (behind : List Char) : Apart (text ++ behind) := by
  cases kind <;> simp only [Kind.spelling?, Option.some.injEq, reduceCtorEq] at spelled <;>
    subst spelled <;> first
      | exact apart_cons (by decide) _
      | simp at other

theorem unequal_run {p : Char → Bool} {run after : List Char} (inside : ∀ c ∈ run, p c)
    (outside : p '=' = false) (h : Unequal after) : Unequal (run ++ after) := by
  cases run with
  | nil => exact h
  | cons c cs =>
    intro d hd
    obtain rfl : c = d := by simpa using hd
    rintro rfl
    have hp := inside '=' List.mem_cons_self
    rw [outside] at hp
    exact absurd hp (by decide)

theorem Layout.blank_cons {c : Char} {pieces : List Piece} {after : List Char}
    (hc : c.isWhitespace) (h : Layout pieces after) : Layout pieces (c :: after) := by
  have wider : ∀ gap : List Char, (∀ d ∈ gap, d.isWhitespace) → ∀ d ∈ c :: gap, d.isWhitespace := by
    intro gap blank d hd
    rcases List.mem_cons.mp hd with rfl | hd
    · exact hc
    · exact blank d hd
  cases h with
  | blank blank => exact .blank (wider _ blank)
  | @piece gap after piece pieces blank fits rest => exact .piece (wider gap blank) fits rest

theorem Layout.content_cons {said : Kind × String} {pieces : List Piece} {after : List Char}
    (kind : said.1 ≠ .string) (fits : (Piece.ofContent said).Fits after)
    (rest : Layout pieces after) :
    Layout (Piece.ofContent said :: pieces) (said.2.toList ++ after) := by
  have raw : (Piece.ofContent said).raw = said.2.toList := by
    rw [Piece.raw, Piece.ofContent, if_neg kind]
  have layout : Layout (Piece.ofContent said :: pieces) ([] ++ (Piece.ofContent said).raw ++ after) :=
    .piece (by simp) fits rest
  rwa [raw, List.nil_append] at layout

/-- The text is laid out as the given tokens before whatever keeps apart from it, and starts with
no equals sign. -/
structure Writes (text : String) (said : List (Kind × String)) : Prop where
  unequal : ∀ after, Apart after → Unequal (text.toList ++ after)
  layout : ∀ pieces after, Apart after → Layout pieces after →
    Layout (said.map Piece.ofContent ++ pieces) (text.toList ++ after)

namespace Writes

variable {text more : String} {said others : List (Kind × String)}

theorem nil : Writes "" [] where
  unequal _ apart := apart.unequal
  layout _ _ _ layout := layout

theorem word {run : String} (nonempty : run ≠ "") (letters : ∀ c ∈ run.toList, isWordChar c) :
    Writes run [(.ofWord run, run)] where
  unequal after apart := unequal_run letters (by decide) apart.unequal
  layout pieces after apart layout := by
    have fits := Piece.fits_word nonempty letters fun c hc => (apart c hc).1
    exact .content_cons (Kind.ofWord_ne_string run) fits layout

theorem number {run : String} (nonempty : run ≠ "") (digits : ∀ c ∈ run.toList, c.isDigit) :
    Writes run [(.int, run)] where
  unequal after apart := unequal_run digits (by decide) apart.unequal
  layout pieces after apart layout := by
    have hrun : run.toList ≠ [] := by simpa using nonempty
    have fits := Piece.Fits.number hrun digits fun c hc => (apart c hc).2.1
    exact .content_cons Kind.noConfusion fits layout

/-- A blank goes unseen. -/
theorem blank (h : Writes text said) : Writes (" " ++ text) said where
  unequal after _ := by simp [Unequal]
  layout pieces after apart layout := by
    have behind := h.layout pieces after apart layout
    simpa using Layout.blank_cons (by decide : ' '.isWhitespace) behind

theorem layout_symbol {kind : Kind} {mark : String} (spelled : kind.spelling? = some mark.toList)
    (h : Writes text said) {pieces : List Piece} {after : List Char} (apart : Apart after)
    (layout : Layout pieces after) :
    Layout (((kind, mark) :: said).map Piece.ofContent ++ pieces)
      ((mark ++ text).toList ++ after) := by
  have behind := h.layout pieces after apart layout
  have other : kind ≠ .string := by
    rintro rfl
    simp [Kind.spelling?] at spelled
  have fits : (Piece.ofContent (kind, mark)).Fits (text.toList ++ after) :=
    .symbol spelled fun _ => h.unequal after apart
  have whole := Layout.content_cons other fits behind
  rwa [String.toList_append, List.append_assoc]

/-- A symbol in front that is no equals sign. -/
theorem symbol {kind : Kind} {mark : String} (spelled : kind.spelling? = some mark.toList)
    (other : kind ≠ .assign ∧ kind ≠ .eq) (h : Writes text said) :
    Writes (mark ++ text) ((kind, mark) :: said) where
  unequal after _ := by
    rw [String.toList_append, List.append_assoc]
    exact (apart_spelled spelled other (text.toList ++ after)).unequal
  layout _ _ apart layout := layout_symbol spelled h apart layout

/-- Any symbol in front, with a blank before it. -/
theorem spaced {kind : Kind} {mark : String} (spelled : kind.spelling? = some mark.toList)
    (h : Writes text said) : Writes (" " ++ (mark ++ text)) ((kind, mark) :: said) where
  unequal after _ := by simp [Unequal]
  layout pieces after apart layout := by
    have behind := layout_symbol spelled h apart layout
    simpa using Layout.blank_cons (by decide : ' '.isWhitespace) behind

/-- Texts stand beside each other if the second one keeps apart from the first. -/
theorem beside (h : Writes text said) (h' : Writes more others)
    (apart : ∀ after, Apart (more.toList ++ after)) : Writes (text ++ more) (said ++ others) where
  unequal after _ := by
    have start := h.unequal _ (apart after)
    rwa [String.toList_append, List.append_assoc]
  layout pieces after ends layout := by
    have behind := h'.layout pieces after ends layout
    have whole := h.layout _ _ (apart after) behind
    rwa [String.toList_append, List.append_assoc, List.map_append, List.append_assoc]

/-- A text between two symbols. -/
theorem enclosed {opener closer : Kind} {mark endMark : String}
    (opens : opener.spelling? = some mark.toList)
    (opener_other : opener ≠ .assign ∧ opener ≠ .eq)
    (closes : closer.spelling? = some endMark.toList)
    (closer_other : closer ≠ .assign ∧ closer ≠ .eq) (h : Writes text said) :
    Writes (mark ++ (text ++ endMark)) ((opener, mark) :: (said ++ [(closer, endMark)])) := by
  have close : Writes endMark [(closer, endMark)] := by
    have last := symbol closes closer_other nil
    rwa [String.append_empty] at last
  exact symbol opens opener_other (h.beside close (apart_spelled closes closer_other))

theorem paren (h : Writes text said) :
    Writes ("(" ++ (text ++ ")")) ((.lparen, "(") :: (said ++ [(.rparen, ")")])) :=
  h.enclosed rfl (by decide) rfl (by decide)

theorem bracket (h : Writes text said) :
    Writes ("[" ++ (text ++ "]")) ((.lbracket, "[") :: (said ++ [(.rbracket, "]")])) :=
  h.enclosed rfl (by decide) rfl (by decide)

end Writes

theorem apart_append {text more : String} (h : ∀ behind, Apart (text.toList ++ behind))
    (after : List Char) : Apart ((text ++ more).toList ++ after) := by
  rw [String.toList_append, List.append_assoc]
  exact h (more.toList ++ after)

theorem apart_blank (behind : List Char) : Apart (" ".toList ++ behind) :=
  apart_cons (by decide) behind

theorem spelled_sign {kind : Kind} {mark : String} (h : (kind, mark) ∈ signs) :
    kind.spelling? = some mark.toList ∧ kind ≠ .assign ∧ kind ≠ .eq := by
  have spelled : ∀ said ∈ signs, said.1.spelling? = some said.2.toList ∧
      said.1 ≠ .assign ∧ said.1 ≠ .eq := by decide
  exact spelled _ h

theorem spelled_operator {kind : Kind} {mark : String} (h : (kind, mark) ∈ operators) :
    kind.spelling? = some mark.toList := by
  have spelled : ∀ said ∈ operators, said.1.spelling? = some said.2.toList := by decide
  exact spelled _ h

theorem spelled_keyword {kind : Kind} {word : String} (h : (word, kind) ∈ Kind.keywords) :
    kind = .ofWord word ∧ word ≠ "" ∧ ∀ c ∈ word.toList, isWordChar c := by
  have spelled : ∀ entry ∈ Kind.keywords, entry.2 = .ofWord entry.1 ∧ entry.1 ≠ "" ∧
      entry.1.toList.all isWordChar := by decide
  obtain ⟨hkind, nonempty, letters⟩ := spelled _ h
  exact ⟨hkind, nonempty, List.all_eq_true.mp letters⟩

theorem writes_keyword {kind : Kind} {word : String} (h : (word, kind) ∈ Kind.keywords) :
    Writes word [(kind, word)] := by
  obtain ⟨rfl, nonempty, letters⟩ := spelled_keyword h
  exact Writes.word nonempty letters

theorem Kind.ofWord_of_unreserved {word : String} (h : word ∉ Kind.keywords.map Prod.fst) :
    Kind.ofWord word = .ident := by
  have absent : Kind.keywords.lookup word = none := by
    rw [List.lookup_eq_none_iff]
    intro entry hentry
    have other : word ≠ entry.1 := by
      rintro rfl
      exact h (List.mem_map_of_mem hentry)
    simpa using other
  rw [Kind.ofWord, absent]
  rfl

/-- A list is written with commas if each of its nodes is written as its tokens. -/
theorem writes_list {nodes : List Node}
    (h : ∀ node ∈ nodes, ∃ text, node.textOf = .ok text ∧ Writes text node.written) :
    ∃ text, Node.textOfList nodes = .ok text ∧ Writes text (Node.writtenList nodes) := by
  induction nodes with
  | nil => exact ⟨"", rfl, .nil⟩
  | cons node rest ih =>
    obtain ⟨first, hfirst, writes_first⟩ := h node List.mem_cons_self
    cases rest with
    | nil => exact ⟨first, hfirst, writes_first⟩
    | cons second rest =>
      obtain ⟨others, hothers, writes_others⟩ :=
        ih fun other ho => h other (List.mem_cons_of_mem node ho)
      have spelled : Kind.comma.spelling? = some ",".toList := rfl
      have comma := writes_others.blank.symbol spelled (by decide)
      have whole := writes_first.beside comma (apart_append (apart_spelled spelled (by decide)))
      have joined : "," ++ (" " ++ others) = ", " ++ others := by
        rw [← String.append_assoc]
        rfl
      rw [joined, ← String.append_assoc] at whole
      refine ⟨first ++ ", " ++ others, ?_, whole⟩
      rw [Node.textOfList, hfirst, hothers]
      rfl

theorem LegibleName.writes {node : Node} (h : LegibleName node) :
    ∃ text, node.textOf = .ok text ∧ Writes text node.written := by
  cases h with
  | @intro token kind nonempty letters unreserved =>
    have word := Writes.word nonempty letters
    rw [Kind.ofWord_of_unreserved unreserved, ← kind] at word
    exact ⟨token.lexeme, rfl, word⟩

/-- The text of a legible expression is written as its tokens. -/
theorem Legible.writes {node : Node} (h : Legible node) :
    ∃ text, node.textOf = .ok text ∧ Writes text node.written := by
  have paren_spelled : Kind.lparen.spelling? = some "(".toList := rfl
  have bracket_spelled : Kind.lbracket.spelling? = some "[".toList := rfl
  induction h with
  | name h => exact h.writes
  | @integer token kind nonempty digits =>
    have number := Writes.number nonempty digits
    rw [← kind] at number
    exact ⟨token.lexeme, rfl, number⟩
  | @true token content =>
    obtain ⟨kind, lexeme⟩ := Prod.mk.inj content
    refine ⟨"true", by rw [Node.textOf, lexeme]; rfl, ?_⟩
    rw [Node.written_boolean, content]
    exact writes_keyword (by decide)
  | @false token content =>
    obtain ⟨kind, lexeme⟩ := Prod.mk.inj content
    refine ⟨"false", by rw [Node.textOf, lexeme]; rfl, ?_⟩
    rw [Node.written_boolean, content]
    exact writes_keyword (by decide)
  | @unary token operand sign _ ih =>
    obtain ⟨text, htext, writes⟩ := ih
    obtain ⟨spelled, other⟩ := spelled_sign sign
    have whole := (writes.symbol spelled other).paren
    refine ⟨"(" ++ token.lexeme ++ text ++ ")", ?_, ?_⟩
    · rw [Node.textOf, htext]
      rfl
    · simpa [Token.content, String.append_assoc] using whole
  | @binary token left right operator _ _ ihl ihr =>
    obtain ⟨first, hfirst, writes_first⟩ := ihl
    obtain ⟨second, hsecond, writes_second⟩ := ihr
    have behind := writes_second.blank.spaced (spelled_operator operator)
    have whole := (writes_first.beside behind (apart_append apart_blank)).paren
    refine ⟨"(" ++ first ++ " " ++ token.lexeme ++ " " ++ second ++ ")", ?_, ?_⟩
    · rw [Node.textOf, hfirst, hsecond]
      rfl
    · simpa [Token.content, String.append_assoc] using whole
  | @call token callee arguments content _ _ ihc iha =>
    obtain ⟨called, hcalled, writes_called⟩ := ihc
    obtain ⟨given, hgiven, writes_given⟩ := writes_list iha
    have whole := writes_called.beside writes_given.paren
      (apart_append (apart_spelled paren_spelled (by decide)))
    refine ⟨called ++ "(" ++ given ++ ")", ?_, ?_⟩
    · rw [Node.textOf, hcalled, hgiven]
      rfl
    · simpa [content, String.append_assoc] using whole
  | @array token elements content _ ih =>
    obtain ⟨listed, hlisted, writes_listed⟩ := writes_list ih
    refine ⟨"[" ++ listed ++ "]", ?_, ?_⟩
    · rw [Node.textOf, hlisted]
      rfl
    · simpa [content, String.append_assoc] using writes_listed.bracket
  | @index token collection position content _ _ ihc ihp =>
    obtain ⟨indexed, hindexed, writes_indexed⟩ := ihc
    obtain ⟨place, hplace, writes_place⟩ := ihp
    have whole := writes_indexed.beside writes_place.bracket
      (apart_append (apart_spelled bracket_spelled (by decide)))
    refine ⟨indexed ++ "[" ++ place ++ "]", ?_, ?_⟩
    · rw [Node.textOf, hindexed, hplace]
      rfl
    · simpa [content, String.append_assoc] using whole

/-- The text of a legible program is written as its tokens. -/
theorem LegibleProgram.writes {statements : List Node} (h : LegibleProgram statements) :
    ∃ text, Node.textOfAll statements = .ok text ∧ Writes text (Node.writtenAll statements) := by
  have assign : Kind.assign.spelling? = some "=".toList := rfl
  have semicolon : Kind.semicolon.spelling? = some ";".toList := rfl
  have semicolon_apart : ∀ after, Apart (";".toList ++ after) :=
    apart_spelled semicolon (by decide)
  induction h with
  | empty => exact ⟨"", rfl, .nil⟩
  | expression value_legible value_levels =>
    obtain ⟨text, htext, writes⟩ := value_legible.writes
    refine ⟨text ++ "", ?_, ?_⟩
    · rw [Node.textOfAll, Node.textOf, htext]
      rfl
    · simpa using writes
  | @letTo token name value rest content name_legible value_legible _ _ ih =>
    obtain ⟨first, hfirst, writes_name⟩ := name_legible.writes
    obtain ⟨text, htext, writes_value⟩ := value_legible.writes
    obtain ⟨others, hothers, writes_others⟩ := ih
    have keyword : Writes token.lexeme [token.content] := by
      rw [content, (Prod.mk.inj content).2]
      exact writes_keyword (by decide)
    have behind := writes_value.beside (writes_others.symbol semicolon (by decide))
      (apart_append semicolon_apart)
    have assigned := writes_name.beside (behind.blank.spaced assign) (apart_append apart_blank)
    have whole := keyword.beside assigned.blank (apart_append apart_blank)
    have joined (behind : String) : " " ++ ("=" ++ (" " ++ behind)) = " = " ++ behind := by
      rw [← String.append_assoc, ← String.append_assoc]
      rfl
    rw [joined] at whole
    refine ⟨token.lexeme ++ " " ++ first ++ " = " ++ text ++ ";" ++ others, ?_, ?_⟩
    · rw [Node.textOfAll, Node.textOf, hfirst, htext, hothers]
      rfl
    · simpa [String.append_assoc] using whole
  | @returned token value rest content value_legible _ _ ih =>
    obtain ⟨text, htext, writes_value⟩ := value_legible.writes
    obtain ⟨others, hothers, writes_others⟩ := ih
    have keyword : Writes token.lexeme [token.content] := by
      rw [content, (Prod.mk.inj content).2]
      exact writes_keyword (by decide)
    have behind := writes_value.beside (writes_others.symbol semicolon (by decide))
      (apart_append semicolon_apart)
    have whole := keyword.beside behind.blank (apart_append apart_blank)
    refine ⟨token.lexeme ++ " " ++ text ++ ";" ++ others, ?_, ?_⟩
    · rw [Node.textOfAll, Node.textOf, htext, hothers]
      · rfl
      · exact value_legible.ne_absent
    · simpa [String.append_assoc] using whole

end MonkeyLang
