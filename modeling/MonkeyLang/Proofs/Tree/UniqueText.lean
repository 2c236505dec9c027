import MonkeyLang.Proofs.Lexing.Layout
import MonkeyLang.Proofs.Tree.Formula
import Mathlib.Data.Bool.AllAny

/-!
# The text of a formula is its own

No two formulas have the same text. A beginning ends where its own brackets or the characters of its
word do, whatever stands behind it; a whole formula ends where neither a parenthesis nor a bracket
goes on with it. With such a rest behind it, the text gives back the formula and the rest.
-/
namespace MonkeyLang

/-- The characters of leaves. -/
def isLeafChar (c : Char) : Bool := isWordChar c || c.isDigit

/-- A run of characters of a sort ends where a character of another sort, or none, stands. -/
theorem append_run_inj {p : Char → Bool} {run run' after after' : List Char}
    (inside : ∀ c ∈ run, p c) (inside' : ∀ c ∈ run', p c) (ends : ∀ c ∈ after.head?, ¬ p c)
    (ends' : ∀ c ∈ after'.head?, ¬ p c) (same : run ++ after = run' ++ after') :
    run = run' ∧ after = after' := by
  have runs := congrArg (List.takeWhile p) same
  have rests := congrArg (List.dropWhile p) same
  rw [takeWhile_run inside ends, takeWhile_run inside' ends'] at runs
  rw [dropWhile_run inside ends, dropWhile_run inside' ends'] at rests
  exact ⟨runs, rests⟩

namespace Leaf

theorem isLeafChar_of_mem (leaf : Leaf) : ∀ c ∈ leaf.lexeme.toList, isLeafChar c := by
  cases leaf with
  | name lexeme good =>
    exact fun c member => Bool.or_eq_true_iff.mpr (.inl ((isName_iff.mp good).2.1 c member))
  | numeral lexeme good =>
    exact fun c member => Bool.or_eq_true_iff.mpr (.inr ((isNumeral_iff.mp good).2 c member))
  | truth value => cases value <;> exact List.all_eq_true.mp (by decide)

theorem exists_cons (leaf : Leaf) : ∃ c others, isLeafChar c ∧ leaf.lexeme.toList = c :: others := by
  have nonempty : leaf.lexeme.toList ≠ [] := by
    cases leaf with
    | name lexeme good => exact (isName_iff.mp good).1
    | numeral lexeme good => exact (isNumeral_iff.mp good).1
    | truth value => cases value <;> decide
  obtain ⟨c, others, cons⟩ := List.exists_cons_of_ne_nil nonempty
  exact ⟨c, others, leaf.isLeafChar_of_mem c (by simp [cons]), cons⟩

/-- A leaf starts with no other character. -/
theorem append_ne_cons (leaf : Leaf) {c : Char} (other : ¬ isLeafChar c) (rest rest' : List Char) :
    leaf.lexeme.toList ++ rest ≠ c :: rest' := by
  obtain ⟨d, others, first, cons⟩ := leaf.exists_cons
  rw [cons]
  rintro ⟨⟩
  exact other first

/-- What is written in digits is not written in letters. -/
theorem not_isNumeral_of_isName {lexeme : String} (good : isName lexeme) : ¬ isNumeral lexeme := by
  intro numeral
  obtain ⟨nonempty, letters, -⟩ := isName_iff.mp good
  obtain ⟨c, others, cons⟩ := List.exists_cons_of_ne_nil nonempty
  have first : c ∈ lexeme.toList := by simp [cons]
  exact not_isWordChar_of_isDigit ((isNumeral_iff.mp numeral).2 c first) (letters c first)

theorem not_isName_truth (value : Bool) : ¬ isName (truth value).lexeme := by
  cases value <;> decide

theorem not_isNumeral_truth (value : Bool) : ¬ isNumeral (truth value).lexeme := by
  cases value <;> decide

/-- The text of a leaf tells its sort. -/
theorem lexeme_injective : Function.Injective lexeme := by
  intro leaf leaf' same
  cases leaf with
  | name lexeme good =>
    cases leaf' with
    | name lexeme' good' => cases same; rfl
    | numeral lexeme' good' => cases same; exact absurd good' (not_isNumeral_of_isName good)
    | truth value => exact absurd (same ▸ good) (not_isName_truth value)
  | numeral lexeme good =>
    cases leaf' with
    | name lexeme' good' => cases same; exact absurd good (not_isNumeral_of_isName good')
    | numeral lexeme' good' => cases same; rfl
    | truth value => exact absurd (same ▸ good) (not_isNumeral_truth value)
  | truth value =>
    cases leaf' with
    | name lexeme' good' => exact absurd (same ▸ good') (not_isName_truth value)
    | numeral lexeme' good' => exact absurd (same ▸ good') (not_isNumeral_truth value)
    | truth value' => cases value <;> cases value' <;> first | rfl | exact absurd same (by decide)

end Leaf

/-- A sign is one character, with which no formula starts. -/
theorem Sign.char (sign : Sign) : sign.val.toList.length = 1 ∧
    ∀ c ∈ sign.val.toList, ¬ isLeafChar c ∧ c ≠ '(' ∧ c ≠ '[' := by
  have signs_char : ∀ lexeme ∈ signs.map Prod.snd, lexeme.toList.length = 1 ∧
      lexeme.toList.all fun c => ¬ isLeafChar c ∧ c ≠ '(' ∧ c ≠ '[' := by decide
  obtain ⟨one, outside⟩ := signs_char sign.val sign.property
  exact ⟨one, List.all_iff_forall_prop.mp outside⟩

/-- No blank stands inside of an operator. -/
theorem Operator.ne_blank (operator : Operator) : ∀ c ∈ operator.val.toList, (c != ' ') := by
  have operators_ne : ∀ lexeme ∈ operators.map Prod.snd, lexeme.toList.all (· != ' ') := by decide
  exact List.all_eq_true.mp (operators_ne operator.val operator.property)

namespace Formula

variable {rest rest' : List Char}

/-- No leaf goes on with the text. -/
def Breaks (rest : List Char) : Prop := ∀ c ∈ rest.head?, ¬ isLeafChar c

/-- No formula goes on with the text. -/
def Ends (rest : List Char) : Prop := ∀ c ∈ rest.head?, ¬ isLeafChar c ∧ c ≠ '(' ∧ c ≠ '['

theorem Ends.breaks (ends : Ends rest) : Breaks rest := fun c member => (ends c member).1

theorem breaks_cons {c : Char} (h : ¬ isLeafChar c) (rest : List Char) : Breaks (c :: rest) := by
  rintro _ ⟨⟩
  exact h

theorem ends_cons {c : Char} (h : ¬ isLeafChar c ∧ c ≠ '(' ∧ c ≠ '[') (rest : List Char) :
    Ends (c :: rest) := by
  rintro _ ⟨⟩
  exact h

theorem ends_nil : Ends [] := by simp [Ends]

/-- Where a formula starts, one that stands before it would go on. -/
theorem not_ends_text (formula : Formula) (rest : List Char) : ¬ Ends (formula.text ++ rest) := by
  intro ends
  induction formula using induction_head generalizing rest with
  | extend formula suffix ih =>
    rw [text_extend, List.append_assoc] at ends
    exact ih _ ends
  | beginning formula head none =>
    cases formula with
    | leaf word =>
      obtain ⟨c, others, first, cons⟩ := word.exists_cons
      rw [text, cons] at ends
      exact (ends c rfl).1 first
    | unary | binary => exact (ends '(' rfl).2.1 rfl
    | array => exact (ends '[' rfl).2.2 rfl
    | call | index => simp [suffixes] at none

/-- With a rest behind it, the text gives back the formula and the rest. -/
def Determined (formula : Formula) : Prop :=
  ∀ formula' rest rest', Ends rest → Ends rest' → formula.text ++ rest = formula'.text ++ rest' →
    formula = formula' ∧ rest = rest'

/-! ## Lists -/

section

variable {formulas formulas' : List Formula} {closer : Char}
  (closes : closer = ')' ∨ closer = ']') (determined : ∀ formula ∈ formulas, formula.Determined)
include closes

theorem ends_closer (rest : List Char) : Ends (closer :: rest) := by
  apply ends_cons
  rcases closes with rfl | rfl <;> decide

theorem ends_others (formulas : List Formula) (rest : List Char) :
    Ends (textOfOthers formulas ++ closer :: rest) := by
  cases formulas with
  | nil => exact ends_closer closes rest
  | cons formula formulas => exact ends_cons (by decide) _

include determined

theorem textOfOthers_inj (same : textOfOthers formulas ++ closer :: rest =
    textOfOthers formulas' ++ closer :: rest') : formulas = formulas' ∧ rest = rest' := by
  have other : closer ≠ ',' := by rcases closes with rfl | rfl <;> decide
  induction formulas generalizing formulas' with
  | nil =>
    cases formulas' with
    | nil => exact ⟨rfl, (List.cons.inj same).2⟩
    | cons formula' formulas' => exact absurd (List.cons.inj same).1 other
  | cons formula formulas ih =>
    cases formulas' with
    | nil => exact absurd (List.cons.inj same).1.symm other
    | cons formula' formulas' =>
      obtain ⟨head, tail⟩ := List.forall_mem_cons.mp determined
      simp only [textOfOthers, List.cons_append, List.append_assoc, List.cons.injEq,
        true_and] at same
      obtain ⟨rfl, behind⟩ := head _ _ _ (ends_others closes _ _) (ends_others closes _ _) same
      obtain ⟨rfl, rfl⟩ := ih tail behind
      exact ⟨rfl, rfl⟩

theorem textOfList_inj (same : textOfList formulas ++ closer :: rest =
    textOfList formulas' ++ closer :: rest') : formulas = formulas' ∧ rest = rest' := by
  cases formulas with
  | nil =>
    cases formulas' with
    | nil => exact ⟨rfl, (List.cons.inj same).2⟩
    | cons formula' formulas' =>
      rw [textOfList, textOfList, List.nil_append, List.append_assoc] at same
      exact absurd (same ▸ ends_closer closes rest) (not_ends_text formula' _)
  | cons formula formulas =>
    cases formulas' with
    | nil =>
      rw [textOfList, textOfList, List.nil_append, List.append_assoc] at same
      exact absurd (same ▸ ends_closer closes rest') (not_ends_text formula _)
    | cons formula' formulas' =>
      obtain ⟨head, tail⟩ := List.forall_mem_cons.mp determined
      simp only [textOfList, List.append_assoc] at same
      obtain ⟨rfl, behind⟩ := head _ _ _ (ends_others closes _ _) (ends_others closes _ _) same
      obtain ⟨rfl, rfl⟩ := textOfOthers_inj closes tail behind
      exact ⟨rfl, rfl⟩

end

/-! ## Beginnings -/

section

variable {formula' : Formula}

theorem leaf_inj {word : Leaf} (head : formula'.suffixes = []) (breaks : Breaks rest)
    (breaks' : Breaks rest') (same : (leaf word).text ++ rest = formula'.text ++ rest') :
    leaf word = formula' ∧ rest = rest' := by
  cases formula' with
  | leaf word' =>
    obtain ⟨lexemes, rests⟩ := append_run_inj word.isLeafChar_of_mem word'.isLeafChar_of_mem
      breaks breaks' same
    obtain rfl := Leaf.lexeme_injective (String.toList_inj.mp lexemes)
    exact ⟨rfl, rests⟩
  | unary | binary | array => exact absurd same (word.append_ne_cons (by decide) _ _)
  | call | index => simp [suffixes] at head

/-- No sign stands where a formula starts. -/
theorem sign_append_ne_text (sign : Sign) (formula : Formula) (rest rest' : List Char) :
    sign.val.toList ++ rest ≠ formula.text ++ rest' := by
  intro same
  obtain ⟨one, outside⟩ := sign.char
  obtain ⟨c, single⟩ := List.length_eq_one_iff.mp one
  rw [single] at same outside
  exact not_ends_text formula rest' (same ▸ ends_cons (outside c List.mem_cons_self) rest)

theorem unary_inj {sign : Sign} {operand : Formula} (head : formula'.suffixes = [])
    (determined : operand.Determined)
    (same : (unary sign operand).text ++ rest = formula'.text ++ rest') :
    unary sign operand = formula' ∧ rest = rest' := by
  have closed (rest : List Char) : Ends (')' :: rest) := ends_cons (by decide) rest
  cases formula' with
  | leaf word' => exact absurd same.symm (word'.append_ne_cons (by decide) _ _)
  | unary sign' operand' =>
    simp only [text, List.cons_append, List.append_assoc, List.cons.injEq, true_and] at same
    obtain ⟨signs, behind⟩ :=
      List.append_inj same (sign.char.1.trans sign'.char.1.symm)
    obtain rfl : sign = sign' := Subtype.ext (String.toList_inj.mp signs)
    obtain ⟨rfl, ends⟩ := determined _ _ _ (closed _) (closed _) behind
    exact ⟨rfl, (List.cons.inj ends).2⟩
  | binary operator left right =>
    simp only [text, List.cons_append, List.append_assoc, List.cons.injEq, true_and] at same
    exact absurd same (sign_append_ne_text _ _ _ _)
  | array => simp [text] at same
  | call | index => simp [suffixes] at head

theorem binary_inj {operator : Operator} {left right : Formula} (head : formula'.suffixes = [])
    (left_determined : left.Determined) (right_determined : right.Determined)
    (same : (binary operator left right).text ++ rest = formula'.text ++ rest') :
    binary operator left right = formula' ∧ rest = rest' := by
  have closed (rest : List Char) : Ends (')' :: rest) := ends_cons (by decide) rest
  have blank (rest : List Char) : Ends (' ' :: rest) := ends_cons (by decide) rest
  cases formula' with
  | leaf word' => exact absurd same.symm (word'.append_ne_cons (by decide) _ _)
  | unary sign operand =>
    simp only [text, List.cons_append, List.append_assoc, List.cons.injEq, true_and] at same
    exact absurd same.symm (sign_append_ne_text _ _ _ _)
  | binary operator' left' right' =>
    simp only [text, List.cons_append, List.append_assoc, List.cons.injEq, true_and] at same
    obtain ⟨rfl, spaced⟩ := left_determined _ _ _ (blank _) (blank _) same
    obtain ⟨operators, behind⟩ := append_run_inj operator.ne_blank operator'.ne_blank (by simp)
      (by simp) (List.cons.inj spaced).2
    obtain rfl : operator = operator' := Subtype.ext (String.toList_inj.mp operators)
    obtain ⟨rfl, ends⟩ :=
      right_determined _ _ _ (closed _) (closed _) (List.cons.inj behind).2
    exact ⟨rfl, (List.cons.inj ends).2⟩
  | array => simp [text] at same
  | call | index => simp [suffixes] at head

theorem array_inj {elements : List Formula} (head : formula'.suffixes = [])
    (determined : ∀ element ∈ elements, element.Determined)
    (same : (array elements).text ++ rest = formula'.text ++ rest') :
    array elements = formula' ∧ rest = rest' := by
  cases formula' with
  | leaf word' => exact absurd same.symm (word'.append_ne_cons (by decide) _ _)
  | unary | binary => simp [text] at same
  | array elements' =>
    simp only [text, List.cons_append, List.append_assoc, List.cons.injEq, true_and] at same
    obtain ⟨rfl, rfl⟩ := textOfList_inj (.inr rfl) determined same
    exact ⟨rfl, rfl⟩
  | call | index => simp [suffixes] at head

/-- A beginning ends of its own accord. -/
theorem head_inj {formula : Formula} (head : formula.suffixes = []) (head' : formula'.suffixes = [])
    (determined : ∀ part ∈ formula.inner, part.Determined) (breaks : Breaks rest)
    (breaks' : Breaks rest') (same : formula.text ++ rest = formula'.text ++ rest') :
    formula = formula' ∧ rest = rest' := by
  cases formula with
  | leaf word => exact leaf_inj head' breaks breaks' same
  | unary sign operand => exact unary_inj head' (determined operand (by simp [inner])) same
  | binary operator left right =>
    exact binary_inj head' (determined left (by simp [inner])) (determined right (by simp [inner]))
      same
  | array elements => exact array_inj head' determined same
  | call | index => simp [suffixes] at head

end

/-! ## What stands behind -/

theorem suffix_inj {suffix suffix' : Suffix} (determined : ∀ part ∈ suffix.parts, part.Determined)
    (same : suffix.text ++ rest = suffix'.text ++ rest') : suffix = suffix' ∧ rest = rest' := by
  cases suffix with
  | call arguments =>
    cases suffix' with
    | call arguments' =>
      simp only [Suffix.text, List.cons_append, List.append_assoc, List.cons.injEq,
        true_and] at same
      obtain ⟨rfl, rfl⟩ := textOfList_inj (.inl rfl) determined same
      exact ⟨rfl, rfl⟩
    | index position' => simp [Suffix.text] at same
  | index position =>
    cases suffix' with
    | call arguments' => simp [Suffix.text] at same
    | index position' =>
      have closed (rest : List Char) : Ends (']' :: rest) := ends_cons (by decide) rest
      simp only [Suffix.text, List.cons_append, List.append_assoc, List.cons.injEq,
        true_and] at same
      obtain ⟨rfl, ends⟩ := determined position List.mem_cons_self _ _ _ (closed _) (closed _) same
      exact ⟨rfl, (List.cons.inj ends).2⟩

theorem not_ends_suffix (suffix : Suffix) (rest : List Char) : ¬ Ends (suffix.text ++ rest) := by
  intro ends
  cases suffix with
  | call arguments => exact (ends '(' rfl).2.1 rfl
  | index position => exact (ends '[' rfl).2.2 rfl

theorem suffixes_inj {suffixes suffixes' : List Suffix}
    (determined : ∀ suffix ∈ suffixes, ∀ part ∈ suffix.parts, part.Determined)
    (ends : Ends rest) (ends' : Ends rest')
    (same : suffixes.flatMap Suffix.text ++ rest = suffixes'.flatMap Suffix.text ++ rest') :
    suffixes = suffixes' ∧ rest = rest' := by
  induction suffixes generalizing suffixes' with
  | nil =>
    cases suffixes' with
    | nil => exact ⟨rfl, same⟩
    | cons suffix' suffixes' =>
      rw [List.flatMap_nil, List.nil_append, List.flatMap_cons, List.append_assoc] at same
      exact absurd (same ▸ ends) (not_ends_suffix suffix' _)
  | cons suffix suffixes ih =>
    cases suffixes' with
    | nil =>
      rw [List.flatMap_nil, List.nil_append, List.flatMap_cons, List.append_assoc] at same
      exact absurd (same ▸ ends') (not_ends_suffix suffix _)
    | cons suffix' suffixes' =>
      obtain ⟨head, tail⟩ := List.forall_mem_cons.mp determined
      simp only [List.flatMap_cons, List.append_assoc] at same
      obtain ⟨rfl, behind⟩ := suffix_inj head same
      obtain ⟨rfl, rfl⟩ := ih tail behind
      exact ⟨rfl, rfl⟩

theorem breaks_suffixes (suffixes : List Suffix) (ends : Ends rest) :
    Breaks (suffixes.flatMap Suffix.text ++ rest) := by
  cases suffixes with
  | nil => exact ends.breaks
  | cons suffix suffixes => cases suffix <;> exact breaks_cons (by decide) _

/-! ## Whole formulas -/

/-- A formula is told from its text if all that stands inside of it is. -/
theorem determined_of_inner (formula : Formula)
    (determined : ∀ part ∈ formula.inner, part.Determined) : formula.Determined := by
  intro formula' rest rest' ends ends' same
  rw [inner_eq, List.forall_mem_append] at determined
  obtain ⟨within, after⟩ := determined
  -- a callee is not inside of its call, so both texts are read from their beginnings on
  rw [text_eq formula, text_eq formula', List.append_assoc, List.append_assoc] at same
  obtain ⟨heads, behind⟩ := head_inj formula.suffixes_head formula'.suffixes_head within
    (breaks_suffixes _ ends) (breaks_suffixes _ ends') same
  have each : ∀ suffix ∈ formula.suffixes, ∀ part ∈ suffix.parts, part.Determined :=
    fun suffix member part inside => after part (List.mem_flatMap.mpr ⟨suffix, member, inside⟩)
  obtain ⟨tails, rests⟩ := suffixes_inj each ends ends' behind
  refine ⟨?_, rests⟩
  rw [← foldl_extend formula, ← foldl_extend formula', heads, tails]

/-- However deep a formula is, it is told from its text. -/
theorem determined (formula : Formula) : formula.Determined :=
  induction_inner determined_of_inner formula

theorem text_injective : Function.Injective text := by
  intro formula formula' same
  have alone : formula.text ++ [] = formula'.text ++ [] := by rw [same]
  exact (determined formula formula' [] [] ends_nil ends_nil alone).1

end Formula

/-- Two trees of operators, calls, arrays and positions over names, integers and truth values have
the same canonical text just when they agree in shape, operators and the lexemes of their leaves. -/
theorem Node.render_eq_render_iff {node node' : Node} {formula formula' : Formula}
    (h : node.Shows formula) (h' : node'.Shows formula') :
    node.render = node'.render ↔ formula = formula' := by
  obtain ⟨text, written, shown⟩ := h.exists_text
  obtain ⟨text', written', shown'⟩ := h'.exists_text
  rw [render_of_textOf written, render_of_textOf written', Except.ok.injEq, ← String.toList_inj,
    shown, shown', Formula.text_injective.eq_iff]

/-- The call of `-f` with `x`. -/
def callOfSigned : Node :=
  .call (.ofContent (.lparen, "("))
    (.unary (.ofContent (.minus, "-")) "-" (.identifier (.ofContent (.ident, "f")) "f"))
    [.identifier (.ofContent (.ident, "x")) "x"]

/-- The call of `f` with `x`, behind a sign. -/
def signedCall : Node :=
  .unary (.ofContent (.minus, "-")) "-"
    (.call (.ofContent (.lparen, "(")) (.identifier (.ofContent (.ident, "f")) "f")
      [.identifier (.ofContent (.ident, "x")) "x"])

/-- The parenthesis that ends the operand tells the two trees apart. -/
theorem Node.render_callOfSigned_ne : ∃ formula formula', callOfSigned.Shows formula ∧
    signedCall.Shows formula' ∧ callOfSigned.render ≠ signedCall.render := by
  have f : Node.Shows (.identifier (.ofContent (.ident, "f")) "f") _ := .identifier (by decide)
  have x : Node.Shows (.identifier (.ofContent (.ident, "x")) "x") _ := .identifier (by decide)
  have called : callOfSigned.Shows _ := .call (.unary ⟨"-", by decide⟩ f) (.cons x .nil)
  have signed : signedCall.Shows _ := .unary ⟨"-", by decide⟩ (.call f (.cons x .nil))
  refine ⟨_, _, called, signed, fun same => ?_⟩
  exact Formula.noConfusion ((Node.render_eq_render_iff called signed).mp same)

end MonkeyLang
