import MonkeyLang.Proofs.Tree.Legible
import MonkeyLang.Proofs.Tree.StructuralText
import MonkeyLang.Proofs.Tree.WellFormed
import Mathlib.Data.List.Forall2

/-!
# Formulas

What the canonical text of a tree of operators shows: its shape, its operators and the lexemes of
its leaves, of any size. Tokens and values that the text does not show are left out. A formula is
a beginning that is no call and no position, with calls and positions behind it one after another.
-/
namespace MonkeyLang

/-- Whether a text can be the name of something. -/
def isName (text : String) : Bool :=
  !text.isEmpty && text.toList.all isWordChar && !(Kind.keywords.map Prod.fst).contains text

theorem isName_iff {text : String} : isName text ↔
    text.toList ≠ [] ∧ (∀ c ∈ text.toList, isWordChar c) ∧ text ∉ Kind.keywords.map Prod.fst := by
  simp [isName, and_assoc]

theorem isNumeral_iff {text : String} :
    isNumeral text ↔ text.toList ≠ [] ∧ ∀ c ∈ text.toList, c.isDigit := by
  simp [isNumeral]

/-- A leaf of a formula. -/
inductive Leaf where
  | name (lexeme : String) (good : isName lexeme)
  | numeral (lexeme : String) (good : isNumeral lexeme)
  | truth (value : Bool)

/-- The text of a leaf. -/
def Leaf.lexeme : Leaf → String
  | name lexeme _ | numeral lexeme _ => lexeme
  | truth value => if value then "true" else "false"

/-- The text of an operator in front of its operand. -/
abbrev Sign := { lexeme : String // lexeme ∈ signs.map Prod.snd }

/-- The text of an operator between its sides. -/
abbrev Operator := { lexeme : String // lexeme ∈ operators.map Prod.snd }

/-- A tree of operators, calls, arrays and positions, up to what its text does not show. -/
inductive Formula where
  | leaf (word : Leaf)
  | unary (sign : Sign) (operand : Formula)
  | binary (operator : Operator) (left right : Formula)
  | call (callee : Formula) (arguments : List Formula)
  | array (elements : List Formula)
  | index (collection position : Formula)

/-- The node is built as the formula says, with no child missing. -/
inductive Node.Shows : Node → Formula → Prop
  | identifier {token : Token} {name : String} (good : isName name) :
    Shows (.identifier token name) (.leaf (.name name good))
  | integer {token : Token} {value : Int} (good : isNumeral token.lexeme) :
    Shows (.integer token value) (.leaf (.numeral token.lexeme good))
  | boolean {token : Token} {value truth : Bool} (said : token.lexeme = (Leaf.truth truth).lexeme) :
    Shows (.boolean token value) (.leaf (.truth truth))
  | unary {token : Token} {operand : Node} {inner : Formula} (sign : Sign)
    (operand_shows : Shows operand inner) :
    Shows (.unary token sign.val operand) (.unary sign inner)
  | binary {token : Token} {left right : Node} {before behind : Formula} (operator : Operator)
    (left_shows : Shows left before) (right_shows : Shows right behind) :
    Shows (.binary token operator.val left right) (.binary operator before behind)
  | call {token : Token} {callee : Node} {arguments : List Node} {called : Formula}
    {given : List Formula} (callee_shows : Shows callee called)
    (arguments_show : List.Forall₂ Shows arguments given) :
    Shows (.call token callee arguments) (.call called given)
  | array {token : Token} {elements : List Node} {listed : List Formula}
    (elements_show : List.Forall₂ Shows elements listed) :
    Shows (.array token elements) (.array listed)
  | index {token : Token} {collection position : Node} {indexed place : Formula}
    (collection_shows : Shows collection indexed) (position_shows : Shows position place) :
    Shows (.index token collection position) (.index indexed place)

namespace Formula

mutual

/-- The canonical text of a formula. -/
def text : Formula → List Char
  | leaf word => word.lexeme.toList
  | unary sign operand => '(' :: sign.val.toList ++ text operand ++ [')']
  | binary operator left right =>
    '(' :: text left ++ ' ' :: operator.val.toList ++ ' ' :: text right ++ [')']
  | call callee arguments => text callee ++ '(' :: textOfList arguments ++ [')']
  | array elements => '[' :: textOfList elements ++ [']']
  | index collection position => text collection ++ '[' :: text position ++ [']']

/-- The texts of formulas with a comma between any two. -/
def textOfList : List Formula → List Char
  | [] => []
  | first :: others => text first ++ textOfOthers others

/-- The texts of formulas, each behind a comma. -/
def textOfOthers : List Formula → List Char
  | [] => []
  | first :: others => ',' :: ' ' :: text first ++ textOfOthers others

end

/-! ## Beginnings -/

/-- What stands behind an expression and belongs to it. -/
inductive Suffix where
  | call (arguments : List Formula)
  | index (position : Formula)

/-- The text of what stands behind an expression. -/
def Suffix.text : Suffix → List Char
  | call arguments => '(' :: textOfList arguments ++ [')']
  | index position => '[' :: position.text ++ [']']

/-- The expression together with what stands behind it. -/
def extend (formula : Formula) : Suffix → Formula
  | .call arguments => formula.call arguments
  | .index position => formula.index position

/-- The beginning, behind which nothing else stands. -/
def head : Formula → Formula
  | call callee _ => head callee
  | index collection _ => head collection
  | formula => formula

/-- The calls and positions behind the beginning. -/
def suffixes : Formula → List Suffix
  | call callee arguments => suffixes callee ++ [.call arguments]
  | index collection position => suffixes collection ++ [.index position]
  | _ => []

section

variable (formula : Formula) (suffix : Suffix)

@[simp] theorem text_extend : (formula.extend suffix).text = formula.text ++ suffix.text := by
  cases suffix <;> simp [extend, text, Suffix.text]

@[simp] theorem head_extend : (formula.extend suffix).head = formula.head := by
  cases suffix <;> rfl

@[simp] theorem suffixes_extend :
    (formula.extend suffix).suffixes = formula.suffixes ++ [suffix] := by
  cases suffix <;> rfl

end

/-- Every formula is a beginning, or one that stands before a call or a position. -/
theorem induction_head {motive : Formula → Prop}
    (beginning : ∀ formula, formula.head = formula → formula.suffixes = [] → motive formula)
    (extend : ∀ formula suffix, motive formula → motive (formula.extend suffix))
    (formula : Formula) : motive formula := by
  induction formula using head.induct with
  | case1 callee arguments ih => exact extend callee (.call arguments) ih
  | case2 collection position ih => exact extend collection (.index position) ih
  | case3 formula call index =>
    cases formula with
    | call callee arguments => exact absurd rfl (call callee arguments)
    | index collection position => exact absurd rfl (index collection position)
    | _ => exact beginning _ rfl rfl

theorem foldl_extend (formula : Formula) : formula.suffixes.foldl extend formula.head = formula := by
  induction formula using induction_head with
  | beginning formula head none => rw [none, head, List.foldl_nil]
  | extend formula suffix ih => simp [ih]

theorem text_eq (formula : Formula) :
    formula.text = formula.head.text ++ formula.suffixes.flatMap Suffix.text := by
  induction formula using induction_head with
  | beginning formula head none => simp [none, head]
  | extend formula suffix ih => simp [ih]

theorem suffixes_head (formula : Formula) : formula.head.suffixes = [] := by
  induction formula using induction_head with
  | beginning formula head none => rw [head, none]
  | extend formula suffix ih => rw [head_extend, ih]

/-! ## What stands inside -/

/-- The formulas that stand between brackets or parentheses of their own. -/
def inner : Formula → List Formula
  | leaf _ => []
  | unary _ operand => [operand]
  | binary _ left right => [left, right]
  | call callee arguments => inner callee ++ arguments
  | array elements => elements
  | index collection position => inner collection ++ [position]

/-- The formulas that stand inside of what stands behind an expression. -/
def Suffix.parts : Suffix → List Formula
  | call arguments => arguments
  | index position => [position]

@[simp] theorem inner_extend (formula : Formula) (suffix : Suffix) :
    (formula.extend suffix).inner = formula.inner ++ suffix.parts := by
  cases suffix <;> rfl

theorem inner_eq (formula : Formula) :
    formula.inner = formula.head.inner ++ formula.suffixes.flatMap Suffix.parts := by
  induction formula using induction_head with
  | beginning formula head none => simp [none, head]
  | extend formula suffix ih => simp [ih]

theorem sizeOf_lt_of_mem_inner {formula part : Formula} (h : part ∈ formula.inner) :
    sizeOf part < sizeOf formula := by
  fun_induction inner formula with
  | case1 => simp at h
  | case2 sign operand =>
    rw [List.mem_singleton.mp h, unary.sizeOf_spec]
    omega
  | case3 operator left right =>
    rw [binary.sizeOf_spec]
    rcases List.mem_pair.mp h with rfl | rfl <;> omega
  | case4 callee arguments ih =>
    rw [call.sizeOf_spec]
    rcases List.mem_append.mp h with before | given
    · have := ih before
      omega
    · have := List.sizeOf_lt_of_mem given
      omega
  | case5 elements =>
    have := List.sizeOf_lt_of_mem h
    rw [array.sizeOf_spec]
    omega
  | case6 collection position ih =>
    rw [index.sizeOf_spec]
    rcases List.mem_append.mp h with before | place
    · have := ih before
      omega
    · rw [List.mem_singleton.mp place]
      omega

/-- What a formula has whenever all that stands inside of it has it, every formula has. -/
theorem induction_inner {motive : Formula → Prop}
    (step : ∀ formula : Formula, (∀ part ∈ formula.inner, motive part) → motive formula)
    (formula : Formula) : motive formula :=
  step formula fun part _ => induction_inner step part
termination_by sizeOf formula
decreasing_by exact sizeOf_lt_of_mem_inner ‹_›

end Formula

namespace Node

mutual

/-- A node has the text of the formula that it shows. -/
theorem Shows.exists_text {node : Node} {formula : Formula} (h : node.Shows formula) :
    ∃ text, node.textOf = .ok text ∧ text.toList = formula.text := by
  cases h with
  | identifier good => exact ⟨_, rfl, rfl⟩
  | integer good => exact ⟨_, rfl, rfl⟩
  | boolean said => exact ⟨_, rfl, by rw [said]; rfl⟩
  | unary sign operand_shows =>
    obtain ⟨inside, htext, same⟩ := operand_shows.exists_text
    refine ⟨"(" ++ sign.val ++ inside ++ ")", by rw [textOf, htext]; rfl, ?_⟩
    simp [Formula.text, same]
  | binary operator left_shows right_shows =>
    obtain ⟨first, hfirst, same⟩ := left_shows.exists_text
    obtain ⟨second, hsecond, same'⟩ := right_shows.exists_text
    refine ⟨"(" ++ first ++ " " ++ operator.val ++ " " ++ second ++ ")", ?_, ?_⟩
    · rw [textOf, hfirst, hsecond]
      rfl
    · simp [Formula.text, same, same']
  | call callee_shows arguments_show =>
    obtain ⟨called, hcalled, same⟩ := callee_shows.exists_text
    obtain ⟨given, hgiven, same'⟩ := exists_textOfList arguments_show
    refine ⟨called ++ "(" ++ given ++ ")", by rw [textOf, hcalled, hgiven]; rfl, ?_⟩
    simp [Formula.text, same, same']
  | array elements_show =>
    obtain ⟨listed, hlisted, same⟩ := exists_textOfList elements_show
    refine ⟨"[" ++ listed ++ "]", by rw [textOf, hlisted]; rfl, ?_⟩
    simp [Formula.text, same]
  | index collection_shows position_shows =>
    obtain ⟨indexed, hindexed, same⟩ := collection_shows.exists_text
    obtain ⟨place, hplace, same'⟩ := position_shows.exists_text
    refine ⟨indexed ++ "[" ++ place ++ "]", by rw [textOf, hindexed, hplace]; rfl, ?_⟩
    simp [Formula.text, same, same']

theorem exists_textOfList {nodes : List Node} {formulas : List Formula}
    (h : List.Forall₂ Shows nodes formulas) :
    ∃ text, textOfList nodes = .ok text ∧ text.toList = Formula.textOfList formulas := by
  cases h with
  | nil => exact ⟨"", rfl, rfl⟩
  | cons first others =>
    obtain ⟨head, hhead, same⟩ := first.exists_text
    obtain ⟨tail, htail, same'⟩ := exists_textOfList others
    cases others with
    | nil => exact ⟨head, hhead, by simp [Formula.textOfList, Formula.textOfOthers, same]⟩
    | cons second others =>
      refine ⟨head ++ ", " ++ tail, by rw [textOfList, hhead, htail]; rfl, ?_⟩
      simp [Formula.textOfList, Formula.textOfOthers, same, same']

end

end Node

end MonkeyLang
