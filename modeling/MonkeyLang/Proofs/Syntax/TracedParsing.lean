import MonkeyLang.Proofs.Lexing.Supply
import MonkeyLang.Proofs.Syntax.Trace
import MonkeyLang.Program

/-!
# Tracing the grammar

Each rule of the grammar has a trace, given that the parser for the inner expressions does; by
induction on the levels of nesting so has the parser for all of them. A rule that starts at its own
token runs up a debt of one fault at most, and so does a whole program.
-/
namespace MonkeyLang.Grammar
open MonkeyLang.Parser MonkeyLang.Node

/-- The kind of a token with which an expression starts is a legal one. -/
theorem ne_illegal_of_opening {kind : Kind} (h : kind.opening?.isSome) : kind ≠ .illegal := by
  rintro rfl
  simp [Kind.opening?] at h

theorem ne_illegal_of_continuation {kind : Kind} (h : kind.continuation?.isSome) :
    kind ≠ .illegal := by
  rintro rfl
  simp [Kind.continuation?] at h

theorem kind_of_opening_integer {kind : Kind} (h : kind.opening? = some .integer) :
    kind = .int := by
  revert h
  cases kind <;> simp [Kind.opening?]

theorem kind_of_opening_group {kind : Kind} (h : kind.opening? = some .group) :
    kind = .lparen := by
  revert h
  cases kind <;> simp [Kind.opening?]

/-- Digits that denote no integer of the language are too many or denote too great a number. -/
theorem outside_of_integerValue? {digits : List Char} (h : integerValue? digits = none) :
    4300 < digits.length ∨ 0x7fffffffffffffff < Nat.ofDigitChars 10 digits 0 := by
  unfold integerValue? at h
  by_cases many : maxDigits < digits.length
  · exact .inl many
  · by_cases great : maxInteger < Nat.ofDigitChars 10 digits 0
    · exact .inr great
    · simp [many, great] at h

variable {eof : Token} {expression : ExpressionParser}

theorem traced_integer {token : Token} {tokens : List Token} (kind : token.kind = .int) :
    Traced eof .fresh 1 [] child integer (token :: tokens) := by
  refine traced_current_bind ?_
  rw [currentOf_cons]
  split
  · exact .keep (by simp [kind]) .idle
  · rename_i outside
    exact traced_report (.malformedInteger kind (outside_of_integerValue? outside)) rfl rfl

section

variable (ended : eof.kind = .eof)
  (inner : ∀ floor tokens, Traced eof .fresh 1 [] child (expression floor) tokens)

include inner

theorem traced_unary {token : Token} {tokens : List Token} (legal : token.kind ≠ .illegal) :
    Traced eof .fresh 1 [] child (unary expression) (token :: tokens) := by
  refine traced_keep_bind legal (traced_advance_bind ?_)
  refine traced_behind_bind (inner _ _) fun operand rest => ?_
  exact traced_pure (by simp [child, slots, gap])

theorem traced_binary {operator : Token} {left : Node} {tokens : List Token}
    (legal : operator.kind ≠ .illegal) :
    Traced eof .fresh 1 left.child child (binary expression left) (operator :: tokens) := by
  refine traced_keep_bind legal (traced_advance_bind ?_)
  refine traced_behind_bind (inner _ _) fun right rest => ?_
  exact traced_pure (by simp [child, slots, gap])

/-- What stands behind the value of a return is skipped without a trace in the tree. -/
theorem traced_returnStatement {token : Token} {tokens : List Token}
    (keyword : token.kind = .kwReturn) :
    Traced eof .fresh 1 [] slots (returnStatement expression) (token :: tokens) := by
  have valued : Traced eof .fresh 1 [] slots (do
      let token ← current
      advance
      let value ← anyExpression expression
      return .returnStatement token value) (token :: tokens) := by
    refine traced_keep_bind (by simp [keyword]) (traced_advance_bind ?_)
    refine traced_behind_bind (inner _ _) fun value rest => ?_
    exact traced_pure (by simp [child, slots])
  have skipped := traced_skipTo .semicolon keyword valued
  simpa only [returnStatement, bind_assoc, pure_bind] using skipped

include ended

theorem traced_letStatement {token : Token} {tokens : List Token} (legal : token.kind ≠ .illegal) :
    Traced eof .fresh 1 [] child (letStatement expression) (token :: tokens) := by
  refine traced_keep_bind legal ?_
  refine traced_expect ended (by decide) rfl fun name rest hname => ?_
  refine traced_keep_bind (by simp [hname]) ?_
  refine traced_expect_passed ended (by decide) (by decide) rfl fun assign rest => ?_
  refine traced_advance_bind ?_
  refine traced_behind_bind (inner _ _) fun value rest => ?_
  refine traced_skipOptional_bind ended (by decide) (by decide) fun rest => ?_
  exact traced_pure (by simp [child, slots, gap])

theorem traced_exprStatement {tokens : List Token} :
    Traced eof .fresh 1 [] slots (exprStatement expression) tokens := by
  refine traced_current_bind ?_
  refine traced_behind_bind (inner _ _) fun value rest => ?_
  refine traced_skipOptional_bind ended (by decide) (by decide) fun rest => ?_
  exact traced_pure (by simp [child, slots])

/-- A statement that could not be built is a binding, and leaves no gap. -/
theorem traced_statement {token : Token} {tokens : List Token} :
    Traced eof .fresh 1 [] slots (statement expression) (token :: tokens) := by
  refine traced_current_bind ?_
  rw [currentOf_cons]
  split
  · rename_i keyword
    exact traced_unbound keyword (traced_letStatement ended inner (by simp [keyword]))
  · rename_i keyword
    exact traced_returnStatement inner keyword
  · exact traced_exprStatement ended inner

theorem traced_statements {stop : Kind → Bool} {tokens : List Token}
    (stops : ∀ kind, stop kind → kind ∈ Kind.unkept) :
    Traced eof .fresh 1 [] memberSlots (statements stop expression) tokens := by
  refine traced_bind (traced_manyUntil ended stops fun _ _ => traced_statement ended inner)
    fun nodes rest => ?_
  exact traced_pure (by rw [memberSlots_filter, memberSlots_eq_flatMap])

theorem traced_block {brace : Token} {tokens : List Token} (kind : brace.kind = .lbrace) :
    Traced eof .fresh 0 [] slots (block expression) (brace :: tokens) := by
  refine traced_keep_bind (by simp [kind]) (traced_advance_bind ?_)
  refine traced_behind_bind (traced_statements ended inner (by simp [Kind.unkept]))
    fun nodes rest => ?_
  exact traced_pure (by simp [slots])

theorem traced_group {opener : Token} {tokens : List Token} (kind : opener.kind = .lparen) :
    Traced eof .fresh 1 [] child (group expression) (opener :: tokens) := by
  refine traced_pass (by simp [kind, Kind.unkept]) (traced_advance_bind ?_)
  refine traced_behind_bind (inner _ _) fun node rest => ?_
  exact traced_expect_passed ended (by decide) (by decide) rfl fun _ _ => traced_pure rfl

theorem traced_conditional {token : Token} {tokens : List Token} (legal : token.kind ≠ .illegal) :
    Traced eof .fresh 1 [] child (conditional expression) (token :: tokens) := by
  refine traced_keep_bind legal ?_
  refine traced_expect_passed ended (by decide) (by decide) rfl fun opener rest => ?_
  refine traced_advance_bind ?_
  refine traced_behind_bind (inner _ _) fun condition rest => ?_
  refine traced_expect_passed ended (by decide) (by decide) rfl fun closer rest => ?_
  refine traced_expect ended (by decide) rfl fun brace rest hbrace => ?_
  refine traced_free_bind (traced_block ended inner hbrace) fun consequence rest => ?_
  refine traced_upcoming_bind ?_
  split_ifs with hnext
  · obtain ⟨last, kwElse, rest, rfl, helse⟩ := eq_cons_cons_of_upcomingOf ended (by decide) hnext
    refine traced_advance_bind (traced_pass (by simp [helse, Kind.unkept]) ?_)
    refine traced_expect ended (by decide) rfl fun brace rest hbrace => ?_
    refine traced_free_bind (traced_block ended inner hbrace) fun alternative rest => ?_
    exact traced_pure (by simp [child, slots, gap])
  · exact traced_pure (by simp [child, slots, gap])

omit inner in
theorem traced_parameter {tokens : List Token} :
    Traced eof .fresh 1 [] child parameter tokens := by
  refine traced_current_bind ?_
  split_ifs with kind
  · cases tokens with
    | nil => simp [ended] at kind
    | cons token tokens =>
      exact .keep (by simp [show token.kind = .ident from kind]) .idle
  · exact traced_report (.unexpected (Ne.symm kind)) rfl rfl

theorem traced_function {token : Token} {tokens : List Token} (legal : token.kind ≠ .illegal) :
    Traced eof .fresh 1 [] child (function expression) (token :: tokens) := by
  refine traced_keep_bind legal ?_
  refine traced_expect_passed ended (by decide) (by decide) rfl fun opener rest => ?_
  refine traced_behind_bind (traced_commaList ended (by decide) (by decide)
    fun _ => traced_parameter ended) fun parameters? rest => ?_
  cases parameters? with
  | none => exact traced_pure_lost (by simp [listShape]) rfl
  | some parameters =>
    simp only
    split_ifs with hall
    · refine traced_expect ended (by decide) rfl fun brace rest hbrace => ?_
      refine traced_free_bind (traced_block ended inner hbrace) fun body rest => ?_
      exact traced_pure (by simp [child, slots, gap, listShape, childSlots_of_all hall])
    · exact traced_pure_lost (by simp [listShape, none_mem_childSlots hall]) rfl

theorem traced_array {token : Token} {tokens : List Token} (legal : token.kind ≠ .illegal) :
    Traced eof .fresh 1 [] child (array expression) (token :: tokens) := by
  refine traced_keep_bind legal ?_
  refine traced_behind_bind (traced_commaList ended (by decide) (by decide) (inner _))
    fun elements? rest => ?_
  cases elements? with
  | none => exact traced_pure_lost (by simp [listShape]) rfl
  | some elements => exact traced_pure (by simp [child, slots, gap, listShape])

theorem traced_call {opener : Token} {callee : Node} {tokens : List Token}
    (legal : opener.kind ≠ .illegal) :
    Traced eof .fresh 1 callee.child child (call expression callee) (opener :: tokens) := by
  refine traced_keep_bind legal ?_
  refine traced_behind_bind (traced_commaList ended (by decide) (by decide) (inner _))
    fun arguments? rest => ?_
  cases arguments? with
  | none => exact traced_pure_lost (by simp [listShape]) rfl
  | some arguments => exact traced_pure (by simp [child, slots, gap, listShape])

theorem traced_index {opener : Token} {collection : Node} {tokens : List Token}
    (legal : opener.kind ≠ .illegal) :
    Traced eof .fresh 1 collection.child child (index expression collection)
      (opener :: tokens) := by
  refine traced_keep_bind legal (traced_advance_bind ?_)
  refine traced_behind_bind (inner _ _) fun position rest => ?_
  refine traced_expect_passed ended (by decide) (by decide) rfl fun closer rest => ?_
  exact traced_pure (by simp [child, slots, gap])

theorem traced_opening {start : Opening} {token : Token} {tokens : List Token}
    (opens : token.kind.opening? = some start) :
    Traced eof .fresh 1 [] child (opening expression start) (token :: tokens) := by
  have legal : token.kind ≠ .illegal := ne_illegal_of_opening (by rw [opens]; rfl)
  cases start with
  | identifier => exact traced_keep_bind legal (traced_pure rfl)
  | integer => exact traced_integer (kind_of_opening_integer opens)
  | string => exact traced_keep_bind legal (traced_pure rfl)
  | boolean value => exact traced_keep_bind legal (traced_pure rfl)
  | unary => exact traced_unary inner legal
  | group => exact traced_group ended inner (kind_of_opening_group opens)
  | conditional => exact traced_conditional ended inner legal
  | function => exact traced_function ended inner legal
  | array => exact traced_array ended inner legal

theorem traced_continuation {operator : Token} {left : Node} {tokens : List Token}
    (goes : operator.kind.continuation?.isSome) :
    Traced eof .fresh 1 left.child child (continuation expression left) (operator :: tokens) := by
  have legal := ne_illegal_of_continuation goes
  refine traced_current_bind ?_
  rw [currentOf_cons]
  split
  · exact traced_binary inner legal
  · exact traced_call ended inner legal
  · exact traced_index ended inner legal
  · rename_i stops
    simp [stops] at goes

theorem traced_expressionOver {floor : Int} {tokens : List Token} :
    Traced eof .fresh 1 [] child (expressionOver expression floor) tokens := by
  refine traced_current_bind ?_
  split
  · rename_i closed
    exact traced_report (.noExpression closed) rfl rfl
  · rename_i start opens
    cases tokens with
    | nil => simp [ended, Kind.opening?] at opens
    | cons token tokens =>
      refine traced_bind (traced_opening ended inner opens) fun left rest => ?_
      refine traced_whileNext rfl fun left operator rest go => ?_
      exact traced_continuation ended inner (Bool.and_eq_true_iff.mp go).1

end

theorem traced_expressionWithin (ended : eof.kind = .eof) (budget : Nat) (floor : Int)
    (tokens : List Token) :
    Traced eof .fresh 1 [] child (expressionWithin budget floor) tokens := by
  induction budget generalizing floor tokens with
  | zero => exact traced_current_bind (traced_report .tooDeep rfl rfl)
  | succ budget ih => exact traced_expressionOver ended ih

theorem traced_program (ended : eof.kind = .eof) (tokens : List Token) :
    Traced eof .fresh 1 [] slots program tokens := by
  refine traced_bind (traced_statements ended (traced_expressionWithin ended maxNesting) (by simp))
    fun nodes rest => ?_
  exact traced_pure rfl

/-- A loop without a stop kind reads all tokens. -/
theorem rest_manyUntilOutcome_never {α : Type} {stop : Kind → Bool} (never : ∀ kind, ¬ stop kind)
    (item : Parser α) (eof : Token) (tokens : List Token) :
    (manyUntilOutcome stop item eof tokens).rest = [] := by
  fun_induction manyUntilOutcome stop item eof tokens with
  | case1 => rfl
  | case2 token tokens stopped => exact absurd stopped (never token.kind)
  | case3 token tokens running first others ih => exact ih

theorem rest_program (eof : Token) (tokens : List Token) : (program.run eof tokens).rest = [] :=
  rest_manyUntilOutcome_never (by simp) (statement expression) eof tokens

end MonkeyLang.Grammar

namespace MonkeyLang

/-- What a program keeps and what is reported about it have a trace that reaches the end. -/
theorem parse_trace (text file : String) :
    ∃ (moves : Nat) (faults : List Fault),
      (parse text file).log.entries = faults.map Fault.diagnostic ∧
      (Lexer.ofText text file).tokens.length ≤ moves ∧
      Trace (Lexer.ofText text file).eof .fresh 1 (Lexer.ofText text file).tokens moves faults []
        (parse text file).tree.slots := by
  have ended := Lexer.kind_eof (Lexer.ofText text file)
  have whole := Grammar.rest_program (Lexer.ofText text file).eof (Lexer.ofText text file).tokens
  rw [Grammar.program.rest_run, List.drop_eq_nil_iff] at whole
  exact ⟨_, _, rfl, whole, Grammar.traced_program ended _⟩

theorem length_tokenize (text file : String) :
    (tokenize text file).length = (Lexer.ofText text file).tokens.length + 1 :=
  List.length_append

/-- All that is reported about a text are errors. -/
theorem isError_of_mem_parse {text file : String} {diagnostic : Diagnostic}
    (h : diagnostic ∈ (parse text file).log.entries) : diagnostic.isError := by
  obtain ⟨moves, faults, reported, -⟩ := parse_trace text file
  rw [reported] at h
  obtain ⟨fault, -, rfl⟩ := List.mem_map.mp h
  rfl

theorem hasErrors_parse_iff (text file : String) :
    (parse text file).log.hasErrors ↔ (parse text file).log.entries ≠ [] := by
  rw [Log.hasErrors, List.any_eq_true]
  constructor
  · rintro ⟨diagnostic, member, -⟩
    exact List.ne_nil_of_mem member
  · intro reported
    obtain ⟨diagnostic, member⟩ := List.exists_mem_of_ne_nil _ reported
    exact ⟨diagnostic, member, isError_of_mem_parse member⟩

end MonkeyLang
