import MonkeyLang.Proofs.Lexing.Juncture
import MonkeyLang.Proofs.Lexing.Shift
import MonkeyLang.Proofs.Syntax.Extension
import MonkeyLang.Proofs.Syntax.RelocatedParsing

/-!
# Programs in a row

A text that is read without a fault and whose last statement ends with its semicolon may be
followed by any other text. Nothing that was decided in the first text depends on what follows that
semicolon, and the parser is then where it starts on the second text alone.
-/
namespace MonkeyLang.Parser

variable {α : Type} {item : Parser α} {eof : Token}

/-- What the last run of the parser leaves when it runs again and again, one token further on each
time, up to the end. -/
def lastLeft (item : Parser α) (eof : Token) : List Token → List Token
  | [] => []
  | token :: tokens =>
    let left := (item.run eof (token :: tokens)).rest
    if left.tail = [] then left else lastLeft item eof left.tail
termination_by tokens => tokens.length
decreasing_by exact length_tail_rest_lt ..

theorem lastLeft_suffix (item : Parser α) (eof : Token) (tokens : List Token) :
    lastLeft item eof tokens <:+ tokens := by
  fun_induction lastLeft item eof tokens with
  | case1 => exact List.suffix_rfl
  | case2 token tokens left ended => exact item.rest_suffix eof (token :: tokens)
  | case3 token tokens left more ih =>
    exact ih.trans ((List.tail_suffix left).trans (item.rest_suffix eof (token :: tokens)))

/-- A clean turn of the loop adds its value and no fault. -/
theorem run_manyUntil_of_reads (stop : Kind → Bool) {token : Token} {tokens middle : List Token}
    {value : α} (go : ¬ stop token.kind) (head : Reads item eof (token :: tokens) value middle) :
    ((manyUntil stop item).run eof (token :: tokens)).value =
        value :: ((manyUntil stop item).run eof middle.tail).value ∧
      ((manyUntil stop item).run eof (token :: tokens)).faults =
        ((manyUntil stop item).run eof middle.tail).faults := by
  simp only [run_manyUntil]
  rw [manyUntilOutcome, if_neg go]
  simp only [head.value_eq, head.rest_eq, head.faults_eq, List.nil_append, and_self]

end MonkeyLang.Parser

namespace MonkeyLang.Derivation
open MonkeyLang.Grammar MonkeyLang.Parser

/-- Where the last token read is no semicolon, skipping starts behind it. -/
theorem skipped_eq {eof : Token} {middle : List Token}
    (last : (currentOf eof middle).kind ≠ .semicolon) :
    middle.drop (middle.findIdx (·.kind == .semicolon)) =
      middle.tail.dropWhile (·.kind != .semicolon) := by
  rw [drop_findIdx_semicolon]
  cases middle with
  | nil => rfl
  | cons token tokens =>
    rw [currentOf_cons] at last
    rw [List.dropWhile_cons_of_pos (by simpa using last), List.tail_cons]

/-- What the parser reads up to a semicolon at the end of the input it reads up to that semicolon
before any tokens. -/
def Settles (eof eof' : Token) (p : Parser Node) : Prop :=
  ∀ {first semicolon : Token} {tokens : List Token} {node : Node}, semicolon.kind = .semicolon →
    Reads p eof (first :: tokens) node [semicolon] →
    ∀ more, Reads p eof' (first :: (tokens ++ more)) node (semicolon :: more)

section

variable {eof eof' : Token} {expression : ExpressionParser} {inner : Int → Phrase Node}
  (ended : eof.kind = .eof) (ended' : eof'.kind = .eof)
  (recognized : RecognizesAll eof expression inner)
  (recognized' : RecognizesAll eof' expression inner)
  (extends_inner : ∀ floor, Extends (inner floor))

include recognized recognized' extends_inner

/-- An expression in front of a token is read in the same way when more tokens follow. -/
theorem reads_expression_append {floor : Int} {tokens middle : List Token} {value : Node}
    (h : Reads (expression floor) eof tokens value middle) (behind : middle.tail ≠ [])
    (more : List Token) :
    ∃ left, Reads (expression floor) eof' (tokens ++ more) value left ∧
      left.tail = middle.tail ++ more ∧ (currentOf eof' left).kind ≠ .semicolon := by
  have phrase := extends_inner floor (recognized.sound h).1 behind more
  obtain ⟨left, hread, hl⟩ := recognized'.complete phrase
  exact ⟨left, hread, hl, (recognized'.sound hread).2⟩

/-- An expression whose optional semicolon is there is read up to it before any tokens. -/
theorem reads_optional_append {floor : Int} {tokens middle : List Token} {value : Node}
    {semicolon : Token} (kind : semicolon.kind = .semicolon)
    (h : Reads (expression floor) eof tokens value middle)
    (skip : [semicolon] =
      if (upcomingOf eof middle).kind = .semicolon then middle.tail else middle)
    (more : List Token) :
    ∃ left, Reads (expression floor) eof' (tokens ++ more) value left ∧ semicolon :: more =
      if (upcomingOf eof' left).kind = .semicolon then left.tail else left := by
  have behind : middle.tail = [semicolon] := by
    split at skip
    · exact skip.symm
    · have last := (recognized.sound h).2
      rw [← skip] at last
      exact absurd kind last
  obtain ⟨left, hread, hl, -⟩ :=
    reads_expression_append recognized recognized' extends_inner h (by simp [behind]) more
  rw [behind, List.singleton_append] at hl
  refine ⟨left, hread, ?_⟩
  rw [upcomingOf_of_tail hl, if_pos kind, hl]

include ended ended' in
theorem settles_letStatement : Settles eof eof' (letStatement expression) := by
  intro first semicolon tokens node kind h more
  rw [letStatement, reads_current_bind, reads_expect_iff ended (by decide)] at h
  obtain ⟨name, rest, hname, name_kind, h⟩ := h
  rw [reads_current_bind, reads_expect_iff ended (by decide)] at h
  obtain ⟨assign, rest', hassign, assign_kind, h⟩ := h
  rw [reads_advance_bind, reads_bind] at h
  obtain ⟨value, middle, hvalue, h⟩ := h
  rw [reads_skipOptional_bind, reads_pure] at h
  obtain ⟨rfl, skip⟩ := h
  obtain ⟨left, hread, hleft⟩ :=
    reads_optional_append recognized recognized' extends_inner kind hvalue skip more
  rw [List.tail_cons] at hname hassign
  rw [letStatement, reads_current_bind, reads_expect_iff ended' (by decide), hname, hassign]
  refine ⟨name, assign :: (rest' ++ more), rfl, name_kind, ?_⟩
  rw [reads_current_bind, reads_expect_iff ended' (by decide)]
  refine ⟨assign, rest' ++ more, rfl, assign_kind, ?_⟩
  rw [reads_advance_bind, reads_bind]
  exact ⟨value, left, hread, reads_skipOptional_bind.mpr (reads_pure.mpr ⟨rfl, hleft⟩)⟩

theorem settles_returnStatement : Settles eof eof' (returnStatement expression) := by
  intro first semicolon tokens node kind h more
  rw [returnStatement, reads_current_bind, reads_advance_bind, reads_bind] at h
  obtain ⟨value, middle, hvalue, h⟩ := h
  rw [reads_skipTo_bind, reads_pure, skipped_eq (recognized.sound hvalue).2] at h
  obtain ⟨rfl, skip⟩ := h
  have behind : middle.tail ≠ [] := by
    intro none
    simp [none] at skip
  obtain ⟨left, hread, hl, last⟩ :=
    reads_expression_append recognized recognized' extends_inner hvalue behind more
  rw [returnStatement, reads_current_bind, reads_advance_bind, reads_bind]
  refine ⟨value, left, hread, reads_skipTo_bind.mpr (reads_pure.mpr ⟨rfl, ?_⟩)⟩
  rw [skipped_eq last, hl, List.dropWhile_append, ← skip]
  rfl

theorem settles_exprStatement : Settles eof eof' (exprStatement expression) := by
  intro first semicolon tokens node kind h more
  rw [exprStatement, reads_current_bind, reads_bind] at h
  obtain ⟨value, middle, hvalue, h⟩ := h
  rw [reads_skipOptional_bind, reads_pure] at h
  obtain ⟨rfl, skip⟩ := h
  obtain ⟨left, hread, hleft⟩ :=
    reads_optional_append recognized recognized' extends_inner kind hvalue skip more
  rw [exprStatement, reads_current_bind, reads_bind]
  exact ⟨value, left, hread, reads_skipOptional_bind.mpr (reads_pure.mpr ⟨rfl, hleft⟩)⟩

include ended ended' in
theorem settles_statement : Settles eof eof' (statement expression) := by
  intro first semicolon tokens node kind h more
  rw [statement, reads_current_bind, currentOf_cons] at h ⊢
  refine (?_ : Settles eof eof' _) kind h more
  split
  · exact settles_letStatement ended ended' recognized recognized' extends_inner
  · exact settles_returnStatement recognized recognized' extends_inner
  · exact settles_exprStatement recognized recognized' extends_inner

include ended ended' in
/-- The loop over statements that were read cleanly, the last one up to its semicolon, goes on with
whatever follows as it goes on from there alone. -/
theorem run_statements_append {tokens left : List Token} {nodes : List Node} {semicolon : Token}
    (turns : Turns (fun _ => false) (statement expression) eof tokens nodes left)
    (kind : semicolon.kind = .semicolon)
    (last : lastLeft (statement expression) eof tokens = [semicolon]) (more : List Token) :
    ((manyUntil (fun _ => false) (statement expression)).run eof' (tokens ++ more)).value = nodes ++
        ((manyUntil (fun _ => false) (statement expression)).run eof' more).value ∧
      ((manyUntil (fun _ => false) (statement expression)).run eof' (tokens ++ more)).faults =
        ((manyUntil (fun _ => false) (statement expression)).run eof' more).faults := by
  induction turns with
  | ended => simp [lastLeft] at last
  | stopped h => exact absurd h (by decide)
  | @turn token tokens middle left node nodes go head tail ih =>
    rw [lastLeft] at last
    simp only [head.rest_eq] at last
    -- both ways the statement is read as before, and what it leaves is followed by what is new
    have moved : ∃ left, Reads (statement expression) eof' (token :: (tokens ++ more)) node left ∧
        left.tail = middle.tail ++ more := by
      by_cases further : middle.tail = []
      · rw [if_pos further] at last
        rw [last] at head ⊢
        exact ⟨semicolon :: more, settles_statement ended ended' recognized recognized'
          extends_inner kind head more, rfl⟩
      · have phrase := extends_statement extends_inner (statement_of_reads ended recognized head)
          further more
        refine reads_of_statement ended' recognized' phrase fun next hnext => ?_
        rw [List.head?_append_of_ne_nil _ further] at hnext
        have unstopped : ∀ kind, (fun _ : Kind => false) kind → kind = .rbrace := by simp
        obtain ⟨others, at_stop⟩ := statements_of_turns ended recognized tail
        exact (turns_of_statements ended recognized unstopped others at_stop).2 next hnext
    obtain ⟨left, hread, hl⟩ := moved
    obtain ⟨values, faults⟩ := run_manyUntil_of_reads (fun _ => false) go hread
    rw [List.cons_append, values, faults, hl]
    by_cases further : middle.tail = []
    · rw [further] at tail ⊢
      cases tail with
      | ended => exact ⟨rfl, rfl⟩
    · rw [if_neg further] at last
      obtain ⟨others, clean⟩ := ih last
      exact ⟨congrArg (node :: ·) others, clean⟩

end

end MonkeyLang.Derivation

namespace MonkeyLang
open MonkeyLang.Derivation MonkeyLang.Grammar MonkeyLang.Parser

theorem run_program (eof : Token) (tokens : List Token) :
    (program.run eof tokens).value = .program (((manyUntil (fun _ => false)
        (statement expression)).run eof tokens).value.filter Node.isPresent) ∧
      (program.run eof tokens).faults =
        ((manyUntil (fun _ => false) (statement expression)).run eof tokens).faults := by
  simp [program, statements]

/-- A program that was read cleanly, its last statement up to its semicolon, keeps its statements
when more tokens follow, and these give what they give alone. -/
theorem run_program_append {eof eof' : Token} (ended : eof.kind = .eof) (ended' : eof'.kind = .eof)
    {tokens left : List Token} {tree : Node} (clean : Reads program eof tokens tree left)
    (last : ∃ semicolon : Token, semicolon.kind = .semicolon ∧
      lastLeft (statement expression) eof tokens = [semicolon]) (more : List Token) :
    ∃ nodes others, tree = .program nodes ∧ (program.run eof' more).value = .program others ∧
      (program.run eof' (tokens ++ more)).value = .program (nodes ++ others) ∧
      (program.run eof' (tokens ++ more)).faults = (program.run eof' more).faults := by
  have recognized := expressionWithin_recognizes ended maxNesting
  have recognized' := expressionWithin_recognizes ended' maxNesting
  obtain ⟨semicolon, kind, last⟩ := last
  rw [program, statements, bind_assoc, reads_bind] at clean
  obtain ⟨values, middle, turns, clean⟩ := clean
  simp only [pure_bind, reads_pure] at clean
  obtain ⟨rfl, rfl⟩ := clean
  rw [reads_manyUntil] at turns
  have present := (statements_of_turns ended recognized turns).1.isPresent
  obtain ⟨all, faults⟩ := run_statements_append ended ended' recognized recognized'
    (extends_expression maxNesting) turns kind last more
  refine ⟨_, _, rfl, (run_program eof' more).1, ?_, ?_⟩
  · rw [(run_program eof' _).1, expression, all, List.filter_append]
  · rw [(run_program eof' _).2, (run_program eof' more).2, expression, faults]

/-- The diagnostic at its place when another text is put in front. -/
def Diagnostic.shift (front : String) (diagnostic : Diagnostic) : Diagnostic :=
  { diagnostic with location := diagnostic.location.map (.shift front) }

theorem Fault.diagnostic_relocate (front : String) (fault : Fault) :
    (fault.relocate (.shift front)).diagnostic = fault.diagnostic.shift front := by
  unfold diagnostic Diagnostic.shift
  rw [message_relocate]
  cases fault <;> rfl

/-- A text that may stand before another one is lexed alone, and the other one as if this text stood
in front of it. -/
theorem Lexer.supply_append {first second : String} {pieces : List Piece}
    (h : LayoutBefore second.toList pieces first.toList) (file : String) :
    (ofText (first ++ second) file).tokens = (ofText first file).tokens ++
        (ofText second file).tokens.map (Relocation.shift first).move ∧
      (ofText (first ++ second) file).eof =
        (Relocation.shift first).move (ofText second file).eof := by
  have counted : 1 ≤ (ofText second file).position.line := Nat.le_refl 1
  have drained := drain_append h file .start
  rw [Position.afterAll_start, ← String.toList_append] at drained
  constructor
  · rw [← tokens_shift counted]
    exact congrArg Prod.fst drained
  · rw [← eof_shift counted]
    exact congrArg (·.2.next.1) drained

/-- The last statement of the text ends with a semicolon as its current token, the last token of the
text. -/
def EndsStatement (text file : String) : Prop :=
  ∃ semicolon : Token, semicolon.kind = .semicolon ∧ lastLeft (statement expression)
    (Lexer.ofText text file).eof (Lexer.ofText text file).tokens = [semicolon]

theorem EndsStatement.before {text file : String} (h : EndsStatement text file)
    (behind : List Char) : ∃ pieces, LayoutBefore behind pieces text.toList := by
  obtain ⟨semicolon, kind, last⟩ := h
  obtain ⟨pieces, layout, contents⟩ := (Lexer.ofText text file).exists_layout
  refine ⟨pieces, layout.before_of_semicolon ?_ behind⟩
  have whole := lastLeft_suffix (statement expression) (Lexer.ofText text file).eof
    (Lexer.ofText text file).tokens
  rw [last] at whole
  obtain ⟨earlier, whole⟩ := whole
  have final : pieces.getLast?.map Piece.content = some semicolon.content := by
    rw [← List.getLast?_map, ← contents, ← whole, List.map_append, List.map_singleton,
      List.getLast?_concat]
  obtain ⟨piece, member, content⟩ := Option.map_eq_some_iff.mp final
  exact ⟨piece, member, (congrArg Prod.fst content).trans kind⟩

/-- Texts in a row are parsed like each of them alone. The first has to be read without a report and
its last statement has to end with the semicolon at its end; the second may be any text. It keeps
its statements and its reports, all of them moved behind the first. -/
theorem parse_append {first : String} (second file : String)
    (clean : (parse first file).log.entries = []) (ends : EndsStatement first file) :
    ∃ nodes others, (parse first file).tree = .program nodes ∧
      (parse second file).tree = .program others ∧
      (parse (first ++ second) file).tree =
        .program (nodes ++ others.map (Node.relocate (.shift first))) ∧
      (parse (first ++ second) file).log.entries =
        (parse second file).log.entries.map (Diagnostic.shift first) := by
  obtain ⟨pieces, before⟩ := ends.before second.toList
  obtain ⟨tokens, eof⟩ := Lexer.supply_append before file
  have ended := (Lexer.ofText first file).kind_eof
  have ended' : ((Relocation.shift first).move (Lexer.ofText second file).eof).kind = .eof := by
    rw [Relocation.kind_move, Lexer.kind_eof]
  have reads : Reads program (Lexer.ofText first file).eof (Lexer.ofText first file).tokens
      (parse first file).tree _ := ⟨rfl, rfl, List.map_eq_nil_iff.mp clean⟩
  obtain ⟨nodes, moved, tree, value, all, faults⟩ := run_program_append ended ended' reads ends
    ((Lexer.ofText second file).tokens.map (Relocation.shift first).move)
  obtain ⟨others, alone⟩ : ∃ others, (parse second file).tree = .program others :=
    ⟨_, (run_program _ _).1⟩
  have second_run := relocates_program (r := .shift first) (Lexer.ofText second file).eof
    (Lexer.ofText second file).tokens
  rw [second_run] at value faults
  rw [← tokens, ← eof] at all faults
  have moves : (parse second file).tree.relocate (.shift first) = .program moved := value
  rw [alone, Node.relocate, Node.relocateAll_eq_map] at moves
  obtain rfl := Node.program.inj moves
  refine ⟨nodes, others, tree, alone, all, ?_⟩
  have reported : (parse (first ++ second) file).log.entries =
      (((program.run (Lexer.ofText second file).eof (Lexer.ofText second file).tokens).faults.map
        (Fault.relocate (.shift first))).map Fault.diagnostic) :=
    congrArg (List.map Fault.diagnostic) faults
  rw [reported, List.map_map]
  have told : Fault.diagnostic ∘ Fault.relocate (.shift first) =
      Diagnostic.shift first ∘ Fault.diagnostic :=
    funext (Fault.diagnostic_relocate first)
  rw [told, ← List.map_map]
  rfl

/-- A second text with three faults, the first of them on its first line, keeps them behind a text
that ends in the middle of a line. -/
theorem parse_append_threeFaults :
    (parse ";)\nlet 5").log.size = 3 ∧
    (parse ("let a = 1;\nreturn a b;" ++ ";)\nlet 5")).log.entries =
      (parse ";)\nlet 5").log.entries.map (Diagnostic.shift "let a = 1;\nreturn a b;") ∧
    (parse ("let a = 1;\nreturn a b;" ++ ";)\nlet 5")).log.entries.head?.bind (·.location) =
      some ⟨Lexer.unnamed, 2, 12, none, none⟩ := by
  have clean : (parse "let a = 1;\nreturn a b;").log.entries = [] := by decide +kernel
  have ends : EndsStatement "let a = 1;\nreturn a b;" Lexer.unnamed :=
    ⟨⟨.semicolon, ";", some ⟨Lexer.unnamed, 2, 11, none, none⟩⟩, rfl, by decide +kernel⟩
  obtain ⟨-, -, -, -, -, moved⟩ := parse_append ";)\nlet 5" Lexer.unnamed clean ends
  have three : (parse ";)\nlet 5").log.size = 3 := by decide +kernel
  refine ⟨three, moved, ?_⟩
  decide +kernel

end MonkeyLang
