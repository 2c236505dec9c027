import MonkeyLang.Proofs.Syntax.Recognition
import Mathlib.Data.List.TakeWhile

/-!
# Reading statements

Clean runs of the rules for statements and blocks are derivations, given that this holds for the
expressions in them. A missing semicolon is no choice of the parser's: where the next token is one
it belongs to the statement, since nothing can start with it.
-/
namespace MonkeyLang.Derivation
open MonkeyLang.Grammar MonkeyLang.Parser

variable {eof : Token} {expression : ExpressionParser} {inner : Int → Phrase Node}

theorem optionalSemicolon_of_skip (ended : eof.kind = .eof) (middle : List Token) :
    OptionalSemicolon middle.tail
      (if (upcomingOf eof middle).kind = .semicolon then middle.tail else middle).tail := by
  split_ifs with h
  · obtain ⟨semicolon, rest, ht, hkind⟩ := eq_cons_of_currentOf ended h (by decide)
    rw [ht]
    exact .present hkind
  · exact .missing

theorem skip_of_optionalSemicolon (ended : eof.kind = .eof) {middle behind rest : List Token}
    (hm : middle.tail = behind) (h : OptionalSemicolon behind rest)
    (stop : ∀ token ∈ rest.head?, token.kind ≠ .semicolon) :
    (if (upcomingOf eof middle).kind = .semicolon then middle.tail else middle).tail = rest := by
  cases h with
  | missing => rw [if_neg (upcomingOf_ne_of_head ended (by decide) (hm ▸ stop)), hm]
  | present kind => rw [upcomingOf_of_tail hm, if_pos kind, hm, List.tail_cons]

theorem drop_findIdx_semicolon (tokens : List Token) :
    tokens.drop (tokens.findIdx (·.kind == .semicolon)) =
      tokens.dropWhile (·.kind != .semicolon) := by
  rw [List.dropWhile_eq_drop_findIdx_not]
  congr 2
  funext token
  rw [bne, Bool.not_not]

/-- Behind a last token that is no semicolon, skipping stops at the terminator. -/
theorem terminator_of_skip {middle : List Token}
    (last : (currentOf eof middle).kind ≠ .semicolon) :
    ∃ skipped behind, middle.tail = skipped ++ behind ∧
      (∀ token ∈ skipped, token.kind ≠ .semicolon) ∧
      Terminator behind (middle.drop (middle.findIdx (·.kind == .semicolon))).tail := by
  rw [drop_findIdx_semicolon]
  cases middle with
  | nil => exact ⟨[], [], rfl, by simp, .endOfInput⟩
  | cons token tokens =>
    rw [currentOf_cons] at last
    refine ⟨tokens.takeWhile (·.kind != .semicolon), tokens.dropWhile (·.kind != .semicolon),
      List.takeWhile_append_dropWhile.symm, ?_, ?_⟩
    · intro skipped hs
      simpa using List.mem_takeWhile_imp hs
    · rw [List.dropWhile_cons_of_pos (by simpa using last)]
      cases hd : tokens.dropWhile (·.kind != .semicolon) with
      | nil => exact .endOfInput
      | cons semicolon rest =>
        have hs := List.head?_dropWhile_not (·.kind != .semicolon) tokens
        rw [hd] at hs
        exact .semicolon (by simpa using hs)

theorem skip_of_terminator {middle skipped behind rest : List Token}
    (last : (currentOf eof middle).kind ≠ .semicolon) (hm : middle.tail = skipped ++ behind)
    (skips : ∀ token ∈ skipped, token.kind ≠ .semicolon) (h : Terminator behind rest) :
    (middle.drop (middle.findIdx (·.kind == .semicolon))).tail = rest := by
  rw [drop_findIdx_semicolon]
  have hskip : ∀ token ∈ skipped, (token.kind != .semicolon) = true := by simpa using skips
  cases middle with
  | nil =>
    obtain ⟨-, rfl⟩ := List.append_eq_nil_iff.mp hm.symm
    cases h
    rfl
  | cons token tokens =>
    rw [List.tail_cons] at hm
    rw [currentOf_cons] at last
    rw [List.dropWhile_cons_of_pos (by simpa using last), hm, List.dropWhile_append_of_pos hskip]
    cases h with
    | semicolon kind => rw [List.dropWhile_cons_of_neg (by simp [kind]), List.tail_cons]
    | endOfInput => rfl

/-- A statement starts with its keyword or with an expression. -/
theorem Statement.start (recognized : RecognizesAll eof expression inner)
    {tokens rest : List Token} {node : Node} (h : Statement inner tokens rest node) :
    ∃ token behind, tokens = token :: behind ∧
      (token.kind = .kwLet ∨ token.kind = .kwReturn ∨ token.kind.opening?.isSome) := by
  cases h with
  | letTo kind => exact ⟨_, _, rfl, .inl kind⟩
  | returned kind => exact ⟨_, _, rfl, .inr (.inl kind)⟩
  | expression phrase => exact ⟨_, _, rfl, .inr (.inr (recognized.starts phrase))⟩

theorem Statement.isPresent {tokens rest : List Token} {node : Node}
    (h : Statement inner tokens rest node) : node.isPresent := by
  cases h <;> rfl

theorem statement_of_reads (ended : eof.kind = .eof) (recognized : RecognizesAll eof expression inner)
    {first : Token} {tokens left : List Token} {node : Node}
    (h : Reads (statement expression) eof (first :: tokens) node left) :
    Statement inner (first :: tokens) left.tail node := by
  rw [statement, reads_current_bind, currentOf_cons] at h
  split at h
  · rename_i keyword
    rw [letStatement, reads_current_bind, reads_expect_iff ended (by decide)] at h
    obtain ⟨name, rest, hname, name_kind, h⟩ := h
    rw [reads_current_bind, reads_expect_iff ended (by decide)] at h
    obtain ⟨assign, rest', hassign, assign_kind, h⟩ := h
    rw [reads_advance_bind, reads_bind] at h
    obtain ⟨value, middle, hvalue, h⟩ := h
    rw [reads_skipOptional_bind, reads_pure] at h
    obtain ⟨rfl, rfl⟩ := h
    rw [List.tail_cons] at hname hassign
    rw [hname, hassign, currentOf_cons]
    exact .letTo keyword name_kind assign_kind (recognized.sound hvalue).1
      (optionalSemicolon_of_skip ended middle)
  · rename_i keyword
    rw [returnStatement, reads_current_bind, reads_advance_bind, reads_bind] at h
    obtain ⟨value, middle, hvalue, h⟩ := h
    rw [reads_skipTo_bind, reads_pure] at h
    obtain ⟨rfl, rfl⟩ := h
    obtain ⟨phrase, last⟩ := recognized.sound hvalue
    obtain ⟨skipped, behind, hm, skips, terminator⟩ := terminator_of_skip last
    rw [hm] at phrase
    exact .returned keyword phrase skips terminator
  · rw [exprStatement, reads_current_bind, reads_bind] at h
    obtain ⟨value, middle, hvalue, h⟩ := h
    rw [reads_skipOptional_bind, reads_pure] at h
    obtain ⟨rfl, rfl⟩ := h
    exact .expression (recognized.sound hvalue).1 (optionalSemicolon_of_skip ended middle)

/-- A derived statement is read cleanly. A semicolon behind it would have been its own. -/
theorem reads_of_statement (ended : eof.kind = .eof) (recognized : RecognizesAll eof expression inner)
    {tokens rest : List Token} {node : Node} (h : Statement inner tokens rest node)
    (stop : ∀ token ∈ rest.head?, token.kind ≠ .semicolon) :
    ∃ left, Reads (statement expression) eof tokens node left ∧ left.tail = rest := by
  cases h with
  | @letTo keyword name assign tokens behind rest value keyword_kind name_kind assign_kind phrase
      semicolon =>
    obtain ⟨middle, hvalue, hm⟩ := recognized.complete phrase
    refine ⟨_, ?_, skip_of_optionalSemicolon ended hm semicolon stop⟩
    rw [statement, reads_current_bind, currentOf_cons, keyword_kind]
    rw [letStatement, reads_current_bind, reads_expect_iff ended (by decide)]
    refine ⟨name, _, rfl, name_kind, ?_⟩
    rw [reads_current_bind, reads_expect_iff ended (by decide)]
    refine ⟨assign, _, rfl, assign_kind, ?_⟩
    rw [reads_advance_bind, reads_bind]
    exact ⟨value, middle, hvalue, reads_skipOptional_bind.mpr (reads_pure.mpr ⟨rfl, rfl⟩)⟩
  | @returned keyword tokens skipped behind rest value keyword_kind phrase skips terminator =>
    obtain ⟨middle, hvalue, hm⟩ := recognized.complete phrase
    have last := (recognized.sound hvalue).2
    refine ⟨_, ?_, skip_of_terminator last hm skips terminator⟩
    rw [statement, reads_current_bind, currentOf_cons, keyword_kind]
    rw [returnStatement, reads_current_bind, reads_advance_bind, reads_bind]
    exact ⟨value, middle, hvalue, reads_skipTo_bind.mpr (reads_pure.mpr ⟨rfl, rfl⟩)⟩
  | @expression first tokens behind rest value phrase semicolon =>
    obtain ⟨middle, hvalue, hm⟩ := recognized.complete phrase
    have opens := recognized.starts phrase
    rw [currentOf_cons] at opens
    refine ⟨_, ?_, skip_of_optionalSemicolon ended hm semicolon stop⟩
    rw [statement, reads_current_bind, currentOf_cons]
    split
    · rename_i keyword
      simp [keyword, Kind.opening?] at opens
    · rename_i keyword
      simp [keyword, Kind.opening?] at opens
    · rw [exprStatement, reads_current_bind, reads_bind]
      exact ⟨value, middle, hvalue, reads_skipOptional_bind.mpr (reads_pure.mpr ⟨rfl, rfl⟩)⟩

theorem statements_of_turns (ended : eof.kind = .eof)
    (recognized : RecognizesAll eof expression inner) {stop : Kind → Bool}
    {tokens left : List Token} {nodes : List Node}
    (h : Turns stop (statement expression) eof tokens nodes left) :
    Statements inner tokens left nodes ∧ ∀ token ∈ left.head?, stop token.kind := by
  induction h with
  | ended => exact ⟨.nil, by simp⟩
  | stopped h => exact ⟨.nil, by simpa using h⟩
  | turn go head tail ih =>
    exact ⟨.cons (statement_of_reads ended recognized head) ih.1, ih.2⟩

theorem turns_of_statements (ended : eof.kind = .eof)
    (recognized : RecognizesAll eof expression inner) {stop : Kind → Bool}
    (stop_only : ∀ kind, stop kind → kind = .rbrace) {tokens rest : List Token} {nodes : List Node}
    (h : Statements inner tokens rest nodes) (at_stop : ∀ token ∈ rest.head?, stop token.kind) :
    Turns stop (statement expression) eof tokens nodes rest ∧
      ∀ token ∈ tokens.head?, token.kind ≠ .semicolon := by
  induction h with
  | @nil rest =>
    cases rest with
    | nil => exact ⟨.ended, by simp⟩
    | cons token rest =>
      have hstop := at_stop token rfl
      refine ⟨.stopped hstop, fun other ht => ?_⟩
      obtain rfl : token = other := by simpa using ht
      simp [stop_only _ hstop]
  | @cons tokens middle rest node nodes head tail ih =>
    obtain ⟨turns, hsemi⟩ := ih at_stop
    obtain ⟨left, hread, rfl⟩ := reads_of_statement ended recognized head hsemi
    obtain ⟨token, behind, rfl, hstart⟩ := head.start recognized
    have starts : token.kind ≠ .semicolon ∧ token.kind ≠ .rbrace := by
      revert hstart
      cases token.kind <;> simp [Kind.opening?]
    refine ⟨.turn (fun hs => starts.2 (stop_only _ hs)) hread turns, fun other ht => ?_⟩
    obtain rfl : token = other := by simpa using ht
    exact starts.1

theorem Statements.isPresent {tokens rest : List Token} {nodes : List Node}
    (h : Statements inner tokens rest nodes) : ∀ node ∈ nodes, node.isPresent := by
  induction h with
  | nil => simp
  | cons head tail ih =>
    intro node hn
    rcases List.mem_cons.mp hn with rfl | hn
    · exact head.isPresent
    · exact ih node hn

/-- Nothing that was read cleanly is left out. -/
theorem reads_statements (ended : eof.kind = .eof) (recognized : RecognizesAll eof expression inner)
    {stop : Kind → Bool} (stop_only : ∀ kind, stop kind → kind = .rbrace)
    {tokens left : List Token} {nodes : List Node} :
    Reads (statements stop expression) eof tokens nodes left ↔
      Statements inner tokens left nodes ∧ ∀ token ∈ left.head?, stop token.kind := by
  rw [statements, reads_bind]
  simp only [reads_manyUntil, reads_pure]
  constructor
  · rintro ⟨values, left, turns, rfl, rfl⟩
    obtain ⟨phrase, at_stop⟩ := statements_of_turns ended recognized turns
    rw [List.filter_eq_self.mpr phrase.isPresent]
    exact ⟨phrase, at_stop⟩
  · rintro ⟨phrase, at_stop⟩
    have turns := (turns_of_statements ended recognized stop_only phrase at_stop).1
    exact ⟨nodes, left, turns, (List.filter_eq_self.mpr phrase.isPresent).symm, rfl⟩

theorem Block.start {tokens rest : List Token} {node : Node} (h : Block inner tokens rest node) :
    ∃ brace behind, tokens = brace :: behind ∧ brace.kind = .lbrace := by
  cases h with
  | closed kind => exact ⟨_, _, rfl, kind⟩
  | unclosed kind => exact ⟨_, _, rfl, kind⟩

theorem block_of_reads (ended : eof.kind = .eof) (recognized : RecognizesAll eof expression inner)
    {brace : Token} (brace_kind : brace.kind = .lbrace) {tokens left : List Token} {node : Node}
    (h : Reads (block expression) eof (brace :: tokens) node left) :
    Block inner (brace :: tokens) left.tail node ∧ (currentOf eof left).kind ≠ .semicolon := by
  rw [block, reads_current_bind, reads_advance_bind, reads_bind] at h
  obtain ⟨nodes, left, hbody, h⟩ := h
  obtain ⟨rfl, rfl⟩ := reads_pure.mp h
  obtain ⟨phrase, at_stop⟩ := (reads_statements ended recognized (by simp)).mp hbody
  cases left with
  | nil => exact ⟨.unclosed brace_kind phrase, by simp [ended]⟩
  | cons closer rest =>
    have closer_kind : closer.kind = .rbrace := by simpa using at_stop closer rfl
    exact ⟨.closed brace_kind phrase closer_kind, by simp [closer_kind]⟩

theorem reads_of_block (ended : eof.kind = .eof) (recognized : RecognizesAll eof expression inner)
    {tokens rest : List Token} {node : Node} (h : Block inner tokens rest node) :
    ∃ left, Reads (block expression) eof tokens node left ∧ left.tail = rest := by
  simp only [block, reads_current_bind, reads_advance_bind]
  cases h with
  | @closed brace closer tokens rest nodes brace_kind body closer_kind =>
    refine ⟨closer :: rest, reads_bind.mpr ⟨nodes, closer :: rest, ?_, ?_⟩, rfl⟩
    · exact (reads_statements ended recognized (by simp)).mpr ⟨body, by simp [closer_kind]⟩
    · exact reads_pure.mpr ⟨rfl, rfl⟩
  | @unclosed brace tokens nodes brace_kind body =>
    refine ⟨[], reads_bind.mpr ⟨nodes, [], ?_, ?_⟩, rfl⟩
    · exact (reads_statements ended recognized (by simp)).mpr ⟨body, by simp⟩
    · exact reads_pure.mpr ⟨rfl, rfl⟩

end MonkeyLang.Derivation
