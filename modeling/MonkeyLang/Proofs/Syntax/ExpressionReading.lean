import MonkeyLang.Proofs.Syntax.StatementReading

/-!
# Reading expressions

Clean runs of the rules for openings and continuations are derivations over the expressions one
level further in, and so are those of whole expressions, by induction on the budget of levels.
-/
namespace MonkeyLang.Derivation
open MonkeyLang.Grammar MonkeyLang.Parser

variable {eof : Token} {expression : ExpressionParser} {inner : Int → Phrase Node}

theorem parameter_recognizes (ended : eof.kind = .eof) : Recognizes eof parameter Name where
  sound {tokens left node} h := by
    rw [parameter, reads_current_bind] at h
    split_ifs at h with hk
    · obtain ⟨rfl, rfl⟩ := reads_pure.mp h
      obtain ⟨token, rest, rfl, kind⟩ := eq_cons_of_currentOf ended hk (by decide)
      exact ⟨.intro kind, by simp [kind]⟩
    · exact absurd h not_reads_report_bind
  complete {tokens rest node} h := by
    cases h with
    | @intro token rest kind =>
      refine ⟨token :: rest, ?_, rfl⟩
      rw [parameter, reads_current_bind, currentOf_cons, if_pos kind, reads_pure]
      exact ⟨rfl, rfl⟩

theorem Name.kind {tokens rest : List Token} {node : Node} (h : Name tokens rest node) :
    (currentOf eof tokens).kind = .ident := by
  cases h with
  | intro kind => exact kind

theorem Items.isPresent_of_name {tokens rest : List Token} {nodes : List Node}
    (h : Items Name tokens rest nodes) : nodes.all Node.isPresent := by
  induction h with
  | last head => cases head; rfl
  | more head kind tail ih => cases head; simpa [Node.isPresent] using ih

theorem Listing.isPresent_of_name {close : Kind} {tokens rest : List Token} {nodes : List Node}
    (h : Listing close Name tokens rest nodes) : nodes.all Node.isPresent := by
  cases h with
  | empty => rfl
  | items items => exact items.isPresent_of_name

theorem elements_of_reads (ended : eof.kind = .eof) (recognized : RecognizesAll eof expression inner)
    {close : Kind} (hc : close ≠ .eof) {opener : Token} {tokens left : List Token}
    {result : Option (List Node)}
    (h : Reads (commaList close (anyExpression expression)) eof (opener :: tokens) result left) :
    ∃ nodes, result = some nodes ∧
      Listing close (inner Precedence.lowest.rank) tokens left.tail nodes ∧
      (currentOf eof left).kind = close :=
  listing_of_reads ended hc (recognized.recognizes _) h

theorem reads_of_elements (ended : eof.kind = .eof) (recognized : RecognizesAll eof expression inner)
    {close : Kind} (hc : close = .rparen ∨ close = .rbracket) (opener : Token)
    {tokens rest : List Token} {nodes : List Node}
    (h : Listing close (inner Precedence.lowest.rank) tokens rest nodes) :
    ∃ closer, closer.kind = close ∧ Reads (commaList close (anyExpression expression)) eof
      (opener :: tokens) (some nodes) (closer :: rest) := by
  have hne : close ≠ .eof ∧ close ≠ .comma ∧ close.opening? = none := by
    rcases hc with rfl | rfl <;> decide
  refine reads_of_listing ended hne.1 hne.2.1 (recognized.recognizes _) ?_ opener h
  intro tokens rest node phrase hk
  have opens := recognized.starts phrase
  rw [hk, hne.2.2] at opens
  simp at opens

theorem integerValue?_eq_some {digits : List Char} {value : Nat} :
    integerValue? digits = some value ↔ digits.length ≤ 4300 ∧
      Nat.ofDigitChars 10 digits 0 ≤ 0x7fffffffffffffff ∧ value = Nat.ofDigitChars 10 digits 0 := by
  have hdigits : maxDigits = 4300 := rfl
  have hinteger : maxInteger = 0x7fffffffffffffff := rfl
  unfold integerValue?
  constructor
  · intro h
    by_cases hlen : maxDigits < digits.length
    · simp [hlen] at h
    by_cases hval : maxInteger < Nat.ofDigitChars 10 digits 0
    · simp [hlen, hval] at h
    rw [if_neg hlen, if_neg hval] at h
    exact ⟨by omega, by omega, (Option.some.inj h).symm⟩
  · rintro ⟨hlen, hval, rfl⟩
    rw [if_neg (by omega), if_neg (by omega)]

/-- A token with an integer stands for its value, or the run is not clean. -/
theorem integer_of_reads {token : Token} {tokens left : List Token} {node : Node}
    (kind : token.kind = .int) (h : Reads integer eof (token :: tokens) node left) :
    Primary inner (token :: tokens) left.tail node ∧ left = token :: tokens := by
  rw [integer, reads_current_bind, currentOf_cons] at h
  split at h
  · rename_i value hvalue
    obtain ⟨rfl, rfl⟩ := reads_pure.mp h
    obtain ⟨digits, range, rfl⟩ := integerValue?_eq_some.mp hvalue
    exact ⟨.atom (.integer kind digits range), rfl⟩
  · exact absurd h not_reads_report_bind

theorem group_of_reads (ended : eof.kind = .eof) (recognized : RecognizesAll eof expression inner)
    {opener : Token} {tokens left : List Token} {node : Node} (kind : opener.kind = .lparen)
    (h : Reads (group expression) eof (opener :: tokens) node left) :
    Primary inner (opener :: tokens) left.tail node ∧ (currentOf eof left).kind = .rparen := by
  rw [group, reads_advance_bind, reads_bind] at h
  obtain ⟨node, middle, hnode, h⟩ := h
  obtain ⟨closer, rest, hm, closer_kind, h⟩ := (reads_expect_iff ended (by decide)).mp h
  obtain ⟨rfl, rfl⟩ := reads_pure.mp h
  have phrase := (recognized.sound hnode).1
  rw [hm] at phrase
  exact ⟨.group kind phrase closer_kind, closer_kind⟩

theorem conditional_of_reads (ended : eof.kind = .eof)
    (recognized : RecognizesAll eof expression inner) {keyword : Token} {tokens left : List Token}
    {node : Node} (kind : keyword.kind = .kwIf)
    (h : Reads (conditional expression) eof (keyword :: tokens) node left) :
    Primary inner (keyword :: tokens) left.tail node ∧ (currentOf eof left).kind ≠ .semicolon := by
  rw [conditional, reads_current_bind, currentOf_cons, reads_expect_iff ended (by decide)] at h
  obtain ⟨opener, rest, rfl, opener_kind, h⟩ := h
  rw [reads_advance_bind, reads_bind, List.tail_cons] at h
  obtain ⟨condition, middle, hcondition, h⟩ := h
  obtain ⟨closer, rest', hm, closer_kind, h⟩ := (reads_expect_iff ended (by decide)).mp h
  obtain ⟨brace, body, rfl, brace_kind, h⟩ := (reads_expect_iff ended (by decide)).mp h
  obtain ⟨consequence, behind, hconsequence, h⟩ := reads_bind.mp h
  have condition_phrase := (recognized.sound hcondition).1
  rw [hm] at condition_phrase
  obtain ⟨first, last⟩ := block_of_reads ended recognized brace_kind hconsequence
  rw [reads_upcoming_bind] at h
  split_ifs at h with helse
  · obtain ⟨kwElse, other, ho, else_kind⟩ := eq_cons_of_currentOf ended helse (by decide)
    rw [reads_advance_bind, ho, reads_expect_iff ended (by decide)] at h
    obtain ⟨brace', body', rfl, brace_kind', h⟩ := h
    obtain ⟨alternative, behind', halternative, h⟩ := reads_bind.mp h
    obtain ⟨rfl, rfl⟩ := reads_pure.mp h
    obtain ⟨second, last'⟩ := block_of_reads ended recognized brace_kind' halternative
    rw [ho] at first
    exact ⟨.conditionalElse kind opener_kind condition_phrase closer_kind first else_kind second,
      last'⟩
  · obtain ⟨rfl, rfl⟩ := reads_pure.mp h
    refine ⟨.conditional kind opener_kind condition_phrase closer_kind first ?_, last⟩
    intro token ht he
    obtain ⟨rest, hb⟩ := List.head?_eq_some_iff.mp ht
    exact helse (by rw [upcomingOf_of_tail hb]; exact he)

theorem function_of_reads (ended : eof.kind = .eof) (recognized : RecognizesAll eof expression inner)
    {keyword : Token} {tokens left : List Token} {node : Node} (kind : keyword.kind = .kwFunction)
    (h : Reads (function expression) eof (keyword :: tokens) node left) :
    Primary inner (keyword :: tokens) left.tail node ∧ (currentOf eof left).kind ≠ .semicolon := by
  rw [function, reads_current_bind, currentOf_cons, reads_expect_iff ended (by decide)] at h
  obtain ⟨opener, rest, rfl, opener_kind, h⟩ := h
  obtain ⟨result, middle, hlist, h⟩ := reads_bind.mp h
  obtain ⟨parameters, rfl, phrase, -⟩ :=
    listing_of_reads ended (by decide) (parameter_recognizes ended) hlist
  simp only [phrase.isPresent_of_name, if_true] at h
  obtain ⟨brace, body, hm, brace_kind, h⟩ := (reads_expect_iff ended (by decide)).mp h
  obtain ⟨block, behind, hblock, h⟩ := reads_bind.mp h
  obtain ⟨rfl, rfl⟩ := reads_pure.mp h
  obtain ⟨body_phrase, last⟩ := block_of_reads ended recognized brace_kind hblock
  rw [hm] at phrase
  exact ⟨.function kind opener_kind phrase body_phrase, last⟩

theorem array_of_reads (ended : eof.kind = .eof) (recognized : RecognizesAll eof expression inner)
    {opener : Token} {tokens left : List Token} {node : Node} (kind : opener.kind = .lbracket)
    (h : Reads (array expression) eof (opener :: tokens) node left) :
    Primary inner (opener :: tokens) left.tail node ∧ (currentOf eof left).kind = .rbracket := by
  rw [array, reads_current_bind, currentOf_cons, reads_bind] at h
  obtain ⟨result, middle, hlist, h⟩ := h
  obtain ⟨elements, rfl, phrase, closer_kind⟩ :=
    elements_of_reads ended recognized (by decide) hlist
  obtain ⟨rfl, rfl⟩ := reads_pure.mp h
  exact ⟨.array kind phrase, closer_kind⟩

/-- A clean opening is a derived one. -/
theorem primary_of_reads (ended : eof.kind = .eof) (recognized : RecognizesAll eof expression inner)
    {token : Token} {tokens left : List Token} {node : Node} {start : Opening}
    (opens : token.kind.opening? = some start)
    (h : Reads (opening expression start) eof (token :: tokens) node left) :
    Primary inner (token :: tokens) left.tail node ∧ (currentOf eof left).kind ≠ .semicolon := by
  have leaf {value : Token → Node} (hv : Reads (do return value (← current)) eof (token :: tokens)
      node left) : node = value token ∧ left = token :: tokens := by
    rw [reads_current_bind, currentOf_cons] at hv
    exact reads_pure.mp hv
  have unary_case (kind : token.kind = .bang ∨ token.kind = .minus)
      (hu : Reads (unary expression) eof (token :: tokens) node left) :
      Primary inner (token :: tokens) left.tail node ∧ (currentOf eof left).kind ≠ .semicolon := by
    rw [unary, reads_current_bind, currentOf_cons, reads_advance_bind, reads_bind] at hu
    obtain ⟨operand, middle, hoperand, hu⟩ := hu
    obtain ⟨rfl, rfl⟩ := reads_pure.mp hu
    exact ⟨.unary kind (recognized.sound hoperand).1, (recognized.sound hoperand).2⟩
  cases kind : token.kind with
  | ident =>
    obtain rfl : Opening.identifier = start := by simpa [kind, Kind.opening?] using opens
    obtain ⟨rfl, rfl⟩ := leaf h
    exact ⟨.atom (.identifier kind), by simp [kind]⟩
  | int =>
    obtain rfl : Opening.integer = start := by simpa [kind, Kind.opening?] using opens
    obtain ⟨phrase, rfl⟩ := integer_of_reads kind h
    exact ⟨phrase, by simp [kind]⟩
  | string =>
    obtain rfl : Opening.string = start := by simpa [kind, Kind.opening?] using opens
    obtain ⟨rfl, rfl⟩ := leaf h
    exact ⟨.atom (.string kind), by simp [kind]⟩
  | kwTrue =>
    obtain rfl : Opening.boolean true = start := by simpa [kind, Kind.opening?] using opens
    obtain ⟨rfl, rfl⟩ := leaf h
    exact ⟨.atom (.true kind), by simp [kind]⟩
  | kwFalse =>
    obtain rfl : Opening.boolean false = start := by simpa [kind, Kind.opening?] using opens
    obtain ⟨rfl, rfl⟩ := leaf h
    exact ⟨.atom (.false kind), by simp [kind]⟩
  | bang =>
    obtain rfl : Opening.unary = start := by simpa [kind, Kind.opening?] using opens
    exact unary_case (.inl kind) h
  | minus =>
    obtain rfl : Opening.unary = start := by simpa [kind, Kind.opening?] using opens
    exact unary_case (.inr kind) h
  | lparen =>
    obtain rfl : Opening.group = start := by simpa [kind, Kind.opening?] using opens
    obtain ⟨phrase, last⟩ := group_of_reads ended recognized kind h
    exact ⟨phrase, by simp [last]⟩
  | kwIf =>
    obtain rfl : Opening.conditional = start := by simpa [kind, Kind.opening?] using opens
    exact conditional_of_reads ended recognized kind h
  | kwFunction =>
    obtain rfl : Opening.function = start := by simpa [kind, Kind.opening?] using opens
    exact function_of_reads ended recognized kind h
  | lbracket =>
    obtain rfl : Opening.array = start := by simpa [kind, Kind.opening?] using opens
    obtain ⟨phrase, last⟩ := array_of_reads ended recognized kind h
    exact ⟨phrase, by simp [last]⟩
  | _ => simp [kind, Kind.opening?] at opens

theorem reads_of_atom {token : Token} {rest : List Token} {node : Node} (h : Atom token node) :
    ∃ start, token.kind.opening? = some start ∧
      Reads (opening expression start) eof (token :: rest) node (token :: rest) := by
  have leaf {value : Token → Node} :
      Reads (do return value (← current)) eof (token :: rest) (value token) (token :: rest) := by
    rw [reads_current_bind, currentOf_cons, reads_pure]
    exact ⟨rfl, rfl⟩
  cases h with
  | identifier kind => exact ⟨.identifier, by rw [kind]; rfl, leaf⟩
  | integer kind digits range =>
    refine ⟨.integer, by rw [kind]; rfl, ?_⟩
    have hvalue := integerValue?_eq_some.mpr ⟨digits, range, rfl⟩
    rw [opening, integer, reads_current_bind, currentOf_cons, hvalue, reads_pure]
    exact ⟨rfl, rfl⟩
  | string kind => exact ⟨.string, by rw [kind]; rfl, leaf⟩
  | true kind => exact ⟨.boolean Bool.true, by rw [kind]; rfl, leaf⟩
  | false kind => exact ⟨.boolean Bool.false, by rw [kind]; rfl, leaf⟩

/-- A derived condition and its block are read cleanly, whatever is read behind them. -/
theorem reads_of_choice (ended : eof.kind = .eof) (recognized : RecognizesAll eof expression inner)
    (keyword : Token) {opener closer : Token} {tokens body rest : List Token}
    {condition consequence : Node} (opener_kind : opener.kind = .lparen)
    (condition_phrase : inner Precedence.lowest.rank tokens (closer :: body) condition)
    (closer_kind : closer.kind = .rparen) (consequence_phrase : Block inner body rest consequence) :
    ∃ behind, behind.tail = rest ∧ ∀ {node : Node} {left : List Token},
      Reads (do
        if (← upcoming).kind = .kwElse then do
          advance
          expect .lbrace .absent do
            return .conditional keyword condition consequence (← block expression)
        else
          return .conditional keyword condition consequence .absent) eof behind node left →
      Reads (conditional expression) eof (keyword :: opener :: tokens) node left := by
  obtain ⟨middle, hcondition, hm⟩ := recognized.complete condition_phrase
  obtain ⟨behind, hconsequence, hb⟩ := reads_of_block ended recognized consequence_phrase
  obtain ⟨brace, inside, rfl, brace_kind⟩ := consequence_phrase.start
  refine ⟨behind, hb, fun {node left} hread => ?_⟩
  rw [conditional, reads_current_bind, reads_expect_iff ended (by decide)]
  refine ⟨opener, tokens, rfl, opener_kind, ?_⟩
  rw [reads_advance_bind, reads_bind]
  refine ⟨condition, middle, hcondition, (reads_expect_iff ended (by decide)).mpr ?_⟩
  refine ⟨closer, _, hm, closer_kind, (reads_expect_iff ended (by decide)).mpr ?_⟩
  exact ⟨brace, inside, rfl, brace_kind, reads_bind.mpr ⟨consequence, behind, hconsequence, hread⟩⟩

/-- A derived opening is read cleanly by the rule that its first token chooses. -/
theorem reads_of_primary (ended : eof.kind = .eof) (recognized : RecognizesAll eof expression inner)
    {tokens rest : List Token} {node : Node} (h : Primary inner tokens rest node) :
    ∃ token behind start left, tokens = token :: behind ∧ token.kind.opening? = some start ∧
      Reads (opening expression start) eof tokens node left ∧ left.tail = rest := by
  cases h with
  | @atom token rest node atom =>
    obtain ⟨start, opens, hread⟩ := reads_of_atom atom
    exact ⟨token, rest, start, token :: rest, rfl, opens, hread, rfl⟩
  | @unary token tokens rest operand kind phrase =>
    obtain ⟨left, hread, hl⟩ := recognized.complete phrase
    have opens : token.kind.opening? = some .unary := by rcases kind with h | h <;> rw [h] <;> rfl
    refine ⟨token, tokens, .unary, left, rfl, opens, ?_, hl⟩
    rw [opening, unary, reads_current_bind, reads_advance_bind, reads_bind]
    exact ⟨operand, left, hread, reads_pure.mpr ⟨rfl, rfl⟩⟩
  | @group opener closer tokens rest node kind phrase closer_kind =>
    obtain ⟨left, hread, hl⟩ := recognized.complete phrase
    refine ⟨opener, tokens, .group, closer :: rest, rfl, by rw [kind]; rfl, ?_, rfl⟩
    rw [opening, group, reads_advance_bind, reads_bind]
    refine ⟨node, left, hread, (reads_expect_iff ended (by decide)).mpr ?_⟩
    exact ⟨closer, rest, hl, closer_kind, reads_pure.mpr ⟨rfl, rfl⟩⟩
  | @conditional keyword opener closer tokens body rest condition consequence kind opener_kind
      condition_phrase closer_kind consequence_phrase no_else =>
    obtain ⟨left, hl, hread⟩ := reads_of_choice ended recognized keyword opener_kind
      condition_phrase closer_kind consequence_phrase
    refine ⟨keyword, _, .conditional, left, rfl, by rw [kind]; rfl, hread ?_, hl⟩
    have hne := upcomingOf_ne_of_head ended (by decide) (hl ▸ no_else)
    rw [reads_upcoming_bind, if_neg hne, reads_pure]
    exact ⟨rfl, rfl⟩
  | @conditionalElse keyword opener closer kwElse tokens body other rest condition consequence
      alternative kind opener_kind condition_phrase closer_kind consequence_phrase else_kind
      alternative_phrase =>
    obtain ⟨behind, hb, hread⟩ := reads_of_choice ended recognized keyword opener_kind
      condition_phrase closer_kind consequence_phrase
    obtain ⟨left, halternative, hl⟩ := reads_of_block ended recognized alternative_phrase
    refine ⟨keyword, _, .conditional, left, rfl, by rw [kind]; rfl, hread ?_, hl⟩
    obtain ⟨brace, other', rfl, brace_kind⟩ := alternative_phrase.start
    rw [reads_upcoming_bind, upcomingOf_of_tail hb, if_pos else_kind, reads_advance_bind, hb]
    refine (reads_expect_iff ended (by decide)).mpr ⟨brace, other', rfl, brace_kind, ?_⟩
    exact reads_bind.mpr ⟨alternative, left, halternative, reads_pure.mpr ⟨rfl, rfl⟩⟩
  | @function keyword opener tokens body rest parameters block kind opener_kind phrase
      body_phrase =>
    obtain ⟨closer, closer_kind, hlist⟩ := reads_of_listing ended (by decide) (by decide)
      (parameter_recognizes ended) (fun _ _ _ h => by rw [h.kind]; decide) opener phrase
    obtain ⟨left, hblock, hl⟩ := reads_of_block ended recognized body_phrase
    obtain ⟨brace, body', rfl, brace_kind⟩ := body_phrase.start
    refine ⟨keyword, _, .function, left, rfl, by rw [kind]; rfl, ?_, hl⟩
    rw [opening, function, reads_current_bind, reads_expect_iff ended (by decide)]
    refine ⟨opener, tokens, rfl, opener_kind, reads_bind.mpr ⟨_, _, hlist, ?_⟩⟩
    simp only [phrase.isPresent_of_name, if_true]
    refine (reads_expect_iff ended (by decide)).mpr ⟨brace, body', rfl, brace_kind, ?_⟩
    exact reads_bind.mpr ⟨block, left, hblock, reads_pure.mpr ⟨rfl, rfl⟩⟩
  | @array opener tokens rest elements kind phrase =>
    obtain ⟨closer, closer_kind, hlist⟩ := reads_of_elements ended recognized (.inr rfl) opener phrase
    refine ⟨opener, tokens, .array, closer :: rest, rfl, by rw [kind]; rfl, ?_, rfl⟩
    rw [opening, array, reads_current_bind, reads_bind]
    exact ⟨_, _, hlist, reads_pure.mpr ⟨rfl, rfl⟩⟩

theorem continues_iff {floor : Int} {kind : Kind} :
    continues floor kind ↔ kind.continuation?.isSome ∧ floor < kind.rank := by
  rw [continues, Bool.and_eq_true, decide_eq_true_eq]

theorem stops_iff {floor : Int} {rest : List Token} :
    Stops floor rest ↔ ∀ token ∈ rest.head?, ¬ continues floor token.kind := by
  simp only [Stops, continues_iff, not_and, Int.not_lt]

/-- A clean continuation is a derived one. -/
theorem tail_of_reads (ended : eof.kind = .eof) (recognized : RecognizesAll eof expression inner)
    {floor : Int} {operator : Token} {tokens left : List Token} {start node : Node}
    (binds : continues floor operator.kind)
    (h : Reads (continuation expression start) eof (operator :: tokens) node left) :
    Tail inner floor start (operator :: tokens) left.tail node ∧
      (currentOf eof left).kind ≠ .semicolon := by
  obtain ⟨-, hrank⟩ := continues_iff.mp binds
  rw [continuation, reads_current_bind, currentOf_cons] at h
  split at h
  · rename_i kind
    rw [binary, reads_current_bind, currentOf_cons, reads_advance_bind, reads_bind] at h
    obtain ⟨right, middle, hright, h⟩ := h
    obtain ⟨rfl, rfl⟩ := reads_pure.mp h
    exact ⟨.binary kind hrank (recognized.sound hright).1, (recognized.sound hright).2⟩
  · rename_i call_kind
    have kind : operator.kind = .lparen := by
      revert call_kind
      cases operator.kind <;> simp [Kind.continuation?]
    rw [kind] at hrank
    rw [call, reads_current_bind, currentOf_cons, reads_bind] at h
    obtain ⟨result, middle, hlist, h⟩ := h
    obtain ⟨arguments, rfl, phrase, closer_kind⟩ :=
      elements_of_reads ended recognized (by decide) hlist
    obtain ⟨rfl, rfl⟩ := reads_pure.mp h
    exact ⟨.call kind hrank phrase, by simp [closer_kind]⟩
  · rename_i index_kind
    have kind : operator.kind = .lbracket := by
      revert index_kind
      cases operator.kind <;> simp [Kind.continuation?]
    rw [kind] at hrank
    rw [index, reads_current_bind, currentOf_cons, reads_advance_bind, reads_bind] at h
    obtain ⟨position, middle, hposition, h⟩ := h
    obtain ⟨closer, rest, hm, closer_kind, h⟩ := (reads_expect_iff ended (by decide)).mp h
    obtain ⟨rfl, rfl⟩ := reads_pure.mp h
    have phrase := (recognized.sound hposition).1
    rw [hm] at phrase
    exact ⟨.index kind hrank phrase closer_kind, by simp [closer_kind]⟩
  · rename_i none_kind
    simp [none_kind, continues] at binds

/-- A derived continuation is read cleanly. -/
theorem reads_of_tail (ended : eof.kind = .eof) (recognized : RecognizesAll eof expression inner)
    {floor : Int} {start node : Node} {tokens rest : List Token}
    (h : Tail inner floor start tokens rest node) :
    ∃ operator behind left, tokens = operator :: behind ∧ continues floor operator.kind ∧
      Reads (continuation expression start) eof tokens node left ∧ left.tail = rest := by
  cases h with
  | @binary operator tokens rest right kind binds phrase =>
    obtain ⟨left, hread, hl⟩ := recognized.complete phrase
    refine ⟨operator, tokens, left, rfl, continues_iff.mpr ⟨by rw [kind]; rfl, binds⟩, ?_, hl⟩
    rw [continuation, reads_current_bind, currentOf_cons, kind]
    rw [binary, reads_current_bind, reads_advance_bind, reads_bind]
    exact ⟨right, left, hread, reads_pure.mpr ⟨rfl, rfl⟩⟩
  | @call opener tokens rest arguments kind binds phrase =>
    obtain ⟨closer, closer_kind, hlist⟩ := reads_of_elements ended recognized (.inl rfl) opener phrase
    have hc : opener.kind.continuation? = some .call := by rw [kind]; rfl
    refine ⟨opener, tokens, closer :: rest, rfl, ?_, ?_, rfl⟩
    · rw [kind]
      exact continues_iff.mpr ⟨rfl, binds⟩
    rw [continuation, reads_current_bind, currentOf_cons, hc]
    rw [call, reads_current_bind, reads_bind]
    exact ⟨_, _, hlist, reads_pure.mpr ⟨rfl, rfl⟩⟩
  | @index opener closer tokens rest position kind binds phrase closer_kind =>
    obtain ⟨left, hread, hl⟩ := recognized.complete phrase
    have hc : opener.kind.continuation? = some .index := by rw [kind]; rfl
    refine ⟨opener, tokens, closer :: rest, rfl, ?_, ?_, rfl⟩
    · rw [kind]
      exact continues_iff.mpr ⟨rfl, binds⟩
    rw [continuation, reads_current_bind, currentOf_cons, hc]
    rw [index, reads_current_bind, reads_advance_bind, reads_bind]
    refine ⟨position, left, hread, (reads_expect_iff ended (by decide)).mpr ?_⟩
    exact ⟨closer, rest, hl, closer_kind, reads_pure.mpr ⟨rfl, rfl⟩⟩

theorem tails_of_steps (ended : eof.kind = .eof) (recognized : RecognizesAll eof expression inner)
    {floor : Int} {start node : Node} {tokens left : List Token}
    (h : Steps (continues floor) (continuation expression) eof start tokens node left)
    (last : (currentOf eof tokens).kind ≠ .semicolon) :
    Tails inner floor start tokens.tail left.tail node ∧ Stops floor left.tail ∧
      (currentOf eof left).kind ≠ .semicolon := by
  induction h with
  | stopped h => exact ⟨.nil, stops_iff.mpr h, last⟩
  | step go head tail ih =>
    obtain ⟨phrase, last'⟩ := tail_of_reads ended recognized go head
    obtain ⟨tails, stops, hl⟩ := ih last'
    exact ⟨.cons phrase tails, stops, hl⟩

theorem steps_of_tails (ended : eof.kind = .eof) (recognized : RecognizesAll eof expression inner)
    {floor : Int} {start node : Node} {tokens rest : List Token}
    (h : Tails inner floor start tokens rest node) (stops : Stops floor rest)
    {middle : List Token} (hm : middle.tail = tokens) :
    ∃ left, Steps (continues floor) (continuation expression) eof start middle node left ∧
      left.tail = rest := by
  induction h generalizing middle with
  | nil => exact ⟨middle, .stopped (hm ▸ stops_iff.mp stops), hm⟩
  | cons head tail ih =>
    obtain ⟨operator, behind, left, rfl, go, hread, hl⟩ := reads_of_tail ended recognized head
    obtain ⟨left', hsteps, hl'⟩ := ih stops hl
    match middle, hm with
    | token :: _, rfl => exact ⟨left', .step go hread hsteps, hl'⟩

/-- Expressions on a budget are read exactly as they are derived on that budget. -/
theorem expressionWithin_recognizes (ended : eof.kind = .eof) (budget : Nat) :
    RecognizesAll eof (expressionWithin budget) (Expression budget) := by
  induction budget with
  | zero =>
    refine ⟨fun floor => ⟨fun h => ?_, fun h => h.elim⟩, fun h => h.elim⟩
    rw [expressionWithin, reads_current_bind] at h
    exact absurd h not_reads_report_bind
  | succ budget ih =>
    refine ⟨fun floor => ⟨fun {tokens left node} h => ?_, fun {tokens rest node} h => ?_⟩,
      fun {floor tokens rest node} h => ?_⟩
    · rw [expressionWithin, expressionOver, reads_current_bind] at h
      split at h
      · exact absurd h not_reads_report_bind
      · rename_i start opens
        obtain ⟨first, middle, hfirst, hloop⟩ := reads_bind.mp h
        have not_end : (currentOf eof tokens).kind ≠ .eof := by
          intro hk
          simp [hk, Kind.opening?] at opens
        obtain ⟨token, behind, rfl, -⟩ := eq_cons_of_currentOf ended rfl not_end
        obtain ⟨primary, last⟩ := primary_of_reads ended ih opens hfirst
        obtain ⟨tails, stops, last'⟩ := tails_of_steps ended ih (reads_whileNext.mp hloop) last
        exact ⟨⟨.intro primary tails, stops⟩, last'⟩
    · obtain ⟨⟨primary, tails⟩, stops⟩ := h
      obtain ⟨token, behind, start, middle, rfl, opens, hfirst, hm⟩ :=
        reads_of_primary ended ih primary
      obtain ⟨left, hsteps, hl⟩ := steps_of_tails ended ih tails stops hm
      refine ⟨left, ?_, hl⟩
      rw [expressionWithin, expressionOver, reads_current_bind, currentOf_cons]
      simp only [opens]
      exact reads_bind.mpr ⟨_, middle, hfirst, reads_whileNext.mpr hsteps⟩
    · obtain ⟨⟨primary, -⟩, -⟩ := h
      obtain ⟨token, behind, start, middle, rfl, opens, -⟩ := reads_of_primary ended ih primary
      rw [currentOf_cons, opens]
      rfl

end MonkeyLang.Derivation
