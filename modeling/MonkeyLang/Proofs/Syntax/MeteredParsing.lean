import MonkeyLang.Proofs.Syntax.MeteredGrammar

/-!
# The meter never runs out

With more fuel than there are tokens, a metered parser does what the parser of the same rule does,
and comes back to the depth at which it was started. Each rule agrees as long as the inner
expressions do at fewer tokens, and the loops and the expressions by induction on the fuel.
-/
namespace MonkeyLang

/-- Only the end token is an end. -/
structure EndMarked (eof : Token) (tokens : List Token) : Prop where
  ended : eof.kind = .eof
  others : ∀ token ∈ tokens, token.kind ≠ .eof

theorem EndMarked.of_suffix {eof : Token} {tokens rest : List Token} (h : EndMarked eof tokens)
    (later : rest <:+ tokens) : EndMarked eof rest :=
  ⟨h.ended, fun token ht => h.others token (later.subset ht)⟩

namespace Metered

open MonkeyLang.Parser

variable {α β : Type}

/-- The metered parser at a depth. -/
def start (q : Metered α) (depth : Nat) : Parser (Option (α × Nat)) := (q.run depth).run

/-- A parser as one that could give up and change the depth, but does neither. -/
def settled (p : Parser α) (depth : Nat) : Parser (Option (α × Nat)) :=
  (fun value => some (value, depth)) <$> p

/-- At these tokens the metered parser does what the other one does, and comes back to its
depth. -/
def Agrees (depth : Nat) (q : Metered α) (p : Parser α) (eof : Token) (tokens : List Token) :
    Prop :=
  EndMarked eof tokens → (q.start depth).run eof tokens = (settled p depth).run eof tokens

section

variable {depth : Nat} {q : Metered α} {p : Parser α} {f : α → Metered β} {eof : Token}
  {tokens : List Token}

theorem start_bind (q : Metered α) (f : α → Metered β) (depth : Nat) :
    (q >>= f).start depth = q.start depth >>= fun result =>
      result.elim (pure none) fun result => (f result.1).start result.2 := by
  simp only [start, StateT.run_bind, OptionT.run_bind, Option.elimM]

/-- What is done behind a metered parser that comes back to some depth. -/
theorem run_start_bind {depth' : Nat}
    (h : (q.start depth).run eof tokens = (settled p depth').run eof tokens) :
    ((q >>= f).start depth).run eof tokens = (p.run eof tokens).andThen
      (((f (p.run eof tokens).value).start depth').run eof (p.run eof tokens).rest) := by
  rw [start_bind, Parser.run_bind, h]
  simp [settled, Outcome.andThen]

theorem start_lift (p : Parser α) (depth : Nat) :
    (liftM p : Metered α).start depth = settled p depth := by
  refine ext_run fun eof tokens => ?_
  simp [start, settled, liftM, monadLift, MonadLift.monadLift]

theorem agrees_pure (value : α) : Agrees depth (pure value) (pure value) eof tokens :=
  fun _ => rfl

theorem agrees_lift (p : Parser α) : Agrees depth (liftM p) p eof tokens := by
  intro _
  rw [start_lift]

/-- Only the run at these tokens counts. -/
theorem agrees_of_run_eq {p' : Parser α} (same : p.run eof tokens = p'.run eof tokens)
    (h : Agrees depth q p' eof tokens) : Agrees depth q p eof tokens := by
  intro marked
  rw [h marked, settled, settled, run_map, run_map, same]

/-- A parser that gives a value at these tokens and does nothing else. -/
theorem agrees_stay {value : α} (stays : p.run eof tokens = ⟨value, 0, tokens, []⟩) :
    Agrees depth (pure value) p eof tokens :=
  agrees_of_run_eq stays (agrees_pure value)

theorem agrees_bind {g : α → Parser β} (first : Agrees depth q p eof tokens)
    (second : Agrees depth (f (p.run eof tokens).value) (g (p.run eof tokens).value) eof
      (p.run eof tokens).rest) :
    Agrees depth (q >>= f) (p >>= g) eof tokens := by
  intro marked
  rw [run_start_bind (first marked), second (marked.of_suffix (p.rest_suffix eof tokens))]
  simp [settled, Outcome.andThen]

theorem agrees_lift_bind (p : Parser α) {g : α → Parser β}
    (second : Agrees depth (f (p.run eof tokens).value) (g (p.run eof tokens).value) eof
      (p.run eof tokens).rest) :
    Agrees depth (liftM p >>= f) (p >>= g) eof tokens :=
  agrees_bind (agrees_lift p) second

/-- A metered parser that only looks has no counterpart. -/
theorem agrees_silent_bind {value : α} {r : Parser β}
    (first : (q.start depth).run eof tokens = ⟨some (value, depth), 0, tokens, []⟩)
    (second : Agrees depth (f value) r eof tokens) : Agrees depth (q >>= f) r eof tokens := by
  intro marked
  rw [run_start_bind (p := pure value) first, run_pure, second marked]
  simp [Outcome.andThen]

theorem agrees_current_bind {f : Token → Metered β} {r : Parser β}
    (second : Agrees depth (f (currentOf eof tokens)) r eof tokens) :
    Agrees depth (liftM current >>= f) r eof tokens :=
  agrees_silent_bind (by rw [start_lift]; rfl) second

theorem agrees_upcoming_bind {f : Token → Metered β} {r : Parser β}
    (second : Agrees depth (f (upcomingOf eof tokens)) r eof tokens) :
    Agrees depth (liftM upcoming >>= f) r eof tokens :=
  agrees_silent_bind (by rw [start_lift]; rfl) second

theorem agrees_left_bind {f : Nat → Metered β} {r : Parser β}
    (second : Agrees depth (f tokens.length) r eof tokens) :
    Agrees depth (liftM left >>= f) r eof tokens :=
  agrees_silent_bind (by rw [start_lift]; rfl) second

theorem agrees_progress_bind {before : Nat} {f : Unit → Metered β} {r : Parser β}
    (moved : tokens.length < before) (second : Agrees depth (f ()) r eof tokens) :
    Agrees depth (progress before >>= f) r eof tokens := by
  refine agrees_silent_bind ?_ second
  rw [progress, run_start_bind (p := left) (by rw [start_lift])]
  simp [left, moved, Outcome.andThen, start]

/-! ### Steps and loops

Everything behind a first move starts below a bound on the number of tokens. -/

variable {bound fuel : Nat} {kind : Kind}

/-- A parser below the bound, and another below the bound behind it. -/
theorem agrees_bind_below {g : α → Parser β} (short : tokens.length < bound)
    (first : Agrees depth q p eof tokens)
    (second : ∀ value rest, rest.length < bound → Agrees depth (f value) (g value) eof rest) :
    Agrees depth (q >>= f) (p >>= g) eof tokens :=
  agrees_bind first
    (second _ _ (Nat.lt_of_le_of_lt (p.rest_suffix eof tokens).length_le short))

theorem length_tail_lt (short : tokens.length < bound) : tokens.tail.length < bound :=
  Nat.lt_of_le_of_lt (List.tail_suffix tokens).length_le short

theorem agrees_expect (missing : α) (behind : tokens.tail.length < bound)
    (found : ∀ rest, rest.length < bound → Agrees depth q p eof rest) :
    Agrees depth (expect kind missing q) (Parser.expect kind missing p) eof tokens := by
  refine agrees_lift_bind upcoming ?_
  split
  · exact agrees_lift_bind advance (found _ behind)
  · exact agrees_lift_bind (report _) (agrees_pure missing)

/-- Only tokens that can stand somewhere count. -/
theorem agrees_of_endMarked (h : EndMarked eof tokens → Agrees depth q p eof tokens) :
    Agrees depth q p eof tokens :=
  fun marked => h marked marked

theorem agrees_skipTo (enough : tokens.length < fuel) :
    Agrees depth (skipTo kind fuel) (Parser.skipTo kind) eof tokens := by
  induction fuel generalizing tokens with
  | zero => exact absurd enough (Nat.not_lt_zero _)
  | succ fuel ih =>
    refine agrees_of_endMarked fun marked => agrees_current_bind ?_
    cases tokens with
    | nil =>
      rw [currentOf_nil, if_pos (.inr marked.ended)]
      exact agrees_stay rfl
    | cons token tokens =>
      rw [currentOf_cons]
      by_cases here : token.kind = kind
      · rw [if_pos (.inl here)]
        exact agrees_stay (by simp [run_skipTo, List.findIdx_cons, here])
      · rw [if_neg (by simp [here, marked.others token])]
        have turn : (Parser.skipTo kind).run eof (token :: tokens) =
            (advance >>= fun _ => Parser.skipTo kind).run eof (token :: tokens) := by
          simp [run_skipTo, List.findIdx_cons, beq_eq_false_iff_ne.mpr here, Outcome.andThen]
          exact Nat.add_comm _ _
        refine agrees_left_bind (agrees_of_run_eq turn (agrees_lift_bind advance ?_))
        exact agrees_progress_bind (Nat.lt_succ_self _) (ih (Nat.lt_of_succ_lt_succ enough))

theorem agrees_manyUntil {stop : Kind → Bool} {item : Metered α} {item' : Parser α}
    (hitem : ∀ rest, rest.length < bound → Agrees depth item item' eof rest)
    (short : tokens.length < bound) (enough : tokens.length < fuel) :
    Agrees depth (manyUntil stop item fuel) (Parser.manyUntil stop item') eof tokens := by
  induction fuel generalizing tokens with
  | zero => exact absurd enough (Nat.not_lt_zero _)
  | succ fuel ih =>
    refine agrees_of_endMarked fun marked => agrees_current_bind ?_
    cases tokens with
    | nil =>
      rw [currentOf_nil, if_pos (.inr marked.ended)]
      exact agrees_stay (by simp [manyUntilOutcome])
    | cons token tokens =>
      rw [currentOf_cons]
      by_cases stopped : stop token.kind
      · rw [if_pos (.inl stopped)]
        exact agrees_stay (by simp [manyUntilOutcome, stopped])
      · rw [if_neg (by simp [stopped, marked.others token])]
        have turn : (Parser.manyUntil stop item').run eof (token :: tokens) =
            (do
              let value ← item'
              advance
              return value :: (← Parser.manyUntil stop item')).run eof (token :: tokens) := by
          rw [run_manyUntil, manyUntilOutcome, if_neg stopped]
          simp [Outcome.andThen, Nat.add_assoc]
        refine agrees_left_bind (agrees_of_run_eq turn (agrees_bind (hitem _ short) ?_))
        refine agrees_lift_bind advance ?_
        have moved := item'.length_tail_rest_lt eof token tokens
        refine agrees_progress_bind moved (agrees_bind ?_ (agrees_pure _))
        exact ih (Nat.lt_trans moved short) (Nat.lt_of_lt_of_le moved (Nat.le_of_lt_succ enough))

theorem agrees_whileNext {test : Kind → Bool} {step : α → Metered α} {step' : α → Parser α}
    {value : α} (closed : ¬ test .eof)
    (hstep : ∀ value rest, rest.length < bound → Agrees depth (step value) (step' value) eof rest)
    (behind : tokens.tail.length < bound) (enough : tokens.length < fuel) :
    Agrees depth (whileNext test step fuel value) (Parser.whileNext test step' value) eof
      tokens := by
  induction fuel generalizing tokens value with
  | zero => exact absurd enough (Nat.not_lt_zero _)
  | succ fuel ih =>
    refine agrees_of_endMarked fun marked => agrees_upcoming_bind ?_
    rcases tokens with _ | ⟨token, _ | ⟨next, tokens⟩⟩
    · rw [upcomingOf_nil, marked.ended, if_neg closed]
      exact agrees_stay (by simp [whileNextOutcome])
    · rw [upcomingOf_cons, currentOf_nil, marked.ended, if_neg closed]
      exact agrees_stay (by simp [whileNextOutcome])
    · rw [upcomingOf_cons, currentOf_cons]
      by_cases go : test next.kind
      · rw [if_pos go]
        have turn : (Parser.whileNext test step' value).run eof (token :: next :: tokens) =
            (do
              advance
              Parser.whileNext test step' (← step' value)).run eof (token :: next :: tokens) := by
          rw [run_whileNext, whileNextOutcome, if_pos go]
          simp [Outcome.andThen, Nat.add_assoc]
        refine agrees_left_bind (agrees_of_run_eq turn (agrees_lift_bind advance ?_))
        refine agrees_progress_bind (Nat.lt_succ_self _) (agrees_bind (hstep _ _ behind) ?_)
        have kept := ((step' value).rest_suffix eof (next :: tokens)).length_le
        exact ih (length_tail_lt (Nat.lt_of_le_of_lt kept behind))
          (Nat.lt_of_le_of_lt kept (Nat.lt_of_succ_lt_succ enough))
      · rw [if_neg go]
        exact agrees_stay (by simp [whileNextOutcome, go])

theorem agrees_commaList {close : Kind} {item : Metered α} {item' : Parser α}
    (hitem : ∀ rest, rest.length < bound → Agrees depth item item' eof rest)
    (behind : tokens.tail.length < bound) (enough : bound ≤ fuel) :
    Agrees depth (commaList fuel close item) (Parser.commaList close item') eof tokens := by
  refine agrees_lift_bind upcoming ?_
  split
  · exact agrees_lift_bind advance (agrees_pure (some []))
  · refine agrees_lift_bind advance ?_
    refine agrees_bind_below behind (hitem _ behind) fun first rest short => ?_
    have more : Agrees depth
        (whileNext (· == .comma) (fun items => do advance; return (← item) :: items) fuel [first])
        (Parser.whileNext (· == .comma) (fun items => do advance; return (← item') :: items)
          [first]) eof rest := by
      refine agrees_whileNext (by decide) (fun items rest short => ?_) (length_tail_lt short)
        (Nat.lt_of_lt_of_le short enough)
      exact agrees_lift_bind advance
        (agrees_bind (hitem _ (length_tail_lt short)) (agrees_pure _))
    refine agrees_bind_below short more fun items rest short => ?_
    exact agrees_expect none (length_tail_lt short) fun rest _ => agrees_pure _

end

end Metered

namespace Metered

open MonkeyLang.Grammar

/-! ### Rules -/

section

variable {depth bound fuel : Nat} {metered : Int → Metered Node} {expression : ExpressionParser}
  {eof : Token} {tokens : List Token}
  (inner : ∀ floor rest, rest.length < bound →
    Agrees depth (metered floor) (expression floor) eof rest)

include inner

theorem agrees_letStatement (short : tokens.length < bound) :
    Agrees depth (letStatement metered) (Grammar.letStatement expression) eof tokens := by
  refine agrees_lift_bind Parser.current ?_
  refine agrees_expect _ (length_tail_lt short) fun rest short => ?_
  refine agrees_lift_bind Parser.current ?_
  refine agrees_expect _ (length_tail_lt short) fun rest short => ?_
  refine agrees_lift_bind Parser.advance ?_
  refine agrees_bind (inner _ _ (length_tail_lt short)) ?_
  exact agrees_lift_bind (Parser.skipOptional _) (agrees_pure _)

theorem agrees_exprStatement (short : tokens.length < bound) :
    Agrees depth (exprStatement metered) (Grammar.exprStatement expression) eof tokens := by
  refine agrees_lift_bind Parser.current ?_
  refine agrees_bind (inner _ _ short) ?_
  exact agrees_lift_bind (Parser.skipOptional _) (agrees_pure _)

theorem agrees_unary (behind : tokens.tail.length < bound) :
    Agrees depth (unary metered) (Grammar.unary expression) eof tokens := by
  refine agrees_lift_bind Parser.current ?_
  refine agrees_lift_bind Parser.advance ?_
  exact agrees_bind (inner _ _ behind) (agrees_pure _)

theorem agrees_group (behind : tokens.tail.length < bound) :
    Agrees depth (group metered) (Grammar.group expression) eof tokens := by
  refine agrees_lift_bind Parser.advance ?_
  refine agrees_bind_below behind (inner _ _ behind) fun node rest short => ?_
  exact agrees_expect _ (length_tail_lt short) fun rest _ => agrees_pure node

theorem agrees_binary (left : Node) (behind : tokens.tail.length < bound) :
    Agrees depth (binary metered left) (Grammar.binary expression left) eof tokens := by
  refine agrees_lift_bind Parser.current ?_
  refine agrees_lift_bind Parser.advance ?_
  exact agrees_bind (inner _ _ behind) (agrees_pure _)

theorem agrees_index (collection : Node) (behind : tokens.tail.length < bound) :
    Agrees depth (index metered collection) (Grammar.index expression collection) eof tokens := by
  refine agrees_lift_bind Parser.current ?_
  refine agrees_lift_bind Parser.advance ?_
  refine agrees_bind_below behind (inner _ _ behind) fun position rest short => ?_
  exact agrees_expect _ (length_tail_lt short) fun rest _ => agrees_pure _

section

variable (enough : bound ≤ fuel)

include enough

theorem agrees_returnStatement (short : tokens.length < bound) :
    Agrees depth (returnStatement fuel metered) (Grammar.returnStatement expression) eof
      tokens := by
  have behind := length_tail_lt short
  refine agrees_lift_bind Parser.current ?_
  refine agrees_lift_bind Parser.advance ?_
  refine agrees_bind_below behind (inner _ _ behind) fun value rest short => ?_
  exact agrees_bind (agrees_skipTo (Nat.lt_of_lt_of_le short enough)) (agrees_pure _)

theorem agrees_statement (short : tokens.length < bound) :
    Agrees depth (statement fuel metered) (Grammar.statement expression) eof tokens := by
  refine agrees_lift_bind Parser.current ?_
  simp only [Parser.run_current]
  cases (currentOf eof tokens).kind with
  | kwLet => exact agrees_letStatement inner short
  | kwReturn => exact agrees_returnStatement inner enough short
  | _ => exact agrees_exprStatement inner short

theorem agrees_statements {stop : Kind → Bool} (short : tokens.length < bound) :
    Agrees depth (statements fuel metered stop) (Grammar.statements stop expression) eof tokens :=
  agrees_bind
    (agrees_manyUntil (fun _ short => agrees_statement inner enough short) short
      (Nat.lt_of_lt_of_le short enough))
    (agrees_pure _)

theorem agrees_block (behind : tokens.tail.length < bound) :
    Agrees depth (block fuel metered) (Grammar.block expression) eof tokens := by
  refine agrees_lift_bind Parser.current ?_
  refine agrees_lift_bind Parser.advance ?_
  exact agrees_bind (agrees_statements inner enough behind) (agrees_pure _)

theorem agrees_conditional (behind : tokens.tail.length < bound) :
    Agrees depth (conditional fuel metered) (Grammar.conditional expression) eof tokens := by
  refine agrees_lift_bind Parser.current ?_
  refine agrees_expect _ behind fun rest short => ?_
  refine agrees_lift_bind Parser.advance ?_
  have behind := length_tail_lt short
  refine agrees_bind_below behind (inner _ _ behind) fun condition rest short => ?_
  refine agrees_expect _ (length_tail_lt short) fun rest short => ?_
  refine agrees_expect _ (length_tail_lt short) fun rest short => ?_
  refine agrees_bind_below short (agrees_block inner enough (length_tail_lt short))
    fun consequence rest short => ?_
  refine agrees_lift_bind Parser.upcoming ?_
  split
  · refine agrees_lift_bind Parser.advance ?_
    refine agrees_expect _ (length_tail_lt (length_tail_lt short)) fun rest short => ?_
    exact agrees_bind (agrees_block inner enough (length_tail_lt short)) (agrees_pure _)
  · exact agrees_pure _

theorem agrees_function (behind : tokens.tail.length < bound) :
    Agrees depth (function fuel metered) (Grammar.function expression) eof tokens := by
  refine agrees_lift_bind Parser.current ?_
  refine agrees_expect _ behind fun rest short => ?_
  refine agrees_bind_below short
    (agrees_commaList (fun _ _ => agrees_lift parameter) (length_tail_lt short) enough)
    fun parameters? rest short => ?_
  cases parameters? with
  | none => exact agrees_pure _
  | some parameters =>
    simp only
    split
    · refine agrees_expect _ (length_tail_lt short) fun rest short => ?_
      exact agrees_bind (agrees_block inner enough (length_tail_lt short)) (agrees_pure _)
    · exact agrees_pure _

theorem agrees_array (behind : tokens.tail.length < bound) :
    Agrees depth (array fuel metered) (Grammar.array expression) eof tokens := by
  refine agrees_lift_bind Parser.current ?_
  refine agrees_bind_below (Nat.lt_succ_self _) (agrees_commaList (inner _) behind enough)
    fun items? rest _ => ?_
  cases items? <;> exact agrees_pure _

theorem agrees_call (callee : Node) (behind : tokens.tail.length < bound) :
    Agrees depth (call fuel metered callee) (Grammar.call expression callee) eof tokens := by
  refine agrees_lift_bind Parser.current ?_
  refine agrees_bind_below (Nat.lt_succ_self _) (agrees_commaList (inner _) behind enough)
    fun items? rest _ => ?_
  cases items? <;> exact agrees_pure _

theorem agrees_opening (start : Opening) (behind : tokens.tail.length < bound) :
    Agrees depth (opening fuel metered start) (Grammar.opening expression start) eof tokens := by
  cases start with
  | identifier => exact agrees_lift identifier
  | integer => exact agrees_lift integer
  | string => exact agrees_lift string
  | boolean value => exact agrees_lift (boolean value)
  | unary => exact agrees_unary inner behind
  | group => exact agrees_group inner behind
  | conditional => exact agrees_conditional inner enough behind
  | function => exact agrees_function inner enough behind
  | array => exact agrees_array inner enough behind

theorem agrees_continuation (left : Node) (behind : tokens.tail.length < bound) :
    Agrees depth (continuation fuel metered left) (Grammar.continuation expression left) eof
      tokens := by
  refine agrees_lift_bind Parser.current ?_
  simp only [Parser.run_current]
  rcases (currentOf eof tokens).kind.continuation? with _ | _ | _ | _
  · exact agrees_pure left
  · exact agrees_binary inner left behind
  · exact agrees_call inner enough left behind
  · exact agrees_index inner left behind

end

/-- An expression goes on inside of it only behind its first token. -/
theorem agrees_expressionOver (floor : Int) (here : tokens.length = bound)
    (enough : bound < fuel) :
    Agrees depth (expressionOver fuel metered floor) (Grammar.expressionOver expression floor) eof
      tokens := by
  refine agrees_of_endMarked fun marked => agrees_lift_bind Parser.current ?_
  simp only [Parser.run_current]
  cases opens : (currentOf eof tokens).kind.opening? with
  | none => exact agrees_lift_bind (Parser.report _) (agrees_pure _)
  | some start =>
    have started : tokens ≠ [] := by
      rintro rfl
      simp [marked.ended, Kind.opening?] at opens
    have behind : tokens.tail.length < bound := by
      rw [List.length_tail, here]
      exact Nat.pred_lt (here ▸ mt List.length_eq_zero_iff.mp started)
    have kept := ((Grammar.opening expression start).rest_suffix eof tokens).length_le
    refine agrees_bind (agrees_opening inner (Nat.le_of_lt enough) start behind) ?_
    refine agrees_whileNext (by simp [continues, Kind.continuation?])
      (fun left rest short =>
        agrees_continuation inner (Nat.le_of_lt enough) left (length_tail_lt short)) ?_
      (Nat.lt_of_le_of_lt kept (here ▸ enough))
    rw [List.length_tail] at behind ⊢
    exact Nat.lt_of_le_of_lt (Nat.sub_le_sub_right kept 1) behind

end

/-! ### All expressions -/

section

variable {fuel depth : Nat} {eof : Token} {tokens : List Token}

theorem start_get_bind {α : Type} (f : Nat → Metered α) (depth : Nat) :
    (get >>= f).start depth = (f depth).start depth := by
  simp [start]

theorem start_modify_bind {α : Type} (change : Nat → Nat) (f : Unit → Metered α) (depth : Nat) :
    (modify change >>= f).start depth = (f ()).start (change depth) := by
  simp [start]

/-- The levels that are left at a depth are what the expression may still be nested by. -/
theorem agrees_expression (floor : Int) (enough : tokens.length < fuel) :
    Agrees depth (expression fuel floor) (expressionWithin (maxNesting - depth) floor) eof
      tokens := by
  induction fuel generalizing depth floor tokens with
  | zero => exact absurd enough (Nat.not_lt_zero _)
  | succ fuel ih =>
    intro marked
    rw [expression, start_get_bind]
    by_cases deepest : maxNesting ≤ depth
    · rw [if_pos deepest, Nat.sub_eq_zero_of_le deepest]
      exact agrees_lift_bind Parser.current
        (agrees_lift_bind (Parser.report _) (agrees_pure _)) marked
    · obtain ⟨budget, deeper⟩ : ∃ budget, maxNesting - depth = budget + 1 :=
        Nat.exists_eq_add_one.mpr (Nat.sub_pos_of_lt (Nat.lt_of_not_le deepest))
      have inside : maxNesting - (depth + 1) = budget := by
        rw [Nat.sub_add_eq, deeper, Nat.add_sub_cancel]
      -- an inner expression starts at fewer tokens, so less fuel is enough for it
      have inner (floor : Int) (rest : List Token) (short : rest.length < tokens.length) :
          Agrees (depth + 1) (do
            progress tokens.length
            expression fuel floor) (expressionWithin budget floor) eof rest := by
        have fewer := Nat.lt_of_lt_of_le short (Nat.le_of_lt_succ enough)
        exact agrees_progress_bind short (inside ▸ ih floor fewer)
      have run := agrees_expressionOver inner floor rfl enough marked
      rw [if_neg deepest, start_modify_bind, deeper, expressionWithin,
        run_start_bind (p := Parser.left) (by rw [start_lift]), Parser.left]
      rw [run_start_bind run, start_modify_bind]
      simp [Outcome.andThen, start, settled]

/-- At no depth yet, all of the nesting is left. -/
theorem agrees_outermost (floor : Int) (enough : tokens.length < fuel) :
    Agrees 0 (expression fuel floor) (Grammar.expression floor) eof tokens :=
  agrees_expression floor enough

theorem agrees_program (enough : tokens.length < fuel) :
    Agrees 0 (program fuel) Grammar.program eof tokens :=
  agrees_bind
    (agrees_statements (fun floor _ short => agrees_outermost floor short) (Nat.le_refl fuel)
      enough)
    (agrees_pure _)

end

end Metered

end MonkeyLang
