import MonkeyLang.Parser

/-!
# Repeated parsers

Two loops. One runs a parser, moves on and starts again until a kind of token is current; the
other moves on and takes a step as long as the token behind the current one allows it. Each turn
moves past at least one token, so both end with the tokens.
-/
namespace MonkeyLang.Parser

variable {α : Type}

/-- What a parser leaves when it starts at a token, less one more token, is shorter than what
was there. -/
theorem length_tail_rest_lt (p : Parser α) (eof token : Token) (tokens : List Token) :
    (p.run eof (token :: tokens)).rest.tail.length < (token :: tokens).length := by
  rw [List.length_tail, length_rest, List.length_cons]
  omega

/-- The outcome of `manyUntil`. -/
def manyUntilOutcome (stop : Kind → Bool) (item : Parser α) (eof : Token) :
    List Token → Outcome (List α)
  | [] => ⟨[], 0, [], []⟩
  | token :: tokens =>
    if stop token.kind then ⟨[], 0, token :: tokens, []⟩
    else
      let first := item.run eof (token :: tokens)
      let others := manyUntilOutcome stop item eof first.rest.tail
      ⟨first.value :: others.value, first.advances + 1 + others.advances, others.rest,
        first.faults ++ others.faults⟩
termination_by tokens => tokens.length
decreasing_by exact length_tail_rest_lt ..

theorem rest_manyUntilOutcome (stop : Kind → Bool) (item : Parser α) (eof : Token)
    (tokens : List Token) :
    (manyUntilOutcome stop item eof tokens).rest =
      tokens.drop (manyUntilOutcome stop item eof tokens).advances := by
  fun_induction manyUntilOutcome stop item eof tokens with
  | case1 => rfl
  | case2 => rfl
  | case3 token tokens _ first others ih =>
    have left : first.rest.tail = (token :: tokens).drop (first.advances + 1) := by
      rw [rest_run, List.tail_drop]
    have later : others.rest = first.rest.tail.drop others.advances := ih
    change others.rest = (token :: tokens).drop (first.advances + 1 + others.advances)
    rw [later, left, List.drop_drop]

/-- Runs a parser and moves one token on, again and again, until a stop kind or the end is
current. Gives all values in order. -/
def manyUntil (stop : Kind → Bool) (item : Parser α) : Parser (List α) where
  run := manyUntilOutcome stop item
  rest_run := rest_manyUntilOutcome stop item

/-- The outcome of `whileNext`. -/
def whileNextOutcome (test : Kind → Bool) (step : α → Parser α) (eof : Token) (value : α) :
    List Token → Outcome α
  | token :: next :: tokens =>
    if test next.kind then
      let first := (step value).run eof (next :: tokens)
      let others := whileNextOutcome test step eof first.value first.rest
      ⟨others.value, 1 + first.advances + others.advances, others.rest,
        first.faults ++ others.faults⟩
    else ⟨value, 0, token :: next :: tokens, []⟩
  | tokens => ⟨value, 0, tokens, []⟩
termination_by tokens => tokens.length
decreasing_by
  have := (rest_suffix (step value) eof (next :: tokens)).length_le
  simp only [List.length_cons] at this ⊢
  omega

theorem rest_whileNextOutcome (test : Kind → Bool) (step : α → Parser α) (eof : Token) (value : α)
    (tokens : List Token) :
    (whileNextOutcome test step eof value tokens).rest =
      tokens.drop (whileNextOutcome test step eof value tokens).advances := by
  fun_induction whileNextOutcome test step eof value tokens with
  | case1 value token next tokens _ first others ih =>
    have left : first.rest = (token :: next :: tokens).drop (1 + first.advances) := by
      rw [rest_run, ← List.drop_drop]; rfl
    have later : others.rest = first.rest.drop others.advances := ih
    change others.rest = (token :: next :: tokens).drop (1 + first.advances + others.advances)
    rw [later, left, List.drop_drop]
  | case2 => rfl
  | case3 => rfl

/-- As long as the next token is of an accepted kind, moves to it and takes a step from the value
reached so far. -/
def whileNext (test : Kind → Bool) (step : α → Parser α) (value : α) : Parser α where
  run eof := whileNextOutcome test step eof value
  rest_run eof := rest_whileNextOutcome test step eof value

@[simp] theorem run_manyUntil (stop : Kind → Bool) (item : Parser α) (eof : Token)
    (tokens : List Token) :
    (manyUntil stop item).run eof tokens = manyUntilOutcome stop item eof tokens := rfl

@[simp] theorem run_whileNext (test : Kind → Bool) (step : α → Parser α) (value : α)
    (eof : Token) (tokens : List Token) :
    (whileNext test step value).run eof tokens = whileNextOutcome test step eof value tokens :=
  rfl

/-- Items with commas between them, up to a closing kind; the current token is the opener. Gives
nothing when the closing token is missing. -/
def commaList (close : Kind) (item : Parser α) : Parser (Option (List α)) := do
  if (← upcoming).kind = close then
    advance
    return some []
  else
    advance
    let first ← item
    let items ← whileNext (· == .comma)
      (fun items => do
        advance
        return (← item) :: items)
      [first]
    expect close none (return some items.reverse)

end MonkeyLang.Parser
