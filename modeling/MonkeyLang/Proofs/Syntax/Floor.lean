import MonkeyLang.Grammar.Expression
import MonkeyLang.Proofs.Lexing.Supply
import MonkeyLang.Proofs.Syntax.Trace
import Mathlib.Order.MinMax

/-!
# Expressions above a floor

What an expression takes is decided by its floor at one point only: where its own loop sees the next
operator. So a run above a floor stops in front of what binds no tighter, a run above a higher floor
is the beginning of one above a lower floor, and floors outside of the range of ranks are no
different from the lowest or the highest rank.
-/
namespace MonkeyLang

namespace Parser

variable {α : Type} {test test' : Kind → Bool} {step : α → Parser α} {eof : Token}

/-- A step that notes the token at which it starts. -/
def noting (step : α → Parser α) (reached : α × List Token) : Parser (α × List Token) := do
  let token ← current
  return (← step reached.1, reached.2 ++ [token])

theorem run_noting (step : α → Parser α) (reached : α × List Token) (eof : Token)
    (tokens : List Token) :
    (noting step reached).run eof tokens =
      ⟨(((step reached.1).run eof tokens).value, reached.2 ++ [currentOf eof tokens]),
        ((step reached.1).run eof tokens).advances, ((step reached.1).run eof tokens).rest,
        ((step reached.1).run eof tokens).faults⟩ := by
  simp [noting, Outcome.andThen]

/-- Notes change nothing in what a loop does. -/
theorem fst_whileNext_noting (test : Kind → Bool) (step : α → Parser α)
    (reached : α × List Token) :
    Prod.fst <$> whileNext test (noting step) reached = whileNext test step reached.1 := by
  refine ext_run fun eof tokens => ?_
  rw [run_map, run_whileNext, run_whileNext]
  fun_induction whileNextOutcome test (noting step) eof reached tokens with
  | case1 reached token next tokens go first others ih =>
    have taken : first = (noting step reached).run eof (next :: tokens) := rfl
    rw [run_noting] at taken
    rw [whileNextOutcome, if_pos go]
    simp only [taken] at ih ⊢
    rw [← ih]
    simp [others, taken, Outcome.andThen]
  | case2 reached token next tokens stop => simp [whileNextOutcome, stop, Outcome.andThen]
  | case3 reached tokens short =>
    rcases tokens with _ | ⟨token, _ | ⟨next, rest⟩⟩
    · simp [whileNextOutcome, Outcome.andThen]
    · simp [whileNextOutcome, Outcome.andThen]
    · exact absurd rfl (short token next rest)

/-- A loop notes only tokens that it accepts. -/
theorem test_of_mem_noted {reached : α × List Token} {tokens : List Token} {token : Token}
    (noted : ∀ token ∈ reached.2, test token.kind)
    (member : token ∈ ((whileNext test (noting step) reached).run eof tokens).value.2) :
    test token.kind := by
  rw [run_whileNext] at member
  fun_induction whileNextOutcome test (noting step) eof reached tokens with
  | case1 reached _ next tokens go first others ih =>
    refine ih (fun token ht => ?_) member
    have grown : first.value.2 = reached.2 ++ [next] := rfl
    rw [grown] at ht
    rcases List.mem_append.mp ht with ht | ht
    · exact noted token ht
    · obtain rfl := List.mem_singleton.mp ht
      exact go
  | case2 => exact noted token member
  | case3 => exact noted token member

/-- A loop ends in front of a token that it does not accept. -/
theorem not_test_upcoming (closed : ¬ test eof.kind) (value : α) (tokens : List Token) :
    ¬ test (upcomingOf eof ((whileNext test step value).run eof tokens).rest).kind := by
  rw [run_whileNext]
  fun_induction whileNextOutcome test step eof value tokens with
  | case1 value token next tokens go first others ih => exact ih
  | case2 value token next tokens stop => exact stop
  | case3 value tokens short =>
    rcases tokens with _ | ⟨token, _ | ⟨next, rest⟩⟩
    · exact closed
    · exact closed
    · exact absurd rfl (short token next rest)

/-- A loop that accepts more goes at least as far. -/
theorem advances_whileNext_le (wider : ∀ kind, test' kind → test kind) (value : α)
    (tokens : List Token) :
    ((whileNext test' step value).run eof tokens).advances ≤
      ((whileNext test step value).run eof tokens).advances := by
  rw [run_whileNext, run_whileNext]
  fun_induction whileNextOutcome test' step eof value tokens with
  | case1 value token next tokens go first others ih =>
    rw [whileNextOutcome, if_pos (wider _ go)]
    exact Nat.add_le_add_left ih _
  | case2 => exact Nat.zero_le _
  | case3 => exact Nat.zero_le _

/-- The tokens that a run moves past; at the end it is the end token every time. -/
def passed (eof : Token) (tokens : List Token) (moves : Nat) : List Token :=
  (tokens ++ List.replicate moves eof).take moves

theorem passed_prefix (eof : Token) (tokens : List Token) {moves more : Nat} (h : moves ≤ more) :
    passed eof tokens moves <+: passed eof tokens more := by
  obtain ⟨further, rfl⟩ := Nat.exists_eq_add_of_le h
  have start : tokens ++ List.replicate moves eof <+:
      tokens ++ List.replicate (moves + further) eof := by
    rw [List.replicate_add, ← List.append_assoc]
    exact List.prefix_append _ _
  have enough : moves ≤ (tokens ++ List.replicate moves eof).length := by simp
  have first := List.prefix_iff_eq_take.mp ((List.take_prefix moves _).trans start)
  rw [List.length_take, Nat.min_eq_left enough] at first
  rw [passed, first, passed]
  exact List.take_prefix_take_left h

end Parser

namespace Grammar
open MonkeyLang.Parser

/-- An expression above a floor, with the tokens at which its own loop has taken a step. -/
def notedWithin : Nat → Int → Parser (Node × List Token)
  | 0, floor => do return (← expressionWithin 0 floor, [])
  | budget + 1, floor => do
    let token ← current
    match token.kind.opening? with
    | none => do
      report (.noExpression token)
      return (.absent, [])
    | some start => do
      let left ← opening (expressionWithin budget) start
      whileNext (continues floor) (noting (continuation (expressionWithin budget))) (left, [])

theorem fst_notedWithin (budget : Nat) (floor : Int) :
    Prod.fst <$> notedWithin budget floor = expressionWithin budget floor := by
  cases budget with
  | zero => simp [notedWithin]
  | succ budget =>
    rw [notedWithin, expressionWithin, expressionOver, map_bind]
    congr 1
    funext token
    cases token.kind.opening? with
    | none => simp
    | some start => simp [fst_whileNext_noting]

theorem mem_notedWithin {budget : Nat} {floor : Int} {eof operator : Token} {tokens : List Token}
    (member : operator ∈ ((notedWithin budget floor).run eof tokens).value.2) :
    continues floor operator.kind := by
  cases budget with
  | zero => simp [notedWithin] at member
  | succ budget =>
    rw [notedWithin, run_current_bind] at member
    split at member
    · simp at member
    · exact test_of_mem_noted (by simp) member

theorem rank_of_continuation?_none {kind : Kind} (h : kind.continuation? = none) :
    kind.rank = Precedence.lowest.rank := by
  revert h
  cases kind <;> simp [Kind.continuation?, Kind.rank, Kind.precedence?]

theorem rank_mem_of_continuation? {kind : Kind} (h : kind.continuation?.isSome) :
    Precedence.lowest.rank < kind.rank ∧ kind.rank ≤ Precedence.call.rank := by
  revert h
  cases kind <;> decide

/-- What does not continue above a floor has no higher rank. -/
theorem rank_le_of_not_continues {floor : Int} {kind : Kind} (h : ¬ continues floor kind) :
    kind.rank ≤ max floor Precedence.lowest.rank := by
  cases hc : kind.continuation? with
  | none => exact (rank_of_continuation?_none hc).le.trans (le_max_right _ _)
  | some rule =>
    have above : ¬ floor < kind.rank := by simpa [continues, hc] using h
    exact (not_lt.mp above).trans (le_max_left _ _)

variable {eof : Token} {tokens : List Token} {budget : Nat} {floor floor' : Int}

theorem rank_upcoming_le (ended : eof.kind = .eof) (room : 0 < budget)
    (opens : (currentOf eof tokens).kind.opening?.isSome) :
    (upcomingOf eof ((expressionWithin budget floor).run eof tokens).rest).kind.rank ≤
      max floor Precedence.lowest.rank := by
  obtain ⟨budget, rfl⟩ := Nat.exists_eq_succ_of_ne_zero room.ne'
  obtain ⟨start, opens⟩ := Option.isSome_iff_exists.mp opens
  have closed : ¬ continues floor eof.kind := by simp [ended, continues, Kind.continuation?]
  rw [expressionWithin, expressionOver, run_current_bind, opens]
  exact rank_le_of_not_continues (not_test_upcoming closed _ _)

theorem expressionWithin_congr (same : continues floor = continues floor') (budget : Nat) :
    expressionWithin budget floor = expressionWithin budget floor' := by
  cases budget with
  | zero => rfl
  | succ budget => rw [expressionWithin, expressionWithin, expressionOver, expressionOver, same]

/-- Every operator binds tighter than a floor that is lowest or lower. -/
theorem continues_of_le_lowest (low : floor ≤ Precedence.lowest.rank) :
    continues floor = fun kind => kind.continuation?.isSome := by
  funext kind
  by_cases goes : kind.continuation?.isSome
  · have above := low.trans_lt (rank_mem_of_continuation? goes).1
    simp [continues, goes, above]
  · simp [continues, goes]

/-- No operator binds tighter than a floor that is highest or higher. -/
theorem continues_of_call_le (high : Precedence.call.rank ≤ floor) :
    continues floor = fun _ => false := by
  funext kind
  by_cases goes : kind.continuation?.isSome
  · have above := (rank_mem_of_continuation? goes).2.trans high
    simp [continues, above]
  · simp [continues, goes]

theorem advances_expressionWithin_le (h : floor ≤ floor') (budget : Nat) (eof : Token)
    (tokens : List Token) :
    ((expressionWithin budget floor').run eof tokens).advances ≤
      ((expressionWithin budget floor).run eof tokens).advances := by
  cases budget with
  | zero => exact le_refl _
  | succ budget =>
    rw [expressionWithin, expressionWithin, expressionOver, expressionOver, run_current_bind,
      run_current_bind]
    split
    · exact le_refl _
    · have wider (kind : Kind) (goes : continues floor' kind) : continues floor kind := by
        simp only [continues, Bool.and_eq_true, decide_eq_true_eq] at goes ⊢
        exact ⟨goes.1, h.trans_lt goes.2⟩
      -- both runs share the opening, and only their loops differ
      exact Nat.add_le_add_left (advances_whileNext_le wider _ _) _

end Grammar

open Grammar MonkeyLang.Parser

/-- An expression that has room for its level and starts with a proper token stops in front of a
token that ranks no higher than the floor or the lowest rank, faults or not; its own loop takes only
operators above the floor. Floors below all ranks are like the lowest one, floors above all like the
highest. Above a higher floor an expression takes the first of the tokens that it takes above a
lower one. -/
theorem expressionWithin_floor {eof : Token} (ended : eof.kind = .eof) (tokens : List Token)
    (budget : Nat) :
    (∀ floor, 0 < budget → (currentOf eof tokens).kind.opening?.isSome →
      (upcomingOf eof ((expressionWithin budget floor).run eof tokens).rest).kind.rank ≤
        max floor Precedence.lowest.rank) ∧
    (∀ floor, Prod.fst <$> notedWithin budget floor = expressionWithin budget floor ∧
      ∀ operator ∈ ((notedWithin budget floor).run eof tokens).value.2,
        operator.kind.continuation?.isSome ∧ floor < operator.kind.rank) ∧
    (∀ floor ≤ Precedence.lowest.rank,
      expressionWithin budget floor = expressionWithin budget Precedence.lowest.rank) ∧
    (∀ floor ≥ Precedence.call.rank,
      expressionWithin budget floor = expressionWithin budget Precedence.call.rank) ∧
    ∀ floor floor', floor ≤ floor' →
      passed eof tokens ((expressionWithin budget floor').run eof tokens).advances <+:
        passed eof tokens ((expressionWithin budget floor).run eof tokens).advances := by
  refine ⟨fun floor room opens => rank_upcoming_le ended room opens, fun floor => ?_,
    fun floor low => ?_, fun floor high => ?_, fun floor floor' h => ?_⟩
  · refine ⟨fst_notedWithin budget floor, fun operator member => ?_⟩
    have goes := mem_notedWithin member
    simpa [continues] using goes
  · apply expressionWithin_congr
    rw [continues_of_le_lowest low, continues_of_le_lowest (le_refl _)]
  · apply expressionWithin_congr
    rw [continues_of_call_le high, continues_of_call_le (le_refl _)]
  · exact passed_prefix eof tokens (advances_expressionWithin_le h budget eof tokens)

/-- Above the rank of sums a product is read up to the sum, though its right side is missing. -/
theorem expressionWithin_floor_sum :
    let lexer := Lexer.ofText "-a * ; + b"
    ((expressionWithin 100 4).run lexer.eof lexer.tokens).faults.length = 1 ∧
    (upcomingOf lexer.eof ((expressionWithin 100 4).run lexer.eof lexer.tokens).rest).kind.rank ≤ 4 ∧
    passed lexer.eof lexer.tokens ((expressionWithin 100 4).run lexer.eof lexer.tokens).advances <+:
      passed lexer.eof lexer.tokens
        ((expressionWithin 100 (-3)).run lexer.eof lexer.tokens).advances := by
  intro lexer
  have reported : ((expressionWithin 100 4).run lexer.eof lexer.tokens).faults.length = 1 := by
    decide +kernel
  have opens : (currentOf lexer.eof lexer.tokens).kind.opening?.isSome := by decide +kernel
  obtain ⟨stops, -, -, -, begins⟩ := expressionWithin_floor lexer.kind_eof lexer.tokens 100
  exact ⟨reported, stops 4 (by decide) opens, begins (-3) 4 (by decide)⟩

end MonkeyLang
