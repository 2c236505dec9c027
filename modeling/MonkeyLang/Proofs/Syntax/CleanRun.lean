import MonkeyLang.Parser.Repeat
import Mathlib.Tactic.SplitIfs

/-!
# Runs without faults

A parser reads a value from some tokens when it gives that value and reports nothing on the way.
Faults of parsers in a row add up, so a run is clean exactly when each of its parts is. The laws
here say so for every building block, and turn the two loops into relations for induction.
-/
namespace MonkeyLang.Parser

variable {α β : Type} {eof : Token} {tokens left : List Token} {value : α}

/-- The parser gives the value, leaves the second list of tokens and reports nothing. -/
structure Reads (p : Parser α) (eof : Token) (tokens : List Token) (value : α)
    (left : List Token) : Prop where
  value_eq : (p.run eof tokens).value = value
  rest_eq : (p.run eof tokens).rest = left
  faults_eq : (p.run eof tokens).faults = []

theorem reads_pure {a : α} :
    Reads (pure a) eof tokens value left ↔ value = a ∧ left = tokens := by
  constructor
  · intro h
    exact ⟨h.value_eq.symm, h.rest_eq.symm⟩
  · rintro ⟨rfl, rfl⟩
    exact ⟨rfl, rfl, rfl⟩

theorem reads_bind {p : Parser β} {f : β → Parser α} :
    Reads (p >>= f) eof tokens value left ↔
      ∃ first middle, Reads p eof tokens first middle ∧ Reads (f first) eof middle value left := by
  constructor
  · intro h
    have hf := h.faults_eq
    simp only [run_bind, Outcome.faults_andThen, List.append_eq_nil_iff] at hf
    exact ⟨_, _, ⟨rfl, rfl, hf.1⟩, h.value_eq, h.rest_eq, hf.2⟩
  · rintro ⟨first, middle, hp, hf⟩
    constructor <;> simp only [run_bind, Outcome.value_andThen, Outcome.rest_andThen,
      Outcome.faults_andThen, hp.value_eq, hp.rest_eq, hp.faults_eq, List.nil_append]
    · exact hf.value_eq
    · exact hf.rest_eq
    · exact hf.faults_eq

/-- A parser that reports nothing only hands its value and its place on. -/
theorem reads_bind_of_clean {p : Parser β} {f : β → Parser α}
    (clean : (p.run eof tokens).faults = []) :
    Reads (p >>= f) eof tokens value left ↔
      Reads (f (p.run eof tokens).value) eof (p.run eof tokens).rest value left := by
  rw [reads_bind]
  constructor
  · rintro ⟨first, middle, ⟨rfl, rfl, -⟩, h⟩
    exact h
  · intro h
    exact ⟨_, _, ⟨rfl, rfl, clean⟩, h⟩

theorem reads_current_bind {f : Token → Parser α} :
    Reads (current >>= f) eof tokens value left ↔
      Reads (f (currentOf eof tokens)) eof tokens value left :=
  reads_bind_of_clean rfl

theorem reads_upcoming_bind {f : Token → Parser α} :
    Reads (upcoming >>= f) eof tokens value left ↔
      Reads (f (upcomingOf eof tokens)) eof tokens value left :=
  reads_bind_of_clean rfl

theorem reads_advance_bind {f : Unit → Parser α} :
    Reads (advance >>= f) eof tokens value left ↔ Reads (f ()) eof tokens.tail value left :=
  reads_bind_of_clean rfl

theorem reads_skipTo_bind {kind : Kind} {f : Unit → Parser α} :
    Reads (skipTo kind >>= f) eof tokens value left ↔
      Reads (f ()) eof (tokens.drop (tokens.findIdx (·.kind == kind))) value left :=
  reads_bind_of_clean rfl

/-- A parser that reports reads nothing. -/
theorem not_reads_report_bind {fault : Fault} {f : Unit → Parser α} :
    ¬ Reads (report fault >>= f) eof tokens value left := by
  intro h
  have hf := h.faults_eq
  simp at hf

theorem reads_expect {kind : Kind} {missing : α} {found : Parser α} :
    Reads (expect kind missing found) eof tokens value left ↔
      (upcomingOf eof tokens).kind = kind ∧ Reads found eof tokens.tail value left := by
  rw [expect, reads_upcoming_bind]
  split_ifs with h
  · rw [reads_advance_bind]
    simp only [h, true_and]
  · simp only [h, not_reads_report_bind, false_and]

theorem reads_skipOptional_bind {kind : Kind} {f : Unit → Parser α} :
    Reads (skipOptional kind >>= f) eof tokens value left ↔
      Reads (f ()) eof (if (upcomingOf eof tokens).kind = kind then tokens.tail else tokens)
        value left := by
  rw [skipOptional, bind_assoc, reads_upcoming_bind]
  split_ifs with h
  · rw [reads_advance_bind]
  · rw [pure_bind]

/-- Clean turns of `manyUntil`. -/
inductive Turns (stop : Kind → Bool) (item : Parser α) (eof : Token) :
    List Token → List α → List Token → Prop
  | ended : Turns stop item eof [] [] []
  | stopped {token : Token} {tokens : List Token} (h : stop token.kind) :
    Turns stop item eof (token :: tokens) [] (token :: tokens)
  | turn {token : Token} {tokens middle left : List Token} {value : α} {values : List α}
    (go : ¬ stop token.kind) (head : Reads item eof (token :: tokens) value middle)
    (tail : Turns stop item eof middle.tail values left) :
    Turns stop item eof (token :: tokens) (value :: values) left

theorem reads_manyUntil {stop : Kind → Bool} {item : Parser α} {values : List α} :
    Reads (manyUntil stop item) eof tokens values left ↔
      Turns stop item eof tokens values left := by
  constructor
  · rintro ⟨rfl, rfl, faultless⟩
    simp only [run_manyUntil] at faultless ⊢
    fun_induction manyUntilOutcome stop item eof tokens with
    | case1 => exact .ended
    | case2 token tokens h => exact .stopped h
    | case3 token tokens go first others ih =>
      obtain ⟨hfirst, hothers⟩ := List.append_eq_nil_iff.mp faultless
      exact .turn go ⟨rfl, rfl, hfirst⟩ (ih hothers)
  · intro h
    induction h with
    | ended => constructor <;> simp [manyUntilOutcome]
    | stopped h => constructor <;> simp [manyUntilOutcome, h]
    | turn go head tail ih =>
      constructor <;> simp only [run_manyUntil, manyUntilOutcome, if_neg go, head.value_eq,
        head.rest_eq, head.faults_eq, List.nil_append]
      · exact congrArg _ ih.value_eq
      · exact ih.rest_eq
      · exact ih.faults_eq

/-- Clean turns of `whileNext`. -/
inductive Steps (test : Kind → Bool) (step : α → Parser α) (eof : Token) :
    α → List Token → α → List Token → Prop
  | stopped {value : α} {tokens : List Token}
    (h : ∀ next ∈ tokens.tail.head?, ¬ test next.kind) :
    Steps test step eof value tokens value tokens
  | step {start value result : α} {token next : Token} {tokens middle left : List Token}
    (go : test next.kind) (head : Reads (step start) eof (next :: tokens) value middle)
    (tail : Steps test step eof value middle result left) :
    Steps test step eof start (token :: next :: tokens) result left

theorem reads_whileNext {test : Kind → Bool} {step : α → Parser α} {start : α} :
    Reads (whileNext test step start) eof tokens value left ↔
      Steps test step eof start tokens value left := by
  constructor
  · rintro ⟨rfl, rfl, faultless⟩
    simp only [run_whileNext] at faultless ⊢
    fun_induction whileNextOutcome test step eof start tokens with
    | case1 start token next tokens go first others ih =>
      obtain ⟨hfirst, hothers⟩ := List.append_eq_nil_iff.mp faultless
      exact .step go ⟨rfl, rfl, hfirst⟩ (ih hothers)
    | case2 start token next tokens stop => exact .stopped (by simpa using stop)
    | case3 start tokens short =>
      refine .stopped fun next h => ?_
      rcases tokens with _ | ⟨token, _ | ⟨second, rest⟩⟩
      · simp at h
      · simp at h
      · exact absurd rfl (short token second rest)
  · intro h
    induction h with
    | @stopped value tokens h =>
      rcases tokens with _ | ⟨token, _ | ⟨next, rest⟩⟩
      · constructor <;> simp [whileNextOutcome]
      · constructor <;> simp [whileNextOutcome]
      · have hn : ¬ test next.kind := h next rfl
        constructor <;> simp [whileNextOutcome, hn]
    | step go head tail ih =>
      constructor <;> simp only [run_whileNext, whileNextOutcome, if_pos go, head.value_eq,
        head.rest_eq, head.faults_eq, List.nil_append]
      · exact ih.value_eq
      · exact ih.rest_eq
      · exact ih.faults_eq

end MonkeyLang.Parser
