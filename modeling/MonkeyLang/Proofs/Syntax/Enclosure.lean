import MonkeyLang.Proofs.Syntax.CleanRun
import MonkeyLang.Proofs.Syntax.Congruence
import Mathlib.Data.List.Basic

/-!
# Phrases in front of a closer

A parser that has read some tokens up to the last one and looked at the end behind it reads them in
the same way in front of a closing token: neither the end nor the closer goes on with what stands
before. That the last token is still current is what excludes a block or a return that is cut off by
the end. The budget may be any that is not smaller.
-/
namespace MonkeyLang

/-- A kind that belongs to what stands around an expression, never to the expression. -/
def Kind.IsOuter (kind : Kind) : Prop :=
  kind.continuation? = none ∧ kind ≠ .comma ∧ kind ≠ .semicolon ∧ kind ≠ .kwElse

instance : DecidablePred Kind.IsOuter := fun kind =>
  inferInstanceAs (Decidable (kind.continuation? = none ∧ _))

namespace Parser

variable {α β : Type} {eof eof' closer : Token} {rest tokens left : List Token} {value : α}
  {p q p' q' : Parser α}

theorem Reads.suffix (h : Reads p eof tokens value left) : left <:+ tokens := by
  rw [← h.rest_eq]
  exact p.rest_suffix eof tokens

theorem Reads.ne_nil (h : Reads p eof tokens value left) (more : left ≠ []) : tokens ≠ [] := by
  rintro rfl
  exact more (List.suffix_nil.mp h.suffix)

theorem upcomingOf_append (further : tokens.tail ≠ []) (more : List Token) :
    upcomingOf eof' (tokens ++ more) = upcomingOf eof tokens := by
  rcases tokens with _ | ⟨token, _ | ⟨next, tokens⟩⟩
  · exact absurd rfl further
  · exact absurd rfl further
  · rfl

/-- What the first parser reads, leaving the last token, the second one reads in front of the
closer, leaving the closer as well. -/
def Persists (eof eof' closer : Token) (rest : List Token) (p q : Parser α) : Prop :=
  ∀ tokens left value, Reads p eof tokens value left → left ≠ [] →
    Reads q eof' (tokens ++ closer :: rest) value (left ++ closer :: rest)

theorem persists_pure (value : α) : Persists eof eof' closer rest (pure value) (pure value) := by
  intro tokens left read h _
  obtain ⟨rfl, rfl⟩ := reads_pure.mp h
  exact reads_pure.mpr ⟨rfl, rfl⟩

theorem persists_bind {f g : α → Parser β} (first : Persists eof eof' closer rest p q)
    (second : ∀ value, Persists eof eof' closer rest (f value) (g value)) :
    Persists eof eof' closer rest (p >>= f) (q >>= g) := by
  intro tokens left value h more
  obtain ⟨found, middle, before, behind⟩ := reads_bind.mp h
  have later := second found _ _ _ behind more
  exact reads_bind.mpr ⟨found, _, first _ _ _ before (behind.ne_nil more), later⟩

theorem persists_current : Persists eof eof' closer rest current current := by
  rintro tokens left value ⟨rfl, rfl, -⟩ more
  obtain ⟨token, tokens, rfl⟩ := List.exists_cons_of_ne_nil more
  exact ⟨rfl, rfl, rfl⟩

theorem persists_advance : Persists eof eof' closer rest advance advance := by
  rintro tokens left value ⟨rfl, rfl, -⟩ more
  cases tokens with
  | nil => exact absurd rfl more
  | cons token tokens => exact ⟨rfl, rfl, rfl⟩

/-- A parser that reports has read nothing. -/
theorem persists_report (fault : Fault) :
    Persists eof eof' closer rest (report fault) (report fault) := by
  rintro tokens left value ⟨-, -, faultless⟩ _
  exact absurd faultless (List.cons_ne_nil _ _)

/-- Where the last token is current, neither the end nor the closer is of the kind asked for. -/
theorem persists_whether {kind : Kind} (ended : eof.kind ≠ kind) (closes : closer.kind ≠ kind)
    (h : Persists eof eof' closer rest p q) (h' : Persists eof eof' closer rest p' q') :
    Persists eof eof' closer rest (do if (← upcoming).kind = kind then p else p')
      (do if (← upcoming).kind = kind then q else q') := by
  intro tokens left value read more
  rw [reads_upcoming_bind] at read ⊢
  have branch (next : Token) : Persists eof eof' closer rest
      (if next.kind = kind then p else p') (if next.kind = kind then q else q') := by
    split
    · exact h
    · exact h'
  by_cases further : tokens.tail = []
  · have some := read.ne_nil more
    obtain ⟨token, others, rfl⟩ := List.exists_cons_of_ne_nil some
    obtain rfl : others = [] := further
    rw [upcomingOf_cons, currentOf_nil, if_neg ended] at read
    rw [List.singleton_append, upcomingOf_cons, currentOf_cons, if_neg closes]
    exact h' _ _ _ read more
  · rw [upcomingOf_append further]
    exact branch _ _ _ _ read more

theorem persists_expect (kind : Kind) (missing : α) (h : Persists eof eof' closer rest p q) :
    Persists eof eof' closer rest (expect kind missing p) (expect kind missing q) := by
  intro tokens left value read more
  obtain ⟨found, behind⟩ := reads_expect.mp read
  have further := behind.ne_nil more
  have later := h _ _ _ behind more
  rw [← List.tail_append_of_ne_nil (List.ne_nil_of_tail_ne_nil further)] at later
  rw [reads_expect, upcomingOf_append further]
  exact ⟨found, later⟩

/-- Skipping that stops at a semicolon has not reached the end. -/
theorem persists_skipTo : Persists eof eof' closer rest (skipTo .semicolon) (skipTo .semicolon) := by
  rintro tokens left value ⟨rfl, rfl, -⟩ more
  have inside : tokens.findIdx (·.kind == .semicolon) < tokens.length := by
    by_contra outside
    exact more (List.drop_eq_nil_of_le (by omega))
  refine ⟨rfl, ?_, rfl⟩
  show (tokens ++ closer :: rest).drop _ = _
  rw [List.findIdx_append, if_pos inside, List.drop_append_of_le_length (by omega)]
  rfl

theorem persists_manyUntil (stop : Kind → Bool) (h : Persists eof eof' closer rest p q) :
    Persists eof eof' closer rest (manyUntil stop p) (manyUntil stop q) := by
  intro tokens left values read more
  rw [reads_manyUntil] at read ⊢
  induction read with
  | ended => exact absurd rfl more
  | stopped stops => exact .stopped stops
  | @turn token tokens middle left value values go head tail ih =>
    have further : middle.tail ≠ [] :=
      (reads_manyUntil.mpr tail : Reads (manyUntil stop p) eof _ _ _).ne_nil more
    have some := List.ne_nil_of_tail_ne_nil further
    have later := ih more
    rw [← List.tail_append_of_ne_nil some] at later
    exact .turn go (h _ _ _ head some) later

theorem persists_whileNext {test : Kind → Bool} (closes : ¬ test closer.kind)
    {s t : α → Parser α} (h : ∀ value, Persists eof eof' closer rest (s value) (t value))
    (value : α) :
    Persists eof eof' closer rest (whileNext test s value) (whileNext test t value) := by
  intro tokens left result read more
  rw [reads_whileNext] at read ⊢
  induction read with
  | @stopped value tokens stops =>
    apply Steps.stopped
    intro next member
    rw [List.tail_append_of_ne_nil more] at member
    by_cases further : tokens.tail = []
    · obtain rfl : closer = next := by simpa [further] using member
      exact closes
    · rw [List.head?_append_of_ne_nil _ further] at member
      exact stops next member
  | @step start value result token next tokens middle left go head tail ih =>
    have some : middle ≠ [] :=
      (reads_whileNext.mpr tail : Reads (whileNext test s value) eof _ _ _).ne_nil more
    exact .step go (h _ _ _ _ head some) (ih more)

theorem persists_commaList (close : Kind) (closes : closer.kind ≠ .comma)
    (h : Persists eof eof' closer rest p q) :
    Persists eof eof' closer rest (commaList close p) (commaList close q) := by
  intro tokens left values read more
  rw [commaList, reads_upcoming_bind] at read ⊢
  -- both ways the list moves to a token behind its opener
  have further : tokens.tail ≠ [] := by
    split at read
    · exact (reads_advance_bind.mp read).ne_nil more
    · exact (reads_advance_bind.mp read).ne_nil more
  rw [upcomingOf_append further]
  split at read <;> rename_i next
  · rw [if_pos next]
    exact persists_bind persists_advance (fun _ => persists_pure _) _ _ _ read more
  · rw [if_neg next]
    refine persists_bind persists_advance (fun _ => persists_bind h fun first => ?_) _ _ _ read more
    have another (values : List α) : Persists eof eof' closer rest
        (do advance; return (← p) :: values) (do advance; return (← q) :: values) :=
      persists_bind persists_advance fun _ => persists_bind h fun _ => persists_pure _
    apply persists_bind (persists_whileNext (by simpa using closes) another [first])
    exact fun _ => persists_expect _ _ (persists_pure _)

end Parser

namespace Grammar
open MonkeyLang.Parser

variable {eof eof' closer : Token} (ended : eof.kind.IsOuter) (closes : closer.kind.IsOuter)
  (rest : List Token)
include ended closes

theorem congruence_persists : Congruence (Persists eof eof' closer rest) where
  pure := persists_pure
  bind := persists_bind
  current := persists_current
  advance := persists_advance
  report := persists_report
  skipOptional :=
    persists_whether ended.2.2.1 closes.2.2.1 persists_advance (persists_pure ())
  skipTo := persists_skipTo
  expect kind missing _ _ h := persists_expect kind missing h
  whetherElse h h' := persists_whether ended.2.2.2 closes.2.2.2 h h'
  manyUntil stop _ _ h := persists_manyUntil stop h
  whileNext _ _ _ value h := persists_whileNext (by simp [continues, closes.1]) h value
  commaList close _ _ h := persists_commaList close closes.2.1 h

theorem persists_expressionWithin {budget budget' : Nat} (le : budget ≤ budget') (floor : Int) :
    Persists eof eof' closer rest (expressionWithin budget floor)
      (expressionWithin budget' floor) := by
  refine (congruence_persists ended closes rest).expressionWithin (fun floor q => ?_) le floor
  intro tokens left value read _
  exact absurd (reads_current_bind.mp read) not_reads_report_bind

end Grammar

end MonkeyLang
