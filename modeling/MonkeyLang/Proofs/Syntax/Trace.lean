import MonkeyLang.Grammar.Role
import MonkeyLang.Parser.Repeat
import MonkeyLang.Proofs.Tree.Slots
import Mathlib.Tactic.SplitIfs

/-!
# Traces of runs

What a run can do, whatever it reads: keep a token in a tree, pass over a token that leaves no
trace in a tree, move to the next token, report a fault and drop what it has gathered. A trace puts
such events together to a whole run. It relates the tokens at the start, the number of moves and
the faults to the slots gathered before and behind the run, so that what every event preserves
holds of every run. The laws below trace each building block of a parser.
-/
namespace MonkeyLang

/-- The kinds of tokens that may be passed over without a fault and without a place in the tree. -/
def Kind.unkept : List Kind :=
  [.assign, .comma, .semicolon, .lparen, .rparen, .rbrace, .rbracket, .kwElse, .eof]

/-- That what a fault says of its token is so. -/
inductive Fault.Justified : Fault → Prop
  | unexpected {expected : Kind} {found : Token} (other : expected ≠ found.kind) :
    Justified (.unexpected expected found)
  | malformedInteger {found : Token} (kind : found.kind = .int)
    (outside : 4300 < found.lexeme.toList.length ∨
      0x7fffffffffffffff < Nat.ofDigitChars 10 found.lexeme.toList 0) :
    Justified (.malformedInteger found)
  | noExpression {found : Token} (closed : found.kind.opening? = none) :
    Justified (.noExpression found)
  | tooDeep {found : Token} : Justified (.tooDeep 100 found)

/-- Whether the current token is still to be taken, or has been taken before. -/
inductive Stage where
  | fresh
  | spent
  deriving Repr, DecidableEq

/-- A run from a stage at some tokens, in a number of moves and with some faults, that turns the
slots gathered before into those behind it. The debt bounds by how much the faults outnumber the
tokens that are moved past. -/
inductive Trace (eof : Token) : Stage → Nat → List Token → Nat → List Fault →
    List (Option Token) → List (Option Token) → Prop
  | idle {debt : Nat} {tokens : List Token} {before : List (Option Token)} :
    Trace eof .spent debt tokens 0 [] before before
  /-- At the end of the tokens moves lead nowhere. -/
  | ended {debt moves : Nat} {before : List (Option Token)} :
    Trace eof .spent debt [] moves [] before before
  | andThen {stage : Stage} {debt debt' moves moves' : Nat} {tokens : List Token}
    {faults faults' : List Fault} {before between after : List (Option Token)}
    (first : Trace eof stage debt tokens moves faults before between)
    (second : Trace eof .spent debt' (tokens.drop moves) moves' faults' between after) :
    Trace eof stage (debt' + debt) tokens (moves + moves') (faults ++ faults') before after
  | move {debt moves : Nat} {token : Token} {tokens : List Token} {faults : List Fault}
    {before after : List (Option Token)}
    (rest : Trace eof .fresh (debt + 1) tokens moves faults before after) :
    Trace eof .spent debt (token :: tokens) (1 + moves) faults before after
  | keep {debt moves : Nat} {token : Token} {tokens : List Token} {faults : List Fault}
    {before after : List (Option Token)} (legal : token.kind ≠ .illegal)
    (rest : Trace eof .spent debt (token :: tokens) moves faults (before ++ [some token]) after) :
    Trace eof .fresh debt (token :: tokens) moves faults before after
  | pass {debt moves : Nat} {tokens : List Token} {faults : List Fault}
    {before after : List (Option Token)} (unkept : (currentOf eof tokens).kind ∈ Kind.unkept)
    (rest : Trace eof .spent debt tokens moves faults before after) :
    Trace eof .fresh debt tokens moves faults before after
  /-- What was gathered earlier stands before all of it. -/
  | behind {stage : Stage} {debt moves : Nat} {tokens : List Token} {faults : List Fault}
    {before after : List (Option Token)} (earlier : List (Option Token))
    (rest : Trace eof stage debt tokens moves faults before after) :
    Trace eof stage debt tokens moves faults (earlier ++ before) (earlier ++ after)
  /-- The next token is not the expected one, and leaves a gap for all that was gathered. -/
  | missing {debt : Nat} {tokens : List Token} {before : List (Option Token)} {kind : Kind}
    (other : kind ≠ (upcomingOf eof tokens).kind) :
    Trace eof .spent (debt + 1) tokens 0 [.unexpected kind (upcomingOf eof tokens)] before [none]
  /-- Nothing can be read at the current token, which leaves a gap. -/
  | refused {debt : Nat} {tokens : List Token} {before : List (Option Token)} {fault : Fault}
    (justified : fault.Justified) (here : fault.token = currentOf eof tokens) :
    Trace eof .fresh (debt + 1) tokens 0 [fault] before [none]
  /-- All that was gathered, a gap among it, is dropped for one gap. -/
  | collapse {stage : Stage} {debt moves : Nat} {tokens : List Token} {faults : List Fault}
    {before after : List (Option Token)} (gap : none ∈ after)
    (rest : Trace eof stage debt tokens moves faults before after) :
    Trace eof stage debt tokens moves faults before [none]
  /-- A gap in place of a whole binding is left out. -/
  | unbound {debt moves : Nat} {token : Token} {tokens : List Token} {faults : List Fault}
    {before : List (Option Token)} (keyword : token.kind = .kwLet)
    (rest : Trace eof .fresh debt (token :: tokens) moves faults before [none]) :
    Trace eof .fresh debt (token :: tokens) moves faults before []
  /-- Behind a returned value any number of tokens is skipped. -/
  | skip {debt moves : Nat} {token : Token} {tokens : List Token} {faults : List Fault}
    {before after : List (Option Token)} (keyword : token.kind = .kwReturn) (count : Nat)
    (rest : Trace eof .fresh debt (token :: tokens) moves faults before after) :
    Trace eof .fresh debt (token :: tokens) (moves + count) faults before after

namespace Parser

variable {α β : Type} {eof : Token} {stage : Stage} {debt debt' : Nat}
  {before : List (Option Token)} {shape : α → List (Option Token)}
  {shape' : β → List (Option Token)} {tokens : List Token}

/-- The run of the parser has a trace from the slots gathered before to those of its value. -/
def Traced (eof : Token) (stage : Stage) (debt : Nat) (before : List (Option Token))
    (shape : α → List (Option Token)) (p : Parser α) (tokens : List Token) : Prop :=
  Trace eof stage debt tokens (p.run eof tokens).advances (p.run eof tokens).faults before
    (shape (p.run eof tokens).value)

theorem traced_pure {value : α} (h : before = shape value) :
    Traced eof .spent debt before shape (pure value) tokens := by
  subst h
  exact .idle

/-- A gap among what was gathered is enough to give nothing. -/
theorem traced_pure_lost {value : α} (gap : none ∈ before) (lost : shape value = [none]) :
    Traced eof .spent debt before shape (pure value) tokens := by
  have dropped : Trace eof .spent debt tokens 0 [] before (shape value) := by
    rw [lost]
    exact .collapse gap .idle
  exact dropped

theorem traced_bind {p : Parser α} {f : α → Parser β}
    (first : Traced eof stage debt before shape p tokens)
    (second : ∀ value rest, Traced eof .spent debt' (shape value) shape' (f value) rest) :
    Traced eof stage (debt' + debt) before shape' (p >>= f) tokens := by
  have later := second (p.run eof tokens).value (p.run eof tokens).rest
  rw [Traced, p.rest_run] at later
  have whole := Trace.andThen first later
  rw [← p.rest_run] at whole
  exact whole

/-- What a parser gathers stands behind what was gathered earlier. -/
theorem traced_behind {p : Parser α} (h : Traced eof stage debt [] shape p tokens) :
    Traced eof stage debt before (fun value => before ++ shape value) p tokens := by
  have framed := Trace.behind before h
  rwa [List.append_nil] at framed

/-- A parser with a debt of one fault, and another behind it. -/
theorem traced_behind_bind {p : Parser α} {f : α → Parser β}
    (first : Traced eof stage 1 [] shape p tokens)
    (second : ∀ value rest, Traced eof .spent debt (before ++ shape value) shape' (f value) rest) :
    Traced eof stage (debt + 1) before shape' (p >>= f) tokens :=
  traced_bind (traced_behind first) second

/-- A parser without debts, and another behind it. -/
theorem traced_free_bind {p : Parser α} {f : α → Parser β}
    (first : Traced eof stage 0 [] shape p tokens)
    (second : ∀ value rest, Traced eof .spent debt (before ++ shape value) shape' (f value) rest) :
    Traced eof stage debt before shape' (p >>= f) tokens :=
  traced_bind (traced_behind first) second

theorem traced_pass {p : Parser α} (unkept : (currentOf eof tokens).kind ∈ Kind.unkept)
    (h : Traced eof .spent debt before shape p tokens) :
    Traced eof .fresh debt before shape p tokens :=
  .pass unkept h

theorem run_current_bind {f : Token → Parser β} :
    (current >>= f).run eof tokens = (f (currentOf eof tokens)).run eof tokens := by
  simp [Outcome.andThen]

theorem run_upcoming_bind {f : Token → Parser β} :
    (upcoming >>= f).run eof tokens = (f (upcomingOf eof tokens)).run eof tokens := by
  simp [Outcome.andThen]

theorem traced_current_bind {f : Token → Parser β}
    (h : Traced eof stage debt before shape' (f (currentOf eof tokens)) tokens) :
    Traced eof stage debt before shape' (current >>= f) tokens := by
  rw [Traced, run_current_bind]
  exact h

theorem traced_upcoming_bind {f : Token → Parser β}
    (h : Traced eof stage debt before shape' (f (upcomingOf eof tokens)) tokens) :
    Traced eof stage debt before shape' (upcoming >>= f) tokens := by
  rw [Traced, run_upcoming_bind]
  exact h

/-- The current token is kept. -/
theorem traced_keep_bind {token : Token} {f : Token → Parser β} (legal : token.kind ≠ .illegal)
    (h : Traced eof .spent debt (before ++ [some token]) shape' (f token) (token :: tokens)) :
    Traced eof .fresh debt before shape' (current >>= f) (token :: tokens) :=
  traced_current_bind (.keep legal h)

theorem traced_advance_bind {token : Token} {f : Unit → Parser β}
    (h : Traced eof .fresh (debt + 1) before shape' (f ()) tokens) :
    Traced eof .spent debt before shape' (advance >>= f) (token :: tokens) :=
  .move h

/-- A parser that reports at the current token and gives nothing. -/
theorem traced_report {fault : Fault} {missing : α} (justified : fault.Justified)
    (here : fault.token = currentOf eof tokens) (lost : shape missing = [none]) :
    Traced eof .fresh (debt + 1) before shape
      (do report fault; pure missing) tokens := by
  have refused : Trace eof .fresh (debt + 1) tokens 0 [fault] before (shape missing) := by
    rw [lost]
    exact .refused justified here
  exact refused

/-- A binding that could not be built is left out without a gap. -/
theorem traced_unbound {p : Parser Node} {token : Token} (keyword : token.kind = .kwLet)
    (h : Traced eof .fresh debt before Node.child p (token :: tokens)) :
    Traced eof .fresh debt before Node.slots p (token :: tokens) := by
  unfold Traced at h ⊢
  by_cases present : (p.run eof (token :: tokens)).value.isPresent
  · rwa [Node.child_of_isPresent present] at h
  · rw [Node.eq_absent_of_not_isPresent present] at h ⊢
    exact .unbound keyword h

/-- Behind a returned value tokens may be skipped. -/
theorem traced_skipTo (kind : Kind) {p : Parser α} {token : Token}
    (keyword : token.kind = .kwReturn)
    (h : Traced eof .fresh debt before shape p (token :: tokens)) :
    Traced eof .fresh debt before shape (do let value ← p; skipTo kind; return value)
      (token :: tokens) := by
  have skipped := Trace.skip keyword
    ((p.run eof (token :: tokens)).rest.findIdx (·.kind == kind)) h
  simpa [Traced, Outcome.andThen, run_skipTo] using skipped

/-- A next token of a kind other than the end stands in the list. -/
theorem eq_cons_cons_of_upcomingOf {kind : Kind} (ended : eof.kind = .eof) (hk : kind ≠ .eof)
    (h : (upcomingOf eof tokens).kind = kind) :
    ∃ token next rest, tokens = token :: next :: rest ∧ next.kind = kind := by
  rcases tokens with _ | ⟨token, _ | ⟨next, rest⟩⟩
  · exact absurd (h.symm.trans ended) hk
  · exact absurd (h.symm.trans ended) hk
  · exact ⟨token, next, rest, rfl, h⟩

theorem traced_expect {kind : Kind} {lost : α} {found : Parser α} (ended : eof.kind = .eof)
    (hk : kind ≠ .eof) (hlost : shape lost = [none])
    (h : ∀ token rest, token.kind = kind →
      Traced eof .fresh (debt + 2) before shape found (token :: rest)) :
    Traced eof .spent (debt + 1) before shape (expect kind lost found) tokens := by
  rw [Traced, run_expect]
  split_ifs with hnext
  · obtain ⟨token, next, rest, rfl, hkind⟩ := eq_cons_cons_of_upcomingOf ended hk hnext
    exact .move (h next rest hkind)
  · simp only [hlost]
    exact .missing (Ne.symm hnext)

/-- An expected token that is passed over. -/
theorem traced_expect_passed {kind : Kind} {lost : α} {found : Parser α} (ended : eof.kind = .eof)
    (hk : kind ≠ .eof) (unkept : kind ∈ Kind.unkept) (hlost : shape lost = [none])
    (h : ∀ token rest, Traced eof .spent (debt + 2) before shape found (token :: rest)) :
    Traced eof .spent (debt + 1) before shape (expect kind lost found) tokens := by
  refine traced_expect ended hk hlost fun token rest hkind => ?_
  exact traced_pass (by rwa [currentOf_cons, hkind]) (h token rest)

theorem traced_skipOptional_bind {kind : Kind} {f : Unit → Parser β} (ended : eof.kind = .eof)
    (hk : kind ≠ .eof) (unkept : kind ∈ Kind.unkept)
    (h : ∀ rest, Traced eof .spent debt before shape' (f ()) rest) :
    Traced eof .spent debt before shape' (skipOptional kind >>= f) tokens := by
  have skipped : Traced eof .spent 0 before (fun _ => before) (skipOptional kind) tokens := by
    rw [Traced, run_skipOptional]
    split_ifs with hnext
    · obtain ⟨token, next, rest, rfl, hkind⟩ := eq_cons_cons_of_upcomingOf ended hk hnext
      exact .move (.pass (by rwa [currentOf_cons, hkind]) .idle)
    · exact .idle
  exact traced_bind skipped fun _ rest => h rest

/-- Each of the items adds its slots. Only the last one may stop at the end, where no token is left
to be moved past. -/
theorem traced_manyUntil {stop : Kind → Bool} {item : Parser α} (ended : eof.kind = .eof)
    (stops : ∀ kind, stop kind → kind ∈ Kind.unkept)
    (h : ∀ token rest, Traced eof .fresh 1 [] shape item (token :: rest)) :
    Traced eof .fresh 1 [] (fun values => values.flatMap shape) (manyUntil stop item) tokens := by
  rw [Traced, run_manyUntil]
  fun_induction manyUntilOutcome stop item eof tokens with
  | case1 => exact .pass (by simp [ended, Kind.unkept]) .idle
  | case2 token tokens stopped => exact .pass (stops _ stopped) .idle
  | case3 token tokens running first others ih =>
    have head : Trace eof .fresh 1 (token :: tokens) first.advances first.faults [] _ :=
      h token tokens
    have left : first.rest = (token :: tokens).drop first.advances := item.rest_run ..
    have next : Trace eof .spent 0 first.rest (1 + others.advances) others.faults
        (shape first.value) (shape first.value ++ others.value.flatMap shape) := by
      have tail := Trace.behind (shape first.value) ih
      rw [List.append_nil] at tail
      -- the move behind an item that reads to the end leads nowhere, and only this one does
      cases hrest : first.rest with
      | nil =>
        have none : others = ⟨[], 0, [], []⟩ := by simp [others, hrest, manyUntilOutcome]
        simp only [none, List.flatMap_nil, List.append_nil]
        exact .ended
      | cons last rest =>
        simp only [hrest, List.tail_cons] at tail
        simp only [others, hrest, List.tail_cons]
        exact .move tail
    rw [left] at next
    have whole := Trace.andThen head next
    rwa [← Nat.add_assoc] at whole

/-- As long as the loop runs, each step moves to a token and takes it. -/
theorem traced_whileNext {test : Kind → Bool} {step : α → Parser α} {value : α}
    (start : before = shape value) (h : ∀ value token rest, test token.kind →
      Traced eof .fresh 1 (shape value) shape (step value) (token :: rest)) :
    Traced eof .spent 0 before shape (whileNext test step value) tokens := by
  subst start
  rw [Traced, run_whileNext]
  fun_induction whileNextOutcome test step eof value tokens with
  | case1 value token next tokens go first others ih =>
    have head : Trace eof .spent 0 (token :: next :: tokens) (1 + first.advances) first.faults
        (shape value) (shape first.value) := .move (h value next tokens go)
    have left : first.rest = (token :: next :: tokens).drop (1 + first.advances) := by
      rw [← List.drop_drop]
      exact (step value).rest_run ..
    have tail : Trace eof .spent 0 first.rest others.advances others.faults
        (shape first.value) (shape others.value) := ih
    rw [left] at tail
    exact .andThen head tail
  | case2 => exact .idle
  | case3 => exact .idle

/-- What a list gives as children, or one gap for all of it. -/
def listShape : Option (List Node) → List (Option Token)
  | none => [none]
  | some nodes => Node.childSlots nodes

/-- What a list has collected, the last item first. -/
def collected (nodes : List Node) : List (Option Token) := Node.childSlots nodes.reverse

theorem collected_cons (node : Node) (nodes : List Node) :
    collected (node :: nodes) = collected nodes ++ node.child := by
  simp [collected, Node.childSlots_eq_flatMap]

theorem traced_commaList {close : Kind} {item : Parser Node} (ended : eof.kind = .eof)
    (hclose : close ≠ .eof) (unkept : close ∈ Kind.unkept)
    (h : ∀ tokens, Traced eof .fresh 1 [] Node.child item tokens) {opener : Token} :
    Traced eof .spent 1 [] listShape (commaList close item) (opener :: tokens) := by
  refine traced_upcoming_bind ?_
  split_ifs with hnext
  · obtain ⟨_, next, rest, htokens, hkind⟩ := eq_cons_cons_of_upcomingOf ended hclose hnext
    obtain ⟨rfl, rfl⟩ := List.cons.inj htokens
    refine traced_advance_bind (traced_pass (by rwa [currentOf_cons, hkind]) ?_)
    exact traced_pure rfl
  · refine traced_advance_bind ?_
    refine traced_bind (h tokens) fun first rest => ?_
    have more (items : List Node) (token : Token) (rest : List Token)
        (comma : token.kind == .comma) :
        Traced eof .fresh 1 (collected items) collected
          (do advance; return (← item) :: items) (token :: rest) := by
      have kind : token.kind = .comma := by simpa using comma
      refine traced_pass (by rw [currentOf_cons, kind]; decide) ?_
      refine traced_advance_bind ?_
      refine traced_behind_bind (h rest) fun node rest => ?_
      exact traced_pure (collected_cons node items).symm
    have start : first.child = collected [first] := (collected_cons first []).symm
    refine traced_bind (traced_whileNext start more) fun items rest => ?_
    exact traced_expect_passed ended hclose unkept rfl fun _ _ => traced_pure rfl

end Parser

end MonkeyLang
