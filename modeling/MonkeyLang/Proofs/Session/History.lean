import MonkeyLang.Proofs.Session.Holding
import MonkeyLang.Session

/-!
# The history of a session

All tokens that are drawn in a session, in the order of their draws, each with the lexer that gave
it and the consumer that took it. Every step draws on behalf of one consumer at most. A reader
that is called draws a token for each move of the parser that it runs.
-/
namespace MonkeyLang

/-- What can be asked of a reader. -/
inductive Call where
  | advance
  | program
  | statement
  | expression (floor : Int)
  deriving Repr, DecidableEq

namespace Call

/-- The step that asks it of a reader. -/
def step (reader : Nat) : Call → Step
  | advance => .advance reader
  | program => .program reader
  | statement => .statement reader
  | expression floor => .expression reader floor

/-- The parser that the reader runs. A mere move gives no node. -/
def parser : Call → Parser Node
  | advance => do
    Parser.advance
    return .absent
  | program => Grammar.program
  | statement => Grammar.statement Grammar.expression
  | expression floor => Grammar.expression floor

/-- The node that a call gives. -/
def node? : Call → Node → Option Node
  | advance, _ => none
  | _, node => some node

/-- The answer to a call, with the node that the parser gives. -/
def answer (call : Call) (node : Node) (cursor : Cursor) (reported : Nat) : Answer :=
  match call.node? node with
  | none => .held cursor reported
  | some node => .tree node cursor reported

end Call

/-- Who draws a token: the caller of a lexer, a reader or an iterator. -/
inductive Consumer where
  | caller
  | reader (number : Nat)
  | iterator (number : Nat)
  deriving Repr, DecidableEq

/-- A token that was drawn. -/
structure Draw where
  consumer : Consumer
  lexer : Nat
  token : Token
  deriving Repr, DecidableEq

/-- A demand for tokens in a number. -/
structure Request where
  consumer : Consumer
  lexer : Nat
  count : Nat

namespace Session

/-- What a reader demands that runs a parser: a token for each move. -/
def readerRequest? {α : Type} (session : Session) (reader : Nat) (parser : Parser α) :
    Option Request := do
  let state ← session.readers[reader]?
  let source ← session.lexers[state.lexer]?
  return ⟨.reader reader, state.lexer, (state.cursor.outcome source parser).advances⟩

/-- What an iterator demands, unless it is finished. -/
def iteratorRequest? (session : Session) (iterator : Nat) (count : Nat → Nat) : Option Request :=
  match session.iterators[iterator]? with
  | some ⟨lexer, false⟩ => some ⟨.iterator iterator, lexer, count lexer⟩
  | _ => none

/-- What a step demands. -/
def request? (session : Session) : Step → Option Request
  | .openReader lexer _ => some ⟨.reader session.readers.length, lexer, 2⟩
  | .next lexer => some ⟨.caller, lexer, 1⟩
  | .tokenize lexer => some ⟨.caller, lexer, session.drawsToEnd lexer⟩
  | .pull iterator => session.iteratorRequest? iterator fun _ => 1
  | .drain iterator => session.iteratorRequest? iterator session.drawsToEnd
  | .advance reader => session.readerRequest? reader Parser.advance
  | .program reader => session.readerRequest? reader Grammar.program
  | .statement reader => session.readerRequest? reader (Grammar.statement Grammar.expression)
  | .expression reader floor => session.readerRequest? reader (Grammar.expression floor)
  | .openLexer _ _ | .openLog | .openIterator _ | .report _ _ | .showLog _ | .showReaderLog _ =>
    none

/-- The tokens that a request is given. -/
def fulfil (session : Session) (request : Request) : List Draw :=
  (session.draw request.lexer request.count).1.map (⟨request.consumer, request.lexer, ·⟩)

/-- The session after the draws that a request asks for. -/
def served (session : Session) (request? : Option Request) : Session :=
  request?.elim session fun request => (session.draw request.lexer request.count).2

/-- The tokens that a step draws. -/
def draws (session : Session) (step : Step) : List Draw :=
  (session.request? step).elim [] session.fulfil

/-- The tokens that are drawn in some steps. -/
def history (session : Session) : List Step → List Draw
  | [] => []
  | step :: steps => session.draws step ++ (session.step step).1.history steps

theorem run_append (session : Session) (steps more : List Step) :
    (session.run (steps ++ more)).1 = ((session.run steps).1.run more).1 := by
  induction steps generalizing session with
  | nil => rfl
  | cons step steps ih => exact ih (session.step step).1

theorem history_append (session : Session) (steps more : List Step) :
    session.history (steps ++ more) =
      session.history steps ++ (session.run steps).1.history more := by
  induction steps generalizing session with
  | nil => rfl
  | cons step steps ih =>
    rw [List.cons_append, history, history, ih, List.append_assoc]
    rfl

/-! ### What a step changes -/

variable {session : Session}

theorem draw_of_none {lexer : Nat} (h : session.lexers[lexer]? = none) (count : Nat) :
    session.draw lexer count = ([], session) := by
  simp [draw, h]

theorem draw_of_some {lexer : Nat} {source : Lexer} (h : session.lexers[lexer]? = some source)
    (count : Nat) :
    session.draw lexer count = ((source.take count).1,
      { session with lexers := session.lexers.set lexer (source.take count).2 }) := by
  simp [draw, h]

@[simp] theorem readers_draw (lexer count : Nat) :
    (session.draw lexer count).2.readers = session.readers := by
  unfold draw
  split <;> rfl

@[simp] theorem iterators_draw (lexer count : Nat) :
    (session.draw lexer count).2.iterators = session.iterators := by
  unfold draw
  split <;> rfl

@[simp] theorem logs_draw (lexer count : Nat) :
    (session.draw lexer count).2.logs = session.logs := by
  unfold draw
  split <;> rfl

section

variable {α : Type} {reader : Nat} {parser : Parser α} {state : Reader} {source : Lexer}

/-- The session after a reader has run a parser: a token is drawn for each move, and the faults are
added to the log. -/
def afterReading (session : Session) (reader : Nat) (state : Reader) (source : Lexer)
    (parser : Parser α) : Session :=
  let outcome := state.cursor.outcome source parser
  let drawn := source.take outcome.advances
  { session with
    lexers := session.lexers.set state.lexer drawn.2
    logs := session.logs.modify state.log (·.append (outcome.faults.map Fault.diagnostic))
    readers := session.readers.set reader { state with cursor := state.cursor.pushAll drawn.1 } }

/-- A reader that is not open, or has no lexer, does nothing. -/
theorem runReader_cases (session : Session) (reader : Nat) :
    (∃ state source, session.readers[reader]? = some state ∧
      session.lexers[state.lexer]? = some source) ∨
    ∀ {α : Type} (parser : Parser α), session.runReader reader parser = none ∧
      session.readerRequest? reader parser = none := by
  cases opened : session.readers[reader]? with
  | none => exact .inr fun parser => by simp [runReader, readerRequest?, opened]
  | some state =>
    cases supplied : session.lexers[state.lexer]? with
    | none => exact .inr fun parser => by simp [runReader, readerRequest?, opened, supplied]
    | some source => exact .inl ⟨state, source, rfl, supplied⟩

theorem step_call_of_none
    (nothing : ∀ {α : Type} (parser : Parser α), session.runReader reader parser = none)
    (call : Call) : session.step (call.step reader) = (session, .unknown) := by
  cases call <;> simp [Call.step, step, readTree, nothing]

theorem request?_call (session : Session) (reader : Nat) (call : Call) :
    session.request? (call.step reader) = session.readerRequest? reader call.parser := by
  cases call <;> rfl

variable (opened : session.readers[reader]? = some state)
  (supplied : session.lexers[state.lexer]? = some source)

include opened supplied

theorem runReader_of_some :
    session.runReader reader parser = some ((state.cursor.outcome source parser).value,
      session.afterReading reader state source parser) := by
  simp [runReader, opened, supplied, draw_of_some supplied, append, afterReading]

theorem readerRequest?_of_some :
    session.readerRequest? reader parser =
      some ⟨.reader reader, state.lexer, (state.cursor.outcome source parser).advances⟩ := by
  simp [readerRequest?, opened, supplied]

/-- The answer to a call shows what the parser gives and the tokens that the reader then holds. -/
theorem step_call_of_some (call : Call) :
    session.step (call.step reader) =
      let outcome := state.cursor.outcome source call.parser
      let later := session.afterReading reader state source call.parser
      (later, call.answer outcome.value
        (state.cursor.pushAll (source.take outcome.advances).1) (later.reported state.log)) := by
  have within := (List.getElem?_eq_some_iff.mp opened).1
  have shown (parser : Parser Node) :
      (session.afterReading reader state source parser).showReader reader =
        .held (state.cursor.pushAll
            (source.take (state.cursor.outcome source parser).advances).1)
          ((session.afterReading reader state source parser).reported state.log) := by
    simp [showReader, afterReading, within]
  have tree (parser : Parser Node) : session.readTree reader parser =
      (session.afterReading reader state source parser,
        .tree (state.cursor.outcome source parser).value
          (state.cursor.pushAll (source.take (state.cursor.outcome source parser).advances).1)
          ((session.afterReading reader state source parser).reported state.log)) := by
    rw [readTree, runReader_of_some opened supplied]
    simp only [shown]
  cases call with
  | advance =>
    rw [Call.step, step, runReader_of_some opened supplied]
    exact congrArg (Prod.mk _) (shown Call.advance.parser)
  | program => exact tree Grammar.program
  | statement => exact tree (Grammar.statement Grammar.expression)
  | expression floor => exact tree (Grammar.expression floor)

end

/-- A new reader holds the first two tokens that its lexer gives. -/
theorem openReader_of_some {lexer : Nat} {source : Lexer}
    (supplied : session.lexers[lexer]? = some source) (log : Option Nat) :
    (session.openReader lexer log).1 =
      { session with
        lexers := session.lexers.set lexer (source.take 2).2
        logs := if log.isSome then session.logs else session.logs ++ [Log.empty]
        readers := session.readers ++ [⟨source.cursor, lexer, log.getD session.logs.length⟩] } := by
  simp [openReader, draw_of_some supplied, Lexer.take, Lexer.cursor]

theorem openReader_of_none {lexer : Nat} (h : session.lexers[lexer]? = none) (log : Option Nat) :
    session.openReader lexer log = (session, .unknown) := by
  simp [openReader, draw_of_none h]

end Session

end MonkeyLang
