import MonkeyLang.Diagnostic.Log
import MonkeyLang.Grammar.Expression
import MonkeyLang.Session.Cursor

/-!
# Sessions

A session holds open lexers, logs, parsers and iterators, each known by its number in the order
of opening. Several parsers and iterators may share a lexer, and several parsers a log. A token is
drawn from a lexer by one owner only, and a log only grows.
-/
namespace MonkeyLang

/-- A parser in a session: what it holds, and the numbers of its lexer and its log. -/
structure Reader where
  cursor : Cursor
  lexer : Nat
  log : Nat
  deriving Repr, DecidableEq

/-- An iterator over the tokens of a lexer before the end; once it has met the end it stays
finished. -/
structure Iterator where
  lexer : Nat
  finished : Bool := false
  deriving Repr, DecidableEq

/-- All that is open. -/
structure Session where
  lexers : List Lexer := []
  logs : List Log := []
  readers : List Reader := []
  iterators : List Iterator := []
  deriving Repr, DecidableEq

/-- One step of a session. -/
inductive Step where
  | openLexer (text file : String)
  | openLog
  /-- Opens a parser, which draws two tokens. Without a log it gets one of its own. -/
  | openReader (lexer : Nat) (log : Option Nat)
  | openIterator (lexer : Nat)
  /-- Draws the next token. -/
  | next (lexer : Nat)
  /-- Draws all tokens, the end token last. -/
  | tokenize (lexer : Nat)
  /-- Draws the next token, unless the iterator is finished. -/
  | pull (iterator : Nat)
  /-- Draws all tokens, unless the iterator is finished. -/
  | drain (iterator : Nat)
  | report (log : Nat) (diagnostic : Diagnostic)
  | showLog (log : Nat)
  | showReaderLog (reader : Nat)
  | advance (reader : Nat)
  | program (reader : Nat)
  | statement (reader : Nat)
  | expression (reader : Nat) (floor : Int)
  deriving Repr, DecidableEq

/-- What a step gives. -/
inductive Answer where
  /-- Something was opened, under the next number of its sort. -/
  | opened
  | token (token : Token)
  | tokens (tokens : List Token)
  /-- The iterator was or became finished. -/
  | finished
  | log (log : Log)
  /-- The tokens that a parser holds, and the size of its log. -/
  | held (cursor : Cursor) (reported : Nat)
  /-- A tree, and then the same. -/
  | tree (node : Node) (cursor : Cursor) (reported : Nat)
  /-- There is nothing with that number. -/
  | unknown
  deriving Repr

namespace Session

/-- Draws tokens from a lexer. -/
def draw (session : Session) (lexer count : Nat) : List Token × Session :=
  match session.lexers[lexer]? with
  | none => ([], session)
  | some source =>
    let taken := source.take count
    (taken.1, { session with lexers := session.lexers.set lexer taken.2 })

/-- The number of draws that end with the end token. -/
def drawsToEnd (session : Session) (lexer : Nat) : Nat :=
  match session.lexers[lexer]? with
  | none => 0
  | some source => source.tokens.length + 1

/-- Adds diagnostics to a log. -/
def append (session : Session) (log : Nat) (diagnostics : List Diagnostic) : Session :=
  { session with logs := session.logs.modify log (·.append diagnostics) }

/-- The size of a log. -/
def reported (session : Session) (log : Nat) : Nat := (session.logs[log]?.getD .empty).size

/-- What a parser holds and has reported. -/
def showReader (session : Session) (reader : Nat) : Answer :=
  match session.readers[reader]? with
  | none => .unknown
  | some state => .held state.cursor (session.reported state.log)

/-- Opens a parser over a lexer. -/
def openReader (session : Session) (lexer : Nat) (log : Option Nat) : Session × Answer :=
  match session.draw lexer 2 with
  | ([current, upcoming], session) =>
    let logs := if log.isSome then session.logs else session.logs ++ [Log.empty]
    let reader : Reader := ⟨⟨current, upcoming⟩, lexer, log.getD session.logs.length⟩
    let session := { session with logs := logs, readers := session.readers ++ [reader] }
    (session, session.showReader (session.readers.length - 1))
  | _ => (session, .unknown)

/-- Runs one of the grammar's parsers at the place of an open one. -/
def runReader {α : Type} (session : Session) (reader : Nat) (parser : Parser α) :
    Option (α × Session) := do
  let state ← session.readers[reader]?
  let source ← session.lexers[state.lexer]?
  let outcome := state.cursor.outcome source parser
  let drawn := session.draw state.lexer outcome.advances
  let session := drawn.2.append state.log (outcome.faults.map Fault.diagnostic)
  let state := { state with cursor := state.cursor.pushAll drawn.1 }
  return (outcome.value, { session with readers := session.readers.set reader state })

/-- Runs one of the grammar's parsers and gives its tree. -/
def readTree (session : Session) (reader : Nat) (parser : Parser Node) : Session × Answer :=
  match session.runReader reader parser with
  | none => (session, .unknown)
  | some (node, session) =>
    match session.showReader reader with
    | .held cursor reported => (session, .tree node cursor reported)
    | answer => (session, answer)

/-- Draws the next token through an iterator. -/
def pull (session : Session) (iterator : Nat) : Session × Answer :=
  match session.iterators[iterator]? with
  | none => (session, .unknown)
  | some ⟨_, true⟩ => (session, .finished)
  | some ⟨lexer, false⟩ =>
    match session.draw lexer 1 with
    | ([token], session) =>
      if token.kind = .eof then
        ({ session with iterators := session.iterators.set iterator ⟨lexer, true⟩ }, .finished)
      else (session, .token token)
    | _ => (session, .unknown)

/-- Draws all tokens through an iterator; the end token is not given. -/
def drain (session : Session) (iterator : Nat) : Session × Answer :=
  match session.iterators[iterator]? with
  | none => (session, .unknown)
  | some ⟨_, true⟩ => (session, .tokens [])
  | some ⟨lexer, false⟩ =>
    let drawn := session.draw lexer (session.drawsToEnd lexer)
    ({ drawn.2 with iterators := drawn.2.iterators.set iterator ⟨lexer, true⟩ },
      .tokens drawn.1.dropLast)

/-- Takes one step. -/
def step (session : Session) : Step → Session × Answer
  | .openLexer text file =>
    ({ session with lexers := session.lexers ++ [.ofText text file] }, .opened)
  | .openLog => ({ session with logs := session.logs ++ [.empty] }, .opened)
  | .openReader lexer log => session.openReader lexer log
  | .openIterator lexer =>
    ({ session with iterators := session.iterators ++ [⟨lexer, false⟩] }, .opened)
  | .next lexer =>
    match session.draw lexer 1 with
    | ([token], session) => (session, .token token)
    | _ => (session, .unknown)
  | .tokenize lexer =>
    let drawn := session.draw lexer (session.drawsToEnd lexer)
    (drawn.2, .tokens drawn.1)
  | .pull iterator => session.pull iterator
  | .drain iterator => session.drain iterator
  | .report log diagnostic =>
    let session := session.append log [diagnostic]
    (session, (session.logs[log]?.map Answer.log).getD .unknown)
  | .showLog log => (session, (session.logs[log]?.map Answer.log).getD .unknown)
  | .showReaderLog reader =>
    (session, ((session.readers[reader]?.bind fun state => session.logs[state.log]?).map
      Answer.log).getD .unknown)
  | .advance reader =>
    match session.runReader reader Parser.advance with
    | none => (session, .unknown)
    | some (_, session) => (session, session.showReader reader)
  | .program reader => session.readTree reader Grammar.program
  | .statement reader => session.readTree reader (Grammar.statement Grammar.expression)
  | .expression reader floor => session.readTree reader (Grammar.expression floor)

/-- Takes steps in a row. -/
def run (session : Session) : List Step → Session × List Answer
  | [] => (session, [])
  | step :: steps =>
    let first := session.step step
    let others := first.1.run steps
    (others.1, first.2 :: others.2)

end Session

end MonkeyLang
