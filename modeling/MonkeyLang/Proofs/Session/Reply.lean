import MonkeyLang.Proofs.Session.History

/-!
# Replies of readers

A reader replies to a call with a node, unless it was only moved, with the two tokens that it then
holds, and with what it adds to its log. The reply follows from the tokens that it held before and
from what its lexer had left, and nothing else in the session has a part in it.
-/
namespace MonkeyLang

/-- What a call makes a reader give and add to its log. -/
structure Reply where
  node : Option Node
  cursor : Cursor
  diagnostics : List Diagnostic
  deriving Repr

/-- The node and the tokens that an answer shows, apart from the size of the log. -/
def Answer.shown? : Answer → Option (Option Node × Cursor)
  | held cursor _ => some (none, cursor)
  | tree node cursor _ => some (some node, cursor)
  | _ => none

namespace Call

/-- The reply to a call that a reader gives which is alone at its place. -/
def replyAt (call : Call) (cursor : Cursor) (source : Lexer) : Reply :=
  let outcome := cursor.outcome source call.parser
  ⟨call.node? outcome.value, cursor.pushAll (source.take outcome.advances).1,
    outcome.faults.map Fault.diagnostic⟩

/-- The replies to calls in a row that a reader gives which is alone with its lexer. -/
def repliesAt (cursor : Cursor) (source : Lexer) : List Call → List Reply
  | [] => []
  | call :: calls =>
    let reply := call.replyAt cursor source
    reply :: repliesAt reply.cursor
      (source.take (cursor.outcome source call.parser).advances).2 calls

/-- What a call gives depends on the tokens that are held and on those that the lexer has left. -/
theorem replyAt_congr (call : Call) (cursor : Cursor) {source source' : Lexer}
    (tokens : source.tokens = source'.tokens) (eof : source.eof = source'.eof) :
    call.replyAt cursor source = call.replyAt cursor source' := by
  have drawn (count : Nat) : (source.take count).1 = (source'.take count).1 := by
    rw [source.take_eq (Nat.le_refl count), source'.take_eq (Nat.le_refl count), tokens, eof]
  simp only [replyAt, Cursor.outcome, tokens, eof, drawn]

end Call

namespace Session

/-- The log of a reader. -/
def logOf (session : Session) (reader : Nat) : Log :=
  (session.readers[reader]?.bind fun state => session.logs[state.log]?).getD .empty

/-- The reply of a reader to a call, if there is such a reader. -/
def reply (session : Session) (reader : Nat) (call : Call) : Option Reply := do
  let after := session.step (call.step reader)
  let (node, cursor) ← after.2.shown?
  return ⟨node, cursor, (after.1.logOf reader).entries.drop (session.logOf reader).size⟩

/-- A reader is open and has its lexer and its log. -/
structure Stands (session : Session) (reader : Nat) (state : Reader) (source : Lexer)
    (log : Log) : Prop where
  opened : session.readers[reader]? = some state
  supplied : session.lexers[state.lexer]? = some source
  logged : session.logs[state.log]? = some log

namespace Stands

variable {session : Session} {reader : Nat} {state : Reader} {source : Lexer} {log : Log}

theorem logOf_eq (h : session.Stands reader state source log) : session.logOf reader = log := by
  simp [logOf, h.opened, h.logged]

/-- The reader goes on with its lexer, and adds to its log what it reports. -/
theorem step_call (h : session.Stands reader state source log) (call : Call) :
    (session.step (call.step reader)).1.Stands reader
      { state with cursor := (call.replyAt state.cursor source).cursor }
      (source.take (state.cursor.outcome source call.parser).advances).2
      (log.append (call.replyAt state.cursor source).diagnostics) := by
  have within := (List.getElem?_eq_some_iff.mp h.opened).1
  have within' := (List.getElem?_eq_some_iff.mp h.supplied).1
  rw [step_call_of_some h.opened h.supplied]
  exact ⟨by simp [afterReading, within, Call.replyAt], by simp [afterReading, within'],
    by simp [afterReading, h.logged, Call.replyAt]⟩

theorem shown?_step (h : session.Stands reader state source log) (call : Call) :
    (session.step (call.step reader)).2.shown? =
      some ((call.replyAt state.cursor source).node,
        (call.replyAt state.cursor source).cursor) := by
  rw [step_call_of_some h.opened h.supplied]
  cases call <;> rfl

/-- A reader replies as it does alone at its place. -/
theorem reply_eq (h : session.Stands reader state source log) (call : Call) :
    session.reply reader call = some (call.replyAt state.cursor source) := by
  have later := (h.step_call call).logOf_eq
  simp only [reply, h.shown?_step, later, h.logOf_eq]
  simp [Log.size]

end Stands

/-- The steps that open a text and a reader over it with a log of its own. -/
def alone (text file : String) : List Step := [.openLexer text file, .openReader 0 none]

theorem stands_alone (text file : String) :
    (run {} (alone text file)).1.Stands 0 ⟨(Lexer.ofText text file).cursor, 0, 0⟩
      ((Lexer.ofText text file).take 2).2 .empty :=
  ⟨rfl, rfl, rfl⟩

end Session

end MonkeyLang
