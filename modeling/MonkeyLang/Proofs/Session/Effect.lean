import MonkeyLang.Proofs.Session.History

/-!
# What a step does

There are only a few things that a step can do: run a parser, open something, take tokens for a
caller or through an iterator, or add to a log. Each of them fixes what is drawn, what is handed
over and what the session becomes, so what all of them preserve is preserved by every step.
-/
namespace MonkeyLang

/-- Every log of the first list is still there in the second one, with all that was in it and
perhaps more behind that. -/
def Grown (logs later : List Log) : Prop :=
  ∀ (number : Nat) (log : Log), logs[number]? = some log →
    ∃ more, later[number]? = some (log.append more)

theorem grown_refl (logs : List Log) : Grown logs logs := by
  intro number log h
  exact ⟨[], by simpa [Log.append] using h⟩

theorem Grown.trans {logs between later : List Log} (first : Grown logs between)
    (second : Grown between later) : Grown logs later := by
  intro number log h
  obtain ⟨more, h⟩ := first number log h
  obtain ⟨more', h⟩ := second number _ h
  exact ⟨more ++ more', by simpa [Log.append] using h⟩

theorem grown_concat (logs : List Log) (log : Log) : Grown logs (logs ++ [log]) := by
  intro number log' h
  have within := (List.getElem?_eq_some_iff.mp h).1
  exact ⟨[], by simpa [Log.append, List.getElem?_append_left within] using h⟩

theorem grown_modify (logs : List Log) (target : Nat) (diagnostics : List Diagnostic) :
    Grown logs (logs.modify target (·.append diagnostics)) := by
  intro number log h
  by_cases here : target = number
  · exact ⟨diagnostics, by simp [here, h]⟩
  · exact ⟨[], by simpa [Log.append, here] using h⟩

/-- The lexers that a step opens. -/
def Step.opened : Step → List Lexer
  | openLexer text file => [.ofText text file]
  | _ => []

/-- The tokens that an answer hands over. -/
def Answer.handed : Answer → List Token
  | .token given => [given]
  | .tokens given => given
  | _ => []

namespace Session

/-- What a step can do: the tokens that it demands, the lexers that it opens, the tokens that it
hands over, and what it leaves. -/
inductive Effect (session : Session) : Option Request → List Lexer → List Token → Session → Prop
  | reads {reader : Nat} {state : Reader} {source : Lexer}
    (opened : session.readers[reader]? = some state)
    (supplied : session.lexers[state.lexer]? = some source) (parser : Parser Node) :
    Effect session
      (some ⟨.reader reader, state.lexer, (state.cursor.outcome source parser).advances⟩) [] []
      (session.afterReading reader state source parser)
  /-- A new reader starts with the first two tokens that its lexer gives. -/
  | joins {lexer : Nat} {source : Lexer} (supplied : session.lexers[lexer]? = some source)
    {logs : List Log} (grown : Grown session.logs logs) (log : Nat) :
    Effect session (some ⟨.reader session.readers.length, lexer, 2⟩) [] []
      { session with
        lexers := session.lexers.set lexer (source.take 2).2
        logs := logs
        readers := session.readers ++ [⟨source.cursor, lexer, log⟩] }
  | takes (lexer count : Nat) :
    Effect session (some ⟨.caller, lexer, count⟩) [] (session.draw lexer count).1
      (session.draw lexer count).2
  /-- An iterator hands over what stands before the end, and is finished if it meets the end. -/
  | iterates {iterator lexer : Nat} (running : session.iterators[iterator]? = some ⟨lexer, false⟩)
    (count : Nat) (finished : Bool)
    (going : finished = false → ∀ token ∈ (session.draw lexer count).1, token.kind ≠ .eof) :
    Effect session (some ⟨.iterator iterator, lexer, count⟩) []
      ((session.draw lexer count).1.filter (·.kind ≠ .eof))
      { (session.draw lexer count).2 with
        iterators := session.iterators.set iterator ⟨lexer, finished⟩ }
  | fails {lexer : Nat} (missing : session.lexers[lexer]? = none) (consumer : Consumer)
    (count : Nat) : Effect session (some ⟨consumer, lexer, count⟩) [] [] session
  | begins (lexer : Nat) :
    Effect session none [] []
      { session with iterators := session.iterators ++ [⟨lexer, false⟩] }
  | opens (source : Lexer) :
    Effect session none [source] [] { session with lexers := session.lexers ++ [source] }
  | notes {logs : List Log} (grown : Grown session.logs logs) :
    Effect session none [] [] { session with logs := logs }

variable {session : Session}

/-- A step that neither draws nor adds to a log leaves the session as it is. -/
theorem effect_nothing (session : Session) : Effect session none [] [] session :=
  .notes (grown_refl session.logs)

theorem effect_call (session : Session) (reader : Nat) (call : Call) :
    Effect session (session.request? (call.step reader)) (call.step reader).opened
      (session.step (call.step reader)).2.handed (session.step (call.step reader)).1 := by
  have closed : (call.step reader).opened = [] := by cases call <;> rfl
  rw [request?_call, closed]
  rcases session.runReader_cases reader with ⟨state, source, opened, supplied⟩ | nothing
  · rw [readerRequest?_of_some opened supplied, step_call_of_some opened supplied]
    have kept (node : Node) (cursor : Cursor) (reported : Nat) :
        (call.answer node cursor reported).handed = [] := by
      cases call <;> rfl
    simp only [kept]
    exact .reads opened supplied call.parser
  · rw [(nothing call.parser).2, step_call_of_none fun parser => (nothing parser).1]
    exact session.effect_nothing

theorem effect_openReader (session : Session) (lexer : Nat) (log : Option Nat) :
    Effect session (some ⟨.reader session.readers.length, lexer, 2⟩) []
      (session.openReader lexer log).2.handed (session.openReader lexer log).1 := by
  cases supplied : session.lexers[lexer]? with
  | none =>
    rw [openReader_of_none supplied]
    exact .fails supplied _ 2
  | some source =>
    have handed : (session.openReader lexer log).2.handed = [] := by
      simp [openReader, draw_of_some supplied, Lexer.take, showReader, Answer.handed]
    rw [handed, openReader_of_some supplied]
    refine .joins supplied ?_ _
    cases log with
    | none => exact grown_concat session.logs .empty
    | some log => exact grown_refl session.logs

theorem effect_next (session : Session) (lexer : Nat) :
    Effect session (some ⟨.caller, lexer, 1⟩) [] (session.step (.next lexer)).2.handed
      (session.step (.next lexer)).1 := by
  have taken : Effect session _ _ _ _ := .takes lexer 1
  cases supplied : session.lexers[lexer]? with
  | none => simpa [step, draw_of_none supplied, Answer.handed] using taken
  | some source => simpa [step, draw_of_some supplied, Lexer.take, Answer.handed] using taken

theorem effect_pull (session : Session) (iterator : Nat) :
    Effect session (session.iteratorRequest? iterator fun _ => 1) []
      (session.pull iterator).2.handed (session.pull iterator).1 := by
  rw [pull, iteratorRequest?]
  rcases running : session.iterators[iterator]? with _ | ⟨lexer, _ | _⟩
  · exact session.effect_nothing
  · cases supplied : session.lexers[lexer]? with
    | none =>
      simp only [draw_of_none supplied]
      exact .fails supplied _ 1
    | some source =>
      by_cases ended : source.next.1.kind = .eof
      · have pulled := Effect.iterates running 1 true Bool.noConfusion
        simpa [draw_of_some supplied, Lexer.take, ended, Answer.handed] using pulled
      · have pulled := Effect.iterates running 1 false
          (by simp [draw_of_some supplied, Lexer.take, ended])
        have kept : session.iterators.set iterator ⟨lexer, false⟩ = session.iterators := by
          obtain ⟨within, same⟩ := List.getElem?_eq_some_iff.mp running
          rw [← same, List.set_getElem_self]
        simpa [draw_of_some supplied, Lexer.take, ended, kept, Answer.handed] using pulled
  · exact session.effect_nothing

/-- All tokens but the last of those that are drawn to the end stand before it. -/
theorem dropLast_drawsToEnd (session : Session) (lexer : Nat) :
    (session.draw lexer (session.drawsToEnd lexer)).1.dropLast =
      (session.draw lexer (session.drawsToEnd lexer)).1.filter (·.kind ≠ .eof) := by
  cases supplied : session.lexers[lexer]? with
  | none => simp [draw_of_none supplied]
  | some source =>
    have others : source.tokens.filter (·.kind ≠ .eof) = source.tokens :=
      List.filter_eq_self.mpr (by simpa using source.kind_ne_eof_of_mem_tokens)
    rw [draw_of_some supplied, drawsToEnd, supplied, Lexer.take_to_end]
    simpa [source.kind_eof] using others.symm

theorem effect_drain (session : Session) (iterator : Nat) :
    Effect session (session.iteratorRequest? iterator session.drawsToEnd) []
      (session.drain iterator).2.handed (session.drain iterator).1 := by
  rw [drain, iteratorRequest?]
  rcases running : session.iterators[iterator]? with _ | ⟨lexer, _ | _⟩
  · exact session.effect_nothing
  · have drained := Effect.iterates running (session.drawsToEnd lexer) true Bool.noConfusion
    rw [← dropLast_drawsToEnd] at drained
    simpa [Answer.handed] using drained
  · exact session.effect_nothing

/-- There is nothing else that a step can do. -/
theorem effect_step (session : Session) (step : Step) :
    Effect session (session.request? step) step.opened (session.step step).2.handed
      (session.step step).1 := by
  cases step with
  | openLexer text file => exact .opens (.ofText text file)
  | openLog => exact .notes (grown_concat session.logs .empty)
  | openReader lexer log => exact session.effect_openReader lexer log
  | openIterator lexer => exact .begins lexer
  | next lexer => exact session.effect_next lexer
  | tokenize lexer => exact .takes lexer (session.drawsToEnd lexer)
  | pull iterator => exact session.effect_pull iterator
  | drain iterator => exact session.effect_drain iterator
  | report log diagnostic =>
    have noted := Effect.notes (grown_modify session.logs log [diagnostic])
    rw [Session.step]
    cases h : (session.append log [diagnostic]).logs[log]? <;> exact noted
  | showLog log =>
    rw [Session.step]
    cases session.logs[log]? <;> exact session.effect_nothing
  | showReaderLog reader =>
    rw [Session.step]
    cases session.readers[reader]?.bind fun state => session.logs[state.log]? <;>
      exact session.effect_nothing
  | advance reader => exact session.effect_call reader .advance
  | program reader => exact session.effect_call reader .program
  | statement reader => exact session.effect_call reader .statement
  | expression reader floor => exact session.effect_call reader (.expression floor)

/-- Nothing is taken out of a log, or put before what is there. -/
theorem grown_effect {request? : Option Request} {opened : List Lexer} {handed : List Token}
    {after : Session} (effect : Effect session request? opened handed after) :
    Grown session.logs after.logs := by
  cases effect with
  | reads => exact grown_modify session.logs _ _
  | joins supplied grown log => exact grown
  | notes grown => exact grown
  | takes | iterates =>
    rw [logs_draw]
    exact grown_refl session.logs
  | _ => exact grown_refl session.logs

end Session

end MonkeyLang
