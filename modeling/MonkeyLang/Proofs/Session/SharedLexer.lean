import MonkeyLang.Proofs.Session.Effect

/-!
# Sharing a lexer

However the steps of callers, readers and iterators on one lexer take turns, the tokens that they
draw are those of its text from the first on, each of them once, and then the end token again and
again. What a session holds can be read off its history: a reader holds the last two tokens that
it has drawn, and an iterator that has drawn the end token is finished for ever.
-/
namespace MonkeyLang

/-- The tokens that were drawn from a lexer. -/
def tokensFrom (lexer : Nat) (history : List Draw) : List Token :=
  (history.filter (·.lexer = lexer)).map Draw.token

/-- The tokens that a consumer has drawn. -/
def tokensBy (consumer : Consumer) (history : List Draw) : List Token :=
  (history.filter (·.consumer = consumer)).map Draw.token

/-- The lexers that are opened in some steps. -/
def openedLexers (steps : List Step) : List Lexer := steps.flatMap Step.opened

/-- A lexer that was opened has given the tokens drawn from it and nothing else. -/
inductive Gave : Option Lexer → List Token → Option Lexer → Prop
  | unopened : Gave none [] none
  | taken (source : Lexer) (count : Nat) :
    Gave (some source) (source.take count).1 (some (source.take count).2)

/-- A reader holds the last two tokens that it has drawn. -/
inductive HoldsLast : List Token → Option Reader → Prop
  | unopened : HoldsLast [] none
  | opened (before : List Token) (state : Reader) :
    HoldsLast (before ++ [state.cursor.current, state.cursor.upcoming]) (some state)

/-- An iterator that has drawn the end token is finished. -/
inductive StopsAtEnd : List Token → Option Iterator → Prop
  | unopened : StopsAtEnd [] none
  | running {drawn : List Token} {lexer : Nat} (proper : ∀ token ∈ drawn, token.kind ≠ .eof) :
    StopsAtEnd drawn (some ⟨lexer, false⟩)
  | finished (drawn : List Token) (lexer : Nat) : StopsAtEnd drawn (some ⟨lexer, true⟩)

theorem StopsAtEnd.eq_nil {drawn : List Token} (h : StopsAtEnd drawn none) : drawn = [] := by
  cases h
  rfl

theorem StopsAtEnd.proper {drawn : List Token} {lexer : Nat}
    (h : StopsAtEnd drawn (some ⟨lexer, false⟩)) : ∀ token ∈ drawn, token.kind ≠ .eof := by
  cases h with
  | running proper => exact proper

theorem StopsAtEnd.finished_of_met {drawn : List Token} {iterator? : Option Iterator}
    (h : StopsAtEnd drawn iterator?) (met : ∃ token ∈ drawn, token.kind = .eof) :
    ∃ lexer, iterator? = some ⟨lexer, true⟩ := by
  obtain ⟨token, drawn, ended⟩ := met
  cases h with
  | unopened => exact absurd drawn List.not_mem_nil
  | running proper => exact absurd ended (proper token drawn)
  | finished _ lexer => exact ⟨lexer, rfl⟩

theorem tokensFrom_append (lexer : Nat) (history more : List Draw) :
    tokensFrom lexer (history ++ more) = tokensFrom lexer history ++ tokensFrom lexer more := by
  simp [tokensFrom]

theorem tokensBy_append (consumer : Consumer) (history more : List Draw) :
    tokensBy consumer (history ++ more) = tokensBy consumer history ++ tokensBy consumer more := by
  simp [tokensBy]

@[simp] theorem tokensBy_nil (consumer : Consumer) : tokensBy consumer [] = [] := rfl

theorem getElem?_concat_of_ne {α : Type} {xs : List α} {i : Nat} (h : i ≠ xs.length) (x : α) :
    (xs ++ [x])[i]? = xs[i]? := by
  rcases Nat.lt_or_gt_of_ne h with early | late
  · exact List.getElem?_append_left early
  · rw [List.getElem?_eq_none (by simpa using Nat.succ_le_of_lt late),
      List.getElem?_eq_none (Nat.le_of_lt late)]

namespace Session

variable {session : Session}

theorem tokensFrom_fulfil (lexer : Nat) (request : Request) :
    tokensFrom lexer (session.fulfil request) =
      if request.lexer = lexer then (session.draw request.lexer request.count).1 else [] := by
  by_cases h : request.lexer = lexer <;>
    simp [tokensFrom, fulfil, List.filter_map, Function.comp_def, h]

theorem tokensBy_fulfil (consumer : Consumer) (request : Request) :
    tokensBy consumer (session.fulfil request) =
      if request.consumer = consumer then (session.draw request.lexer request.count).1 else [] := by
  by_cases h : request.consumer = consumer <;>
    simp [tokensBy, fulfil, List.filter_map, Function.comp_def, h]

/-- The history accounts for what a session has become. -/
structure Recorded (sources : List Lexer) (history : List Draw) (session : Session) : Prop where
  lexers : ∀ lexer, Gave sources[lexer]? (tokensFrom lexer history) session.lexers[lexer]?
  readers : ∀ reader, HoldsLast (tokensBy (.reader reader) history) session.readers[reader]?
  iterators : ∀ iterator,
    StopsAtEnd (tokensBy (.iterator iterator) history) session.iterators[iterator]?

theorem recorded_nothing : Recorded [] [] {} where
  lexers _ := .unopened
  readers _ := .unopened
  iterators _ := .unopened

end Session

theorem Gave.none_iff {source? : Option Lexer} {drawn : List Token} {lexer? : Option Lexer}
    (h : Gave source? drawn lexer?) : source? = none ↔ lexer? = none := by
  cases h <;> simp

theorem Gave.eq_nil {drawn : List Token} {lexer? : Option Lexer} (h : Gave none drawn lexer?) :
    drawn = [] := by
  cases h
  rfl

theorem Gave.more {source? : Option Lexer} {drawn : List Token} {lexer : Lexer}
    (h : Gave source? drawn (some lexer)) (count : Nat) :
    Gave source? (drawn ++ (lexer.take count).1) (some (lexer.take count).2) := by
  cases h with
  | taken source earlier =>
    have whole := source.take_add earlier count
    have given := Gave.taken source (earlier + count)
    rwa [whole] at given

/-- What a lexer has given of its text is an initial part of the tokens, continued by the end
token. -/
theorem Gave.prefix_tokenize {text file : String} {drawn : List Token} {lexer? : Option Lexer}
    (h : Gave (some (.ofText text file)) drawn lexer?) :
    (∃ ends, drawn <+: tokenize text file ++ List.replicate ends (Lexer.ofText text file).eof) ∧
      lexer? = some ((Lexer.ofText text file).take drawn.length).2 := by
  cases h with
  | taken source count =>
    refine ⟨⟨count, ?_⟩, by rw [Lexer.length_take]⟩
    have supply : tokenize text file ++ List.replicate count (Lexer.ofText text file).eof =
        (Lexer.ofText text file).tokens ++
          List.replicate (count + 1) (Lexer.ofText text file).eof := by
      rw [List.replicate_succ, List.append_cons]
      rfl
    rw [supply, Lexer.take_eq _ count.le_succ]
    exact List.take_prefix _ _

theorem HoldsLast.lastTwo {drawn : List Token} {state : Reader} (h : HoldsLast drawn (some state)) :
    ∃ before, drawn = before ++ [state.cursor.current, state.cursor.upcoming] := by
  cases h with
  | opened before => exact ⟨before, rfl⟩

theorem HoldsLast.eq_nil {drawn : List Token} (h : HoldsLast drawn none) : drawn = [] := by
  cases h
  rfl

theorem HoldsLast.more {drawn : List Token} {state : Reader} (h : HoldsLast drawn (some state))
    (more : List Token) :
    HoldsLast (drawn ++ more) (some { state with cursor := state.cursor.pushAll more }) := by
  cases h with
  | opened before =>
    obtain ⟨before, lastTwo⟩ := state.cursor.last_two_pushAll before more
    rw [lastTwo]
    exact .opened before { state with cursor := state.cursor.pushAll more }

namespace Session

section

variable {session after : Session} {sources opened : List Lexer} {history : List Draw}
  {request? : Option Request} {handed : List Token}

/-- The lexers that are drawn from go on, and new ones are added at the end. -/
theorem lexers_effect (effect : Effect session request? opened handed after) :
    after.lexers = (session.served request?).lexers ++ opened := by
  cases effect with
  | reads opened supplied => simp [served, draw_of_some supplied, afterReading]
  | joins supplied => simp [served, draw_of_some supplied]
  | fails missing => simp [served, draw_of_none missing]
  | _ => simp [served]

theorem gave_served
    (h : ∀ lexer, Gave sources[lexer]? (tokensFrom lexer history) session.lexers[lexer]?)
    (request? : Option Request) (lexer : Nat) :
    Gave sources[lexer]? (tokensFrom lexer (history ++ request?.elim [] session.fulfil))
      (session.served request?).lexers[lexer]? := by
  cases request? with
  | none => simpa [served] using h lexer
  | some request =>
    rw [tokensFrom_append, Option.elim_some, tokensFrom_fulfil, served, Option.elim_some]
    cases opened : session.lexers[request.lexer]? with
    | none => simpa [draw_of_none opened] using h lexer
    | some source =>
      rw [draw_of_some opened]
      by_cases here : request.lexer = lexer
      · subst here
        have given := h request.lexer
        rw [opened] at given
        obtain ⟨bound, -⟩ := List.getElem?_eq_some_iff.mp opened
        simpa [bound] using given.more request.count
      · simpa [here] using h lexer

/-- A lexer that is opened has given nothing yet. -/
theorem gave_opened
    (h : ∀ lexer, Gave sources[lexer]? (tokensFrom lexer history) session.lexers[lexer]?)
    (opened : List Lexer) (lexer : Nat) :
    Gave (sources ++ opened)[lexer]? (tokensFrom lexer history)
      (session.lexers ++ opened)[lexer]? := by
  have ends (bound : Nat) : sources.length ≤ bound ↔ session.lexers.length ≤ bound := by
    simpa using (h bound).none_iff
  have length : sources.length = session.lexers.length :=
    Nat.le_antisymm ((ends _).mpr (Nat.le_refl _)) ((ends _).mp (Nat.le_refl _))
  by_cases early : lexer < sources.length
  · rw [List.getElem?_append_left early, List.getElem?_append_left (length ▸ early)]
    exact h lexer
  · have late := Nat.le_of_not_lt early
    have given := h lexer
    rw [List.getElem?_eq_none late] at given
    rw [given.eq_nil, List.getElem?_append_right late,
      List.getElem?_append_right (length ▸ late), ← length]
    cases opened[lexer - sources.length]? with
    | none => exact .unopened
    | some source => exact .taken source 0

/-- A reader that runs a parser moves on by the tokens that it draws, and a new one has drawn the
two that it holds. Nobody else draws for a reader. -/
theorem holdsLast_effect
    (h : ∀ reader, HoldsLast (tokensBy (.reader reader) history) session.readers[reader]?)
    (effect : Effect session request? opened handed after) (reader : Nat) :
    HoldsLast (tokensBy (.reader reader) (history ++ request?.elim [] session.fulfil))
      after.readers[reader]? := by
  have held := h reader
  cases effect with
  | @reads running state source opened supplied parser =>
    rw [tokensBy_append, Option.elim_some, tokensBy_fulfil, draw_of_some supplied, afterReading]
    by_cases here : running = reader
    · subst here
      have within := (List.getElem?_eq_some_iff.mp opened).1
      rw [opened] at held
      simpa [within] using held.more _
    · simpa [here] using held
  | @joins lexer source supplied logs grown log =>
    rw [tokensBy_append, Option.elim_some, tokensBy_fulfil, draw_of_some supplied]
    by_cases last : reader = session.readers.length
    · subst last
      rw [List.getElem?_eq_none (Nat.le_refl _)] at held
      rw [held.eq_nil, if_pos rfl, List.getElem?_concat_length]
      exact .opened [] ⟨source.cursor, lexer, log⟩
    · simpa [getElem?_concat_of_ne last, Ne.symm last] using held
  | fails missing => simpa [tokensBy_append, tokensBy_fulfil, draw_of_none missing] using held
  | _ => simpa [tokensBy_append, tokensBy_fulfil] using held

/-- An iterator goes on only as long as it draws no end token. -/
theorem stopsAtEnd_set
    (h : ∀ iterator, StopsAtEnd (tokensBy (.iterator iterator) history)
      session.iterators[iterator]?)
    {drawing lexer : Nat} (running : session.iterators[drawing]? = some ⟨lexer, false⟩)
    {more : List Token} {finished : Bool}
    (met : finished = false → ∀ token ∈ more, token.kind ≠ .eof) (iterator : Nat) :
    StopsAtEnd (tokensBy (.iterator iterator) history ++
        if Consumer.iterator drawing = .iterator iterator then more else [])
      (session.iterators.set drawing ⟨lexer, finished⟩)[iterator]? := by
  have stopped := h iterator
  by_cases here : drawing = iterator
  · subst here
    obtain ⟨bound, -⟩ := List.getElem?_eq_some_iff.mp running
    rw [if_pos rfl, List.getElem?_set_self bound]
    cases finished with
    | true => exact .finished _ lexer
    | false =>
      rw [running] at stopped
      exact .running (List.forall_mem_append.mpr ⟨stopped.proper, met rfl⟩)
  · simpa [here] using stopped

theorem stopsAtEnd_effect
    (h : ∀ iterator, StopsAtEnd (tokensBy (.iterator iterator) history)
      session.iterators[iterator]?)
    (effect : Effect session request? opened handed after) (iterator : Nat) :
    StopsAtEnd (tokensBy (.iterator iterator) (history ++ request?.elim [] session.fulfil))
      after.iterators[iterator]? := by
  have stopped := h iterator
  cases effect with
  | iterates running count finished going =>
    rw [tokensBy_append, Option.elim_some, tokensBy_fulfil]
    exact stopsAtEnd_set h running going iterator
  | begins lexer =>
    by_cases last : iterator = session.iterators.length
    · subst last
      rw [List.getElem?_eq_none (Nat.le_refl _)] at stopped
      rw [Option.elim_none, List.append_nil, stopped.eq_nil, List.getElem?_concat_length]
      exact .running (List.forall_mem_nil _)
    · simpa [getElem?_concat_of_ne last] using stopped
  | reads => simpa [tokensBy_append, tokensBy_fulfil, afterReading] using stopped
  | fails missing => simpa [tokensBy_append, tokensBy_fulfil, draw_of_none missing] using stopped
  | _ => simpa [tokensBy_append, tokensBy_fulfil] using stopped

/-- The history goes on to account for the session. -/
theorem Recorded.step (h : Recorded sources history session) (step : Step) :
    Recorded (sources ++ step.opened) (history ++ session.draws step) (session.step step).1 where
  lexers lexer := by
    rw [lexers_effect (session.effect_step step)]
    exact gave_opened (gave_served h.lexers _) step.opened lexer
  readers := holdsLast_effect h.readers (session.effect_step step)
  iterators := stopsAtEnd_effect h.iterators (session.effect_step step)

theorem Recorded.run (h : Recorded sources history session) (steps : List Step) :
    Recorded (sources ++ openedLexers steps) (history ++ session.history steps)
      (session.run steps).1 := by
  induction steps generalizing sources history session with
  | nil => simpa [openedLexers, Session.history, Session.run] using h
  | cons step steps ih =>
    have recorded := ih (h.step step)
    rwa [List.append_assoc, List.append_assoc] at recorded

end

/-- An iterator that is finished draws nothing and gives nothing. -/
theorem step_of_finished {session : Session} {iterator lexer : Nat}
    (finished : session.iterators[iterator]? = some ⟨lexer, true⟩) :
    session.step (.pull iterator) = (session, .finished) ∧
      session.step (.drain iterator) = (session, .tokens []) := by
  simp [Session.step, pull, drain, finished]

end Session

/-- Whether a drawn token is handed over at once: a reader keeps its tokens, and an iterator does
not give the end token. -/
def Draw.isHanded (draw : Draw) : Bool :=
  match draw.consumer with
  | .caller => true
  | .reader _ => false
  | .iterator _ => draw.token.kind ≠ .eof

namespace Session

theorem filter_isHanded_fulfil (session : Session) (lexer count : Nat) :
    (((session.fulfil ⟨.caller, lexer, count⟩).filter Draw.isHanded).map Draw.token =
      (session.draw lexer count).1) ∧
    (∀ reader, ((session.fulfil ⟨.reader reader, lexer, count⟩).filter Draw.isHanded).map
      Draw.token = []) ∧
    ∀ iterator, ((session.fulfil ⟨.iterator iterator, lexer, count⟩).filter Draw.isHanded).map
      Draw.token = (session.draw lexer count).1.filter (·.kind ≠ .eof) := by
  simp [fulfil, List.filter_map, Function.comp_def, Draw.isHanded]

/-- What a step hands over is what it draws. -/
theorem handed_step (session : Session) (step : Step) :
    (session.step step).2.handed = ((session.draws step).filter Draw.isHanded).map Draw.token := by
  rw [draws]
  have effect := session.effect_step step
  generalize session.request? step = request?, step.opened = opened,
    (session.step step).2.handed = handed, (session.step step).1 = after at effect
  cases effect with
  | reads | joins => exact ((session.filter_isHanded_fulfil _ _).2.1 _).symm
  | takes => exact (session.filter_isHanded_fulfil _ _).1.symm
  | iterates => exact ((session.filter_isHanded_fulfil _ _).2.2 _).symm
  | fails missing => simp [fulfil, draw_of_none missing]
  | _ => rfl

/-- However steps on a lexer take turns, what is drawn from it are the tokens of its text from the
first on, continued by its end token, and it goes on behind them. A reader holds the last two tokens
that it has drawn. Once an iterator has drawn the end token it never draws or gives anything. Each
step hands over what it draws. -/
theorem history_of_shared_lexer (steps : List Step) :
    (∀ (lexer : Nat) (text file : String),
      (openedLexers steps)[lexer]? = some (.ofText text file) →
      (∃ ends, tokensFrom lexer (history {} steps) <+:
        tokenize text file ++ List.replicate ends (Lexer.ofText text file).eof) ∧
      (run {} steps).1.lexers[lexer]? =
        some ((Lexer.ofText text file).take (tokensFrom lexer (history {} steps)).length).2) ∧
    (∀ (reader : Nat) (state : Reader), (run {} steps).1.readers[reader]? = some state →
      ∃ before, tokensBy (.reader reader) (history {} steps) =
        before ++ [state.cursor.current, state.cursor.upcoming]) ∧
    (∀ (iterator : Nat) (more : List Step),
      (∃ token ∈ tokensBy (.iterator iterator) (history {} steps), token.kind = .eof) →
      let later := (run {} (steps ++ more)).1
      later.step (.pull iterator) = (later, .finished) ∧
      later.step (.drain iterator) = (later, .tokens [])) ∧
    ∀ step, ((run {} steps).1.step step).2.handed =
      (((run {} steps).1.draws step).filter Draw.isHanded).map Draw.token := by
  have recorded (steps : List Step) :
      Recorded (openedLexers steps) (history {} steps) (run {} steps).1 :=
    recorded_nothing.run steps
  refine ⟨?_, ?_, ?_, handed_step _⟩
  · intro lexer text file opened
    have given := (recorded steps).lexers lexer
    rw [opened] at given
    exact given.prefix_tokenize
  · intro reader state opened
    have held := (recorded steps).readers reader
    rw [opened] at held
    exact held.lastTwo
  · intro iterator more met
    have stopped := (recorded (steps ++ more)).iterators iterator
    rw [history_append, tokensBy_append] at stopped
    obtain ⟨token, drawn, ended⟩ := met
    obtain ⟨lexer, finished⟩ :=
      stopped.finished_of_met ⟨token, List.mem_append_left _ drawn, ended⟩
    exact step_of_finished finished

/-- An iterator and a reader take turns on one text. The iterator finishes it, and the reader goes
on with the end token alone. -/
def takingTurns : List Step :=
  [.openLexer "a; b c" "turns", .openIterator 0, .pull 0, .openReader 0 none, .pull 0,
    .statement 0, .drain 0, .program 0]

theorem history_of_shared_lexer_takingTurns :
    (∃ ends, tokensFrom 0 (history {} takingTurns) <+: tokenize "a; b c" "turns" ++
      List.replicate ends (Lexer.ofText "a; b c" "turns").eof) ∧
    (∃ before, tokensBy (.reader 0) (history {} takingTurns) =
      before ++ List.replicate 2 (Lexer.ofText "a; b c" "turns").eof) ∧
    (run {} (takingTurns ++ [.openIterator 0])).1.step (.drain 0) =
      ((run {} (takingTurns ++ [.openIterator 0])).1, .tokens []) := by
  obtain ⟨drawn, held, ended, -⟩ := history_of_shared_lexer takingTurns
  refine ⟨(drawn 0 "a; b c" "turns" rfl).1, ?_, ?_⟩
  · exact held 0 ⟨⟨(Lexer.ofText "a; b c" "turns").eof, (Lexer.ofText "a; b c" "turns").eof⟩, 0, 0⟩
      (by decide +kernel)
  · exact (ended 0 [.openIterator 0] (by decide +kernel)).2

end Session

end MonkeyLang
