import Mathlib.Data.List.Induction
import Mathlib.Data.List.Nodup
import MonkeyLang.Proofs.Session.Effect
import MonkeyLang.Proofs.Session.Reply
import MonkeyLang.Proofs.Syntax.MeteredParsing
import MonkeyLang.Proofs.Syntax.TracedParsing

/-!
# Readers that share a log

Readers over lexers of their own do not notice each other, although they add to one log. Each of
them replies to its calls as if it were alone with a log of its own, however the calls of the others
and reports from outside take turns with them. Nor does an earlier call of a reader leave anything
behind but the place at which it ends.
-/
namespace MonkeyLang

/-- What may happen around a shared log: a call of one of the readers, or a report by somebody
else. -/
inductive Action where
  | call (reader : Nat) (call : Call)
  | report (diagnostic : Diagnostic)
  deriving Repr, DecidableEq

namespace Action

/-- The step of the session; the shared log is the first one. -/
def step : Action → Step
  | .call reader asked => asked.step reader
  | .report diagnostic => .report 0 diagnostic

/-- What a reader is asked for, if it is the one that is called. -/
def asked? (reader : Nat) : Action → Option Call
  | .call caller asked => if caller = reader then some asked else none
  | .report _ => none

theorem step_of_asked {reader : Nat} {action : Action} {asked : Call}
    (h : action.asked? reader = some asked) : action.step = asked.step reader := by
  cases action with
  | report diagnostic => simp [asked?] at h
  | call caller asked' =>
    obtain ⟨rfl, rfl⟩ : caller = reader ∧ asked' = asked := by simpa [asked?] using h
    rfl

end Action

namespace Session

/-- Opens a log, and a reader over it for each text. -/
def sharing (sources : List (String × String)) : List Step :=
  .openLog :: (sources.mapIdx fun number source =>
    [.openLexer source.1 source.2, .openReader number (some 0)]).flatten

/-- The replies of a reader in the course of some actions. -/
def replies (session : Session) (reader : Nat) : List Action → List (Option Reply)
  | [] => []
  | action :: actions =>
    let later := (session.step action.step).1.replies reader actions
    match action.asked? reader with
    | some call => session.reply reader call :: later
    | none => later

/-- No two readers have the same lexer. -/
def Separate (session : Session) : Prop := (session.readers.map Reader.lexer).Nodup

variable {session : Session}

/-- A reader keeps its lexer. -/
theorem map_lexer_step (session : Session) (action : Action) :
    (session.step action.step).1.readers.map Reader.lexer = session.readers.map Reader.lexer := by
  cases action with
  | report diagnostic => simp [Action.step, step, append]
  | call reader asked =>
    rw [Action.step]
    rcases session.runReader_cases reader with ⟨state, source, opened, supplied⟩ | nothing
    · obtain ⟨within, same⟩ := List.getElem?_eq_some_iff.mp opened
      have within' : reader < (session.readers.map Reader.lexer).length := by simpa using within
      rw [step_call_of_some opened supplied]
      simp only [afterReading, List.map_set]
      rw [← same, ← List.getElem_map Reader.lexer (h := within'), List.set_getElem_self]
    · rw [step_call_of_none fun parser => (nothing parser).1]

theorem Separate.step (h : session.Separate) (action : Action) :
    (session.step action.step).1.Separate := by
  rwa [Separate, map_lexer_step]

theorem Separate.lexer_ne (h : session.Separate) {reader other : Nat} {state state' : Reader}
    (opened : session.readers[reader]? = some state)
    (opened' : session.readers[other]? = some state') (different : other ≠ reader) :
    state'.lexer ≠ state.lexer := by
  intro same
  have within : other < (session.readers.map Reader.lexer).length := by
    simpa using (List.getElem?_eq_some_iff.mp opened').1
  refine different ((List.getElem?_inj within h).mp ?_)
  simp [opened, opened', same]

theorem grown_run (session : Session) (steps : List Step) :
    Grown session.logs (session.run steps).1.logs := by
  induction steps generalizing session with
  | nil => exact grown_refl session.logs
  | cons step steps ih => exact (grown_effect (session.effect_step step)).trans (ih _)

theorem lexers_draw_of_ne {lexer other : Nat} (h : lexer ≠ other) (count : Nat) :
    (session.draw lexer count).2.lexers[other]? = session.lexers[other]? := by
  cases supplied : session.lexers[lexer]? with
  | none => rw [draw_of_none supplied]
  | some source => rw [draw_of_some supplied, List.getElem?_set_ne h]

/-- A reader does not notice what happens elsewhere than at its lexer. -/
theorem Stands.elsewhere {reader : Nat} {state : Reader} {source : Lexer} {log : Log}
    (h : session.Stands reader state source log) {request? : Option Request} {opened : List Lexer}
    {handed : List Token} {after : Session} (effect : Effect session request? opened handed after)
    (other : ∀ request ∈ request?, request.lexer ≠ state.lexer) :
    ∃ log, after.Stands reader state source log := by
  obtain ⟨more, logged⟩ := grown_effect effect _ _ h.logged
  have within := (List.getElem?_eq_some_iff.mp h.opened).1
  have within' := (List.getElem?_eq_some_iff.mp h.supplied).1
  refine ⟨log.append more, ?_, ?_, logged⟩
  · cases effect with
    | @reads caller state' source' opened' supplied' parser =>
      have different : caller ≠ reader := by
        rintro rfl
        obtain rfl := Option.some.inj (opened'.symm.trans h.opened)
        exact other _ rfl rfl
      exact (List.getElem?_set_ne different).trans h.opened
    | joins => exact (List.getElem?_append_left within).trans h.opened
    | takes | iterates => simpa using h.opened
    | _ => exact h.opened
  · cases effect with
    | reads | joins => exact (List.getElem?_set_ne (other _ rfl)).trans h.supplied
    | takes | iterates => exact (lexers_draw_of_ne (other _ rfl) _).trans h.supplied
    | opens => exact (List.getElem?_append_left within').trans h.supplied
    | _ => exact h.supplied

/-- Readers with lexers of their own do not notice what others are asked for. -/
theorem Stands.other {reader : Nat} {state : Reader} {source : Lexer} {log : Log}
    (h : session.Stands reader state source log) (separate : session.Separate) {action : Action}
    (others : action.asked? reader = none) :
    ∃ log, (session.step action.step).1.Stands reader state source log := by
  refine h.elsewhere (session.effect_step action.step) fun request asked => ?_
  cases action with
  | report diagnostic => simp [Action.step, request?] at asked
  | call caller asked' =>
    have different : caller ≠ reader := by simpa [Action.asked?] using others
    rw [Action.step, request?_call] at asked
    rcases session.runReader_cases caller with ⟨state', source', opened, supplied⟩ | nothing
    · rw [readerRequest?_of_some opened supplied] at asked
      obtain rfl := Option.some.inj asked
      exact separate.lexer_ne h.opened opened different
    · rw [(nothing _).2] at asked
      exact absurd asked (by simp)

/-- A reader with a lexer of its own replies as one that is alone at its place. -/
theorem replies_eq {reader : Nat} {state : Reader} {source : Lexer} {log : Log}
    (h : session.Stands reader state source log) (separate : session.Separate)
    (actions : List Action) :
    session.replies reader actions =
      (Call.repliesAt state.cursor source (actions.filterMap (·.asked? reader))).map some := by
  induction actions generalizing session state source log with
  | nil => rfl
  | cons action actions ih =>
    cases mine : action.asked? reader with
    | none =>
      obtain ⟨log, later⟩ := h.other separate mine
      simp only [replies, mine, List.filterMap_cons]
      exact ih later (separate.step action)
    | some asked =>
      have called := Action.step_of_asked mine
      have later := h.step_call asked
      rw [← called] at later
      simp only [replies, mine, List.filterMap_cons, Call.repliesAt, List.map_cons, h.reply_eq]
      exact congrArg _ (ih later (separate.step action))

theorem sharing_concat (sources : List (String × String)) (source : String × String) :
    sharing (sources ++ [source]) = sharing sources ++
      [.openLexer source.1 source.2, .openReader sources.length (some 0)] := by
  simp [sharing, List.mapIdx_concat]

/-- Each reader holds the first two tokens of its own text. -/
theorem run_sharing (sources : List (String × String)) :
    (run {} (sharing sources)).1 =
      { lexers := sources.map fun source => ((Lexer.ofText source.1 source.2).take 2).2
        logs := [.empty]
        readers := sources.mapIdx fun number source =>
          ⟨(Lexer.ofText source.1 source.2).cursor, number, 0⟩ } := by
  induction sources using List.reverseRecOn with
  | nil => rfl
  | append_singleton sources source ih =>
    rw [sharing_concat, run_append, ih]
    simp only [run, step]
    rw [openReader_of_some (by simp; rfl)]
    simp [List.mapIdx_concat]

theorem stands_sharing {sources : List (String × String)} {reader : Nat} {text file : String}
    (h : sources[reader]? = some (text, file)) :
    (run {} (sharing sources)).1.Stands reader ⟨(Lexer.ofText text file).cursor, reader, 0⟩
      ((Lexer.ofText text file).take 2).2 .empty := by
  rw [run_sharing]
  exact ⟨by simp [h], by simp [h], rfl⟩

theorem separate_sharing (sources : List (String × String)) :
    (run {} (sharing sources)).1.Separate := by
  have numbered : ((run {} (sharing sources)).1.readers.map Reader.lexer) =
      List.range sources.length := by
    rw [run_sharing]
    exact List.ext_getElem (by simp) (by simp)
  rw [Separate, numbered]
  exact List.nodup_range

theorem separate_alone (text file : String) : (run {} (alone text file)).1.Separate :=
  List.nodup_singleton 0

end Session

/-! ### The depth between calls -/

namespace Cursor

variable {α : Type} (cursor : Cursor) (source : Lexer)

/-- The end is never among the tokens that are held or left. -/
theorem endMarked_ahead : EndMarked source.eof (cursor.tokens ++ source.tokens) where
  ended := source.kind_eof
  others token ht := by
    rcases List.mem_append.mp ht with held | left
    · simpa using (List.mem_filter.mp held).2
    · exact source.kind_ne_eof_of_mem_tokens token left

theorem outcome_settled (parser : Parser α) (depth : Nat) :
    cursor.outcome source (Metered.settled parser depth) =
      { cursor.outcome source parser with
        value := some ((cursor.outcome source parser).value, depth) } := by
  simp [outcome, Metered.settled, Outcome.andThen]

end Cursor

namespace Call

/-- The metered form of what a reader runs. -/
def metered (fuel : Nat) : Call → Metered Node
  | advance => do
    Parser.advance
    return .absent
  | program => Metered.program fuel
  | statement => Metered.statement fuel (Metered.expression fuel)
  | expression floor => Metered.expression fuel floor

open Metered in
theorem agrees_metered {fuel : Nat} {eof : Token} {tokens : List Token}
    (enough : tokens.length < fuel) (call : Call) :
    Agrees 0 (call.metered fuel) call.parser eof tokens := by
  cases call with
  | advance => exact agrees_lift_bind Parser.advance (agrees_pure _)
  | program => exact agrees_program enough
  | statement =>
    exact agrees_statement (fun floor _ short => agrees_outermost floor short) (Nat.le_refl fuel)
      enough
  | expression floor => exact agrees_outermost floor enough

/-- The replies to calls in a row of a reader that keeps its depth from call to call, each with the
depth behind it, as long as it does not give up. -/
def keptReplies (fuel depth : Nat) (cursor : Cursor) (source : Lexer) :
    List Call → List (Option (Reply × Nat))
  | [] => []
  | call :: calls =>
    let outcome := cursor.outcome source ((call.metered fuel).start depth)
    let drawn := source.take outcome.advances
    match outcome.value with
    | none => [none]
    | some (node, depth) =>
      let reply : Reply :=
        ⟨call.node? node, cursor.pushAll drawn.1, outcome.faults.map Fault.diagnostic⟩
      some (reply, depth) :: keptReplies fuel depth reply.cursor drawn.2 calls

/-- The depth is back at nothing behind every call. -/
theorem keptReplies_eq {fuel : Nat} {cursor : Cursor} {source : Lexer}
    (enough : source.tokens.length + 2 < fuel) (calls : List Call) :
    keptReplies fuel 0 cursor source calls =
      (repliesAt cursor source calls).map fun reply => some (reply, 0) := by
  induction calls generalizing cursor source with
  | nil => rfl
  | cons call calls ih =>
    have ahead : (cursor.tokens ++ source.tokens).length < fuel := by
      have held : cursor.tokens.length ≤ 2 := List.length_filter_le _ _
      rw [List.length_append]
      omega
    have same : cursor.outcome source ((call.metered fuel).start 0) =
        cursor.outcome source (Metered.settled call.parser 0) :=
      agrees_metered ahead call (cursor.endMarked_ahead source)
    have fewer : (source.take (cursor.outcome source call.parser).advances).2.tokens.length + 2 <
        fuel := by
      rw [Lexer.tokens_take, List.length_drop]
      omega
    rw [keptReplies, repliesAt, same, cursor.outcome_settled]
    exact congrArg _ (ih fewer)

end Call

namespace Session

/-- Logs only ever grow at their ends. Readers over texts of their own that share a log reply to
their calls, whatever takes turns with them, as each of them does alone; and so does a reader that
keeps its depth from call to call, which is at no depth behind each of them. Wherever two readers
hold the same tokens and have the same ones left, they reply to a call in the same way. -/
theorem readers_do_not_interfere (sources : List (String × String)) (actions : List Action) :
    (∀ (session : Session) (steps : List Step), Grown session.logs (session.run steps).1.logs) ∧
    (∀ (reader : Nat) (text file : String), sources[reader]? = some (text, file) →
      let lexer := Lexer.ofText text file
      let calls := actions.filterMap (·.asked? reader)
      ∃ replies : List Reply,
        (run {} (sharing sources)).1.replies reader actions = replies.map some ∧
        (run {} (alone text file)).1.replies 0 (calls.map (.call 0)) = replies.map some ∧
        ∀ extra, Call.keptReplies ((tokenize text file).length + 2 + extra) 0 lexer.cursor
          (lexer.take 2).2 calls = replies.map fun reply => some (reply, 0)) ∧
    ∀ {session session' : Session} {reader reader' : Nat} {state state' : Reader}
      {source source' : Lexer} {log log' : Log},
      session.Stands reader state source log → session'.Stands reader' state' source' log' →
      state.cursor = state'.cursor → source.tokens = source'.tokens → source.eof = source'.eof →
      ∀ call, session.reply reader call = session'.reply reader' call := by
  refine ⟨grown_run, ?_, ?_⟩
  · intro reader text file opened lexer calls
    refine ⟨Call.repliesAt lexer.cursor (lexer.take 2).2 calls,
      replies_eq (stands_sharing opened) (separate_sharing sources) actions, ?_, fun extra => ?_⟩
    · have same : (calls.map (.call 0)).filterMap (Action.asked? 0) = calls := by
        simp [List.filterMap_map, Function.comp_def, Action.asked?]
      rw [replies_eq (stands_alone text file) (separate_alone text file), same]
    · have enough : (lexer.take 2).2.tokens.length + 2 <
          (tokenize text file).length + 2 + extra := by
        have whole : (tokenize text file).length = lexer.tokens.length + 1 :=
          length_tokenize text file
        rw [lexer.tokens_take, List.length_drop]
        omega
      exact Call.keptReplies_eq enough calls
  · intro session session' reader reader' state state' source source' log log' h h' cursor tokens
      eof call
    rw [h.reply_eq, h'.reply_eq, cursor, call.replyAt_congr state'.cursor tokens eof]

/-- Two texts, with faults in both. -/
def twoTexts : List (String × String) := [("let x 1; y", "first"), ("f(a, -", "second")]

/-- The calls of two readers and a report take turns. -/
def mixedActions : List Action :=
  [.call 1 (.expression 1), .call 0 .statement, .report ⟨.warning, "mixed", none, []⟩,
    .call 1 .advance, .call 0 .program, .call 1 .statement]

/-- The first reader, at the second of its statements, replies as one that is alone. -/
theorem readers_do_not_interfere_mixedActions :
    (run {} (sharing twoTexts)).1.replies 0 mixedActions =
      (run {} (alone "let x 1; y" "first")).1.replies 0 [.call 0 .statement, .call 0 .program] ∧
    (run {} (sharing twoTexts)).1.reply 0 .program =
      (run {} (alone "let x 1; y" "first")).1.reply 0 .program := by
  obtain ⟨-, same, everywhere⟩ := readers_do_not_interfere twoTexts mixedActions
  obtain ⟨replies, shared, solo, -⟩ := same 0 "let x 1; y" "first" rfl
  have calls : mixedActions.filterMap (·.asked? 0) = [.statement, .program] := rfl
  rw [calls] at solo
  refine ⟨shared.trans solo.symm, ?_⟩
  exact everywhere (stands_sharing rfl) (stands_alone _ _) rfl rfl rfl .program

end Session

end MonkeyLang
