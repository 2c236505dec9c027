import MonkeyLang.Fault

/-!
# Parsers over tokens

A parser stands at a current token and sees the one behind it. It gives a value whatever it
meets, and reports faults on the way. The tokens are those before the end of the text; at the end
the end token stays current. The outcome counts the moves from token to token, and what is left
is what this count leaves: no parser drops a token without moving past it.
-/
namespace MonkeyLang

/-- What a parser gives at a place: its value, the number of moves, the tokens from the new
current one on, and the faults in the order of their reports. -/
structure Outcome (α : Type) where
  value : α
  advances : Nat
  rest : List Token
  faults : List Fault

/-- The outcome of two parsers in a row, with the value of the second. -/
def Outcome.andThen {α β : Type} (first : Outcome α) (second : Outcome β) : Outcome β :=
  ⟨second.value, first.advances + second.advances, second.rest, first.faults ++ second.faults⟩

@[simp] theorem Outcome.value_andThen {α β : Type} (first : Outcome α) (second : Outcome β) :
    (first.andThen second).value = second.value := rfl

@[simp] theorem Outcome.advances_andThen {α β : Type} (first : Outcome α) (second : Outcome β) :
    (first.andThen second).advances = first.advances + second.advances := rfl

@[simp] theorem Outcome.rest_andThen {α β : Type} (first : Outcome α) (second : Outcome β) :
    (first.andThen second).rest = second.rest := rfl

@[simp] theorem Outcome.faults_andThen {α β : Type} (first : Outcome α) (second : Outcome β) :
    (first.andThen second).faults = first.faults ++ second.faults := rfl

/-- The current token: the first one, or the end. -/
def currentOf (eof : Token) : List Token → Token
  | [] => eof
  | token :: _ => token

/-- The token behind the current one, or the end. -/
def upcomingOf (eof : Token) (tokens : List Token) : Token := currentOf eof tokens.tail

@[simp] theorem currentOf_nil (eof : Token) : currentOf eof [] = eof := rfl

@[simp] theorem currentOf_cons (eof token : Token) (tokens : List Token) :
    currentOf eof (token :: tokens) = token := rfl

@[simp] theorem upcomingOf_nil (eof : Token) : upcomingOf eof [] = eof := rfl

@[simp] theorem upcomingOf_cons (eof token : Token) (tokens : List Token) :
    upcomingOf eof (token :: tokens) = currentOf eof tokens := rfl

/-- A parser runs on the end token and the tokens from the current one on. -/
structure Parser (α : Type) where
  run : Token → List Token → Outcome α
  rest_run : ∀ eof tokens, (run eof tokens).rest = tokens.drop (run eof tokens).advances

namespace Parser

variable {α β : Type}

/-- Parsers with the same outcomes everywhere are the same. -/
theorem ext_run {p q : Parser α} (h : ∀ eof tokens, p.run eof tokens = q.run eof tokens) :
    p = q := by
  cases p; cases q
  congr
  funext eof tokens
  exact h eof tokens

/-- What is left is a later part of what was there. -/
theorem rest_suffix (p : Parser α) (eof : Token) (tokens : List Token) :
    (p.run eof tokens).rest <:+ tokens := by
  rw [p.rest_run]; exact List.drop_suffix _ _

theorem length_rest (p : Parser α) (eof : Token) (tokens : List Token) :
    (p.run eof tokens).rest.length = tokens.length - (p.run eof tokens).advances := by
  rw [p.rest_run, List.length_drop]

/-- Gives a value and stays. -/
protected def pure (value : α) : Parser α where
  run _ tokens := ⟨value, 0, tokens, []⟩
  rest_run _ _ := rfl

/-- Runs a parser, and then the one that its value chooses. -/
protected def bind (p : Parser α) (f : α → Parser β) : Parser β where
  run eof tokens :=
    let first := p.run eof tokens
    first.andThen ((f first.value).run eof first.rest)
  rest_run eof tokens := by
    simp only [Outcome.andThen, rest_run, List.drop_drop]

instance : Monad Parser where
  pure := Parser.pure
  bind := Parser.bind

@[simp] theorem run_pure (value : α) (eof : Token) (tokens : List Token) :
    (pure value : Parser α).run eof tokens = ⟨value, 0, tokens, []⟩ := rfl

@[simp] theorem run_bind (p : Parser α) (f : α → Parser β) (eof : Token) (tokens : List Token) :
    (p >>= f).run eof tokens =
      (p.run eof tokens).andThen ((f (p.run eof tokens).value).run eof (p.run eof tokens).rest) :=
  rfl

@[simp] theorem run_map (f : α → β) (p : Parser α) (eof : Token) (tokens : List Token) :
    (f <$> p).run eof tokens =
      (p.run eof tokens).andThen ⟨f (p.run eof tokens).value, 0, (p.run eof tokens).rest, []⟩ :=
  rfl

instance : LawfulMonad Parser :=
  LawfulMonad.mk' Parser
    (fun _ => ext_run fun _ _ => by simp [Functor.map, Parser.bind, Parser.pure, Outcome.andThen])
    (fun _ _ => ext_run fun _ _ => by simp [Outcome.andThen])
    (fun _ _ _ => ext_run fun _ _ => by
      simp [Outcome.andThen, Nat.add_assoc, List.append_assoc])

/-- The current token. -/
def current : Parser Token where
  run eof tokens := ⟨currentOf eof tokens, 0, tokens, []⟩
  rest_run _ _ := rfl

/-- The token behind the current one. -/
def upcoming : Parser Token where
  run eof tokens := ⟨upcomingOf eof tokens, 0, tokens, []⟩
  rest_run _ _ := rfl

/-- Moves to the next token. -/
def advance : Parser Unit where
  run _ tokens := ⟨(), 1, tokens.tail, []⟩
  rest_run _ _ := List.drop_one.symm

/-- Reports a fault. -/
def report (fault : Fault) : Parser Unit where
  run _ tokens := ⟨(), 0, tokens, [fault]⟩
  rest_run _ _ := rfl

@[simp] theorem run_current (eof : Token) (tokens : List Token) :
    current.run eof tokens = ⟨currentOf eof tokens, 0, tokens, []⟩ := rfl

@[simp] theorem run_upcoming (eof : Token) (tokens : List Token) :
    upcoming.run eof tokens = ⟨upcomingOf eof tokens, 0, tokens, []⟩ := rfl

@[simp] theorem run_advance (eof : Token) (tokens : List Token) :
    advance.run eof tokens = ⟨(), 1, tokens.tail, []⟩ := rfl

@[simp] theorem run_report (fault : Fault) (eof : Token) (tokens : List Token) :
    (report fault).run eof tokens = ⟨(), 0, tokens, [fault]⟩ := rfl

/-- Moves to the next token and goes on there if it has the kind; otherwise reports it, stays and
gives the other value. -/
def expect (kind : Kind) (missing : α) (found : Parser α) : Parser α := do
  let token ← upcoming
  if token.kind = kind then do
    advance
    found
  else do
    report (.unexpected kind token)
    pure missing

/-- Moves to the next token if it has the kind. -/
def skipOptional (kind : Kind) : Parser Unit := do
  if (← upcoming).kind = kind then advance

/-- Moves to the next token of the kind, the current one included, or to the end. -/
def skipTo (kind : Kind) : Parser Unit where
  run _ tokens :=
    let count := tokens.findIdx (·.kind == kind)
    ⟨(), count, tokens.drop count, []⟩
  rest_run _ _ := rfl

theorem run_expect (kind : Kind) (missing : α) (found : Parser α) (eof : Token)
    (tokens : List Token) :
    (expect kind missing found).run eof tokens =
      if (upcomingOf eof tokens).kind = kind then
        Outcome.andThen ⟨(), 1, tokens.tail, []⟩ (found.run eof tokens.tail)
      else ⟨missing, 0, tokens, [.unexpected kind (upcomingOf eof tokens)]⟩ := by
  by_cases h : (upcomingOf eof tokens).kind = kind <;> simp [expect, h, Outcome.andThen]

theorem run_skipOptional (kind : Kind) (eof : Token) (tokens : List Token) :
    (skipOptional kind).run eof tokens =
      if (upcomingOf eof tokens).kind = kind then ⟨(), 1, tokens.tail, []⟩
      else ⟨(), 0, tokens, []⟩ := by
  by_cases h : (upcomingOf eof tokens).kind = kind <;> simp [skipOptional, h, Outcome.andThen]

theorem run_skipTo (kind : Kind) (eof : Token) (tokens : List Token) :
    (skipTo kind).run eof tokens = ⟨(), tokens.findIdx (·.kind == kind),
      tokens.drop (tokens.findIdx (·.kind == kind)), []⟩ := rfl

end Parser

end MonkeyLang
