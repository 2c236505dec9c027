import MonkeyLang.Parser.Repeat
import Mathlib.Data.List.Basic
import Mathlib.Tactic.SplitIfs

/-!
# Guarantees

A guarantee says what the values of a parser are like, wherever in a text it starts, errors or not.
It may rest on the first token. The laws below carry guarantees through the building blocks of
parsers; what follows a block starts anywhere, unless the block decides at which token.
-/
namespace MonkeyLang.Parser

variable {α β : Type} {eof : Token} {text : List Token} {required required' : Token → Prop}
  {promised middle : α → Prop} {promised' : β → Prop}

/-- Wherever in the text the current token is as required, the value is as promised. -/
def Gives (eof : Token) (text : List Token) (required : Token → Prop) (promised : α → Prop)
    (p : Parser α) : Prop :=
  ∀ tokens, tokens <:+ text → required (currentOf eof tokens) → promised (p.run eof tokens).value

theorem Gives.mono {p : Parser α} (h : Gives eof text required middle p)
    (stronger : ∀ token, required' token → required token)
    (weaker : ∀ value, middle value → promised value) : Gives eof text required' promised p :=
  fun tokens inside here => weaker _ (h tokens inside (stronger _ here))

/-- A guarantee that rests on no token holds at every token. -/
theorem Gives.anywhere {p : Parser α} (h : Gives eof text (fun _ => True) promised p) :
    Gives eof text required promised p :=
  h.mono (fun _ _ => trivial) fun _ => id

theorem gives_pure {value : α} (h : promised value) :
    Gives eof text required promised (pure value) :=
  fun _ _ _ => h

theorem gives_bind {p : Parser α} {f : α → Parser β} (first : Gives eof text required middle p)
    (second : ∀ value, middle value → Gives eof text (fun _ => True) promised' (f value)) :
    Gives eof text required promised' (p >>= f) := by
  intro tokens inside here
  exact second _ (first tokens inside here) _ ((p.rest_suffix eof tokens).trans inside) trivial

/-- Nothing has to be known of a parser in front. -/
theorem gives_behind {p : Parser α} {f : α → Parser β}
    (second : ∀ value, Gives eof text (fun _ => True) promised' (f value)) :
    Gives eof text required promised' (p >>= f) := by
  have first : Gives eof text required (fun _ => True) p := fun _ _ _ => trivial
  exact gives_bind first fun value _ => second value

/-- A parser that looks at the current token goes on at that token. -/
theorem gives_current_bind {f : Token → Parser β}
    (h : ∀ token, required token → token ∈ text ++ [eof] →
      Gives eof text (· = token) promised' (f token)) :
    Gives eof text required promised' (current >>= f) := by
  intro tokens inside here
  refine h (currentOf eof tokens) here ?_ tokens inside rfl
  cases tokens with
  | nil => simp
  | cons token tokens => exact List.mem_append_left _ (inside.subset List.mem_cons_self)

/-- What holds at all tokens that are as required holds at each of them. -/
theorem Gives.only {p : Parser α} {token : Token} (h : Gives eof text required promised p)
    (here : required token) : Gives eof text (· = token) promised p :=
  h.mono (fun _ same => same ▸ here) fun _ => id

/-- What is shown for each single token is shown for all that are as required. -/
theorem gives_of_forall {p : Parser α}
    (h : ∀ token, required token → Gives eof text (· = token) promised p) :
    Gives eof text required promised p :=
  fun tokens inside here => h _ here tokens inside rfl

theorem gives_expect {kind : Kind} {missing : α} {found : Parser α} (absent : promised missing)
    (h : Gives eof text (·.kind = kind) promised found) :
    Gives eof text required promised (expect kind missing found) := by
  intro tokens inside _
  rw [run_expect]
  split_ifs with next
  · exact h tokens.tail ((List.tail_suffix tokens).trans inside) next
  · exact absent

theorem gives_manyUntil {stop : Kind → Bool} {item : Parser α}
    (h : Gives eof text (fun _ => True) promised item) :
    Gives eof text required (∀ value ∈ ·, promised value) (manyUntil stop item) := by
  rintro tokens inside -
  rw [run_manyUntil]
  fun_induction manyUntilOutcome stop item eof tokens with
  | case1 => simp
  | case2 => simp
  | case3 token tokens running first others ih =>
    have behind : first.rest.tail <:+ text :=
      (List.tail_suffix _).trans ((item.rest_suffix ..).trans inside)
    exact List.forall_mem_cons.mpr ⟨h _ inside trivial, ih behind⟩

/-- What each step keeps holds at the end of the loop. -/
theorem gives_whileNext {test : Kind → Bool} {step : α → Parser α}
    (h : ∀ value, promised value →
      Gives eof text (fun token => test token.kind) promised (step value))
    {value : α} (start : promised value) :
    Gives eof text required promised (whileNext test step value) := by
  rintro tokens inside -
  rw [run_whileNext]
  fun_induction whileNextOutcome test step eof value tokens with
  | case1 value token next tokens go first others ih =>
    have later : next :: tokens <:+ text := (List.suffix_cons token _).trans inside
    exact ih (h value start _ later go) (((step value).rest_suffix ..).trans later)
  | case2 => exact start
  | case3 => exact start

theorem gives_commaList {close : Kind} {item : Parser α}
    (h : Gives eof text (fun _ => True) promised item) :
    Gives eof text required (∀ values ∈ ·, ∀ value ∈ values, promised value)
      (commaList close item) := by
  refine gives_behind fun next => ?_
  split_ifs
  · exact gives_behind fun _ => gives_pure (by simp)
  · refine gives_behind fun _ => ?_
    refine gives_bind h fun first hfirst => ?_
    have more (values : List α) (hvalues : ∀ value ∈ values, promised value) :
        Gives eof text (fun token => token.kind == .comma) (∀ value ∈ ·, promised value)
          (do advance; return (← item) :: values) := by
      refine gives_behind fun _ => gives_bind h fun value hvalue => ?_
      exact gives_pure (List.forall_mem_cons.mpr ⟨hvalue, hvalues⟩)
    refine gives_bind (gives_whileNext more (by simpa using hfirst)) fun values hvalues => ?_
    exact gives_expect (by simp) (gives_pure (by simpa using hvalues))

/-! ## Starts -/

/-- A parser that gives, in front of its value, the token at which it has started. -/
def marked (p : Parser α) : Parser (Token × α) := do
  let start ← current
  return (start, ← p)

theorem map_snd_marked (p : Parser α) : Prod.snd <$> marked p = p :=
  ext_run fun _ _ => by simp [marked, Outcome.andThen]

theorem gives_marked {promised : Token × α → Prop} {p : Parser α}
    (h : ∀ token, required token →
      Gives eof text (· = token) (fun value => promised (token, value)) p) :
    Gives eof text required promised (marked p) :=
  gives_current_bind fun token here _ => gives_bind (h token here) fun _ => gives_pure

/-- A change of the single values is a change of all values. -/
theorem manyUntil_map (f : α → β) (stop : Kind → Bool) (item : Parser α) :
    manyUntil stop (f <$> item) = List.map f <$> manyUntil stop item := by
  refine ext_run fun eof tokens => ?_
  rw [run_map, run_manyUntil, run_manyUntil]
  fun_induction manyUntilOutcome stop item eof tokens with
  | case1 => simp [manyUntilOutcome, Outcome.andThen]
  | case2 token tokens stopped => simp [manyUntilOutcome, stopped, Outcome.andThen]
  | case3 token tokens running first others ih =>
    rw [manyUntilOutcome, if_neg running]
    simp only [run_map, Outcome.andThen, Nat.add_zero, List.append_nil] at ih ⊢
    rw [ih]
    simp [first, others]

end MonkeyLang.Parser
