import MonkeyLang.Program

/-!
# Moving tokens to other places

The parser decides by what tokens say and never by where they stand. So a parser that runs on
moved tokens does what it does on the tokens themselves, in as many moves, and gives the same tree
and the same faults with their tokens moved.
-/
namespace MonkeyLang

/-- The token of a kind with its text, without a place. -/
def Token.ofContent (said : Kind × String) : Token := ⟨said.1, said.2, none⟩

/-- A change of tokens that keeps what they say. -/
structure Relocation where
  move : Token → Token
  content_move : ∀ token, (move token).content = token.content

namespace Relocation

/-- Takes the places away. -/
def unplaced : Relocation where
  move token := .ofContent token.content
  content_move _ := rfl

@[simp] theorem kind_move (r : Relocation) (token : Token) : (r.move token).kind = token.kind :=
  congrArg Prod.fst (r.content_move token)

@[simp] theorem lexeme_move (r : Relocation) (token : Token) :
    (r.move token).lexeme = token.lexeme :=
  congrArg Prod.snd (r.content_move token)

end Relocation

namespace Node

mutual

/-- The tree with all of its tokens moved. -/
def relocate (r : Relocation) : Node → Node
  | absent => absent
  | text content => text content
  | foreign typeName => foreign typeName
  | identifier token name => identifier (r.move token) name
  | integer token value => integer (r.move token) value
  | string token value => string (r.move token) value
  | boolean token value => boolean (r.move token) value
  | unary token operator operand => unary (r.move token) operator (relocate r operand)
  | binary token operator left right =>
    binary (r.move token) operator (relocate r left) (relocate r right)
  | conditional token condition consequence alternative =>
    conditional (r.move token) (relocate r condition) (relocate r consequence)
      (relocate r alternative)
  | function token parameters body =>
    function (r.move token) (relocateAll r parameters) (relocate r body)
  | call token callee arguments =>
    call (r.move token) (relocate r callee) (relocateAll r arguments)
  | array token elements => array (r.move token) (relocateAll r elements)
  | index token collection position =>
    index (r.move token) (relocate r collection) (relocate r position)
  | letStatement token name value => letStatement (r.move token) (relocate r name) (relocate r value)
  | returnStatement token value => returnStatement (r.move token) (relocate r value)
  | exprStatement token expression => exprStatement (r.move token) (relocate r expression)
  | block token statements => block (r.move token) (relocateAll r statements)
  | program statements => program (relocateAll r statements)

/-- The trees with all of their tokens moved. -/
def relocateAll (r : Relocation) : List Node → List Node
  | [] => []
  | node :: nodes => relocate r node :: relocateAll r nodes

end

@[simp] theorem relocateAll_eq_map (r : Relocation) (nodes : List Node) :
    relocateAll r nodes = nodes.map (relocate r) := by
  induction nodes with
  | nil => rfl
  | cons node nodes ih => rw [relocateAll, ih, List.map_cons]

@[simp] theorem isPresent_relocate (r : Relocation) (node : Node) :
    (node.relocate r).isPresent = node.isPresent := by
  cases node <;> rfl

end Node

/-- The fault found at the moved token. -/
def Fault.relocate (r : Relocation) : Fault → Fault
  | unexpected expected found => unexpected expected (r.move found)
  | malformedInteger found => malformedInteger (r.move found)
  | noExpression found => noExpression (r.move found)
  | tooDeep limit found => tooDeep limit (r.move found)

theorem Fault.message_relocate (r : Relocation) (fault : Fault) :
    (fault.relocate r).message = fault.message := by
  unfold relocate message
  cases fault <;> simp only [r.kind_move, r.lexeme_move]

/-- The outcome with its tokens moved and its value changed. -/
def Outcome.relocate {α β : Type} (g : α → β) (r : Relocation) (outcome : Outcome α) : Outcome β :=
  ⟨g outcome.value, outcome.advances, outcome.rest.map r.move, outcome.faults.map (·.relocate r)⟩

theorem currentOf_map (r : Relocation) (eof : Token) (tokens : List Token) :
    currentOf (r.move eof) (tokens.map r.move) = r.move (currentOf eof tokens) := by
  cases tokens <;> rfl

theorem upcomingOf_map (r : Relocation) (eof : Token) (tokens : List Token) :
    upcomingOf (r.move eof) (tokens.map r.move) = r.move (upcomingOf eof tokens) := by
  rw [upcomingOf, ← List.map_tail, currentOf_map, upcomingOf]

namespace Parser

variable {α β γ δ : Type} {r : Relocation} {g : α → β} {h : γ → δ}

/-- On moved tokens the second parser does what the first one does on the tokens themselves. -/
def Follows (r : Relocation) (g : α → β) (p : Parser α) (q : Parser β) : Prop :=
  ∀ eof tokens, q.run (r.move eof) (tokens.map r.move) = (p.run eof tokens).relocate g r

theorem follows_pure (value : α) : Follows r g (pure value) (pure (g value)) := by
  intro eof tokens
  rfl

theorem follows_bind {p : Parser α} {q : Parser β} {f : α → Parser γ} {f' : β → Parser δ}
    (first : Follows r g p q) (second : ∀ value, Follows r h (f value) (f' (g value))) :
    Follows r h (p >>= f) (q >>= f') := by
  intro eof tokens
  have hp := first eof tokens
  have hf := second (p.run eof tokens).value eof (p.run eof tokens).rest
  simp only [Outcome.relocate] at hp hf
  simp only [run_bind, hp, hf, Outcome.andThen, Outcome.relocate, List.map_append]

theorem follows_current : Follows r r.move current current := by
  intro eof tokens
  simp only [run_current, currentOf_map, Outcome.relocate, List.map_nil]

theorem follows_upcoming : Follows r r.move upcoming upcoming := by
  intro eof tokens
  simp only [run_upcoming, upcomingOf_map, Outcome.relocate, List.map_nil]

theorem follows_advance : Follows r id advance advance := by
  intro eof tokens
  simp only [run_advance, Outcome.relocate, id_eq, List.map_tail, List.map_nil]

theorem follows_report (fault : Fault) :
    Follows r id (report fault) (report (fault.relocate r)) := by
  intro eof tokens
  rfl

theorem follows_skipTo (kind : Kind) : Follows r id (skipTo kind) (skipTo kind) := by
  intro eof tokens
  have count : (tokens.map r.move).findIdx (·.kind == kind) =
      tokens.findIdx (·.kind == kind) := by
    rw [List.findIdx_map]
    congr 1
    funext token
    exact congrArg (· == kind) (r.kind_move token)
  simp only [run_skipTo, count, Outcome.relocate, id_eq, List.map_drop, List.map_nil]

theorem follows_skipOptional (kind : Kind) :
    Follows r id (skipOptional kind) (skipOptional kind) := by
  refine follows_bind follows_upcoming fun token => ?_
  rw [r.kind_move]
  split
  · exact follows_advance
  · exact follows_pure ()

theorem follows_expect {missing : α} {found : Parser α} {found' : Parser β} (kind : Kind)
    (hfound : Follows r g found found') :
    Follows r g (expect kind missing found) (expect kind (g missing) found') := by
  refine follows_bind follows_upcoming fun token => ?_
  rw [r.kind_move]
  split
  · exact follows_bind follows_advance fun _ => hfound
  · exact follows_bind (follows_report (.unexpected kind token)) fun _ => follows_pure missing

theorem follows_manyUntil {item : Parser α} {item' : Parser β} (stop : Kind → Bool)
    (hitem : Follows r g item item') :
    Follows r (List.map g) (manyUntil stop item) (manyUntil stop item') := by
  intro eof tokens
  rw [run_manyUntil, run_manyUntil]
  fun_induction manyUntilOutcome stop item eof tokens with
  | case1 => simp [manyUntilOutcome, Outcome.relocate]
  | case2 token tokens stopped => simp [manyUntilOutcome, stopped, Outcome.relocate]
  | case3 token tokens running first others ih =>
    have hfirst := hitem eof (token :: tokens)
    rw [List.map_cons] at hfirst
    have hrest : (first.rest.map r.move).tail = first.rest.tail.map r.move := List.map_tail.symm
    rw [List.map_cons, manyUntilOutcome, r.kind_move, if_neg running, hfirst]
    simp only [Outcome.relocate] at ih ⊢
    rw [hrest, ih, List.map_cons, List.map_append]

theorem follows_whileNext {step : α → Parser α} {step' : β → Parser β} (test : Kind → Bool)
    (hstep : ∀ value, Follows r g (step value) (step' (g value))) (value : α) :
    Follows r g (whileNext test step value) (whileNext test step' (g value)) := by
  intro eof tokens
  rw [run_whileNext, run_whileNext]
  fun_induction whileNextOutcome test step eof value tokens with
  | case1 value token next tokens running first others ih =>
    have hfirst := hstep value eof (next :: tokens)
    rw [List.map_cons] at hfirst
    rw [List.map_cons, List.map_cons, whileNextOutcome, r.kind_move, if_pos running, hfirst]
    simp only [Outcome.relocate] at ih ⊢
    rw [ih, List.map_append]
  | case2 value token next tokens stopped =>
    rw [List.map_cons, List.map_cons, whileNextOutcome, r.kind_move, if_neg stopped]
    rfl
  | case3 value tokens short =>
    rcases tokens with _ | ⟨token, _ | ⟨next, rest⟩⟩
    · simp [whileNextOutcome, Outcome.relocate]
    · simp [whileNextOutcome, Outcome.relocate]
    · exact absurd rfl (short token next rest)

theorem follows_commaList {item : Parser α} {item' : Parser β} (close : Kind)
    (hitem : Follows r g item item') :
    Follows r (Option.map (List.map g)) (commaList close item) (commaList close item') := by
  refine follows_bind follows_upcoming fun token => ?_
  rw [r.kind_move]
  split
  · exact follows_bind follows_advance fun _ => follows_pure (some [])
  · refine follows_bind follows_advance fun _ => ?_
    refine follows_bind hitem fun first => ?_
    have more : Follows r (List.map g)
        (whileNext (· == .comma) (fun items => do advance; return (← item) :: items) [first])
        (whileNext (· == .comma) (fun items => do advance; return (← item') :: items) [g first]) := by
      refine follows_whileNext (· == .comma) (fun items => ?_) [first]
      refine follows_bind follows_advance fun _ => ?_
      exact follows_bind hitem fun next => follows_pure (next :: items)
    refine follows_bind more fun items => ?_
    have reversed : Follows r (Option.map (List.map g)) (pure (some items.reverse))
        (pure (some (items.map g).reverse)) := by
      rw [← List.map_reverse]
      exact follows_pure (some items.reverse)
    exact follows_expect close reversed

end Parser

end MonkeyLang
