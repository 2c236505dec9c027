import MonkeyLang.Proofs.Lexing.Ascent
import MonkeyLang.Proofs.Syntax.Acceptance
import MonkeyLang.Proofs.Syntax.Confinement

/-!
# The extent of blocks

Every block of a tree that is read without a fault is derived from its brace on. Where the returns
in it have their semicolons, the block keeps no token behind the brace that matches its own. A
return without one skips that brace, and the block goes on behind it.
-/
namespace MonkeyLang.Derivation
open MonkeyLang.Nesting

/-- Each block among the nodes is derived from some place in the tokens on. -/
def Hosts (tokens : List Token) (nodes : List Node) : Prop :=
  ∀ brace statements, Node.block brace statements ∈ nodes → ∃ budget start rest,
    start <:+ tokens ∧ Block (Expression budget) start rest (.block brace statements)

section

variable {tokens more : List Token} {nodes others : List Node} {node : Node}

theorem hosts_nil : Hosts tokens [] :=
  fun _ _ member => absurd member List.not_mem_nil

theorem Hosts.mono (h : Hosts tokens nodes) (later : tokens <:+ more) : Hosts more nodes := by
  intro brace statements member
  obtain ⟨budget, start, rest, starts, derived⟩ := h brace statements member
  exact ⟨budget, start, rest, starts.trans later, derived⟩

theorem Hosts.append (h : Hosts tokens nodes) (h' : Hosts tokens others) :
    Hosts tokens (nodes ++ others) := by
  intro brace statements member
  rcases List.mem_append.mp member with member | member
  · exact h brace statements member
  · exact h' brace statements member

/-- A node that is no block needs no derivation. -/
theorem Hosts.cons (h : Hosts tokens nodes) (other : node.block? = none) :
    Hosts tokens (node :: nodes) := by
  intro brace statements member
  rcases List.mem_cons.mp member with rfl | member
  · exact absurd other (by simp [Node.block?])
  · exact h brace statements member

end

theorem Confined.suffix {α : Type} {sealed : Bool} {kept : α → List Token} {phrase : Phrase α}
    (h : Confined sealed kept phrase) {tokens rest : List Token} {value : α}
    (reading : phrase tokens rest value) : rest <:+ tokens := by
  obtain ⟨segment, rfl, -⟩ := h reading
  exact List.suffix_append segment rest

theorem expression_suffix {budget : Nat} {floor : Int} {tokens rest : List Token} {node : Node}
    (h : Expression budget floor tokens rest node) : rest <:+ tokens :=
  (confined_expression budget floor).suffix h

/-- What stands behind a token of a suffix is a suffix. -/
theorem suffix_of_cons_suffix {token : Token} {tokens rest : List Token}
    (h : token :: rest <:+ tokens) : rest <:+ tokens :=
  (List.suffix_cons token rest).trans h

theorem hosts_items {item : Phrase Node} (confined : Confined true Node.stored item)
    (hitem : ∀ ⦃tokens rest node⦄, item tokens rest node → Hosts tokens node.subtrees)
    {tokens rest : List Token} {nodes : List Node} (h : Items item tokens rest nodes) :
    Hosts tokens (Node.subtreesOf nodes) := by
  induction h with
  | last head => exact (hitem head).append hosts_nil
  | more head kind tail ih =>
    exact (hitem head).append (ih.mono (suffix_of_cons_suffix (confined.suffix head)))

theorem hosts_listing {close : Kind} {item : Phrase Node}
    (confined : Confined true Node.stored item)
    (hitem : ∀ ⦃tokens rest node⦄, item tokens rest node → Hosts tokens node.subtrees)
    {tokens rest : List Token} {nodes : List Node} (h : Listing close item tokens rest nodes) :
    Hosts tokens (Node.subtreesOf nodes) := by
  cases h with
  | empty kind => exact hosts_nil
  | items items kind => exact hosts_items confined hitem items

theorem hosts_name ⦃tokens rest : List Token⦄ ⦃node : Node⦄ (h : Name tokens rest node) :
    Hosts tokens node.subtrees := by
  cases h with
  | intro kind => exact hosts_nil.cons rfl

section

variable {budget : Nat} {tokens rest : List Token} {node : Node} {nodes : List Node}
  (hinner : ∀ floor ⦃tokens rest node⦄,
    Expression budget floor tokens rest node → Hosts tokens node.subtrees)
include hinner

theorem hosts_statement (h : Statement (Expression budget) tokens rest node) :
    Hosts tokens node.subtrees := by
  cases h with
  | @letTo keyword name assign tokens middle rest value keyword_kind name_kind assign_kind phrase =>
    have later : tokens <:+ keyword :: name :: assign :: tokens := ⟨[keyword, name, assign], rfl⟩
    exact ((hosts_nil.cons rfl).append ((hinner _ phrase).mono later)).cons rfl
  | returned keyword_kind phrase => exact ((hinner _ phrase).mono (List.suffix_cons _ _)).cons rfl
  | expression phrase => exact (hinner _ phrase).cons rfl

theorem hosts_statements (h : Statements (Expression budget) tokens rest nodes) :
    Hosts tokens (Node.subtreesOf nodes) := by
  induction h with
  | nil => exact hosts_nil
  | cons head tail ih =>
    have confined := confined_statement (confined_expression budget)
    exact (hosts_statement hinner head).append (ih.mono (confined.suffix head))

theorem hosts_block (h : Block (Expression budget) tokens rest node) :
    Hosts tokens node.subtrees := by
  have body {brace : Token} {behind rest : List Token} {statements : List Node}
      (h : Block (Expression budget) (brace :: behind) rest (.block brace statements))
      (inside : Hosts behind (Node.subtreesOf statements)) :
      Hosts (brace :: behind) (Node.block brace statements).subtrees := by
    intro brace' statements' member
    rcases List.mem_cons.mp member with same | member
    · rw [same]
      exact ⟨budget, brace :: behind, rest, List.suffix_rfl, h⟩
    · exact inside.mono (List.suffix_cons _ _) brace' statements' member
  cases h with
  | closed brace_kind statements closer_kind =>
    exact body (.closed brace_kind statements closer_kind) (hosts_statements hinner statements)
  | unclosed brace_kind statements =>
    exact body (.unclosed brace_kind statements) (hosts_statements hinner statements)

theorem hosts_primary (h : Primary (Expression budget) tokens rest node) :
    Hosts tokens node.subtrees := by
  have confined := confined_block (confined_expression budget)
  cases h with
  | atom atom => cases atom <;> exact hosts_nil.cons rfl
  | unary kind phrase => exact ((hinner _ phrase).mono (List.suffix_cons _ _)).cons rfl
  | group opener_kind phrase => exact (hinner _ phrase).mono (List.suffix_cons _ _)
  | @conditional keyword opener closer tokens body rest condition consequence keyword_kind
      opener_kind condition_phrase closer_kind consequence_phrase no_else =>
    have later : tokens <:+ keyword :: opener :: tokens := ⟨[keyword, opener], rfl⟩
    have body_later := (suffix_of_cons_suffix (expression_suffix condition_phrase)).trans later
    have condition_hosts := (hinner _ condition_phrase).mono later
    have consequence_hosts := (hosts_block hinner consequence_phrase).mono body_later
    exact ((condition_hosts.append consequence_hosts).append (hosts_nil.cons rfl)).cons rfl
  | @conditionalElse keyword opener closer kwElse tokens body other rest condition consequence
      alternative keyword_kind opener_kind condition_phrase closer_kind consequence_phrase else_kind
      alternative_phrase =>
    have later : tokens <:+ keyword :: opener :: tokens := ⟨[keyword, opener], rfl⟩
    have body_later := (suffix_of_cons_suffix (expression_suffix condition_phrase)).trans later
    have other_later :=
      (suffix_of_cons_suffix (confined.suffix consequence_phrase)).trans body_later
    have condition_hosts := (hinner _ condition_phrase).mono later
    have consequence_hosts := (hosts_block hinner consequence_phrase).mono body_later
    have alternative_hosts := (hosts_block hinner alternative_phrase).mono other_later
    exact ((condition_hosts.append consequence_hosts).append alternative_hosts).cons rfl
  | @function keyword opener tokens body rest parameters node keyword_kind opener_kind
      parameters_phrase body_phrase =>
    have later : tokens <:+ keyword :: opener :: tokens := ⟨[keyword, opener], rfl⟩
    have opens : opener.kind.closer?.isSome := by rw [opener_kind]; rfl
    obtain ⟨segment, rfl, -⟩ := confined_listing rfl confined_name opens parameters_phrase
    have parameter_hosts := (hosts_listing confined_name hosts_name parameters_phrase).mono later
    have body_later := (List.suffix_append segment body).trans later
    exact (parameter_hosts.append ((hosts_block hinner body_phrase).mono body_later)).cons rfl
  | array kind elements =>
    have hosts := hosts_listing (confined_expression budget _) (hinner _) elements
    exact (hosts.mono (List.suffix_cons _ _)).cons rfl

/-- The left side of a continuation is hosted by tokens further ahead. -/
theorem hosts_tail {floor : Int} {left : Node}
    (h : Tail (Expression budget) floor left tokens rest node) {whole : List Token}
    (later : tokens <:+ whole) (left_hosts : Hosts whole left.subtrees) :
    Hosts whole node.subtrees := by
  cases h with
  | binary kind binds phrase =>
    have right_hosts := (hinner _ phrase).mono (suffix_of_cons_suffix later)
    exact (left_hosts.append right_hosts).cons rfl
  | call kind binds phrase =>
    have hosts := hosts_listing (confined_expression budget _) (hinner _) phrase
    exact (left_hosts.append (hosts.mono (suffix_of_cons_suffix later))).cons rfl
  | index kind binds phrase closer_kind =>
    have position_hosts := (hinner _ phrase).mono (suffix_of_cons_suffix later)
    exact (left_hosts.append position_hosts).cons rfl

theorem hosts_tails {floor : Int} {left : Node}
    (h : Tails (Expression budget) floor left tokens rest node) {whole : List Token}
    (later : tokens <:+ whole) (left_hosts : Hosts whole left.subtrees) :
    Hosts whole node.subtrees := by
  induction h with
  | nil => exact left_hosts
  | cons head tail ih =>
    obtain ⟨segment, rfl, -⟩ := confined_tail (confined_expression budget) head
    exact ih ((List.suffix_append segment _).trans later) (hosts_tail hinner head later left_hosts)

end

/-- By induction on the levels of nesting every block of an expression is derived. -/
theorem hosts_expression (budget : Nat) (floor : Int) ⦃tokens rest : List Token⦄ ⦃node : Node⦄
    (h : Expression budget floor tokens rest node) : Hosts tokens node.subtrees := by
  induction budget generalizing floor tokens rest node with
  | zero => exact absurd h not_false
  | succ budget ih =>
    obtain ⟨⟨primary, tails⟩, -⟩ := h
    have confined := confined_primary (confined_expression budget)
    exact hosts_tails ih tails (confined.suffix primary) (hosts_primary ih primary)

/-- Behind its brace a block takes tokens among which are all that its statements keep, and these go
inward if the returns end. -/
theorem Block.confined_statements {budget : Nat} {brace : Token} {behind rest : List Token}
    {statements : List Node}
    (h : Block (Expression budget) (brace :: behind) rest (.block brace statements)) :
    brace.kind = .lbrace ∧ ∃ segment left, behind = segment ++ left ∧
      Node.storedOf statements ⊆ segment ∧ (ReturnsEnd behind → Inward false segment) := by
  cases h with
  | closed brace_kind body closer_kind =>
    obtain ⟨segment, whole, rest⟩ :=
      Derivation.confined_statements (confined_expression budget) body
    exact ⟨brace_kind, segment, _, whole, rest⟩
  | unclosed brace_kind body =>
    obtain ⟨segment, whole, rest⟩ :=
      Derivation.confined_statements (confined_expression budget) body
    exact ⟨brace_kind, segment, _, whole, rest⟩

end MonkeyLang.Derivation

namespace MonkeyLang
open MonkeyLang.Derivation MonkeyLang.Nesting

theorem dropWhile_ne_of_nodup {before behind : List Token} {token : Token}
    (nodup : (before ++ token :: behind).Nodup) :
    (before ++ token :: behind).dropWhile (· ≠ token) = token :: behind := by
  have apart : ∀ other ∈ before, decide (other ≠ token) = true := by
    intro other member
    rw [List.nodup_append] at nodup
    simpa using nodup.2.2 other member token List.mem_cons_self
  rw [List.dropWhile_append_of_pos apart, List.dropWhile_cons_of_neg (by simp)]

/-- In a text without faults whose tokens are properly nested every block starts with a brace, and
what stands between this and the brace that matches it is properly nested. Where every return
between the two has a semicolon on its own level, all tokens that the statements of the block keep
stand there as well. -/
theorem blocks_enclosed {text file : String} (clean : (parse text file).log.entries = [])
    (nested : Proper (Lexer.ofText text file).tokens) :
    ∀ brace statements, (brace, statements) ∈ (parse text file).tree.blocks →
      (∃ before closer after, (Lexer.ofText text file).tokens = before ++
          brace :: (enclosed (Lexer.ofText text file).tokens brace ++ closer :: after) ∧
        brace.kind = .lbrace ∧ closer.kind = .rbrace ∧
        Proper (enclosed (Lexer.ofText text file).tokens brace)) ∧
      (ReturnsEnd (enclosed (Lexer.ofText text file).tokens brace) →
        Node.storedOf statements ⊆ enclosed (Lexer.ofText text file).tokens brace) := by
  intro brace statements member
  obtain ⟨nodes, tree, derived⟩ := parse_clean_iff.mp ⟨clean, rfl⟩
  have nodup : (Lexer.ofText text file).tokens.Nodup :=
    (List.nodup_append.mp (nodup_tokenize text file)).1
  rw [Node.mem_blocks, tree, Node.subtrees] at member
  generalize (Lexer.ofText text file).tokens = tokens at *
  have hosts : Hosts tokens (Node.program nodes).subtrees :=
    (hosts_statements (hosts_expression 100) derived).cons rfl
  obtain ⟨budget, start, rest, ⟨before, rfl⟩, block⟩ := hosts brace statements member
  obtain ⟨behind, rfl⟩ : ∃ behind, start = brace :: behind := by cases block <;> exact ⟨_, rfl⟩
  obtain ⟨brace_kind, segment, left, hsegment, kept, inward⟩ := block.confined_statements
  obtain ⟨inside, closer, after, rfl, closer_kind, proper⟩ :=
    exists_closer_of_proper nested (by rw [brace_kind]; rfl)
  have closes : closer.kind.isCloser := by rw [closer_kind]; rfl
  have level := levels_zero_of_proper proper
  have between : enclosed (before ++ brace :: (inside ++ closer :: after)) brace = inside := by
    rw [enclosed, dropWhile_ne_of_nodup nodup, List.tail_cons, level_eq level closes]
  rw [between]
  refine ⟨⟨before, closer, after, rfl, brace_kind, closer_kind, proper⟩, fun returns => ?_⟩
  have barrier : levelBehind false 0 closer = none := by
    simp only [levelBehind, Kind.closer?_of_isCloser closes, closes]
  obtain ⟨more, rfl⟩ :=
    prefix_of_inward (inward (returns.extend level closes)) level barrier hsegment.symm
  exact List.Subset.trans kept (List.subset_append_left segment more)

/-- A return without its semicolon at the end of a block. -/
def unendedReturn : String := "let f = function(x) \x7b return x \x7d; f;"

/-- A block does not hold only what its braces enclose: where the semicolon behind a return is
missing, the brace at the end of the block is skipped on the way to the next one. Here the body of
the function holds the second statement of the program. -/
theorem not_blocks_enclosed : (parse unendedReturn).log.entries = [] ∧
    Proper (Lexer.ofText unendedReturn).tokens ∧
    ∃ block ∈ (parse unendedReturn).tree.blocks, ∃ token ∈ Node.storedOf block.2,
      token ∉ enclosed (Lexer.ofText unendedReturn).tokens block.1 := by
  decide +kernel

/-- A return in an inner block, with a token to skip in front of its semicolon. -/
def innerReturn : String := "let f = function(x) \x7b if (x) \x7b return x 1; \x7d f \x7d;"

/-- Both blocks hold what stands in them. -/
theorem blocks_enclosed_innerReturn : (parse innerReturn).tree.blocks.length = 2 ∧
    ∀ block ∈ (parse innerReturn).tree.blocks,
      Node.storedOf block.2 ⊆ enclosed (Lexer.ofText innerReturn).tokens block.1 := by
  have clean : (parse innerReturn).log.entries = [] := by decide +kernel
  have nested : Proper (Lexer.ofText innerReturn).tokens := by decide +kernel
  have returns : ∀ block ∈ (parse innerReturn).tree.blocks,
      ReturnsEnd (enclosed (Lexer.ofText innerReturn).tokens block.1) := by decide +kernel
  have two : (parse innerReturn).tree.blocks.length = 2 := by decide +kernel
  refine ⟨two, fun block member => ?_⟩
  exact (blocks_enclosed clean nested block.1 block.2 member).2 (returns block member)

end MonkeyLang
