import MonkeyLang.Proofs.Syntax.Derivation
import MonkeyLang.Proofs.Syntax.Nesting
import MonkeyLang.Proofs.Tree.Subtrees

/-!
# Confinement

A phrase takes a stretch of tokens, and the tree that it denotes keeps tokens of this stretch only.
Where every return in reach has a semicolon ahead on its own level, no phrase leaves the level on
which it starts: a return then skips to that semicolon at most. An expression, moreover, has its
semicolons within further levels, so a return cannot find its own inside of the value.
-/
namespace MonkeyLang.Derivation
open MonkeyLang.Nesting

variable {α : Type}

/-- Each reading of the phrase takes some tokens. Among these are all tokens that its value keeps,
and they go inward if the returns end. -/
def Confined (sealed : Bool) (kept : α → List Token) (phrase : Phrase α) : Prop :=
  ∀ ⦃tokens rest : List Token⦄ ⦃value : α⦄, phrase tokens rest value →
    ∃ segment, tokens = segment ++ rest ∧ segment ≠ [] ∧ kept value ⊆ segment ∧
      (ReturnsEnd tokens → Inward sealed segment)

theorem isPlain_of_kind {token : Token} {kind : Kind} (h : token.kind = kind)
    (plain : kind.isPlain) : token.kind.isPlain :=
  h ▸ plain

/-- An operator between two sides is no part of the nesting. -/
theorem isPlain_of_continuation? {kind : Kind} (h : kind.continuation? = some .binary) :
    kind.isPlain := by
  cases kind <;> first | rfl | simp [Kind.continuation?] at h

theorem Atom.isPlain {token : Token} {node : Node} (h : Atom token node) : token.kind.isPlain := by
  cases h with
  | identifier kind => exact isPlain_of_kind kind rfl
  | integer kind => exact isPlain_of_kind kind rfl
  | string kind => exact isPlain_of_kind kind rfl
  | true kind => exact isPlain_of_kind kind rfl
  | false kind => exact isPlain_of_kind kind rfl

theorem Atom.stored_eq {token : Token} {node : Node} (h : Atom token node) :
    node.stored = [token] := by
  cases h <;> rfl

theorem confined_name : Confined true Node.stored Name := by
  intro tokens rest node h
  cases h with
  | @intro token rest kind =>
    have plain := isPlain_of_kind kind rfl
    exact ⟨[token], rfl, by simp, by simp, fun _ => inward_nil.cons plain⟩

theorem confined_items {item : Phrase Node} (hitem : Confined true Node.stored item) :
    Confined true Node.storedOf (Items item) := by
  intro tokens rest nodes h
  induction h with
  | last head =>
    obtain ⟨segment, rfl, some, kept, inward⟩ := hitem head
    exact ⟨segment, rfl, some, by simpa using kept, inward⟩
  | @more tokens middle rest comma node nodes head kind tail ih =>
    obtain ⟨segment, rfl, -, kept, inward⟩ := hitem head
    obtain ⟨others, rfl, -, kept', inward'⟩ := ih
    have plain := isPlain_of_kind kind rfl
    refine ⟨segment ++ comma :: others, by simp, by simp, by grind [Node.storedOf_cons],
      fun returns => ?_⟩
    have returns' := (returns.behind (inward returns)).tail plain
    exact (inward returns).append ((inward' returns').cons plain)

theorem confined_listing {close : Kind} {item : Phrase Node} (closes : close.isCloser)
    (hitem : Confined true Node.stored item) {opener : Token} (opens : opener.kind.closer?.isSome)
    {tokens rest : List Token} {nodes : List Node} (h : Listing close item tokens rest nodes) :
    ∃ segment, tokens = segment ++ rest ∧ Node.storedOf nodes ⊆ segment ∧
      (ReturnsEnd tokens → Inward true (opener :: segment)) := by
  cases h with
  | @empty closer rest kind =>
    exact ⟨[closer], rfl, by simp, fun _ => inward_nil.enclosed opens (kind ▸ closes)⟩
  | @items tokens rest closer nodes items kind =>
    obtain ⟨segment, rfl, -, kept, inward⟩ := confined_items hitem items
    refine ⟨segment ++ [closer], by simp, by grind, fun returns => ?_⟩
    exact (inward returns).unseal.enclosed opens (kind ▸ closes)

/-- An optional semicolon leaves no level. -/
theorem OptionalSemicolon.confined {tokens rest : List Token} (h : OptionalSemicolon tokens rest) :
    ∃ segment, tokens = segment ++ rest ∧ Inward false segment := by
  cases h with
  | missing => exact ⟨[], rfl, inward_nil⟩
  | @present semicolon rest kind => exact ⟨[semicolon], rfl, inward_semicolon kind⟩

/-- What skips no semicolon stops at a given one or before it. -/
theorem exists_of_skips {skipped middle before after : List Token} {semicolon : Token}
    (same : skipped ++ middle = before ++ semicolon :: after)
    (skips : ∀ token ∈ skipped, token.kind ≠ .semicolon) (kind : semicolon.kind = .semicolon) :
    ∃ more, before = skipped ++ more ∧ middle = more ++ semicolon :: after := by
  rcases List.append_eq_append_iff.mp same with ⟨more, hm, hmiddle⟩ | ⟨more, hm, hafter⟩
  · exact ⟨more, hm, hmiddle⟩
  · cases more with
    | nil => exact ⟨[], by simpa using hm.symm, by simpa using hafter.symm⟩
    | cons other more =>
      obtain ⟨rfl, -⟩ := List.cons.inj hafter
      exact absurd kind (skips semicolon (by simp [hm]))

section

variable {inner : Int → Phrase Node} (hinner : ∀ floor, Confined true Node.stored (inner floor))
include hinner

/-- The value of a return ends in front of its semicolon, so skipping stops there at the latest. -/
theorem confined_returned {keyword : Token} {tokens skipped middle rest : List Token} {value : Node}
    (keyword_kind : keyword.kind = .kwReturn)
    (phrase : inner Precedence.lowest.rank tokens (skipped ++ middle) value)
    (skips : ∀ token ∈ skipped, token.kind ≠ .semicolon) (terminator : Terminator middle rest) :
    ∃ segment, tokens = segment ++ rest ∧ value.stored ⊆ segment ∧
      (ReturnsEnd (keyword :: tokens) → Inward false segment) := by
  obtain ⟨segment, rfl, -, kept, inward⟩ := hinner _ phrase
  have plain := isPlain_of_kind keyword_kind rfl
  have stops (returns : ReturnsEnd (keyword :: (segment ++ (skipped ++ middle)))) :
      ∃ more own after, middle = more ++ own :: after ∧
        Inward false (segment ++ (skipped ++ more) ++ [own]) := by
    obtain ⟨before, own, after, same, kind, level⟩ := endsAhead_iff.mp
      (returnsEnd_iff.mp returns [] keyword _ rfl inward_nil keyword_kind)
    have barrier : levelBehind true 0 own = none := by
      simp [levelBehind, kind, Kind.closer?, Kind.isCloser]
    obtain ⟨further, rfl⟩ := prefix_of_inward (inward (returns.tail plain)) level barrier same
    rw [List.append_assoc, List.append_cancel_left_eq] at same
    obtain ⟨more, rfl, hmiddle⟩ := exists_of_skips same skips kind
    have inward_before : Inward false (segment ++ (skipped ++ more)) := by
      rw [Inward, level]
      rfl
    exact ⟨more, own, after, hmiddle, inward_before.append (inward_semicolon kind)⟩
  cases terminator with
  | @semicolon semicolon rest kind =>
    refine ⟨segment ++ (skipped ++ [semicolon]), by simp, by grind, fun returns => ?_⟩
    obtain ⟨more, own, after, hmiddle, inward_own⟩ := stops returns
    have reaches : ∃ beyond, more ++ [own] = semicolon :: beyond := by
      cases more with
      | nil => exact ⟨[], by rw [(List.cons.inj hmiddle).1]; rfl⟩
      | cons first more => exact ⟨more ++ [own], by rw [(List.cons.inj hmiddle).1]; rfl⟩
    obtain ⟨beyond, hbeyond⟩ := reaches
    have whole : segment ++ (skipped ++ more) ++ [own] =
        segment ++ (skipped ++ [semicolon]) ++ beyond := by
      simp only [List.append_assoc, hbeyond, List.singleton_append]
    rw [whole] at inward_own
    exact inward_own.of_append
  | endOfInput =>
    refine ⟨segment ++ skipped, by simp, by grind, fun returns => ?_⟩
    obtain ⟨more, own, after, none, -⟩ := stops returns
    exact absurd none (by simp)

theorem confined_statement : Confined false Node.stored (Statement inner) := by
  intro tokens rest node h
  cases h with
  | @letTo keyword name assign tokens middle rest value keyword_kind name_kind assign_kind phrase
      semicolon =>
    obtain ⟨segment, rfl, -, kept, inward⟩ := hinner _ phrase
    obtain ⟨final, rfl, inward_final⟩ := semicolon.confined
    have plain := isPlain_of_kind keyword_kind rfl
    have name_plain := isPlain_of_kind name_kind rfl
    have assign_plain := isPlain_of_kind assign_kind rfl
    refine ⟨keyword :: name :: assign :: (segment ++ final), by simp, by simp, by simp; grind,
      fun returns => ?_⟩
    have value_inward := inward (((returns.tail plain).tail name_plain).tail assign_plain)
    have level := value_inward.unseal.append inward_final
    exact ((level.cons assign_plain).cons name_plain).cons plain
  | @returned keyword tokens skipped middle rest value keyword_kind phrase skips terminator =>
    obtain ⟨segment, rfl, kept, inward⟩ :=
      confined_returned hinner keyword_kind phrase skips terminator
    have plain := isPlain_of_kind keyword_kind rfl
    exact ⟨keyword :: segment, rfl, by simp, by simp; grind,
      fun returns => (inward returns).cons plain⟩
  | @expression first tokens middle rest value phrase semicolon =>
    obtain ⟨segment, whole, some, kept, inward⟩ := hinner _ phrase
    obtain ⟨final, rfl, inward_final⟩ := semicolon.confined
    obtain ⟨second, segment, rfl⟩ := List.exists_cons_of_ne_nil some
    obtain ⟨rfl, rfl⟩ := List.cons.inj whole
    refine ⟨first :: segment ++ final, by simp, by simp, by simp; grind, fun returns => ?_⟩
    exact (inward returns).unseal.append inward_final

theorem confined_statements {tokens rest : List Token} {nodes : List Node}
    (h : Statements inner tokens rest nodes) : ∃ segment, tokens = segment ++ rest ∧
      Node.storedOf nodes ⊆ segment ∧ (ReturnsEnd tokens → Inward false segment) := by
  induction h with
  | nil => exact ⟨[], rfl, by simp, fun _ => inward_nil⟩
  | cons head tail ih =>
    obtain ⟨segment, rfl, -, kept, inward⟩ := confined_statement hinner head
    obtain ⟨others, rfl, kept', inward'⟩ := ih
    refine ⟨segment ++ others, by simp, by simp; grind, fun returns => ?_⟩
    exact (inward returns).append (inward' (returns.behind (inward returns)))

theorem confined_block : Confined true Node.stored (Block inner) := by
  intro tokens rest node h
  cases h with
  | @closed brace closer tokens rest nodes brace_kind body closer_kind =>
    obtain ⟨segment, rfl, kept, inward⟩ := confined_statements hinner body
    have opens : brace.kind.closer?.isSome := by rw [brace_kind]; rfl
    have closes : closer.kind.isCloser := by rw [closer_kind]; rfl
    refine ⟨brace :: (segment ++ [closer]), by simp, by simp, by simp; grind, fun returns => ?_⟩
    exact (inward (returns.within opens)).enclosed opens closes
  | @unclosed brace tokens nodes brace_kind body =>
    obtain ⟨segment, rfl, kept, inward⟩ := confined_statements hinner body
    have opens : brace.kind.closer?.isSome := by rw [brace_kind]; rfl
    refine ⟨brace :: segment, by simp, by simp, by simp; grind, fun returns => ?_⟩
    exact (inward (returns.within opens)).opened opens

/-- A condition in parentheses and the block behind it. -/
theorem confined_condition {opener closer : Token} {tokens body rest : List Token}
    {condition consequence : Node} (opener_kind : opener.kind = .lparen)
    (condition_phrase : inner Precedence.lowest.rank tokens (closer :: body) condition)
    (closer_kind : closer.kind = .rparen) (consequence_phrase : Block inner body rest consequence) :
    ∃ segment, opener :: tokens = segment ++ rest ∧
      condition.stored ++ consequence.stored ⊆ segment ∧
      (ReturnsEnd (opener :: tokens) → Inward true segment) := by
  obtain ⟨segment, rfl, -, kept, inward⟩ := hinner _ condition_phrase
  obtain ⟨block, rfl, -, block_kept, block_inward⟩ := confined_block hinner consequence_phrase
  have opens : opener.kind.closer?.isSome := by rw [opener_kind]; rfl
  have closes : closer.kind.isCloser := by rw [closer_kind]; rfl
  refine ⟨opener :: (segment ++ [closer]) ++ block, by simp, by grind, fun returns => ?_⟩
  have condition_inward : Inward true (opener :: (segment ++ [closer])) :=
    (inward (returns.within opens)).unseal.enclosed opens closes
  have whole : opener :: (segment ++ closer :: (block ++ rest)) =
      opener :: (segment ++ [closer]) ++ (block ++ rest) := by simp
  rw [whole] at returns
  exact condition_inward.append (block_inward (returns.behind condition_inward))

theorem confined_primary : Confined true Node.stored (Primary inner) := by
  intro tokens rest node h
  cases h with
  | @atom token rest node atom =>
    exact ⟨[token], rfl, by simp, by simp [atom.stored_eq], fun _ => inward_nil.cons atom.isPlain⟩
  | @unary token tokens rest operand kind phrase =>
    obtain ⟨segment, rfl, -, kept, inward⟩ := hinner _ phrase
    have plain : token.kind.isPlain := by rcases kind with kind | kind <;> rw [kind] <;> rfl
    refine ⟨token :: segment, rfl, by simp, by simp; grind, fun returns => ?_⟩
    exact (inward (returns.tail plain)).cons plain
  | @group opener closer tokens rest node opener_kind phrase closer_kind =>
    obtain ⟨segment, rfl, -, kept, inward⟩ := hinner _ phrase
    have opens : opener.kind.closer?.isSome := by rw [opener_kind]; rfl
    have closes : closer.kind.isCloser := by rw [closer_kind]; rfl
    refine ⟨opener :: (segment ++ [closer]), by simp, by simp, by grind, fun returns => ?_⟩
    exact (inward (returns.within opens)).unseal.enclosed opens closes
  | @conditional keyword opener closer tokens body rest condition consequence keyword_kind
      opener_kind condition_phrase closer_kind consequence_phrase no_else =>
    obtain ⟨segment, whole, kept, inward⟩ :=
      confined_condition hinner opener_kind condition_phrase closer_kind consequence_phrase
    have plain := isPlain_of_kind keyword_kind rfl
    refine ⟨keyword :: segment, by rw [whole]; rfl, by simp, by simp; grind, fun returns => ?_⟩
    exact (inward (returns.tail plain)).cons plain
  | @conditionalElse keyword opener closer kwElse tokens body other rest condition consequence
      alternative keyword_kind opener_kind condition_phrase closer_kind consequence_phrase else_kind
      alternative_phrase =>
    obtain ⟨segment, whole, kept, inward⟩ :=
      confined_condition hinner opener_kind condition_phrase closer_kind consequence_phrase
    obtain ⟨block, rfl, -, block_kept, block_inward⟩ := confined_block hinner alternative_phrase
    have plain := isPlain_of_kind keyword_kind rfl
    have else_plain := isPlain_of_kind else_kind rfl
    refine ⟨keyword :: (segment ++ kwElse :: block), by rw [whole]; simp, by simp, by simp; grind,
      fun returns => ?_⟩
    have first := inward (returns.tail plain)
    rw [whole] at returns
    have second := block_inward (((returns.tail plain).behind first).tail else_plain)
    exact (first.append (second.cons else_plain)).cons plain
  | @function keyword opener tokens body rest parameters node keyword_kind opener_kind
      parameters_phrase body_phrase =>
    have opens : opener.kind.closer?.isSome := by rw [opener_kind]; rfl
    obtain ⟨segment, rfl, kept, inward⟩ :=
      confined_listing rfl confined_name opens parameters_phrase
    obtain ⟨block, rfl, -, block_kept, block_inward⟩ := confined_block hinner body_phrase
    have plain := isPlain_of_kind keyword_kind rfl
    refine ⟨keyword :: (opener :: segment ++ block), by simp, by simp, by simp; grind,
      fun returns => ?_⟩
    have first := inward ((returns.tail plain).within opens)
    have second := block_inward
      ((returns.tail plain : ReturnsEnd (opener :: segment ++ (block ++ rest))).behind first)
    exact (first.append second).cons plain
  | @array opener tokens rest elements kind elements_phrase =>
    have opens : opener.kind.closer?.isSome := by rw [kind]; rfl
    obtain ⟨segment, rfl, kept, inward⟩ := confined_listing rfl (hinner _) opens elements_phrase
    refine ⟨opener :: segment, rfl, by simp, by simp; grind, fun returns => ?_⟩
    exact inward (returns.within opens)

/-- The tree of a continuation keeps the tokens of its left side besides. -/
theorem confined_tail {floor : Int} {left node : Node} {tokens rest : List Token}
    (h : Tail inner floor left tokens rest node) : ∃ segment, tokens = segment ++ rest ∧
      node.stored ⊆ left.stored ++ segment ∧ (ReturnsEnd tokens → Inward true segment) := by
  cases h with
  | @binary operator tokens rest right kind binds phrase =>
    obtain ⟨segment, rfl, -, kept, inward⟩ := hinner _ phrase
    have plain := isPlain_of_continuation? kind
    refine ⟨operator :: segment, rfl, by simp; grind, fun returns => ?_⟩
    exact (inward (returns.tail plain)).cons plain
  | @call opener tokens rest arguments kind binds phrase =>
    have opens : opener.kind.closer?.isSome := by rw [kind]; rfl
    obtain ⟨segment, rfl, kept, inward⟩ := confined_listing rfl (hinner _) opens phrase
    refine ⟨opener :: segment, rfl, by simp; grind, fun returns => ?_⟩
    exact inward (returns.within opens)
  | @index opener closer tokens rest position kind binds phrase closer_kind =>
    obtain ⟨segment, rfl, -, kept, inward⟩ := hinner _ phrase
    have opens : opener.kind.closer?.isSome := by rw [kind]; rfl
    have closes : closer.kind.isCloser := by rw [closer_kind]; rfl
    refine ⟨opener :: (segment ++ [closer]), by simp, by simp; grind, fun returns => ?_⟩
    exact (inward (returns.within opens)).unseal.enclosed opens closes

theorem confined_tails {floor : Int} {left node : Node} {tokens rest : List Token}
    (h : Tails inner floor left tokens rest node) : ∃ segment, tokens = segment ++ rest ∧
      node.stored ⊆ left.stored ++ segment ∧ (ReturnsEnd tokens → Inward true segment) := by
  induction h with
  | nil => exact ⟨[], rfl, by simp, fun _ => inward_nil⟩
  | cons head tail ih =>
    obtain ⟨segment, rfl, kept, inward⟩ := confined_tail hinner head
    obtain ⟨others, rfl, kept', inward'⟩ := ih
    refine ⟨segment ++ others, by simp, by grind, fun returns => ?_⟩
    exact (inward returns).append (inward' (returns.behind (inward returns)))

theorem confined_segment {floor : Int} : Confined true Node.stored (Segment inner floor) := by
  intro tokens rest node h
  obtain ⟨primary, tails⟩ := h
  obtain ⟨segment, rfl, some, kept, inward⟩ := confined_primary hinner primary
  obtain ⟨others, rfl, kept', inward'⟩ := confined_tails hinner tails
  refine ⟨segment ++ others, by simp, by simp [some], by grind, fun returns => ?_⟩
  exact (inward returns).append (inward' (returns.behind (inward returns)))

end

/-- By induction on the levels of nesting expressions are confined. -/
theorem confined_expression (budget : Nat) (floor : Int) :
    Confined true Node.stored (Expression budget floor) := by
  induction budget generalizing floor with
  | zero => exact fun _ _ _ h => absurd h not_false
  | succ budget ih => exact fun _ _ _ h => confined_segment ih h.1

end MonkeyLang.Derivation
