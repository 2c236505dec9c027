import MonkeyLang.Proofs.Syntax.Acceptance

/-!
# Chains of operators

A chain is operands with binary operators between them. It is grouped from above: the operator
that binds weakest, of several such the last one, is the root, and both sides are grouped alike.
The parser climbs from below and gives the same tree, whatever the length of the chain. Its levels
of nesting grow with the ranks on the way and with the signs of one operand, not with the chain.
-/
namespace MonkeyLang
open MonkeyLang.Derivation

/-- An atom with signs in front of it. -/
structure Operand where
  signs : List Token
  atom : Token
  value : Node
  sign_kind : ∀ sign ∈ signs, sign.kind = .bang ∨ sign.kind = .minus
  signs_le : signs.length ≤ 90
  atom_value : Atom atom value

namespace Operand

def tokens (operand : Operand) : List Token := operand.signs ++ [operand.atom]

/-- The first token, a sign if there is one. -/
def head (operand : Operand) : Token := operand.signs.headD operand.atom

/-- The innermost sign is the one next to the atom. -/
def tree (operand : Operand) : Node :=
  operand.signs.foldr (fun sign node => .unary sign sign.lexeme node) operand.value

end Operand

/-- The operators of a chain by how tightly they bind, the weakest first. -/
def operatorTiers : List (List Kind) :=
  [[.eq, .notEq], [.lt, .gt], [.plus, .minus], [.asterisk, .slash]]

/-- A binary operator with the operand behind it. -/
structure Link where
  operator : Token
  operand : Operand
  operator_kind : operator.kind ∈ operatorTiers.flatten

namespace Link

/-- How many tiers of operators bind weaker. -/
def tier (link : Link) : Nat := operatorTiers.findIdx (·.contains link.operator.kind)

/-- The rank by which the parser compares the operator. -/
def rank (link : Link) : Int := link.operator.kind.rank

theorem operator_spec (link : Link) : link.operator.kind.continuation? = some .binary ∧
    link.rank = link.tier + 2 ∧ link.tier < 4 := by
  have spec : ∀ kind ∈ operatorTiers.flatten, kind.continuation? = some .binary ∧
      kind.rank = operatorTiers.findIdx (·.contains kind) + 2 ∧
      operatorTiers.findIdx (·.contains kind) < 4 := by decide
  exact spec link.operator.kind link.operator_kind

theorem rank_mem (link : Link) : 1 < link.rank ∧ link.rank ≤ 5 := by
  obtain ⟨-, hrank, htier⟩ := link.operator_spec
  omega

theorem rank_le_rank {link other : Link} : link.rank ≤ other.rank ↔ link.tier ≤ other.tier := by
  have hlink := link.operator_spec.2.1
  have hother := other.operator_spec.2.1
  omega

end Link

/-- The tokens of a chain in their order. -/
def chainTokens (first : Operand) (links : List Link) : List Token :=
  first.tokens ++ links.flatMap fun link => link.operator :: link.operand.tokens

/-- The last of the links whose operator is of the lowest tier, with the links around it. -/
def weakest : List Link → Option (List Link × Link × List Link)
  | [] => none
  | link :: links =>
    match weakest links with
    | none => some ([], link, [])
    | some (before, found, after) =>
      if link.tier < found.tier then some ([], link, links) else some (link :: before, found, after)

theorem weakest_eq_none {links : List Link} (h : weakest links = none) : links = [] := by
  cases links with
  | nil => rfl
  | cons link links =>
    rw [weakest] at h
    split at h
    · simp at h
    · split_ifs at h

/-- No link binds weaker than the one that is found, and none behind it as weakly. -/
theorem weakest_spec {links before after : List Link} {link : Link}
    (h : weakest links = some (before, link, after)) :
    links = before ++ link :: after ∧ (∀ other ∈ before, link.tier ≤ other.tier) ∧
      ∀ other ∈ after, link.tier < other.tier := by
  induction links generalizing before link after with
  | nil => simp [weakest] at h
  | cons first links ih =>
    rw [weakest] at h
    split at h
    · rename_i hnone
      obtain ⟨rfl, rfl, rfl⟩ : [] = before ∧ first = link ∧ [] = after := by simpa using h
      exact ⟨by rw [weakest_eq_none hnone, List.nil_append], by simp, by simp⟩
    · rename_i before' found after' hsome
      obtain ⟨rfl, hbefore, hafter⟩ := ih hsome
      split_ifs at h with hlt
      · obtain ⟨rfl, rfl, rfl⟩ : [] = before ∧ first = link ∧ _ = after := by simpa using h
        refine ⟨rfl, by simp, ?_⟩
        intro other ho
        rcases List.mem_append.mp ho with ho | ho
        · have := hbefore other ho
          omega
        · rcases List.mem_cons.mp ho with rfl | ho
          · exact hlt
          · have := hafter other ho
            omega
      · obtain ⟨rfl, rfl, rfl⟩ : first :: before' = before ∧ found = link ∧ after' = after := by
          simpa using h
        refine ⟨rfl, ?_, hafter⟩
        intro other ho
        rcases List.mem_cons.mp ho with rfl | ho
        · omega
        · exact hbefore other ho

/-- The tree of a chain, split at its weakest operator. -/
def grouped (first : Operand) (links : List Link) : Node :=
  match _h : weakest links with
  | none => first.tree
  | some (before, link, after) =>
    .binary link.operator link.operator.lexeme (grouped first before) (grouped link.operand after)
termination_by links.length
decreasing_by
  all_goals
    have hlen := congrArg List.length (weakest_spec _h).1
    simp only [List.length_append, List.length_cons] at hlen
    omega

theorem grouped_of_none {first : Operand} {links : List Link} (h : weakest links = none) :
    grouped first links = first.tree := by
  rw [grouped]
  split
  · rfl
  · simp_all

theorem grouped_of_some {first : Operand} {links before after : List Link} {link : Link}
    (h : weakest links = some (before, link, after)) :
    grouped first links = .binary link.operator link.operator.lexeme (grouped first before)
      (grouped link.operand after) := by
  rw [grouped]
  split
  · simp_all
  · rename_i before' link' after' hsome
    obtain ⟨rfl, rfl, rfl⟩ : before' = before ∧ link' = link ∧ after' = after := by
      simpa [hsome] using h
    rfl

/-- The sides of a link, and the tokens around its operator. -/
theorem chainTokens_split (first : Operand) (before after : List Link) (link : Link) :
    chainTokens first (before ++ link :: after) =
      chainTokens first before ++ link.operator :: chainTokens link.operand after := by
  simp only [chainTokens, List.flatMap_append, List.flatMap_cons, List.append_assoc,
    List.cons_append]

theorem chainTokens_cons (first : Operand) (links : List Link) :
    ∃ behind, chainTokens first links = first.head :: behind := by
  cases hs : first.signs with
  | nil => exact ⟨_, by simp [chainTokens, Operand.tokens, Operand.head, hs]; rfl⟩
  | cons sign signs => exact ⟨_, by simp [chainTokens, Operand.tokens, Operand.head, hs]; rfl⟩

section

variable {budget : Nat} {floor : Int} {rest : List Token}

/-- Each sign in front of an atom takes one level. -/
theorem segment_signs {signs : List Token} {atom : Token} {value : Node}
    (sign_kind : ∀ sign ∈ signs, sign.kind = .bang ∨ sign.kind = .minus)
    (atom_value : Atom atom value) (levels : signs.length ≤ budget)
    (stops : Stops Precedence.unary.rank rest) :
    Segment (Expression budget) floor (signs ++ atom :: rest) rest
      (signs.foldr (fun sign node => .unary sign sign.lexeme node) value) := by
  induction signs generalizing budget floor with
  | nil => exact .intro (.atom atom_value) .nil
  | cons sign signs ih =>
    rw [List.length_cons] at levels
    obtain ⟨level, rfl⟩ : ∃ level, budget = level + 1 := ⟨budget - 1, by omega⟩
    have behind (other : Token) (ho : other ∈ signs) := sign_kind other (List.mem_cons_of_mem sign ho)
    have operand : Segment (Expression level) Precedence.unary.rank (signs ++ atom :: rest) rest _ :=
      ih behind (by omega)
    exact .intro (.unary (sign_kind sign List.mem_cons_self) ⟨operand, stops⟩) .nil

theorem segment_operand (operand : Operand) (levels : 90 ≤ budget)
    (stops : Stops Precedence.unary.rank rest) :
    Segment (Expression budget) floor (operand.tokens ++ rest) rest operand.tree := by
  have hsigns := operand.signs_le
  rw [Operand.tokens, List.append_assoc, List.singleton_append]
  exact segment_signs operand.sign_kind operand.atom_value (by omega) stops

/-- A chain above a floor is one segment of the grammar, with the grouped tree. Behind it stands
nothing that one of its operands could go on with. -/
theorem segment_grouped (first : Operand) (links : List Link)
    (above : ∀ link ∈ links, floor < link.rank) (floor_le : floor ≤ 5)
    (levels : 95 ≤ (budget : Int) + floor) (stops : ∀ link ∈ links, Stops link.rank rest)
    (stops_unary : Stops Precedence.unary.rank rest) :
    Segment (Expression budget) floor (chainTokens first links ++ rest) rest
      (grouped first links) := by
  induction first, links using grouped.induct generalizing budget floor rest with
  | case1 first links hnone =>
    obtain rfl := weakest_eq_none hnone
    rw [grouped_of_none hnone, chainTokens, List.flatMap_nil, List.append_nil]
    exact segment_operand first (by omega) stops_unary
  | case2 first links before link after hsome ihl ihr =>
    obtain ⟨rfl, weaker, rightmost⟩ := weakest_spec hsome
    obtain ⟨binary, -, -⟩ := link.operator_spec
    have rank_mem := link.rank_mem
    have hlink := above link (by simp)
    rw [grouped_of_some hsome, chainTokens_split, List.append_assoc, List.cons_append]
    -- The left side ends at an operator that binds no tighter than any of its own.
    have left : Segment (Expression budget) floor
        (chainTokens first before ++ link.operator :: (chainTokens link.operand after ++ rest)) _
        (grouped first before) :=
      ihl (fun other ho => above other (by simp [ho])) floor_le levels
        (fun other ho => stops_cons (Link.rank_le_rank.mpr (weaker other ho)))
        (stops_cons (Int.le_trans rank_mem.2 (by decide)))
    -- The right side is one level further in, above the rank of the operator.
    obtain ⟨level, rfl⟩ : ∃ level, budget = level + 1 := ⟨budget - 1, by omega⟩
    have tighter (other : Link) (ho : other ∈ after) : link.rank < other.rank := by
      have h := rightmost other ho
      rw [← Int.not_le, Link.rank_le_rank]
      omega
    have right : Segment (Expression level) link.rank (chainTokens link.operand after ++ rest) rest
        (grouped link.operand after) := ihr tighter rank_mem.2 (by omega)
      (fun other ho => stops other (by simp [ho])) stops_unary
    have right_phrase : Expression (level + 1) link.operator.kind.rank
        (chainTokens link.operand after ++ rest) rest (grouped link.operand after) :=
      ⟨right, stops link (by simp)⟩
    exact left.extend (.binary binary hlink right_phrase)

end

/-- A text with the tokens of a chain is read without a report as one statement, with the grouped
tree of the chain. -/
theorem parse_chain (text file : String) (first : Operand) (links : List Link)
    (chain : (Lexer.ofText text file).tokens = chainTokens first links) :
    (parse text file).log.entries = [] ∧
      (parse text file).tree = .program [.exprStatement first.head (grouped first links)] := by
  have segment : Segment (Expression 99) Precedence.lowest.rank (chainTokens first links ++ []) []
      (grouped first links) :=
    segment_grouped first links (fun link _ => link.rank_mem.1) (by decide) (by decide)
      (fun _ _ => by simp [Stops]) (by simp [Stops])
  obtain ⟨behind, hcons⟩ := chainTokens_cons first links
  rw [List.append_nil, hcons] at segment
  apply parse_of_statements
  rw [chain, hcons]
  exact .cons (.expression ⟨segment, by simp [Stops]⟩ .missing) .nil

/-- A token on the first line of a text. -/
def Token.onFirstLine (kind : Kind) (lexeme : String) (column : Int) : Token :=
  ⟨kind, lexeme, some ⟨Lexer.unnamed, 1, column, none, none⟩⟩

/-- A name without signs on the first line of a text. -/
def Operand.bare (lexeme : String) (column : Int) : Operand where
  signs := []
  atom := .onFirstLine .ident lexeme column
  value := .identifier (.onFirstLine .ident lexeme column) lexeme
  sign_kind := by simp
  signs_le := by simp
  atom_value := .identifier rfl

/-- A name behind one sign of each kind on the first line of a text. -/
def Operand.signed (lexeme : String) (column : Int) : Operand where
  signs := [.onFirstLine .bang "!" (column - 2), .onFirstLine .minus "-" (column - 1)]
  atom := .onFirstLine .ident lexeme column
  value := .identifier (.onFirstLine .ident lexeme column) lexeme
  sign_kind := by simp [Token.onFirstLine]
  signs_le := by simp
  atom_value := .identifier rfl

/-- What stands behind `a` in `a - b * !-c - d == e`. -/
def sampleLinks : List Link :=
  [⟨.onFirstLine .minus "-" 3, .bare "b" 5, by decide⟩,
    ⟨.onFirstLine .asterisk "*" 7, .signed "c" 11, by decide⟩,
    ⟨.onFirstLine .minus "-" 13, .bare "d" 15, by decide⟩,
    ⟨.onFirstLine .eq "==" 17, .bare "e" 20, by decide⟩]

/-- The differences group to the left, around the product and below the comparison. -/
theorem parse_chain_sampleLinks :
    (Lexer.ofText "a - b * !-c - d == e").tokens = chainTokens (.bare "a" 1) sampleLinks ∧
    (parse "a - b * !-c - d == e").log.entries = [] ∧
    (parse "a - b * !-c - d == e").tree = .program [.exprStatement (.onFirstLine .ident "a" 1)
      (.binary (.onFirstLine .eq "==" 17) "=="
        (.binary (.onFirstLine .minus "-" 13) "-"
          (.binary (.onFirstLine .minus "-" 3) "-" (Operand.bare "a" 1).value
            (.binary (.onFirstLine .asterisk "*" 7) "*" (Operand.bare "b" 5).value
              (Operand.signed "c" 11).tree))
          (Operand.bare "d" 15).value)
        (Operand.bare "e" 20).value)] := by
  have tokens : (Lexer.ofText "a - b * !-c - d == e").tokens =
      chainTokens (.bare "a" 1) sampleLinks := by
    decide +kernel
  obtain ⟨clean, tree⟩ := parse_chain _ _ _ _ tokens
  refine ⟨tokens, clean, tree.trans ?_⟩
  repeat first
    | rw [grouped_of_some rfl]
    | rw [grouped_of_none rfl]
  rfl

end MonkeyLang
