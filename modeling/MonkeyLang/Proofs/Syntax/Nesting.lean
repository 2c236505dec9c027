import MonkeyLang.Token
import Mathlib.Data.List.Basic
import Mathlib.Data.Nat.Find
import Mathlib.Tactic.SplitIfs

/-!
# Nesting of tokens

Parentheses, braces and brackets open levels that the token of the same sort closes. Tokens are
properly nested when every closer is the one that is owed and none is owed at the end. A stretch of
tokens goes inward when it leaves no level that it has not entered; a sealed one has no semicolon
outside of the levels that it enters, either.
-/
namespace MonkeyLang

namespace Kind

/-- What closes the level that a token of the kind opens. -/
def closer? : Kind → Option Kind
  | lparen => some rparen
  | lbrace => some rbrace
  | lbracket => some rbracket
  | _ => none

/-- Whether a token of the kind closes a level. -/
def isCloser : Kind → Bool
  | rparen | rbrace | rbracket => true
  | _ => false

/-- Whether a token of the kind is no part of the nesting and ends no statement. -/
def isPlain (kind : Kind) : Bool := kind.closer?.isNone && !kind.isCloser && kind != semicolon

theorem closer?_of_isCloser {kind : Kind} (h : kind.isCloser) : kind.closer? = none := by
  cases kind <;> first | rfl | exact absurd h (by decide)

end Kind

namespace Nesting

/-! ## Owed closers -/

/-- The closers that are owed behind a token, the innermost first, if the token may stand there. -/
def owedBehind (stack : List Kind) (token : Token) : Option (List Kind) :=
  match token.kind.closer?, token.kind.isCloser, stack with
  | some closer, _, stack => some (closer :: stack)
  | none, false, stack => some stack
  | none, true, [] => none
  | none, true, closer :: below => if token.kind = closer then some below else none

/-- The closers that are owed behind some tokens, if each closer among these is the one that was
owed there. -/
def owed (stack : List Kind) (tokens : List Token) : Option (List Kind) :=
  tokens.foldlM owedBehind stack

/-- Every level is closed by the closer of its opener, and only levels that are open are closed. -/
def Proper (tokens : List Token) : Prop := owed [] tokens = some []

instance (tokens : List Token) : Decidable (Proper tokens) :=
  inferInstanceAs (Decidable (owed [] tokens = some []))

/-- A token closes the innermost level or does what it does without the outer ones. -/
theorem owedBehind_append {stack below next : List Kind} {closer : Kind} {token : Token}
    (h : owedBehind (stack ++ closer :: below) token = some next) :
    (stack = [] ∧ token.kind = closer) ∨
      ∃ inner, next = inner ++ closer :: below ∧ owedBehind stack token = some inner := by
  cases opens : token.kind.closer? with
  | some closer' =>
    simp only [owedBehind, opens, Option.some.injEq] at h ⊢
    exact .inr ⟨closer' :: stack, h.symm, rfl⟩
  | none =>
    cases closes : token.kind.isCloser with
    | false =>
      simp only [owedBehind, opens, closes, Option.some.injEq] at h ⊢
      exact .inr ⟨stack, h.symm, rfl⟩
    | true =>
      cases stack with
      | nil =>
        simp only [List.nil_append, owedBehind, opens, closes, Option.ite_none_right_eq_some] at h
        exact .inl ⟨rfl, h.1⟩
      | cons closer' stack =>
        simp only [List.cons_append, owedBehind, opens, closes, Option.ite_none_right_eq_some,
          Option.some.injEq] at h ⊢
        exact .inr ⟨stack, h.2.symm, h.1, rfl⟩

/-- A closer that is owed and does not stay so stands behind tokens that are nested in
themselves. -/
theorem exists_closer {stack below : List Kind} {closer : Kind} {tokens : List Token}
    (h : owed (stack ++ closer :: below) tokens = some []) :
    ∃ inside token after, tokens = inside ++ token :: after ∧ token.kind = closer ∧
      owed stack inside = some [] := by
  induction tokens generalizing stack with
  | nil => simp [owed] at h
  | cons token tokens ih =>
    rw [owed, List.foldlM_cons] at h
    obtain ⟨next, step, rest⟩ := Option.bind_eq_some_iff.mp h
    rcases owedBehind_append step with ⟨rfl, kind⟩ | ⟨inner, rfl, inside_step⟩
    · exact ⟨[], token, tokens, rfl, kind, rfl⟩
    · obtain ⟨inside, close, after, rfl, kind, nested⟩ := ih rest
      refine ⟨token :: inside, close, after, rfl, kind, ?_⟩
      rw [owed, List.foldlM_cons]
      exact Option.bind_eq_some_iff.mpr ⟨inner, inside_step, nested⟩

/-- Behind an opener in properly nested tokens stands the closer of its level. -/
theorem exists_closer_of_proper {before behind : List Token} {opener : Token} {closer : Kind}
    (nested : Proper (before ++ opener :: behind)) (opens : opener.kind.closer? = some closer) :
    ∃ inside token after, behind = inside ++ token :: after ∧ token.kind = closer ∧
      Proper inside := by
  rw [Proper, owed, List.foldlM_append] at nested
  obtain ⟨stack, -, rest⟩ := Option.bind_eq_some_iff.mp nested
  rw [List.foldlM_cons] at rest
  obtain ⟨next, step, rest⟩ := Option.bind_eq_some_iff.mp rest
  simp only [owedBehind, opens, Option.some.injEq] at step
  subst step
  have owing : owed ([] ++ closer :: stack) behind = some [] := rest
  exact exists_closer owing

/-! ## Levels -/

/-- The number of levels behind a token, if it leaves no level below the first. -/
def levelBehind (sealed : Bool) (depth : Nat) (token : Token) : Option Nat :=
  match token.kind.closer?, token.kind.isCloser, depth with
  | some _, _, depth => some (depth + 1)
  | none, true, 0 => none
  | none, true, depth + 1 => some depth
  | none, false, 0 => if sealed ∧ token.kind = .semicolon then none else some 0
  | none, false, depth + 1 => some (depth + 1)

/-- The number of levels behind some tokens, if these leave no level below the first. -/
def levels (sealed : Bool) (depth : Nat) (tokens : List Token) : Option Nat :=
  tokens.foldlM (levelBehind sealed) depth

/-- No level is left that was not entered. -/
def Inward (sealed : Bool) (tokens : List Token) : Prop := (levels sealed 0 tokens).isSome

instance (sealed : Bool) : DecidablePred (Inward sealed) :=
  fun tokens => inferInstanceAs (Decidable ((levels sealed 0 tokens).isSome = true))

section

variable {sealed : Bool} {depth behind : Nat} {token : Token} {tokens more : List Token}

theorem levels_append (sealed : Bool) (depth : Nat) (tokens more : List Token) :
    levels sealed depth (tokens ++ more) =
      (levels sealed depth tokens).bind (levels sealed · more) :=
  List.foldlM_append

theorem levels_cons (sealed : Bool) (depth : Nat) (token : Token) (tokens : List Token) :
    levels sealed depth (token :: tokens) =
      (levelBehind sealed depth token).bind (levels sealed · tokens) :=
  List.foldlM_cons

/-- One level further in the same levels are entered and left, and no semicolon stands outside. -/
theorem levelBehind_succ (h : levelBehind false depth token = some behind) :
    levelBehind sealed (depth + 1) token = some (behind + 1) := by
  unfold levelBehind at h ⊢
  grind

theorem levels_succ (h : levels false depth tokens = some behind) :
    levels sealed (depth + 1) tokens = some (behind + 1) := by
  induction tokens generalizing depth with
  | nil => simpa [levels] using h
  | cons token tokens ih =>
    rw [levels_cons] at h ⊢
    obtain ⟨next, step, rest⟩ := Option.bind_eq_some_iff.mp h
    rw [levelBehind_succ step, Option.bind_some]
    exact ih rest

theorem levelBehind_of_sealed (h : levelBehind sealed depth token = some behind) :
    levelBehind false depth token = some behind := by
  unfold levelBehind at h ⊢
  grind

theorem levelBehind_of_owedBehind {stack next : List Kind}
    (h : owedBehind stack token = some next) :
    levelBehind false stack.length token = some next.length := by
  unfold owedBehind at h
  unfold levelBehind
  grind

/-- What is sealed goes inward as well. -/
theorem levels_of_sealed (h : levels sealed depth tokens = some behind) :
    levels false depth tokens = some behind := by
  induction tokens generalizing depth with
  | nil => exact h
  | cons token tokens ih =>
    rw [levels_cons] at h ⊢
    obtain ⟨next, step, rest⟩ := Option.bind_eq_some_iff.mp h
    rw [levelBehind_of_sealed step, Option.bind_some]
    exact ih rest

/-- Properly nested tokens end on the level on which they start. -/
theorem levels_of_owed {stack below : List Kind} (h : owed stack tokens = some below) :
    levels false stack.length tokens = some below.length := by
  induction tokens generalizing stack with
  | nil =>
    obtain rfl := Option.some.inj h
    rfl
  | cons token tokens ih =>
    rw [owed, List.foldlM_cons] at h
    obtain ⟨next, step, rest⟩ := Option.bind_eq_some_iff.mp h
    rw [levels_cons, levelBehind_of_owedBehind step, Option.bind_some]
    exact ih rest

theorem levels_zero_of_proper (h : Proper tokens) : levels false 0 tokens = some 0 :=
  levels_of_owed h

/-! ## Going inward -/

/-- What goes inward does so on every level. -/
theorem Inward.isSome (h : Inward sealed tokens) (depth : Nat) :
    (levels sealed depth tokens).isSome := by
  obtain ⟨behind, hb⟩ := Option.isSome_iff_exists.mp h
  have unsealed (depth : Nat) : ∃ behind, levels false depth tokens = some behind := by
    induction depth with
    | zero => exact ⟨behind, levels_of_sealed hb⟩
    | succ depth ih =>
      obtain ⟨behind, hb⟩ := ih
      exact ⟨behind + 1, levels_succ hb⟩
  cases depth with
  | zero => exact h
  | succ depth =>
    obtain ⟨behind, hb⟩ := unsealed depth
    exact Option.isSome_iff_exists.mpr ⟨behind + 1, levels_succ hb⟩

theorem inward_nil : Inward sealed [] := rfl

theorem Inward.unseal (h : Inward sealed tokens) : Inward false tokens := by
  obtain ⟨behind, hb⟩ := Option.isSome_iff_exists.mp h
  exact Option.isSome_iff_exists.mpr ⟨behind, levels_of_sealed hb⟩

theorem Inward.append (h : Inward sealed tokens) (h' : Inward sealed more) :
    Inward sealed (tokens ++ more) := by
  obtain ⟨behind, hb⟩ := Option.isSome_iff_exists.mp h
  rw [Inward, levels_append, hb]
  exact h'.isSome behind

theorem Inward.of_append (h : Inward sealed (tokens ++ more)) : Inward sealed tokens := by
  rw [Inward, levels_append] at h
  exact Option.isSome_of_isSome_bind h

/-- A token that is no part of the nesting may stand in front. -/
theorem Inward.cons (h : Inward sealed tokens) (plain : token.kind.isPlain) :
    Inward sealed (token :: tokens) := by
  have stays : levelBehind sealed 0 token = some 0 := by
    unfold levelBehind
    unfold Kind.isPlain at plain
    grind
  rwa [Inward, levels_cons, stays]

theorem inward_semicolon (h : token.kind = .semicolon) : Inward false [token] := by
  have stays : levelBehind false 0 token = some 0 := by
    simp [levelBehind, h, Kind.closer?, Kind.isCloser]
  rw [Inward, levels_cons, stays]
  rfl

/-- Behind an opener semicolons may stand outside of further levels. -/
theorem Inward.opened (h : Inward false tokens) (opens : token.kind.closer?.isSome) :
    Inward sealed (token :: tokens) := by
  have enters : levelBehind sealed 0 token = some 1 := by
    unfold levelBehind
    grind
  obtain ⟨behind, hb⟩ := Option.isSome_iff_exists.mp h
  rw [Inward, levels_cons, enters]
  exact Option.isSome_iff_exists.mpr ⟨behind + 1, levels_succ hb⟩

theorem Inward.enclosed {closer : Token} (h : Inward false tokens)
    (opens : token.kind.closer?.isSome) (closes : closer.kind.isCloser) :
    Inward sealed (token :: (tokens ++ [closer])) := by
  have enters : levelBehind sealed 0 token = some 1 := by
    unfold levelBehind
    grind
  obtain ⟨behind, hb⟩ := Option.isSome_iff_exists.mp h
  have leaves : levelBehind sealed (behind + 1) closer = some behind := by
    have shut : closer.kind.closer? = none := Kind.closer?_of_isCloser closes
    simp only [levelBehind, shut, closes]
  rw [Inward, levels_cons, enters, Option.bind_some, levels_append, levels_succ hb,
    Option.bind_some, levels_cons, leaves]
  rfl

/-- Nothing goes inward beyond a token that ends the level on which it started. -/
theorem prefix_of_inward {segment rest before after : List Token} (h : Inward sealed segment)
    (level : levels false 0 before = some 0) (barrier : levelBehind sealed 0 token = none)
    (same : segment ++ rest = before ++ token :: after) : ∃ more, before = segment ++ more := by
  rcases List.append_eq_append_iff.mp same with ⟨more, hm, -⟩ | ⟨more, hm, hrest⟩
  · exact ⟨more, hm⟩
  · cases more with
    | nil => exact ⟨[], by rw [hm, List.append_nil, List.append_nil]⟩
    | cons other more =>
      obtain ⟨rfl, -⟩ := List.cons.inj hrest
      -- before the barrier the levels are those of a sealed reading, if there are any
      obtain ⟨behind, hb⟩ := Option.isSome_iff_exists.mp (hm ▸ h : Inward sealed _).of_append
      rw [levels_of_sealed hb] at level
      obtain rfl := Option.some.inj level
      rw [hm, Inward, levels_append, hb, Option.bind_some, levels_cons, barrier] at h
      exact absurd h (by simp)

end

/-! ## What a level holds -/

/-- What stands on a level and further in, up to the closer of the level. -/
def level (tokens : List Token) : List Token :=
  tokens.take (Nat.findGreatest (fun count => Inward false (tokens.take count)) tokens.length)

/-- What stands between an opener and its closer. -/
def enclosed (tokens : List Token) (opener : Token) : List Token :=
  level (tokens.dropWhile (· ≠ opener)).tail

theorem level_eq {inside after : List Token} {closer : Token}
    (nested : levels false 0 inside = some 0) (closes : closer.kind.isCloser) :
    level (inside ++ closer :: after) = inside := by
  have barrier : levelBehind false 0 closer = none := by
    simp only [levelBehind, Kind.closer?_of_isCloser closes, closes]
  have greatest : Nat.findGreatest
      (fun count => Inward false ((inside ++ closer :: after).take count))
      (inside ++ closer :: after).length = inside.length := by
    rw [Nat.findGreatest_eq_iff]
    refine ⟨by simp, fun _ => ?_, fun count further _ beyond => ?_⟩
    · rw [List.take_left, Inward, nested]
      rfl
    · obtain ⟨more, hm⟩ := prefix_of_inward beyond nested barrier
        (List.take_append_drop count (inside ++ closer :: after))
      have length := congrArg List.length hm
      simp only [List.length_append, List.length_take, List.length_cons] at length
      omega
  rw [level, greatest, List.take_left]

theorem eq_take_cons_drop (tokens : List Token) (place : Fin tokens.length) :
    tokens = tokens.take place ++ tokens[place] :: tokens.drop (place + 1) := by
  rw [Fin.getElem_fin, List.getElem_cons_drop, List.take_append_drop]

/-- A semicolon stands ahead on the level on which the tokens start. -/
def EndsAhead (tokens : List Token) : Prop :=
  ∃ place : Fin tokens.length, tokens[place].kind = .semicolon ∧
    levels false 0 (tokens.take place) = some 0

instance (tokens : List Token) : Decidable (EndsAhead tokens) :=
  inferInstanceAs (Decidable (∃ _, _ ∧ _))

theorem endsAhead_iff {tokens : List Token} : EndsAhead tokens ↔
    ∃ before semicolon after, tokens = before ++ semicolon :: after ∧
      semicolon.kind = .semicolon ∧ levels false 0 before = some 0 := by
  constructor
  · rintro ⟨place, kind, level⟩
    exact ⟨_, _, _, eq_take_cons_drop tokens place, kind, level⟩
  · rintro ⟨before, semicolon, after, rfl, kind, level⟩
    exact ⟨⟨before.length, by simp⟩, by simpa using kind, by simpa using level⟩

/-- Every return that is reached without leaving the level on which the tokens start has a semicolon
ahead on its own level. -/
def ReturnsEnd (tokens : List Token) : Prop :=
  ∀ place : Fin tokens.length, Inward false (tokens.take place) →
    tokens[place].kind = .kwReturn → EndsAhead (tokens.drop (place + 1))

instance (tokens : List Token) : Decidable (ReturnsEnd tokens) :=
  inferInstanceAs (Decidable (∀ _, _ → _ → _))

theorem returnsEnd_iff {tokens : List Token} : ReturnsEnd tokens ↔
    ∀ before keyword after, tokens = before ++ keyword :: after → Inward false before →
      keyword.kind = .kwReturn → EndsAhead after := by
  constructor
  · rintro h before keyword after rfl inward kind
    have place := h ⟨before.length, by simp⟩
    simpa [inward, kind] using place
  · intro h place inward kind
    exact h _ _ _ (eq_take_cons_drop tokens place) inward kind

theorem EndsAhead.append {tokens : List Token} (h : EndsAhead tokens) (more : List Token) :
    EndsAhead (tokens ++ more) := by
  obtain ⟨before, semicolon, after, rfl, kind, level⟩ := endsAhead_iff.mp h
  exact endsAhead_iff.mpr
    ⟨before, semicolon, after ++ more, by rw [List.append_assoc, List.cons_append], kind, level⟩

/-- Further on but not further out the returns are the same ones. -/
theorem ReturnsEnd.behind {sealed : Bool} {segment rest : List Token}
    (h : ReturnsEnd (segment ++ rest)) (inward : Inward sealed segment) : ReturnsEnd rest := by
  rw [returnsEnd_iff] at h ⊢
  rintro before keyword after rfl reached kind
  exact h (segment ++ before) keyword after (by rw [List.append_assoc])
    (inward.unseal.append reached) kind

theorem ReturnsEnd.tail {token : Token} {rest : List Token} (h : ReturnsEnd (token :: rest))
    (plain : token.kind.isPlain) : ReturnsEnd rest := by
  have inward : Inward true [token] := inward_nil.cons plain
  exact (h : ReturnsEnd ([token] ++ rest)).behind inward

theorem ReturnsEnd.within {token : Token} {rest : List Token} (h : ReturnsEnd (token :: rest))
    (opens : token.kind.closer?.isSome) : ReturnsEnd rest := by
  have inward : Inward true [token] := inward_nil.opened opens
  exact (h : ReturnsEnd ([token] ++ rest)).behind inward

/-- Returns behind the closer of a level are out of reach. -/
theorem ReturnsEnd.extend {inside after : List Token} {closer : Token} (h : ReturnsEnd inside)
    (nested : levels false 0 inside = some 0) (closes : closer.kind.isCloser) :
    ReturnsEnd (inside ++ closer :: after) := by
  rw [returnsEnd_iff] at h ⊢
  intro before keyword behind same inward kind
  have barrier : levelBehind false 0 closer = none := by
    simp only [levelBehind, Kind.closer?_of_isCloser closes, closes]
  obtain ⟨more, rfl⟩ := prefix_of_inward inward nested barrier same.symm
  rw [List.append_assoc, List.append_cancel_left_eq] at same
  cases more with
  | nil =>
    obtain ⟨rfl, -⟩ := List.cons.inj same
    rw [kind] at closes
    exact absurd closes (by decide)
  | cons first more =>
    obtain ⟨rfl, rfl⟩ := List.cons.inj same
    exact (h before first more rfl inward kind).append (closer :: after)

end Nesting

end MonkeyLang
