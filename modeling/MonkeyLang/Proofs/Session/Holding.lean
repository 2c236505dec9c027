import MonkeyLang.Proofs.Lexing.Supply
import MonkeyLang.Session.Cursor

/-!
# Taking and holding tokens

What is taken from a lexer in a number of steps is an initial part of its tokens, continued by the
end token, and what is left is the rest. A reader that holds two tokens stands in front of these two
and of all that its lexer has left. So the tokens that it draws in a run are the ones that the run
has moved past, and what it stands in front of afterwards is what the run leaves.
-/
namespace MonkeyLang

namespace Lexer

variable (lexer : Lexer)

theorem length_take (count : Nat) : (lexer.take count).1.length = count := by
  induction count generalizing lexer with
  | zero => rfl
  | succ count ih => rw [take, List.length_cons, ih]

theorem take_add (count more : Nat) :
    lexer.take (count + more) =
      ((lexer.take count).1 ++ ((lexer.take count).2.take more).1,
        ((lexer.take count).2.take more).2) := by
  induction count generalizing lexer with
  | zero => rw [Nat.zero_add]; rfl
  | succ count ih => rw [Nat.succ_add, take, take, ih, List.cons_append]

theorem tokens_next : lexer.next.2.tokens = lexer.tokens.tail := by
  by_cases h : lexer.next.1.kind = .eof
  · rw [tokens_of_end h, tokens_of_end (by rw [(next_of_end h).2, h]), List.tail_nil]
  · rw [tokens_of_token h, List.tail_cons]

theorem eof_next : lexer.next.2.eof = lexer.eof := by
  by_cases h : lexer.next.1.kind = .eof
  · rw [eof_of_end h, eof_of_end (by rw [(next_of_end h).2, h]), (next_of_end h).2]
  · rw [eof_of_token h]

theorem next_eq_currentOf : lexer.next.1 = currentOf lexer.eof lexer.tokens := by
  by_cases h : lexer.next.1.kind = .eof
  · rw [tokens_of_end h, eof_of_end h, currentOf_nil]
  · rw [tokens_of_token h, currentOf_cons]

theorem tokens_take (count : Nat) : (lexer.take count).2.tokens = lexer.tokens.drop count := by
  induction count generalizing lexer with
  | zero => rfl
  | succ count ih => rw [take, ih, tokens_next, List.drop_tail]

theorem eof_take (count : Nat) : (lexer.take count).2.eof = lexer.eof := by
  induction count generalizing lexer with
  | zero => rfl
  | succ count ih => rw [take, ih, eof_next]

/-- Behind the tokens the end token is given again and again. -/
theorem take_eq {count ends : Nat} (enough : count ≤ ends) :
    (lexer.take count).1 = (lexer.tokens ++ List.replicate ends lexer.eof).take count := by
  induction count generalizing lexer ends with
  | zero => rfl
  | succ count ih =>
    rw [take, next_eq_currentOf]
    cases h : lexer.tokens with
    | nil =>
      obtain ⟨ends, rfl⟩ := Nat.exists_eq_add_of_le' (Nat.le_of_add_left_le enough)
      rw [ih lexer.next.2 (Nat.le_of_succ_le_succ enough), tokens_next, eof_next, h]
      rfl
    | cons token tokens =>
      rw [ih lexer.next.2 (Nat.le_of_succ_le enough), tokens_next, eof_next, h]
      rfl

/-- The draws that end with the end token give the tokens and the end token. -/
theorem take_to_end : (lexer.take (lexer.tokens.length + 1)).1 = lexer.tokens ++ [lexer.eof] := by
  rw [lexer.take_eq (Nat.le_refl _), List.replicate_succ, List.append_cons]
  exact List.take_left' (by simp)

theorem prefix_take {count : Nat} (enough : 1 + lexer.tokens.length ≤ count) :
    lexer.tokens ++ [lexer.eof] <+: (lexer.take count).1 := by
  obtain ⟨more, rfl⟩ := Nat.exists_eq_add_of_le enough
  rw [Nat.add_comm 1, lexer.take_add, lexer.take_to_end]
  exact List.prefix_append _ _

/-- The first two tokens, which a new reader holds. -/
def cursor (lexer : Lexer) : Cursor := ⟨lexer.next.1, lexer.next.2.next.1⟩

end Lexer

namespace Cursor

/-- A reader faces some tokens: it holds the first two of them, and the others are left to its
lexer. Where there is no token it holds the end token. -/
structure Faces (cursor : Cursor) (lexer : Lexer) (tokens : List Token) : Prop where
  current : cursor.current = currentOf lexer.eof tokens
  upcoming : cursor.upcoming = upcomingOf lexer.eof tokens
  behind : lexer.tokens = tokens.drop 2
  proper : ∀ token ∈ tokens, token.kind ≠ .eof

variable {cursor : Cursor} {lexer : Lexer} {tokens : List Token}

/-- A new reader faces all tokens. -/
theorem faces_opened (lexer : Lexer) : lexer.cursor.Faces (lexer.take 2).2 lexer.tokens where
  current := by rw [Lexer.eof_take, Lexer.cursor, Lexer.next_eq_currentOf]
  upcoming := by
    rw [Lexer.eof_take, upcomingOf, ← Lexer.tokens_next, ← Lexer.eof_next]
    exact lexer.next.2.next_eq_currentOf
  behind := Lexer.tokens_take lexer 2
  proper := lexer.kind_ne_eof_of_mem_tokens

namespace Faces

theorem ahead (h : cursor.Faces lexer tokens) : cursor.tokens ++ lexer.tokens = tokens := by
  obtain ⟨current, upcoming, behind, proper⟩ := h
  rw [Cursor.tokens, current, upcoming, behind]
  have ended := lexer.kind_eof
  rcases tokens with _ | ⟨first, _ | ⟨second, rest⟩⟩
  · simp [ended]
  · simp [ended, proper first]
  · simp [proper first, proper second]

/-- The run of a parser is the one on the tokens that the reader faces. -/
theorem outcome_eq {α : Type} (h : cursor.Faces lexer tokens) (parser : Parser α) :
    cursor.outcome lexer parser = parser.run lexer.eof tokens := by
  rw [outcome, h.ahead]

theorem push (h : cursor.Faces lexer tokens) :
    (cursor.push lexer.next.1).Faces lexer.next.2 tokens.tail where
  current := by rw [Lexer.eof_next]; exact h.upcoming
  upcoming := by
    rw [Lexer.eof_next, upcomingOf, ← List.drop_one, List.drop_tail, ← h.behind]
    exact lexer.next_eq_currentOf
  behind := by rw [Lexer.tokens_next, h.behind, List.tail_drop, List.drop_tail]
  proper token ht := h.proper token (List.mem_of_mem_tail ht)

/-- Behind the tokens that are drawn the reader faces those that are left. -/
theorem pushAll (h : cursor.Faces lexer tokens) (count : Nat) :
    (cursor.pushAll (lexer.take count).1).Faces (lexer.take count).2 (tokens.drop count) := by
  induction count generalizing cursor lexer tokens with
  | zero => exact h
  | succ count ih =>
    rw [← List.drop_tail]
    exact ih h.push

/-- A run that leaves nothing ends at the end token. -/
theorem finished (h : cursor.Faces lexer []) :
    cursor.current = lexer.eof ∧ lexer.tokens = [] :=
  ⟨h.current, h.behind⟩

end Faces

/-- The two tokens that are held are always the last two that were drawn. -/
theorem last_two_pushAll (cursor : Cursor) (earlier drawn : List Token) :
    ∃ before, earlier ++ [cursor.current, cursor.upcoming] ++ drawn =
      before ++ [(cursor.pushAll drawn).current, (cursor.pushAll drawn).upcoming] := by
  induction drawn generalizing cursor earlier with
  | nil => exact ⟨earlier, by simp⟩
  | cons token drawn ih =>
    obtain ⟨before, shifted⟩ := ih (cursor.push token) (earlier ++ [cursor.current])
    refine ⟨before, ?_⟩
    rw [pushAll_cons, ← shifted]
    simp [push]

end Cursor

end MonkeyLang
