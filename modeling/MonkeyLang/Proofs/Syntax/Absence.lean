import MonkeyLang.Proofs.Syntax.TracedParsing

/-!
# Absent nodes and faults

No run leaves more gaps in a tree than it reports faults. Where nothing is bound, no run reports a
fault without leaving a gap: a rule that fails drops what it has gathered, but only for a gap.
-/
namespace MonkeyLang

section

variable {eof : Token} {stage : Stage} {debt moves : Nat} {tokens : List Token}
  {faults : List Fault} {before after : List (Option Token)}

/-- Each gap that a run adds belongs to a fault of its own. -/
theorem Trace.count_none_le (h : Trace eof stage debt tokens moves faults before after) :
    after.count none ≤ before.count none + faults.length := by
  induction h with
  | idle => simp
  | ended => simp
  | andThen first second ih ih' =>
    rw [List.length_append]
    omega
  | move rest ih => exact ih
  | keep legal rest ih => simpa using ih
  | pass unkept rest ih => exact ih
  | behind earlier rest ih =>
    rw [List.count_append, List.count_append]
    omega
  | missing other => simp
  | refused justified here => simp
  | collapse gap rest ih =>
    have some_gap := List.count_pos_iff.mpr gap
    rw [List.count_singleton_self]
    omega
  | unbound keyword rest ih => simp
  | skip keyword count rest ih => exact ih

/-- A run that binds nothing and leaves no gap had none before and reports nothing. -/
theorem Trace.clean_of_gapless (h : Trace eof stage debt tokens moves faults before after)
    (unbinding : ∀ token ∈ tokens, token.kind ≠ .kwLet) (gapless : none ∉ after) :
    none ∉ before ∧ faults = [] := by
  -- gaps are traced back from the end: a gap stays, or is dropped for another gap
  induction h with
  | idle => exact ⟨gapless, rfl⟩
  | ended => exact ⟨gapless, rfl⟩
  | andThen first second ih ih' =>
    obtain ⟨between, clean'⟩ :=
      ih' (fun token ht => unbinding token (List.mem_of_mem_drop ht)) gapless
    obtain ⟨start, clean⟩ := ih unbinding between
    exact ⟨start, by rw [clean, clean', List.append_nil]⟩
  | move rest ih => exact ih (fun token ht => unbinding token (List.mem_cons_of_mem _ ht)) gapless
  | keep legal rest ih =>
    obtain ⟨start, clean⟩ := ih unbinding gapless
    exact ⟨fun gap => start (List.mem_append_left _ gap), clean⟩
  | pass unkept rest ih => exact ih unbinding gapless
  | behind earlier rest ih =>
    rw [List.mem_append, not_or] at gapless
    obtain ⟨start, clean⟩ := ih unbinding gapless.2
    exact ⟨by simp [gapless.1, start], clean⟩
  | missing other => simp at gapless
  | refused justified here => simp at gapless
  | collapse gap rest ih => simp at gapless
  | unbound keyword rest ih => exact absurd keyword (unbinding _ List.mem_cons_self)
  | skip keyword count rest ih => exact ih unbinding gapless

end

/-- A tree has at most as many absent children as errors were reported, so none if there was no
error. A text without bindings has an error exactly when some child is absent. -/
theorem absentChildren_parse (text file : String) :
    (parse text file).tree.absentChildren ≤ (parse text file).log.size ∧
    ((parse text file).log.hasErrors = false → (parse text file).tree.absentChildren = 0) ∧
    ((∀ token ∈ tokenize text file, token.kind ≠ .kwLet) →
      ((parse text file).log.hasErrors ↔ 0 < (parse text file).tree.absentChildren)) := by
  obtain ⟨moves, faults, reported, -, trace⟩ := parse_trace text file
  have size : (parse text file).log.size = faults.length := by
    rw [Log.size, reported, List.length_map]
  have errors : (parse text file).log.hasErrors ↔ faults ≠ [] := by
    rw [hasErrors_parse_iff, reported, Ne, List.map_eq_nil_iff]
  have bound : (parse text file).tree.absentChildren ≤ faults.length := by
    have counted := trace.count_none_le
    rwa [List.count_nil, Nat.zero_add] at counted
  refine ⟨by rw [size]; exact bound, ?_, ?_⟩
  · intro clean
    have none : faults = [] := by
      by_contra some
      rw [errors.mpr some] at clean
      exact Bool.noConfusion clean
    rw [none, List.length_nil] at bound
    exact Nat.le_zero.mp bound
  · intro unbinding
    rw [errors, Node.absentChildren, List.count_pos_iff]
    constructor
    · intro some
      by_contra gapless
      have read (token : Token) (ht : token ∈ (Lexer.ofText text file).tokens) :=
        unbinding token (List.mem_append_left _ ht)
      exact some (trace.clean_of_gapless read gapless).2
    · intro gap
      have positive := List.count_pos_iff.mpr gap
      exact List.ne_nil_of_length_pos (Nat.lt_of_lt_of_le positive bound)

/-- A call that lacks its closing parenthesis is dropped, with the gap among its arguments, for one
absent expression. -/
theorem absentChildren_parse_openCall :
    (∀ token ∈ tokenize "f(a, ]", token.kind ≠ .kwLet) ∧
    (parse "f(a, ]").log.hasErrors = true ∧ 0 < (parse "f(a, ]").tree.absentChildren := by
  have unbinding : ∀ token ∈ tokenize "f(a, ]", token.kind ≠ .kwLet := by decide +kernel
  have errors : (parse "f(a, ]").log.hasErrors = true := by decide +kernel
  exact ⟨unbinding, errors, ((absentChildren_parse "f(a, ]" Lexer.unnamed).2.2 unbinding).mp errors⟩

end MonkeyLang
