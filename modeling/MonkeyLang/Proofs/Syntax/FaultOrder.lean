import MonkeyLang.Proofs.Lexing.Ascent
import MonkeyLang.Proofs.Syntax.TracedParsing

/-!
# The order of faults

A fault is found at the current token or at the next one, and no run looks back at a token that it
has taken. So the faults of a text stand at tokens of the text, in the order of these tokens. The
first fault stands at the earliest of their places, and a strict reading names that place.
-/
namespace MonkeyLang

/-- The token that stands a number of moves ahead of the current one. -/
def tokenAhead (eof : Token) (tokens : List Token) (offset : Nat) : Token :=
  currentOf eof (tokens.drop offset)

/-- How far ahead of the current token a stage looks at least. -/
def Stage.offset : Stage → Nat
  | fresh => 0
  | spent => 1

/-- Faults that are found ever further ahead, or at one token, between two offsets. -/
inductive Ascending (eof : Token) (tokens : List Token) : Nat → Nat → List Fault → Prop
  | none {near far : Nat} (h : near ≤ far) : Ascending eof tokens near far []
  | found {near offset far : Nat} {fault : Fault} {faults : List Fault} (ahead : near ≤ offset)
    (here : fault.token = tokenAhead eof tokens offset)
    (rest : Ascending eof tokens offset far faults) :
    Ascending eof tokens near far (fault :: faults)

section

variable {eof : Token} {stage : Stage} {debt moves near far : Nat} {tokens : List Token}
  {faults faults' : List Fault} {before after : List (Option Token)}

theorem Ascending.of_le {nearer : Nat} (h : nearer ≤ near)
    (ascending : Ascending eof tokens near far faults) :
    Ascending eof tokens nearer far faults := by
  cases ascending with
  | none h' => exact .none (h.trans h')
  | found ahead here rest => exact .found (h.trans ahead) here rest

/-- Faults found up to an offset, and others from there on. -/
theorem Ascending.append {middle : Nat} (first : Ascending eof tokens near middle faults)
    (second : Ascending eof tokens middle far faults') :
    Ascending eof tokens near far (faults ++ faults') := by
  induction first with
  | none h => exact second.of_le h
  | found ahead here rest ih => exact .found ahead here (ih second)

/-- What is found behind some moves is found as much further ahead before them. -/
theorem Ascending.of_drop (skipped : Nat)
    (h : Ascending eof (tokens.drop skipped) near far faults) :
    Ascending eof tokens (skipped + near) (skipped + far) faults := by
  induction h with
  | none h => exact .none (Nat.add_le_add_left h skipped)
  | found ahead here rest ih =>
    apply Ascending.found (Nat.add_le_add_left ahead skipped) _ ih
    rw [here, tokenAhead, tokenAhead, List.drop_drop]

/-- No run looks back, nor ahead of the token behind the one at which it ends. -/
theorem Trace.ascending (h : Trace eof stage debt tokens moves faults before after) :
    Ascending eof tokens stage.offset (moves + 1) faults := by
  induction h with
  | idle => exact .none (Nat.le_refl 1)
  | ended => exact .none (Nat.le_add_left 1 _)
  | andThen first second ih ih' =>
    -- the first run looks as far as the token at which the second one starts to look
    exact ih.append (ih'.of_drop _)
  | @move debt moves token tokens faults before after rest ih =>
    have ahead : Ascending eof (List.drop 1 (token :: tokens)) 0 (moves + 1) faults := ih
    exact ahead.of_drop 1
  | keep legal rest ih => exact ih.of_le (Nat.zero_le 1)
  | pass unkept rest ih => exact ih.of_le (Nat.zero_le 1)
  | missing other =>
    apply Ascending.found (Nat.le_refl 1) _ (.none (Nat.le_refl 1))
    rw [Fault.token, tokenAhead, upcomingOf, List.drop_one]
  | refused justified here => exact .found (Nat.le_refl 0) here (.none (Nat.zero_le 1))
  | skip keyword count rest ih =>
    have further := ih.append (.none (Nat.add_le_add_right (Nat.le_add_right _ count) 1))
    rwa [List.append_nil] at further
  | behind earlier rest ih => exact ih
  | collapse gap rest ih => exact ih
  | unbound keyword rest ih => exact ih

/-- What a fault says of its token is so. -/
theorem Trace.justified (h : Trace eof stage debt tokens moves faults before after) :
    ∀ fault ∈ faults, fault.Justified := by
  induction h with
  | idle => simp
  | ended => simp
  | andThen first second ih ih' => exact List.forall_mem_append.mpr ⟨ih, ih'⟩
  | missing other => exact List.forall_mem_singleton.mpr (.unexpected other)
  | refused justified here => exact List.forall_mem_singleton.mpr justified
  | move rest ih => exact ih
  | keep legal rest ih => exact ih
  | pass unkept rest ih => exact ih
  | behind earlier rest ih => exact ih
  | collapse gap rest ih => exact ih
  | unbound keyword rest ih => exact ih
  | skip keyword count rest ih => exact ih

theorem Ascending.exists_tokenAhead (h : Ascending eof tokens near far faults) :
    ∀ fault ∈ faults, ∃ offset, near ≤ offset ∧ fault.token = tokenAhead eof tokens offset := by
  induction h with
  | none h => exact List.forall_mem_nil _
  | @found near offset far fault faults ahead here rest ih =>
    intro other member
    rcases List.mem_cons.mp member with rfl | member
    · exact ⟨offset, ahead, here⟩
    · obtain ⟨further, later, there⟩ := ih other member
      exact ⟨further, ahead.trans later, there⟩

/-- Faults stand in any order in which the tokens ahead do. -/
theorem Ascending.pairwise {R : Token → Token → Prop}
    (h : Ascending eof tokens near far faults) (ordered : ∀ offset further, offset ≤ further →
      R (tokenAhead eof tokens offset) (tokenAhead eof tokens further)) :
    faults.Pairwise fun first second => R first.token second.token := by
  induction h with
  | none h => exact .nil
  | @found near offset far fault faults ahead here rest ih =>
    refine List.pairwise_cons.mpr ⟨fun other member => ?_, ih⟩
    obtain ⟨further, later, there⟩ := rest.exists_tokenAhead other member
    rw [here, there]
    exact ordered offset further later

theorem tokenAhead_mem (eof : Token) (tokens : List Token) (offset : Nat) :
    tokenAhead eof tokens offset ∈ tokens ++ [eof] := by
  unfold tokenAhead
  cases h : tokens.drop offset with
  | nil => exact List.mem_append_right _ List.mem_cons_self
  | cons token rest =>
    have member : token ∈ tokens.drop offset := h ▸ List.mem_cons_self
    exact List.mem_append_left _ (List.mem_of_mem_drop member)

end

namespace Lexer

theorem notBehind_self (lexer : Lexer) : ∀ token ∈ lexer.tokens ++ [lexer.eof],
    Location.NotBehind token.location token.location := by
  intro token member
  obtain ⟨here, known, -⟩ := lexer.le_location token member
  exact ⟨here, known, here, known, le_refl _⟩

/-- Further ahead there stands the same token or a later one. -/
theorem notBehind_tokenAhead (lexer : Lexer) {offset further : Nat} (h : offset ≤ further) :
    Location.NotBehind (tokenAhead lexer.eof lexer.tokens offset).location
      (tokenAhead lexer.eof lexer.tokens further).location := by
  have here := lexer.notBehind_self _ (tokenAhead_mem lexer.eof lexer.tokens offset)
  have later := lexer.pairwise_before.sublist
    ((List.drop_sublist offset lexer.tokens).append_right [lexer.eof])
  obtain ⟨between, rfl⟩ := Nat.exists_eq_add_of_le h
  unfold tokenAhead at *
  rw [← List.drop_drop]
  cases rest : lexer.tokens.drop offset with
  | nil =>
    rw [rest] at here
    rwa [List.drop_nil]
  | cons token rest' =>
    rw [rest] at here later
    cases between with
    | zero => exact here
    | succ between =>
      have ahead := (List.pairwise_cons.mp later).1 _ (tokenAhead_mem lexer.eof rest' between)
      exact ahead.notBehind

end Lexer

/-- What is reported are faults of tokens of the text. -/
theorem exists_fault_of_mem_parse {text file : String} {diagnostic : Diagnostic}
    (h : diagnostic ∈ (parse text file).log.entries) :
    ∃ fault : Fault, fault.Justified ∧ fault.token ∈ tokenize text file ∧
      diagnostic.message = fault.message ∧ diagnostic.location = fault.token.location := by
  obtain ⟨moves, faults, reported, -, trace⟩ := parse_trace text file
  rw [reported] at h
  obtain ⟨fault, found, rfl⟩ := List.mem_map.mp h
  obtain ⟨offset, -, here⟩ := trace.ascending.exists_tokenAhead fault found
  have member : fault.token ∈ tokenize text file := by
    rw [here]
    exact tokenAhead_mem _ _ offset
  exact ⟨fault, trace.justified fault found, member, rfl, rfl⟩

theorem pairwise_notBehind_parse (text file : String) :
    (parse text file).log.entries.Pairwise fun first second =>
      Location.NotBehind first.location second.location := by
  obtain ⟨moves, faults, reported, -, trace⟩ := parse_trace text file
  rw [reported, List.pairwise_map]
  apply trace.ascending.pairwise (R := fun first second =>
    Location.NotBehind first.location second.location)
  intro offset further
  exact (Lexer.ofText text file).notBehind_tokenAhead

theorem notBehind_self_of_mem_parse {text file : String} {diagnostic : Diagnostic}
    (h : diagnostic ∈ (parse text file).log.entries) :
    Location.NotBehind diagnostic.location diagnostic.location := by
  obtain ⟨fault, -, member, -, place⟩ := exists_fault_of_mem_parse h
  rw [place]
  exact (Lexer.ofText text file).notBehind_self fault.token member

theorem errors_parse (text file : String) :
    (parse text file).log.errors = (parse text file).log.entries :=
  List.filter_eq_self.mpr fun _ member => isError_of_mem_parse member

theorem parseStrict_eq_error_iff {text file : String} {error : ParseError} :
    parseStrict text file = .error error ↔
      (parse text file).log.entries ≠ [] ∧ error = ⟨file, (parse text file).log⟩ := by
  rw [← hasErrors_parse_iff, parseStrict]
  by_cases errors : (parse text file).log.hasErrors
  · simp [errors, eq_comm]
  · simp [errors]

/-- The place of the first diagnostic is that of the refusal, and no other stands before it. -/
theorem location_parseError {text file : String} (some : (parse text file).log.entries ≠ []) :
    ∃ first ∈ (parse text file).log.entries,
      (⟨file, (parse text file).log⟩ : ParseError).location = first.location ∧
      ∀ diagnostic ∈ (parse text file).log.entries,
        Location.NotBehind first.location diagnostic.location := by
  have ordered := pairwise_notBehind_parse text file
  obtain ⟨first, others, entries⟩ := List.exists_cons_of_ne_nil some
  have member : first ∈ (parse text file).log.entries := entries ▸ List.mem_cons_self
  refine ⟨first, member, ?_, fun diagnostic reported => ?_⟩
  · rw [ParseError.location, ParseError.errors, errors_parse, entries, List.head?_cons,
      Option.bind_some]
  · rw [entries] at ordered reported
    rcases List.mem_cons.mp reported with rfl | other
    · exact notBehind_self_of_mem_parse member
    · exact (List.pairwise_cons.mp ordered).1 diagnostic other

/-- Each diagnostic is an error at a token of the text, with a fault that this token has; and they
come in the order of their places. A strict reading is refused exactly when there is one, with all
of them, at the earliest of their places. -/
theorem parse_diagnostics (text file : String) :
    (∀ diagnostic ∈ (parse text file).log.entries, diagnostic.isError ∧
      ∃ fault : Fault, fault.Justified ∧ fault.token ∈ tokenize text file ∧
        diagnostic.message = fault.message ∧ diagnostic.location = fault.token.location) ∧
    ((parse text file).log.entries.Pairwise fun first second =>
      Location.NotBehind first.location second.location) ∧
    ((∃ error, parseStrict text file = .error error) ↔ (parse text file).log.entries ≠ []) ∧
    ∀ error, parseStrict text file = .error error →
      error.errors = (parse text file).log.entries ∧
      ∃ first ∈ (parse text file).log.entries, error.location = first.location ∧
        ∀ diagnostic ∈ (parse text file).log.entries,
          Location.NotBehind first.location diagnostic.location := by
  refine ⟨?_, pairwise_notBehind_parse text file, ?_, ?_⟩
  · intro diagnostic member
    exact ⟨isError_of_mem_parse member, exists_fault_of_mem_parse member⟩
  · constructor
    · rintro ⟨error, refused⟩
      exact (parseStrict_eq_error_iff.mp refused).1
    · intro some
      exact ⟨_, parseStrict_eq_error_iff.mpr ⟨some, rfl⟩⟩
  · intro error refused
    obtain ⟨some, rfl⟩ := parseStrict_eq_error_iff.mp refused
    exact ⟨errors_parse text file, location_parseError some⟩

/-- The number at the end of the first line is found before what is missing on the second line,
though that stands at an earlier column. -/
theorem parse_diagnostics_twoLines : ∃ error, parseStrict "let 5\n(" = .error error ∧
    error.errors.length = 3 ∧ error.errors.all Diagnostic.isError ∧
    ∀ diagnostic ∈ error.errors, Location.NotBehind error.location diagnostic.location := by
  obtain ⟨each, -, refusal, all⟩ := parse_diagnostics "let 5\n(" Lexer.unnamed
  have count : (parse "let 5\n(").log.entries.length = 3 := by decide +kernel
  obtain ⟨error, refused⟩ := refusal.mpr (List.ne_nil_of_length_pos (by omega))
  obtain ⟨errors, first, -, place, earliest⟩ := all error refused
  refine ⟨error, refused, ?_⟩
  rw [errors, place]
  exact ⟨count, List.all_eq_true.mpr fun diagnostic member => (each diagnostic member).1, earliest⟩

end MonkeyLang
