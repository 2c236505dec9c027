import MonkeyLang.Proofs.Lexing.Ascent
import MonkeyLang.Proofs.Syntax.TracedParsing

/-!
# The use of tokens

A run adds to a tree only tokens of the part of the text that it takes, in their order, whatever it
drops on the way. A run that reports nothing and returns nothing takes each token of that part into
the tree, or passes over it because its kind says no more than the tree does.
-/
namespace MonkeyLang

/-- The tokens that a run from a stage takes in a number of moves. The current token is among them
unless it has been taken before. -/
def Stage.window : Stage → Nat → List Token → List Token
  | fresh, moves, tokens => tokens.take (moves + 1)
  | spent, moves, tokens => tokens.tail.take moves

section

variable {eof : Token} {stage : Stage} {debt moves : Nat} {tokens : List Token}
  {faults : List Fault} {before after : List (Option Token)}

/-- What a run takes, and then what another takes from where the first has ended. -/
theorem Stage.window_add (stage : Stage) (moves moves' : Nat) (tokens : List Token) :
    stage.window (moves + moves') tokens =
      stage.window moves tokens ++ spent.window moves' (tokens.drop moves) := by
  cases stage with
  | fresh =>
    show tokens.take (moves + moves' + 1) = _
    rw [Nat.add_right_comm, List.take_add, window, window, List.tail_drop]
  | spent =>
    show tokens.tail.take (moves + moves') = _
    rw [List.take_add, List.drop_tail, window, window, List.tail_drop]

theorem Stage.window_nil (stage : Stage) (moves : Nat) : stage.window moves [] = [] := by
  cases stage <;> exact List.take_nil

theorem Stage.window_fresh_cons (token : Token) :
    fresh.window moves (token :: tokens) = token :: spent.window moves (token :: tokens) := rfl

theorem Stage.window_spent_cons (token : Token) :
    spent.window (1 + moves) (token :: tokens) = fresh.window moves tokens := by
  rw [Nat.add_comm]
  rfl

/-- The tokens of the gathered slots are those gathered before and some that the run takes. -/
theorem Trace.reduceOption_sublist (h : Trace eof stage debt tokens moves faults before after) :
    after.reduceOption.Sublist (before.reduceOption ++ stage.window moves tokens) := by
  induction h with
  | idle => simp
  | ended => simp
  | andThen first second ih ih' =>
    rw [Stage.window_add, ← List.append_assoc]
    exact ih'.trans (ih.append_right _)
  | move rest ih => rwa [Stage.window_spent_cons]
  | keep legal rest ih =>
    rw [List.reduceOption_append, List.append_assoc] at ih
    exact ih
  | @pass debt moves tokens faults before after unkept rest ih =>
    cases tokens with
    | nil => rwa [Stage.window_nil] at ih ⊢
    | cons token tokens =>
      rw [Stage.window_fresh_cons]
      exact ih.trans ((List.sublist_cons_self token _).append_left _)
  | behind earlier rest ih =>
    rw [List.reduceOption_append, List.reduceOption_append, List.append_assoc]
    exact ih.append_left _
  | missing other => exact List.nil_sublist _
  | refused justified here => exact List.nil_sublist _
  | collapse gap rest ih => exact List.nil_sublist _
  | unbound keyword rest ih => exact List.nil_sublist _
  | skip keyword count rest ih =>
    rw [Stage.window_add, ← List.append_assoc]
    exact ih.trans (List.sublist_append_left _ _)

/-- A token stands in some slot and is legal, or may be passed over. -/
def Accounted (slots : List (Option Token)) (token : Token) : Prop :=
  (some token ∈ slots ∧ token.kind ≠ .illegal) ∨ token.kind ∈ Kind.unkept

theorem Accounted.mono {slots more : List (Option Token)} {token : Token} (h : slots ⊆ more)
    (accounted : Accounted slots token) : Accounted more token :=
  accounted.imp_left fun kept => ⟨h kept.1, kept.2⟩

theorem Accounted.legal {slots : List (Option Token)} {token : Token}
    (h : Accounted slots token) : token.kind ≠ .illegal := by
  rcases h with kept | unkept
  · exact kept.2
  · intro illegal
    rw [illegal] at unkept
    exact absurd unkept (by decide)

/-- A run without faults that does not start among gaps and skips nothing behind a returned value
leaves no gap. It gathers each token that it takes, or passes over it. -/
theorem Trace.accounted (h : Trace eof stage debt tokens moves faults before after)
    (clean : faults = []) (unreturning : ∀ token ∈ tokens, token.kind ≠ .kwReturn)
    (gapless : none ∉ before) :
    none ∉ after ∧ before ⊆ after ∧ ∀ token ∈ stage.window moves tokens, Accounted after token := by
  induction h with
  | idle => exact ⟨gapless, List.Subset.refl _, by simp [Stage.window]⟩
  | ended => exact ⟨gapless, List.Subset.refl _, by simp [Stage.window]⟩
  | andThen first second ih ih' =>
    obtain ⟨clean, clean'⟩ := List.append_eq_nil_iff.mp clean
    obtain ⟨between, grown, taken⟩ := ih clean unreturning gapless
    obtain ⟨after, grown', taken'⟩ :=
      ih' clean' (fun token ht => unreturning token (List.mem_of_mem_drop ht)) between
    refine ⟨after, List.Subset.trans grown grown', ?_⟩
    rw [Stage.window_add]
    intro token ht
    rcases List.mem_append.mp ht with ht | ht
    · exact (taken token ht).mono grown'
    · exact taken' token ht
  | move rest ih =>
    rw [Stage.window_spent_cons]
    exact ih clean (fun token ht => unreturning token (List.mem_cons_of_mem _ ht)) gapless
  | @keep debt moves token tokens faults before after legal rest ih =>
    obtain ⟨gapless', grown, taken⟩ := ih clean unreturning (by simp [gapless])
    obtain ⟨start, kept⟩ := List.append_subset.mp grown
    refine ⟨gapless', start, ?_⟩
    rw [Stage.window_fresh_cons]
    exact List.forall_mem_cons.mpr ⟨.inl ⟨kept List.mem_cons_self, legal⟩, taken⟩
  | @pass debt moves tokens faults before after unkept rest ih =>
    obtain ⟨gapless', grown, taken⟩ := ih clean unreturning gapless
    refine ⟨gapless', grown, ?_⟩
    cases tokens with
    | nil => rwa [Stage.window_nil] at taken ⊢
    | cons token tokens =>
      rw [Stage.window_fresh_cons]
      exact List.forall_mem_cons.mpr ⟨.inr unkept, taken⟩
  | behind earlier rest ih =>
    rw [List.mem_append, not_or] at gapless
    obtain ⟨gapless', grown, taken⟩ := ih clean unreturning gapless.2
    refine ⟨by simp [gapless.1, gapless'], ?_, fun token ht => ?_⟩
    · exact List.append_subset.mpr
        ⟨List.subset_append_left .., List.subset_append_of_subset_right earlier grown⟩
    · exact (taken token ht).mono (List.subset_append_right ..)
  | missing other => exact absurd clean (List.cons_ne_nil _ _)
  | refused justified here => exact absurd clean (List.cons_ne_nil _ _)
  | collapse gap rest ih =>
    -- only a gap lets a run drop what it has gathered, and without faults there is none
    exact absurd gap (ih clean unreturning gapless).1
  | unbound keyword rest ih =>
    exact absurd List.mem_cons_self (ih clean unreturning gapless).1
  | skip keyword count rest ih => exact absurd keyword (unreturning _ List.mem_cons_self)

end

/-- The tokens of a tree are some of the tokens of the text, in the same order; no token occurs
twice in a text. Where nothing was reported and nothing is returned, every token is legal, and one
that the tree lacks is of a kind that may be passed over. -/
theorem sourceTokens_parse (text file : String) :
    (tokenize text file).Nodup ∧
    (parse text file).tree.sourceTokens.Sublist (tokenize text file) ∧
    ((parse text file).log.entries = [] →
      (∀ token ∈ tokenize text file, token.kind ≠ .kwReturn) →
      ∀ token ∈ tokenize text file, token.kind ≠ .illegal ∧
        (token ∉ (parse text file).tree.sourceTokens → token.kind ∈ Kind.unkept)) := by
  obtain ⟨moves, faults, reported, reached, trace⟩ := parse_trace text file
  have window : Stage.fresh.window moves (Lexer.ofText text file).tokens =
      (Lexer.ofText text file).tokens := List.take_of_length_le (by omega)
  refine ⟨nodup_tokenize text file, ?_, ?_⟩
  · have kept := trace.reduceOption_sublist
    rw [window] at kept
    exact kept.trans (List.sublist_append_left _ _)
  · intro clean unreturning
    rw [reported, List.map_eq_nil_iff] at clean
    obtain ⟨-, -, accounted⟩ := trace.accounted clean
      (fun token ht => unreturning token (List.mem_append_left _ ht)) List.not_mem_nil
    rw [window] at accounted
    have all : ∀ token ∈ tokenize text file, Accounted (parse text file).tree.slots token := by
      intro token ht
      rcases List.mem_append.mp ht with ht | ht
      · exact accounted token ht
      · obtain rfl := List.mem_singleton.mp ht
        exact .inr (by rw [Lexer.kind_eof]; decide)
    intro token ht
    refine ⟨(all token ht).legal, fun missing => ?_⟩
    rcases all token ht with kept | unkept
    · exact absurd (List.reduceOption_mem_iff.mpr kept.1) missing
    · exact unkept

/-- A grouping loses both parentheses, a list and a call what closes them. -/
theorem sourceTokens_parse_grouping :
    (parse "(a + b) * f([c]);").tree.sourceTokens.length = 8 ∧
    (tokenize "(a + b) * f([c]);").length = 14 ∧
    ∀ token ∈ tokenize "(a + b) * f([c]);", token.kind ≠ .illegal ∧
      (token ∉ (parse "(a + b) * f([c]);").tree.sourceTokens → token.kind ∈ Kind.unkept) := by
  have kept : (parse "(a + b) * f([c]);").tree.sourceTokens.length = 8 := by decide +kernel
  have all : (tokenize "(a + b) * f([c]);").length = 14 := by decide +kernel
  have clean : (parse "(a + b) * f([c]);").log.entries = [] := by decide +kernel
  have unreturning : ∀ token ∈ tokenize "(a + b) * f([c]);", token.kind ≠ .kwReturn := by
    decide +kernel
  exact ⟨kept, all, (sourceTokens_parse _ Lexer.unnamed).2.2 clean unreturning⟩

end MonkeyLang
