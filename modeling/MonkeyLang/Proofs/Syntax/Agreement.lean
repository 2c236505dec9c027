import MonkeyLang.Proofs.Syntax.Congruence
import Mathlib.Data.List.Basic
import Mathlib.Tactic.SplitIfs

/-!
# Agreement under a condition

Two parsers agree under a condition on the tokens and the faults of a run if the second one does the
same as the first wherever the first one meets it. A condition that a run passes on to its parts
gives a congruence. A move may change the condition: then the rules for expressions agree under the
one if the inner expressions do under the other.
-/
namespace MonkeyLang

namespace Parser

variable {α β : Type} {eof : Token} {when behind : List Token → List Fault → Prop} {p q : Parser α}

/-- Wherever a run of the first parser meets the condition, the second one does the same. -/
def AgreesWhen (eof : Token) (when : List Token → List Fault → Prop) (p q : Parser α) : Prop :=
  ∀ tokens, when tokens (p.run eof tokens).faults → q.run eof tokens = p.run eof tokens

/-- What a run meets, its beginning meets, and so does what goes on at a later place. -/
def Divides (when : List Token → List Fault → Prop) : Prop :=
  ∀ tokens rest before after, rest <:+ tokens → when tokens (before ++ after) →
    when tokens before ∧ when rest after

theorem Divides.later (divides : Divides when) {tokens rest : List Token} {faults : List Fault}
    (suffix : rest <:+ tokens) (met : when tokens faults) : when rest faults :=
  (divides tokens rest [] faults suffix met).2

theorem agreesWhen_refl (p : Parser α) : AgreesWhen eof when p p := fun _ _ => rfl

theorem agreesWhen_bind {f g : α → Parser β} (divides : Divides when)
    (first : AgreesWhen eof when p q) (second : ∀ value, AgreesWhen eof when (f value) (g value)) :
    AgreesWhen eof when (p >>= f) (q >>= g) := by
  intro tokens met
  obtain ⟨here, later⟩ := divides _ _ _ _ (p.rest_suffix eof tokens) met
  rw [run_bind, run_bind, first _ here, second _ _ later]

theorem agreesWhen_ite {condition : Prop} [Decidable condition] {p' q' : Parser α}
    (h : AgreesWhen eof when p q) (h' : AgreesWhen eof when p' q') :
    AgreesWhen eof when (if condition then p else p') (if condition then q else q') := by
  split
  · exact h
  · exact h'

theorem agreesWhen_manyUntil (divides : Divides when) (stop : Kind → Bool)
    (h : AgreesWhen eof when p q) : AgreesWhen eof when (manyUntil stop p) (manyUntil stop q) := by
  intro tokens met
  rw [run_manyUntil] at met ⊢
  rw [run_manyUntil]
  fun_induction manyUntilOutcome stop p eof tokens with
  | case1 => simp [manyUntilOutcome]
  | case2 token tokens stopped => simp [manyUntilOutcome, stopped]
  | case3 token tokens running first others ih =>
    have suffix : first.rest.tail <:+ token :: tokens :=
      (List.tail_suffix _).trans (p.rest_suffix eof _)
    obtain ⟨here, later⟩ := divides _ _ _ _ suffix met
    have head : q.run eof (token :: tokens) = first := h _ here
    rw [manyUntilOutcome, if_neg running]
    simp only [head, ih later]
    rfl

theorem agreesWhen_whileNext (divides : Divides when) (test : Kind → Bool) {s t : α → Parser α}
    (h : ∀ value, AgreesWhen eof when (s value) (t value)) (value : α) :
    AgreesWhen eof when (whileNext test s value) (whileNext test t value) := by
  intro tokens met
  rw [run_whileNext] at met ⊢
  rw [run_whileNext]
  fun_induction whileNextOutcome test s eof value tokens with
  | case1 value token next tokens go first others ih =>
    have moved := divides.later (List.suffix_cons token (next :: tokens)) met
    obtain ⟨here, later⟩ := divides _ _ _ _ ((s value).rest_suffix eof (next :: tokens)) moved
    have head : (t value).run eof (next :: tokens) = first := h value _ here
    rw [whileNextOutcome, if_pos go]
    simp only [head, ih later]
    rfl
  | case2 value token next tokens stop => simp [whileNextOutcome, stop]
  | case3 value tokens short =>
    rcases tokens with _ | ⟨token, _ | ⟨next, rest⟩⟩
    · simp [whileNextOutcome]
    · simp [whileNextOutcome]
    · exact absurd rfl (short token next rest)

/-! ## Behind a move -/

section

variable (move : ∀ tokens faults, when tokens faults → behind tokens.tail faults)
include move

theorem agreesWhen_advance {f g : Unit → Parser β} (h : AgreesWhen eof behind (f ()) (g ())) :
    AgreesWhen eof when (advance >>= f) (advance >>= g) := by
  intro tokens met
  rw [run_bind, run_bind]
  exact congrArg _ (h _ (move _ _ met))

theorem agreesWhen_expect (kind : Kind) (missing : α) (h : AgreesWhen eof behind p q) :
    AgreesWhen eof when (expect kind missing p) (expect kind missing q) := by
  intro tokens met
  rw [run_expect] at met ⊢
  rw [run_expect]
  split_ifs at met ⊢ with found
  · rw [h _ (move _ _ met)]
  · rfl

theorem agreesWhen_commaList (divides : Divides when) (divides' : Divides behind) (close : Kind)
    (h : AgreesWhen eof behind p q) :
    AgreesWhen eof when (commaList close p) (commaList close q) := by
  have another (values : List α) : AgreesWhen eof behind (do advance; return (← p) :: values)
      (do advance; return (← q) :: values) :=
    agreesWhen_bind divides' (agreesWhen_refl _) fun _ =>
      agreesWhen_bind divides' h fun _ => agreesWhen_refl _
  apply agreesWhen_bind divides (agreesWhen_refl _)
  intro next
  apply agreesWhen_ite (agreesWhen_refl _) (agreesWhen_advance move _)
  apply agreesWhen_bind divides' h
  intro first
  apply agreesWhen_bind divides' (agreesWhen_whileNext divides' _ another [first])
  exact fun _ => agreesWhen_refl _

end

end Parser

namespace Grammar
open MonkeyLang.Parser

variable {eof : Token} {when behind : List Token → List Fault → Prop}

theorem congruence_agreesWhen (divides : Divides when) : Congruence (AgreesWhen eof when) where
  pure _ := agreesWhen_refl _
  bind := agreesWhen_bind divides
  current := agreesWhen_refl _
  advance := agreesWhen_refl _
  report _ := agreesWhen_refl _
  skipOptional := agreesWhen_refl _
  skipTo := agreesWhen_refl _
  expect kind missing _ _ h :=
    agreesWhen_expect (fun _ _ => divides.later (List.tail_suffix _)) kind missing h
  whetherElse h h' := agreesWhen_bind divides (agreesWhen_refl _) fun _ => agreesWhen_ite h h'
  manyUntil stop _ _ h := agreesWhen_manyUntil divides stop h
  whileNext _ _ _ value h := agreesWhen_whileNext divides _ h value
  commaList close _ _ h :=
    agreesWhen_commaList (fun _ _ => divides.later (List.tail_suffix _)) divides divides close h

theorem descent_agreesWhen (divides : Divides when) (divides' : Divides behind)
    (move : ∀ tokens faults, when tokens faults → behind tokens.tail faults) :
    Descent (AgreesWhen eof when) (AgreesWhen eof behind) where
  start := congruence_agreesWhen divides
  behind := congruence_agreesWhen divides'
  advance := agreesWhen_advance move
  expect kind missing _ _ h := agreesWhen_expect move kind missing h
  commaList close _ _ h := agreesWhen_commaList move divides divides' close h

/-- A congruence for each of many cases is one for all of them together. -/
theorem Congruence.forall {ι : Type} {R : ι → ∀ {α : Type}, Parser α → Parser α → Prop}
    (h : ∀ i, Congruence (R i)) : Congruence fun p q => ∀ i, R i p q where
  pure value i := (h i).pure value
  bind first second i := (h i).bind (first i) fun value => second value i
  current i := (h i).current
  advance i := (h i).advance
  report fault i := (h i).report fault
  skipOptional i := (h i).skipOptional
  skipTo i := (h i).skipTo
  expect kind missing _ _ found i := (h i).expect kind missing (found i)
  whetherElse here there i := (h i).whetherElse (here i) (there i)
  manyUntil stop _ _ item i := (h i).manyUntil stop (item i)
  whileNext floor _ _ value step i := (h i).whileNext floor value fun value => step value i
  commaList close _ _ item i := (h i).commaList close (item i)

end Grammar

end MonkeyLang
