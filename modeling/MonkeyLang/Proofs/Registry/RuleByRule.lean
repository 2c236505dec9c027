import MonkeyLang.Proofs.Registry.Allowance
import MonkeyLang.Registry.Validator

/-!
# Going by the rules

The validator that goes through the rules of a schema finds a violation just when the schema does
not hold. This is so for each kind of rule if it is so for the rules inside, with one exception: the
search for duplicates by neighbours in order can miss some that differ in a truth value and a
number. Where only texts are let through besides, as for roles, it misses none.
-/
namespace MonkeyLang

namespace Schema

/-- A schema of which violations are found in a value just when it does not hold for it. -/
def Faithful (schema : Schema) : Prop :=
  ∀ value, schema.violations value = [] ↔ schema.Holds value

theorem ensure_eq_nil {allowed : Bool} {breach : Breach} :
    ensure allowed breach = [] ↔ allowed = true := by
  cases allowed <;> simp [ensure]

/-- A list of rules is violated when one of them is. -/
theorem violations_all {schemas : List Schema} {value : Value} :
    (all schemas).violations value = [] ↔ ∀ schema ∈ schemas, schema.violations value = [] := by
  induction schemas with
  | nil => exact iff_of_true rfl (by simp)
  | cons schema schemas ih =>
    rw [List.forall_mem_cons, ← ih]
    exact List.append_eq_nil_iff

theorem Faithful.all {schemas : List Schema} (each : ∀ schema ∈ schemas, schema.Faithful) :
    (all schemas).Faithful := fun value => by
  rw [violations_all, holds_all]
  exact forall₂_congr fun schema listed => each schema listed value

/-! ## Rules about whole values -/

theorem faithful_type (expected : ValueType) : (type expected).Faithful := fun _ => ensure_eq_nil

theorem faithful_oneOf (choices : List Value) : (oneOf choices).Faithful := fun _ =>
  ensure_eq_nil.trans List.any_eq_true

theorem faithful_minLength (least : Nat) : (minLength least).Faithful := fun value => by
  cases value with
  | string text => exact ensure_eq_nil.trans (decide_eq_true_iff.trans holds_minLength.symm)
  | _ => exact iff_of_true rfl fun _ same => nomatch same

theorem faithful_matching (pattern : Pattern) : (matching pattern).Faithful := fun value => by
  cases value with
  | string text => exact ensure_eq_nil.trans holds_matching.symm
  | _ => exact iff_of_true rfl fun _ same => nomatch same

theorem faithful_minItems (least : Nat) : (minItems least).Faithful := fun value => by
  cases value with
  | array items => exact ensure_eq_nil.trans (decide_eq_true_iff.trans holds_minItems.symm)
  | _ => exact iff_of_true rfl fun _ same => nomatch same

theorem faithful_minFields (least : Nat) : (minFields least).Faithful := fun value => by
  cases value with
  | object fields => exact ensure_eq_nil.trans (decide_eq_true_iff.trans holds_minFields.symm)
  | _ => exact iff_of_true rfl fun _ same => nomatch same

theorem faithful_required (names : List String) : (required names).Faithful := fun value => by
  cases value with
  | object fields =>
    rw [holds_required, violations]
    simp only [List.map_eq_nil_iff, List.filter_eq_nil_iff, Option.isNone_iff_eq_none,
      ← Option.ne_none_iff_exists', ne_eq]
  | _ => exact iff_of_true rfl fun _ same => nomatch same

theorem faithful_onlyFields (names : List String) : (onlyFields names).Faithful := fun value => by
  cases value with
  | object fields =>
    refine ensure_eq_nil.trans (Iff.trans ?_ holds_onlyFields.symm)
    simp only [List.isEmpty_iff, List.filter_eq_nil_iff, Bool.not_eq_true', Bool.not_eq_false,
      List.contains_iff_mem]
  | _ => exact iff_of_true rfl fun _ same => nomatch same

/-- Texts that are unique are found to be so. -/
theorem violations_uniqueItems_string {texts : List String} :
    uniqueItems.violations (.array (texts.map .string)) = []
      ↔ uniqueItems.Holds (.array (texts.map .string)) := by
  rw [holds_uniqueItems_string]
  refine ensure_eq_nil.trans ?_
  rw [Bool.not_eq_true', ← Bool.not_eq_true, Value.hasDuplicates_string, Decidable.not_not]

/-! ## Rules about the parts of values -/

section
variable {schema : Schema} (faithful : schema.Faithful)
include faithful

theorem Faithful.items : (items schema).Faithful := fun value => by
  cases value with
  | array values =>
    rw [holds_items, violations]
    simp only [List.flatMap_eq_nil_iff, List.map_eq_nil_iff, faithful _]
    constructor
    · intro each value found
      obtain ⟨index, bound, rfl⟩ := List.getElem_of_mem found
      exact each (values[index], index) (List.mk_mem_zipIdx_iff_getElem?.mpr (by simp [bound]))
    · exact fun each item found => each item.1 (List.fst_mem_of_mem_zipIdx found)
  | _ => exact iff_of_true rfl fun _ same => nomatch same

theorem Faithful.fieldNames : (fieldNames schema).Faithful := fun value => by
  cases value with
  | object fields =>
    rw [holds_fieldNames, violations]
    simp only [List.flatMap_eq_nil_iff, faithful _]
  | _ => exact iff_of_true rfl fun _ same => nomatch same

theorem Faithful.field (name : String) : (field name schema).Faithful := fun value => by
  cases value with
  | object fields =>
    rw [holds_field, violations]
    simp only [List.flatMap_eq_nil_iff, List.map_eq_nil_iff, Option.mem_toList, faithful _]
  | _ => exact iff_of_true rfl fun _ same => nomatch same

theorem Faithful.otherFields (names : List String) : (otherFields names schema).Faithful :=
  fun value => by
  cases value with
  | object fields =>
    rw [holds_otherFields, violations]
    simp only [List.flatMap_eq_nil_iff, List.map_eq_nil_iff, List.mem_filter, Bool.not_eq_true',
      ← Bool.not_eq_true, List.contains_iff_mem, faithful _, and_imp]
  | _ => exact iff_of_true rfl fun _ same => nomatch same

end

end Schema

namespace Registry

open Schema

/-- Roles are texts, so the rule against duplicates among them misses none. -/
theorem faithful_roles (choices : List String) :
    (Schema.all [.type .array, .items (.all [.oneOf (choices.map .string)]), .uniqueItems,
      .minItems 1]).Faithful := fun value => by
  have items : (Schema.items (.all [.oneOf (choices.map .string)])).Faithful :=
    Faithful.items (Faithful.all (by simpa using faithful_oneOf _))
  rw [violations_all, holds_all]
  simp only [List.forall_mem_cons, faithful_type _ value, items value, faithful_minItems _ value]
  refine and_congr_right fun typed => and_congr_right fun each => and_congr ?_ (by simp)
  obtain ⟨values, rfl⟩ := holds_type_array.mp typed
  simp only [holds_items, holds_singleton, holds_oneOf_string] at each
  obtain ⟨texts, -, rfl⟩ := exists_parts each
  exact violations_uniqueItems_string

theorem faithful_entrySchema : entrySchema.Faithful := by
  refine Faithful.all ?_
  simp only [List.forall_mem_cons]
  refine ⟨faithful_type _, faithful_required _, faithful_onlyFields _, .field (.all ?_) _,
    .field (.all ?_) _, .field (.all ?_) _, .field (faithful_roles ["prefix", "infix"]) _, by simp⟩
  · simpa using faithful_oneOf _
  · simpa using ⟨faithful_type _, faithful_minLength _⟩
  · simpa using faithful_oneOf _

/-- The violations of the schema of registries are found. -/
theorem faithful_schema : schema.Faithful := by
  refine Faithful.all ?_
  simp only [List.forall_mem_cons]
  refine ⟨faithful_type _, faithful_required _, faithful_onlyFields _, .field (.all ?_) _,
    .field (.all ?_) _, by simp⟩
  · simpa using ⟨faithful_type _, faithful_matching _⟩
  · simp only [List.forall_mem_cons]
    exact ⟨faithful_type _, faithful_minFields _,
      .fieldNames (.all (by simpa using faithful_matching _)),
      .otherFields faithful_entrySchema _, by simp⟩

end Registry

/-! ## Verdicts -/

namespace Violation

theorem closest_cons (violation other : Violation) (others : List Violation) :
    violation.closest (other :: others) =
      (if other.path.length < violation.path.length then other else violation).closest others :=
  rfl

theorem closest_mem (violation : Violation) (others : List Violation) :
    violation.closest others ∈ violation :: others := by
  induction others generalizing violation with
  | nil => exact .head _
  | cons other others ih =>
    rw [closest_cons]
    split
    · exact .tail _ (ih other)
    · rcases List.mem_cons.mp (ih violation) with same | later
      · exact List.mem_cons.mpr (.inl same)
      · exact .tail _ (.tail _ later)

/-- No violation is closer to the whole value than the closest one. -/
theorem length_closest_le (violation : Violation) (others : List Violation) :
    ∀ other ∈ violation :: others,
      (violation.closest others).path.length ≤ other.path.length := by
  induction others generalizing violation with
  | nil => simp [closest]
  | cons next others ih =>
    rw [closest_cons]
    split
    · rename_i closer
      obtain ⟨first, rest⟩ := List.forall_mem_cons.mp (ih next)
      simp only [List.forall_mem_cons]
      exact ⟨Nat.le_trans first (Nat.le_of_lt closer), first, rest⟩
    · rename_i farther
      obtain ⟨first, rest⟩ := List.forall_mem_cons.mp (ih violation)
      simp only [List.forall_mem_cons]
      exact ⟨first, Nat.le_trans first (Nat.le_of_not_lt farther), rest⟩

end Violation

namespace Registry

namespace Validator

theorem verdict_eq_valid {violations : List Violation} :
    verdict violations = .valid ↔ violations = [] := by
  cases violations with
  | nil => exact iff_of_true rfl rfl
  | cons violation others =>
    rw [verdict]
    split <;> simp

/-- To go by the rules of a schema is to go by what it means, if their violations are found. -/
theorem byRules_implements_of_faithful {given : Value}
    (faithful : ∀ rules, Schema.ofValue given = .ok rules → rules.Faithful) :
    byRules.Implements given := fun rules isRead document => by
  rw [byRules, isRead, ← faithful rules isRead]
  exact verdict_eq_valid

theorem byRules_implements : byRules.Implements schemaDocument :=
  byRules_implements_of_faithful fun rules isRead => by
    obtain rfl := Except.ok.inj (ofValue_schemaDocument.symm.trans isRead)
    exact faithful_schema

/-- The validator reports a violation that the document has, and none is closer to the whole of
it. -/
theorem exists_violation_of_verdict {violations : List Violation} {message : String}
    {path : List PathStep} (invalid : verdict violations = .invalid message path) :
    ∃ violation ∈ violations, violation.breach.message? = some message ∧ violation.path = path ∧
      ∀ other ∈ violations, path.length ≤ other.path.length := by
  cases violations with
  | nil => exact nomatch invalid
  | cons violation others =>
    simp only [verdict] at invalid
    split at invalid
    · rename_i words said
      obtain ⟨rfl, rfl⟩ := Validation.invalid.inj invalid
      exact ⟨_, violation.closest_mem others, said, rfl, violation.length_closest_le others⟩
    · exact nomatch invalid

theorem exists_words {violations : List Violation}
    (words : ∀ violation ∈ violations, ∃ message, violation.breach.message? = some message) :
    ∃ messages, violations.mapM (·.breach.message?) = some messages := by
  induction violations with
  | nil => exact ⟨[], rfl⟩
  | cons violation others ih =>
    obtain ⟨⟨message, own⟩, rest⟩ := List.forall_mem_cons.mp words
    obtain ⟨messages, said⟩ := ih rest
    exact ⟨message :: messages, by rw [List.mapM_cons, own, said]; rfl⟩

/-- The validator comes to a verdict on each document of which it can put the violations into
words. -/
theorem byRules_decides {document : Value}
    (words : ∀ violation ∈ schema.violations document, ∃ message,
      violation.breach.message? = some message) :
    byRules.Decides schemaDocument document := by
  have judged : byRules schemaDocument document = verdict (schema.violations document) := by
    rw [byRules, ofValue_schemaDocument]
  rw [Decides, judged]
  cases found : schema.violations document with
  | nil => exact .inl rfl
  | cons violation others =>
    rw [found] at words
    obtain ⟨messages, said⟩ := exists_words words
    obtain ⟨message, closest⟩ := words _ (violation.closest_mem others)
    exact .inr ⟨message, (violation.closest others).path, by simp only [verdict, said, closest]⟩

end Validator

end Registry

end MonkeyLang
