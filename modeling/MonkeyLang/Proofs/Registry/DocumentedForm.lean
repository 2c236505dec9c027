import MonkeyLang.Proofs.Registry.Fitting
import MonkeyLang.Proofs.Registry.RuleByRule

/-!
# The documented form of a registry

The form of a registry in plain terms: which fields there are and what each of them may hold. The
schema gives this form as a list of rules, and each rule is silent about values of other types and
about fields that are not there. Together they leave no gap: the schema holds for exactly the
documents of the documented form, and these are what a validator lets through.
-/
namespace MonkeyLang

namespace Registry

/-- The fields of an entry as they are documented. -/
structure Entry.Documented (fields : List (String × Value)) : Prop where
  names : ∀ name ∈ fields.map Prod.fst, name ∈ ["category", "lexeme", "precedence", "roles"]
  category : ∃ text ∈ ["special", "literal", "operator", "delimiter", "keyword"],
    fields.lookup "category" = some (.string text)
  lexeme : ∀ value, fields.lookup "lexeme" = some value →
    ∃ text, text ≠ "" ∧ value = .string text
  precedence : ∀ value, fields.lookup "precedence" = some value →
    ∃ text ∈ ["EQUALS", "LESSGREATER", "SUM", "PRODUCT", "CALL"], value = .string text
  roles : ∀ value, fields.lookup "roles" = some value →
    ∃ roles : List String, roles ≠ [] ∧ roles.Nodup ∧ (∀ role ∈ roles, role ∈ ["prefix", "infix"]) ∧
      value = .array (roles.map .string)

/-- The fields of a registry as they are documented. -/
structure Documented (fields : List (String × Value)) : Prop where
  names : ∀ name, name ∈ fields.map Prod.fst ↔ name ∈ ["version", "tokens"]
  version : ∃ text, Pattern.Shows Pattern.IsVersion text ∧
    fields.lookup "version" = some (.string text)
  tokens : ∃ definitions : List Definition, definitions ≠ [] ∧
    (∀ definition ∈ definitions, Pattern.Shows Pattern.IsCapitals definition.1 ∧
      ∃ entryFields, definition.2 = .object entryFields ∧ Entry.Documented entryFields) ∧
    fields.lookup "tokens" = some (.object definitions)

theorem mem_names_of_lookup {fields : List (String × Value)} {name : String} {value : Value}
    (found : fields.lookup name = some value) : name ∈ fields.map Prod.fst := by
  obtain ⟨before, after, rfl, -⟩ := List.lookup_eq_some_iff.mp found
  simp

/-! ## Values of fields -/

theorem holds_lexeme {value : Value} :
    (Schema.all [.type .string, .minLength 1]).Holds value
      ↔ ∃ text, text ≠ "" ∧ value = .string text := by
  simp only [Schema.holds_all, List.forall_mem_cons, Schema.holds_type_string]
  constructor
  · rintro ⟨⟨text, rfl⟩, nonempty, -⟩
    exact ⟨text, Schema.holds_minLength_one.mp nonempty, rfl⟩
  · rintro ⟨text, nonempty, rfl⟩
    exact ⟨⟨text, rfl⟩, Schema.holds_minLength_one.mpr nonempty, by simp⟩

theorem holds_version {value : Value} :
    (Schema.all [.type .string, .matching .version]).Holds value
      ↔ ∃ text, Pattern.Shows Pattern.IsVersion text ∧ value = .string text := by
  simp only [Schema.holds_all, List.forall_mem_cons, Schema.holds_type_string]
  constructor
  · rintro ⟨⟨text, rfl⟩, found, -⟩
    exact ⟨text, Pattern.isIn_version_iff.mp (Schema.holds_matching.mp found), rfl⟩
  · rintro ⟨text, shows, rfl⟩
    exact ⟨⟨text, rfl⟩, Schema.holds_matching.mpr (Pattern.isIn_version_iff.mpr shows), by simp⟩

theorem holds_roles {value : Value} :
    (Schema.all [.type .array, .items (.all [.oneOf (["prefix", "infix"].map .string)]),
        .uniqueItems, .minItems 1]).Holds value
      ↔ ∃ roles : List String, roles ≠ [] ∧ roles.Nodup ∧
        (∀ role ∈ roles, role ∈ ["prefix", "infix"]) ∧ value = .array (roles.map .string) := by
  simp only [Schema.holds_all, List.forall_mem_cons, Schema.holds_type_array]
  constructor
  · rintro ⟨⟨items, rfl⟩, each, unique, nonempty, -⟩
    simp only [Schema.holds_items, Schema.holds_singleton, Schema.holds_oneOf_string] at each
    obtain ⟨roles, chosen, rfl⟩ := exists_parts each
    rw [Schema.holds_minItems_one, ne_eq, List.map_eq_nil_iff] at nonempty
    exact ⟨roles, nonempty, Schema.holds_uniqueItems_string.mp unique, chosen, rfl⟩
  · rintro ⟨roles, nonempty, unique, chosen, rfl⟩
    refine ⟨⟨_, rfl⟩, ?_, Schema.holds_uniqueItems_string.mpr unique, ?_, by simp⟩
    · simp only [Schema.holds_items, Schema.holds_singleton, Schema.holds_oneOf_string,
        List.forall_mem_map]
      exact fun role found => ⟨role, chosen role found, rfl⟩
    · rwa [Schema.holds_minItems_one, ne_eq, List.map_eq_nil_iff]

/-! ## Entries and registries -/

theorem holds_entry {fields : List (String × Value)} :
    entrySchema.Holds (.object fields) ↔ Entry.Documented fields := by
  have categories : [Value.string "special", .string "literal", .string "operator",
      .string "delimiter", .string "keyword"]
        = ["special", "literal", "operator", "delimiter", "keyword"].map .string := rfl
  have precedences : [Value.string "EQUALS", .string "LESSGREATER", .string "SUM",
      .string "PRODUCT", .string "CALL"]
        = ["EQUALS", "LESSGREATER", "SUM", "PRODUCT", "CALL"].map .string := rfl
  have roles : [Value.string "prefix", .string "infix"] = ["prefix", "infix"].map .string := rfl
  rw [entrySchema, categories, precedences, roles, Schema.holds_all]
  simp only [List.forall_mem_cons, Schema.holds_required, Schema.holds_onlyFields,
    Schema.holds_field, holds_lexeme, holds_roles, Schema.holds_singleton,
    Schema.holds_oneOf_string]
  constructor
  · rintro ⟨-, ⟨⟨value, given⟩, -⟩, names, category, lexeme, precedence, roles, -⟩
    obtain ⟨text, chosen, rfl⟩ := category value given
    exact ⟨names, ⟨text, chosen, given⟩, lexeme, precedence, roles⟩
  · rintro ⟨names, ⟨text, chosen, given⟩, lexeme, precedence, roles⟩
    refine ⟨Schema.holds_type_object.mpr ⟨_, rfl⟩, ⟨⟨_, given⟩, by simp⟩, names, ?_, lexeme,
      precedence, roles, by simp⟩
    intro value found
    exact ⟨text, chosen, Option.some.inj (found.symm.trans given)⟩

theorem holds_entry_iff {value : Value} :
    entrySchema.Holds value ↔
      ∃ fields, value = .object fields ∧ Entry.Documented fields := by
  constructor
  · intro holds
    have typed := Schema.holds_all.mp holds _ (.head _)
    obtain ⟨fields, rfl⟩ := Schema.holds_type_object.mp typed
    exact ⟨fields, rfl, holds_entry.mp holds⟩
  · rintro ⟨fields, rfl, documented⟩
    exact holds_entry.mpr documented

theorem holds_tokens {value : Value} :
    (Schema.all [.type .object, .minFields 1, .fieldNames (.all [.matching .capitals]),
        .otherFields [] entrySchema]).Holds value
      ↔ ∃ definitions : List Definition, definitions ≠ [] ∧
        (∀ definition ∈ definitions, Pattern.Shows Pattern.IsCapitals definition.1 ∧
          ∃ fields, definition.2 = .object fields ∧ Entry.Documented fields) ∧
        value = .object definitions := by
  simp only [Schema.holds_all, List.forall_mem_cons, Schema.holds_type_object]
  constructor
  · rintro ⟨⟨definitions, rfl⟩, nonempty, names, entries, -⟩
    simp only [Schema.holds_fieldNames, Schema.holds_singleton, Schema.holds_matching] at names
    rw [Schema.holds_otherFields_nil] at entries
    refine ⟨definitions, Schema.holds_minFields_one.mp nonempty, fun definition found => ?_, rfl⟩
    exact ⟨Pattern.isIn_capitals_iff.mp (names definition found),
      holds_entry_iff.mp (entries definition found)⟩
  · rintro ⟨definitions, nonempty, each, rfl⟩
    refine ⟨⟨definitions, rfl⟩, Schema.holds_minFields_one.mpr nonempty,
      Schema.holds_fieldNames.mpr fun definition found => ?_,
      Schema.holds_otherFields_nil.mpr fun definition found => ?_, by simp⟩
    · rw [Schema.holds_singleton, Schema.holds_matching]
      exact Pattern.isIn_capitals_iff.mpr (each definition found).1
    · exact holds_entry_iff.mpr (each definition found).2

theorem holds_fields {fields : List (String × Value)} :
    schema.Holds (.object fields) ↔ Documented fields := by
  rw [schema, Schema.holds_all]
  simp only [List.forall_mem_cons, Schema.holds_required, Schema.holds_onlyFields,
    Schema.holds_field, holds_version, holds_tokens]
  constructor
  · rintro ⟨-, ⟨⟨version, versionGiven⟩, ⟨tokens, tokensGiven⟩, -⟩, names, versions, listings, -⟩
    refine ⟨fun name => ⟨names name, fun known => ?_⟩, ?_, ?_⟩
    · simp only [List.mem_cons, List.not_mem_nil, or_false] at known
      rcases known with rfl | rfl
      · exact mem_names_of_lookup versionGiven
      · exact mem_names_of_lookup tokensGiven
    · obtain ⟨text, shows, rfl⟩ := versions version versionGiven
      exact ⟨text, shows, versionGiven⟩
    · obtain ⟨definitions, nonempty, each, rfl⟩ := listings tokens tokensGiven
      exact ⟨definitions, nonempty, each, tokensGiven⟩
  · rintro ⟨names, ⟨text, shows, versionGiven⟩, ⟨definitions, nonempty, each, tokensGiven⟩⟩
    refine ⟨Schema.holds_type_object.mpr ⟨_, rfl⟩, ⟨⟨_, versionGiven⟩, ⟨_, tokensGiven⟩, by simp⟩,
      fun name => (names name).mp, fun value found => ?_, fun value found => ?_, by simp⟩
    · exact ⟨text, shows, Option.some.inj (found.symm.trans versionGiven)⟩
    · exact ⟨definitions, nonempty, each, Option.some.inj (found.symm.trans tokensGiven)⟩

/-- The schema holds for the documents of the documented form. -/
theorem holds_iff_documented {document : Value} :
    schema.Holds document ↔ ∃ fields, document = .object fields ∧ Documented fields := by
  constructor
  · intro holds
    have typed := Schema.holds_all.mp holds _ (.head _)
    obtain ⟨fields, rfl⟩ := Schema.holds_type_object.mp typed
    exact ⟨fields, rfl, holds_fields.mp holds⟩
  · rintro ⟨fields, rfl, documented⟩
    exact holds_fields.mpr documented

/-! ## The lines about the form -/

/-- Nothing is said about the form of a document just when it is found valid. -/
theorem formLines_eq_nil {validate : Validator} {given document : Value} :
    formLines validate given document = .ok [] ↔ validate given document = .valid := by
  rw [formLines]
  cases validate given document <;> simp [Validation.lines]

/-- A validator finds those documents valid for which the schema holds. -/
theorem valid_iff_holds {validate : Validator} (implements : validate.Implements schemaDocument)
    {document : Value} : validate schemaDocument document = .valid ↔ schema.Holds document :=
  implements schema ofValue_schemaDocument document

/-- Nothing is said about the form of a document just when it is the documented one. -/
theorem formLines_eq_nil_iff_documented {validate : Validator}
    (implements : validate.Implements schemaDocument) (document : Value) :
    formLines validate schemaDocument document = .ok [] ↔
      ∃ fields, document = .object fields ∧ Documented fields :=
  formLines_eq_nil.trans ((valid_iff_holds implements).trans holds_iff_documented)

/-- A registry with a single entry. -/
def singleEntry (version name : String) : Value :=
  .object [("version", .string version),
    ("tokens", .object [(name, .object [("category", .string "special")])])]

/-- One newline behind a version and behind a name is let through, two are not. -/
theorem formLines_eq_nil_iff_documented_singleEntry :
    Validator.byRules.Implements schemaDocument ∧
      (∃ fields, singleEntry "1.0\n" "EOF\n" = .object fields ∧ Documented fields) ∧
      ¬ ∃ fields, singleEntry "1.0\n\n" "EOF" = .object fields ∧ Documented fields := by
  have implements := Validator.byRules_implements
  refine ⟨implements, ?_, fun documented => ?_⟩
  · exact (formLines_eq_nil_iff_documented implements _).mp
      (formLines_eq_nil.mpr (by decide +kernel))
  · have silent := (formLines_eq_nil_iff_documented implements _).mpr documented
    exact absurd (formLines_eq_nil.mp silent) (by decide +kernel)

end Registry

end MonkeyLang
