import MonkeyLang.Schema

/-!
# What schemas allow

Rule by rule, for which values a schema holds. A rule about one type of value is silent about all
others, so for the values it is about it comes down to its condition on their content.
-/
namespace MonkeyLang

/-- Items that are each built from a part of some form are the list built from such parts. -/
theorem exists_parts {α β : Type} {form : α → Prop} {build : α → β} {items : List β}
    (each : ∀ item ∈ items, ∃ part, form part ∧ item = build part) :
    ∃ parts : List α, (∀ part ∈ parts, form part) ∧ items = parts.map build := by
  induction items with
  | nil => exact ⟨[], by simp, rfl⟩
  | cons item items ih =>
    obtain ⟨⟨part, own, rfl⟩, rest⟩ := List.forall_mem_cons.mp each
    obtain ⟨parts, others, rfl⟩ := ih rest
    exact ⟨part :: parts, List.forall_mem_cons.mpr ⟨own, others⟩, rfl⟩

namespace Value

@[simp] theorem same_string {value : Value} {text : String} :
    value.same (.string text) = true ↔ value = .string text := by
  cases value <;> simp [same, magnitude?]

@[simp] theorem string_same {value : Value} {text : String} :
    (Value.string text).same value = true ↔ value = .string text := by
  rw [@eq_comm _ value]
  cases value <;> simp [same, magnitude?]

end Value

namespace Schema

theorem forall_string {form : String → Prop} {text : String} :
    (∀ other, Value.string text = .string other → form other) ↔ form text :=
  ⟨fun each => each text rfl, fun own _ same => Value.string.inj same ▸ own⟩

theorem forall_array {form : List Value → Prop} {items : List Value} :
    (∀ others, Value.array items = .array others → form others) ↔ form items :=
  ⟨fun each => each items rfl, fun own _ same => Value.array.inj same ▸ own⟩

theorem forall_object {form : List (String × Value) → Prop} {fields : List (String × Value)} :
    (∀ others, Value.object fields = .object others → form others) ↔ form fields :=
  ⟨fun each => each fields rfl, fun own _ same => Value.object.inj same ▸ own⟩

/-- A list of rules holds when each of them does. -/
theorem holds_all {schemas : List Schema} {value : Value} :
    (all schemas).Holds value ↔ ∀ schema ∈ schemas, schema.Holds value := by
  induction schemas with
  | nil => exact iff_of_true trivial (by simp)
  | cons schema schemas ih =>
    rw [List.forall_mem_cons, ← ih]
    exact Iff.rfl

/-- A list of one rule is the rule. -/
theorem holds_singleton {schema : Schema} {value : Value} :
    (all [schema]).Holds value ↔ schema.Holds value :=
  holds_all.trans List.forall_mem_singleton

theorem holds_type_string {value : Value} :
    (type .string).Holds value ↔ ∃ text, value = .string text := by
  rw [Holds]
  cases value <;> simp [ValueType.has]

theorem holds_type_array {value : Value} :
    (type .array).Holds value ↔ ∃ items, value = .array items := by
  rw [Holds]
  cases value <;> simp [ValueType.has]

theorem holds_type_object {value : Value} :
    (type .object).Holds value ↔ ∃ fields, value = .object fields := by
  rw [Holds]
  cases value <;> simp [ValueType.has]

/-- A choice of texts holds for these texts alone. -/
theorem holds_oneOf_string {choices : List String} {value : Value} :
    (oneOf (choices.map .string)).Holds value ↔ ∃ text ∈ choices, value = .string text := by
  rw [Holds]
  constructor
  · rintro ⟨choice, chosen, same⟩
    obtain ⟨text, listed, rfl⟩ := List.mem_map.mp chosen
    exact ⟨text, listed, Value.same_string.mp same⟩
  · rintro ⟨text, listed, same⟩
    exact ⟨_, List.mem_map_of_mem listed, Value.same_string.mpr same⟩

theorem holds_minLength {least : Nat} {text : String} :
    (minLength least).Holds (.string text) ↔ least ≤ text.length := forall_string

/-- The least length of one holds for the texts that are not empty. -/
theorem holds_minLength_one {text : String} :
    (minLength 1).Holds (.string text) ↔ text ≠ "" :=
  holds_minLength.trans (by rw [Nat.one_le_iff_ne_zero, ne_eq, String.length_eq_zero_iff])

theorem holds_matching {pattern : Pattern} {text : String} :
    (matching pattern).Holds (.string text) ↔ pattern.isIn text = true := forall_string

theorem holds_minItems {least : Nat} {items : List Value} :
    (minItems least).Holds (.array items) ↔ least ≤ items.length := forall_array

theorem holds_minItems_one {items : List Value} :
    (minItems 1).Holds (.array items) ↔ items ≠ [] :=
  holds_minItems.trans (by rw [Nat.one_le_iff_ne_zero, ne_eq, List.length_eq_zero_iff])

/-- Texts are unique when none is listed twice. -/
theorem holds_uniqueItems_string {texts : List String} :
    uniqueItems.Holds (.array (texts.map .string)) ↔ texts.Nodup := by
  refine forall_array.trans ?_
  simp only [List.pairwise_map, List.Nodup, Value.same_string, Value.string.injEq, ne_eq]

theorem holds_items {schema : Schema} {items : List Value} :
    (Schema.items schema).Holds (.array items) ↔ ∀ item ∈ items, schema.Holds item := forall_array

theorem holds_minFields {least : Nat} {fields : List (String × Value)} :
    (minFields least).Holds (.object fields) ↔ least ≤ fields.length := forall_object

theorem holds_minFields_one {fields : List (String × Value)} :
    (minFields 1).Holds (.object fields) ↔ fields ≠ [] :=
  holds_minFields.trans (by rw [Nat.one_le_iff_ne_zero, ne_eq, List.length_eq_zero_iff])

theorem holds_required {names : List String} {fields : List (String × Value)} :
    (required names).Holds (.object fields) ↔
      ∀ name ∈ names, ∃ content, fields.lookup name = some content := forall_object

theorem holds_onlyFields {names : List String} {fields : List (String × Value)} :
    (onlyFields names).Holds (.object fields) ↔ ∀ name ∈ fields.map Prod.fst, name ∈ names :=
  forall_object.trans List.forall_mem_map.symm

theorem holds_fieldNames {schema : Schema} {fields : List (String × Value)} :
    (fieldNames schema).Holds (.object fields) ↔
      ∀ field ∈ fields, schema.Holds (.string field.1) := forall_object

theorem holds_field {name : String} {schema : Schema} {fields : List (String × Value)} :
    (field name schema).Holds (.object fields) ↔
      ∀ content, fields.lookup name = some content → schema.Holds content := forall_object

theorem holds_otherFields {names : List String} {schema : Schema}
    {fields : List (String × Value)} :
    (otherFields names schema).Holds (.object fields) ↔
      ∀ field ∈ fields, field.1 ∉ names → schema.Holds field.2 := forall_object

/-- A rule about all other fields is one about every field when none is named. -/
theorem holds_otherFields_nil {schema : Schema} {fields : List (String × Value)} :
    (otherFields [] schema).Holds (.object fields) ↔ ∀ field ∈ fields, schema.Holds field.2 :=
  holds_otherFields.trans (by simp)

end Schema

end MonkeyLang
