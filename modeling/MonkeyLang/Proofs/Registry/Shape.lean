import MonkeyLang.Proofs.Registry.DocumentedForm

/-!
# Shape of a registry

A document of the documented form lists entries, and in these the fields that the checks read have
texts in them. The names in an object of a document are pairwise different, which no rule of the
schema says: it lies in what an object is.
-/
namespace MonkeyLang

namespace Value

mutual

/-- Whether no object within a value has two fields of one name. -/
def namesDistinct : Value → Bool
  | array items => namesDistinctItems items
  | object fields => decide (fields.map Prod.fst).Nodup && namesDistinctFields fields
  | _ => true

/-- Whether no object within a list of values has two fields of one name. -/
def namesDistinctItems : List Value → Bool
  | [] => true
  | item :: items => namesDistinct item && namesDistinctItems items

/-- Whether no object within the values of some fields has two fields of one name. -/
def namesDistinctFields : List (String × Value) → Bool
  | [] => true
  | (_, value) :: fields => namesDistinct value && namesDistinctFields fields

end

theorem namesDistinct_of_lookup {name : String} {value : Value} {fields : List (String × Value)}
    (distinct : namesDistinctFields fields = true) (found : fields.lookup name = some value) :
    value.namesDistinct = true := by
  induction fields with
  | nil => simp at found
  | cons field fields ih =>
    obtain ⟨first, firstValue⟩ := field
    rw [namesDistinctFields, Bool.and_eq_true] at distinct
    rw [List.lookup_cons] at found
    split at found
    · obtain rfl := Option.some.inj found
      exact distinct.1
    · exact ih distinct.2 found

/-- The parts of a value with distinct names have distinct names. -/
theorem namesDistinct_of_field? {name : String} {document value : Value}
    (distinct : document.namesDistinct = true) (found : document.field? name = some value) :
    value.namesDistinct = true := by
  cases document with
  | object fields =>
    rw [namesDistinct, Bool.and_eq_true] at distinct
    exact namesDistinct_of_lookup distinct.2 found
  | _ => simp [field?] at found

end Value

namespace Registry

namespace Entry

/-- The fields of an entry have texts in them, and there is a category. -/
structure WellFormed (entry : Entry) : Prop where
  category : ∃ text, entry.category? = some (.string text)
  lexeme : ∀ value, entry.lexeme? = some value → ∃ text, value = .string text
  precedence : ∀ value, entry.precedence? = some value → ∃ text, value = .string text
  roles : ∀ value, entry.field? "roles" = some value →
    ∃ texts : List String, value = .array (texts.map .string)

/-- What the checks take from an entry by itself: a lexeme that is a text, and roles that are a list
of texts, where they are given. -/
structure Readable (entry : Entry) : Prop where
  lexeme : ∀ value, entry.lexeme? = some value → ∃ text, value = .string text
  roles : ∀ value, entry.field? "roles" = some value →
    ∃ texts : List String, value = .array (texts.map .string)

theorem WellFormed.readable {entry : Entry} (wellFormed : entry.WellFormed) : entry.Readable :=
  ⟨wellFormed.lexeme, wellFormed.roles⟩

end Entry

/-- The documented fields have texts in them. -/
theorem Entry.Documented.wellFormed {fields : List (String × Value)}
    (documented : Entry.Documented fields) (name : String) : (Entry.mk name fields).WellFormed := by
  refine ⟨?_, fun value found => ?_, fun value found => ?_, fun value found => ?_⟩
  · obtain ⟨text, -, given⟩ := documented.category
    exact ⟨text, given⟩
  · obtain ⟨text, -, same⟩ := documented.lexeme value found
    exact ⟨text, same⟩
  · obtain ⟨text, -, same⟩ := documented.precedence value found
    exact ⟨text, same⟩
  · obtain ⟨roles, -, -, -, same⟩ := documented.roles value found
    exact ⟨roles, same⟩

/-- A documented definition is that of a well-formed entry. -/
theorem exists_entry {definition : Definition}
    (documented : ∃ fields, definition.2 = .object fields ∧ Entry.Documented fields) :
    ∃ entry : Entry, entry.WellFormed ∧ definition = entry.definition := by
  obtain ⟨fields, same, form⟩ := documented
  exact ⟨⟨definition.1, fields⟩, form.wellFormed definition.1, Prod.ext rfl same⟩

/-- A document for which the schema holds lists well-formed entries. -/
theorem exists_entries_of_holds {document : Value} (holds : schema.Holds document) :
    ∃ entries : List Entry, document.field? "tokens" = some (.object (entries.map Entry.definition))
      ∧ ∀ entry ∈ entries, entry.WellFormed := by
  obtain ⟨fields, rfl, documented⟩ := holds_iff_documented.mp holds
  obtain ⟨definitions, -, each, given⟩ := documented.tokens
  obtain ⟨entries, wellFormed, rfl⟩ :=
    exists_parts fun definition found => exists_entry (each definition found).2
  exact ⟨entries, given, wellFormed⟩

end Registry

end MonkeyLang
