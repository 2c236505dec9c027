import MonkeyLang.Proofs.Registry.Conformance

/-!
# Checks that come to an end

Where the schema holds, the checks can do their work: every field that they look up, put in order
or lex holds a text. There is one gap. The schema asks no entry for a lexeme, and the check of the
reserved words takes one from each entry of their category. So the checks fail in one case, with one
failure, and end with a list of lines in every other case. Where the schema does not hold, it is
left to the validator alone whether there are lines or a failure.
-/
namespace MonkeyLang.Registry

section Walks
variable {α β : Type}

/-- A walk of which each step succeeds with a result of some form has such results. -/
theorem exists_mapM_forall {read : α → Except Failure β} {form : β → Prop} {items : List α}
    (each : ∀ item ∈ items, ∃ result, read item = .ok result ∧ form result) :
    ∃ results, items.mapM read = .ok results ∧ ∀ result ∈ results, form result := by
  induction items with
  | nil => exact ⟨[], rfl, by simp⟩
  | cons item items ih =>
    obtain ⟨⟨result, first, own⟩, rest⟩ := List.forall_mem_cons.mp each
    obtain ⟨results, others, forms⟩ := ih rest
    exact ⟨result :: results, by rw [List.mapM_cons, first, others]; rfl,
      List.forall_mem_cons.mpr ⟨own, forms⟩⟩

/-- A walk of which each step succeeds has results. -/
theorem exists_mapM {read : α → Except Failure β} {items : List α}
    (each : ∀ item ∈ items, ∃ result, read item = .ok result) :
    ∃ results, items.mapM read = .ok results := by
  have steps : ∀ item ∈ items, ∃ result, read item = .ok result ∧ True := fun item found =>
    (each item found).imp fun _ step => ⟨step, trivial⟩
  obtain ⟨results, walked, -⟩ := exists_mapM_forall steps
  exact ⟨results, walked⟩

/-- A walk fails in the one way in which its steps can fail. -/
theorem mapM_eq_error {read : α → Except Failure β} {items : List α} {failure : Failure}
    (each : ∀ item ∈ items, (∃ result, read item = .ok result) ∨ read item = .error failure)
    (fails : ∃ item ∈ items, read item = .error failure) :
    items.mapM read = .error failure := by
  induction items with
  | nil => simp at fails
  | cons item items ih =>
    obtain ⟨first, rest⟩ := List.forall_mem_cons.mp each
    rw [List.mapM_cons]
    rcases first with ⟨result, first⟩ | first
    · have later : ∃ item ∈ items, read item = .error failure := by
        obtain ⟨failing, member, here⟩ := fails
        rcases List.mem_cons.mp member with rfl | member
        · simp [first] at here
        · exact ⟨failing, member, here⟩
      rw [first, ih rest later]
      rfl
    · rw [first]
      rfl

end Walks

/-! ## Checks of entries -/

/-- An entry in the category of reserved words that gives no lexeme. -/
def Entry.LacksWord (entry : Entry) : Prop := entry.isKeyword = true ∧ entry.lexeme? = none

section
variable {entry : Entry}

theorem Entry.exists_lexeme (own : ¬ entry.LacksWord) (keyword : entry.isKeyword = true) :
    ∃ value, entry.lexeme? = some value :=
  Option.ne_none_iff_exists'.mp fun absent => own ⟨keyword, absent⟩

theorem keywordOf?_of_lacksWord (lacks : entry.LacksWord) :
    keywordOf? entry.definition = .error .lexemeMissing := by
  simp [keywordOf?, lacks.1, keywordOf, lacks.2, bind, Except.bind, Functor.map, Except.map]

variable (readable : entry.Readable)
include readable

theorem lexemeDifference_ends : ∃ line, lexemeDifference entry.definition = .ok line := by
  rw [lexemeDifference, entryOf_definition]
  cases given : entry.lexeme? with
  | none => exact ⟨none, by simp [bind, Except.bind, given, pure, Except.pure]⟩
  | some value =>
    obtain ⟨text, rfl⟩ := readable.lexeme value given
    by_cases single : lexedKinds text = [entry.name] <;>
      simp [bind, Except.bind, given, pure, Except.pure, lexemeKinds, single]

theorem roleDifference_ends : ∃ lines, roleDifference entry.definition = .ok lines := by
  obtain ⟨texts, read, -⟩ := exists_roles readable
  rw [roleDifference, entryOf_definition]
  simp [bind, Except.bind, read, pure, Except.pure]

end

/-! ## Checks of registries -/

section
variable {entries : List Entry} (readable : ∀ entry ∈ entries, entry.Readable)
include readable

/-- The check of the reserved words ends when each of their entries gives its word. -/
theorem keywordDifferences_ends (given : ∀ entry ∈ entries, ¬ entry.LacksWord) :
    ∃ lines, keywordDifferences (entries.map Entry.definition) = .ok lines := by
  have words := keywordDifferences_definition readable fun entry found =>
    Entry.exists_lexeme (given entry found)
  rw [words, keywordLines_labelled]
  exact ⟨_, rfl⟩

/-- The check of the reserved words fails when one of their entries gives no word. -/
theorem keywordDifferences_fails (lacks : ∃ entry ∈ entries, entry.LacksWord) :
    keywordDifferences (entries.map Entry.definition) = .error .lexemeMissing := by
  have walked : (entries.map Entry.definition).mapM keywordOf? = .error .lexemeMissing := by
    rw [List.mapM_map]
    refine mapM_eq_error (fun entry found => ?_) ?_
    · by_cases own : entry.LacksWord
      · exact .inr (keywordOf?_of_lacksWord own)
      · exact .inl ⟨_, keywordOf?_definition (readable entry found) (Entry.exists_lexeme own)⟩
    · obtain ⟨entry, found, own⟩ := lacks
      exact ⟨entry, found, keywordOf?_of_lacksWord own⟩
  rw [keywordDifferences, walked]
  rfl

theorem lexemeDifferences_ends :
    ∃ lines, lexemeDifferences (entries.map Entry.definition) = .ok lines := by
  have walked : ∃ results, (entries.map Entry.definition).mapM lexemeDifference = .ok results := by
    rw [List.mapM_map]
    exact exists_mapM fun entry found => lexemeDifference_ends (readable entry found)
  obtain ⟨results, walked⟩ := walked
  rw [lexemeDifferences, walked]
  exact ⟨_, rfl⟩

theorem roleDifferences_ends :
    ∃ lines, roleDifferences (entries.map Entry.definition) = .ok lines := by
  have walked : ∃ results, (entries.map Entry.definition).mapM roleDifference = .ok results := by
    rw [List.mapM_map]
    exact exists_mapM fun entry found => roleDifference_ends (readable entry found)
  obtain ⟨results, walked⟩ := walked
  rw [roleDifferences, walked]
  exact ⟨_, rfl⟩

end

section
variable {entries : List Entry} (texts : ∀ entry ∈ entries, ∀ value,
  entry.precedence? = some value → ∃ text, value = .string text)
include texts

/-- The binding power that is given for a name is a text or null, which can both be shown. -/
theorem exists_words_givenPrecedences (name : String) :
    ∃ words, written
      ((((givenPrecedences entries).lookup name).bind id).getD .null).words? = .ok words := by
  cases given : ((givenPrecedences entries).lookup name).bind id with
  | none => exact ⟨_, rfl⟩
  | some value =>
    obtain ⟨found, listed, rfl⟩ := Option.bind_eq_some_iff.mp given
    obtain ⟨before, after, split, -⟩ := List.lookup_eq_some_iff.mp listed
    have member : (name, some value) ∈ givenPrecedences entries := by simp [split]
    obtain ⟨entry, found, same⟩ := List.mem_map.mp member
    obtain ⟨text, rfl⟩ := texts entry found value (Prod.mk.inj same).2
    exact ⟨_, rfl⟩

theorem precedenceDifference_ends (name : String) :
    ∃ line, precedenceDifference (givenPrecedences entries) name = .ok line := by
  obtain ⟨registry, shown⟩ := exists_words_givenPrecedences texts name
  have table : ∃ words, written (tablePrecedence name).words? = .ok words := by
    unfold tablePrecedence
    split <;> exact ⟨_, rfl⟩
  obtain ⟨table, tableShown⟩ := table
  rw [precedenceDifference, tableShown, shown]
  split <;> exact ⟨_, rfl⟩

theorem precedenceDifferences_ends :
    ∃ lines, precedenceDifferences (entries.map Entry.definition) = .ok lines := by
  obtain ⟨lines, walked⟩ := exists_mapM fun name
    (_ : name ∈ Text.sorted (boundNames ++
      ((givenPrecedences entries).filter (·.2.isSome)).map Prod.fst)) =>
    precedenceDifference_ends texts name
  rw [precedenceDifferences_definition, walked]
  exact ⟨_, rfl⟩

end

section
variable {entries : List Entry} (wellFormed : ∀ entry ∈ entries, entry.WellFormed)
include wellFormed

/-- All checks end with their lines when each entry of a reserved word gives its word. -/
theorem differences_end (given : ∀ entry ∈ entries, ¬ entry.LacksWord) :
    ∃ lines, differences (entries.map Entry.definition) = .ok lines := by
  have readable entry (found : entry ∈ entries) := (wellFormed entry found).readable
  obtain ⟨_, keywords⟩ := keywordDifferences_ends readable given
  obtain ⟨_, lexemes⟩ := lexemeDifferences_ends readable
  obtain ⟨_, precedences⟩ := precedenceDifferences_ends fun entry found =>
    (wellFormed entry found).precedence
  obtain ⟨_, roles⟩ := roleDifferences_ends readable
  rw [differences, labels_definition, nameDifferences_text, keywords, lexemes, precedences, roles]
  exact ⟨_, rfl⟩

/-- No check behind the one that fails is made, and the one before it does not fail. -/
theorem differences_fail (lacks : ∃ entry ∈ entries, entry.LacksWord) :
    differences (entries.map Entry.definition) = .error .lexemeMissing := by
  have readable entry (found : entry ∈ entries) := (wellFormed entry found).readable
  rw [differences, labels_definition, nameDifferences_text, keywordDifferences_fails readable lacks]
  rfl

end

/-! ## Documents -/

/-- Among the entries of a document is one in the category of reserved words without a lexeme. -/
def LacksWord (document : Value) : Prop :=
  ∃ definitions name fields, document.field? "tokens" = some (.object definitions) ∧
    (name, .object fields) ∈ definitions ∧
    fields.lookup "category" = some (.string "keyword") ∧ fields.lookup "lexeme" = none

theorem lacksWord_iff {document : Value} {entries : List Entry}
    (given : document.field? "tokens" = some (.object (entries.map Entry.definition))) :
    LacksWord document ↔ ∃ entry ∈ entries, entry.LacksWord := by
  constructor
  · rintro ⟨definitions, name, fields, listed, member, category, lexeme⟩
    obtain rfl : entries.map Entry.definition = definitions := by simpa [given] using listed
    obtain ⟨entry, found, same⟩ := List.mem_map.mp member
    obtain rfl : entry = ⟨name, fields⟩ := definition_injective same
    exact ⟨_, found, Entry.isKeyword_iff.mpr category, lexeme⟩
  · rintro ⟨entry, found, keyword, lexeme⟩
    exact ⟨_, entry.name, entry.fields, given, List.mem_map_of_mem found,
      Entry.isKeyword_iff.mp keyword, lexeme⟩

/-- The schema does not hold for a document that a validator finds to violate it. -/
theorem not_holds_of_invalid {validate : Validator}
    (implements : validate.Implements schemaDocument) {document : Value} {message : String}
    {path : List PathStep} (invalid : validate schemaDocument document = .invalid message path) :
    ¬ schema.Holds document := fun holds => by
  have valid := (valid_iff_holds implements).mpr holds
  simp [invalid] at valid

theorem exists_formLines_iff {validate : Validator} {given document : Value} :
    (∃ lines, formLines validate given document = .ok lines) ↔
      ∀ failure, validate given document ≠ .failed failure := by
  rw [formLines]
  cases validate given document <;> simp [Validation.lines]

section
variable {validate : Validator} (implements : validate.Implements schemaDocument)
  {document : Value}
include implements

/-- The checks end on a document of the right form of which no entry lacks its reserved word. -/
theorem problems_end (holds : schema.Holds document) (complete : ¬ LacksWord document) :
    ∃ lines, problems validate schemaDocument document = .ok lines := by
  obtain ⟨entries, given, wellFormed⟩ := exists_entries_of_holds holds
  rw [lacksWord_iff given] at complete
  rw [problems_of_holds implements holds given]
  exact differences_end wellFormed fun entry found lacks => complete ⟨entry, found, lacks⟩

/-- The checks fail on a document of the right form of which an entry lacks its reserved word. -/
theorem problems_fail (holds : schema.Holds document) (lacks : LacksWord document) :
    problems validate schemaDocument document = .error .lexemeMissing := by
  obtain ⟨entries, given, wellFormed⟩ := exists_entries_of_holds holds
  rw [problems_of_holds implements holds given]
  exact differences_fail wellFormed ((lacksWord_iff given).mp lacks)

/-- The problems of a document can be found unless the validator fails on it, or the schema holds
and an entry of a reserved word gives no lexeme. -/
theorem exists_problems_iff :
    (∃ lines, problems validate schemaDocument document = .ok lines) ↔
      (∀ failure, validate schemaDocument document ≠ .failed failure) ∧
        ¬ (schema.Holds document ∧ LacksWord document) := by
  by_cases holds : schema.Holds document
  · have valid := (valid_iff_holds implements).mpr holds
    by_cases lacks : LacksWord document
    · simp [problems_fail implements holds lacks, holds, lacks]
    · simp [problems_end implements holds lacks, valid, lacks]
  · rw [problems_of_not_valid (mt (valid_iff_holds implements).mp holds), exists_formLines_iff]
    simp [holds]

end

/-- By a validator that goes by what the schema means and comes to a verdict on a document, its
problems can be found, except if the schema holds for it and an entry of a reserved word gives no
lexeme. Then the one failure there is says so. A document for which the schema does not hold has the
problem that the validator has with it, and no other. -/
theorem problems_eq_error_iff {validate : Validator}
    (implements : validate.Implements schemaDocument) {document : Value}
    (decides : validate.Decides schemaDocument document) :
    ((∃ lines, problems validate schemaDocument document = .ok lines) ↔
        ¬ (schema.Holds document ∧ LacksWord document)) ∧
      (∀ failure, problems validate schemaDocument document = .error failure ↔
        failure = .lexemeMissing ∧ schema.Holds document ∧ LacksWord document) ∧
      Failure.lexemeMissing.message = "'lexeme'" ∧
      (¬ schema.Holds document → ∃ lines, lines ≠ [] ∧
        formLines validate schemaDocument document = .ok lines ∧
        problems validate schemaDocument document = .ok lines) := by
  have verdict (failure : Failure) : validate schemaDocument document ≠ .failed failure := by
    rcases decides with valid | ⟨message, path, invalid⟩
    · simp [valid]
    · simp [invalid]
  have ends := (exists_problems_iff implements).trans (and_iff_right verdict)
  refine ⟨ends, fun failure => ⟨fun fails => ?_, ?_⟩, by decide +kernel, fun refused => ?_⟩
  · have gap : schema.Holds document ∧ LacksWord document := by
      by_contra complete
      obtain ⟨lines, found⟩ := ends.mpr complete
      simp [fails] at found
    rw [problems_fail implements gap.1 gap.2] at fails
    exact ⟨(Except.error.inj fails).symm, gap⟩
  · rintro ⟨rfl, holds, lacks⟩
    exact problems_fail implements holds lacks
  · have invalid := mt (valid_iff_holds implements).mp refused
    obtain ⟨lines, said⟩ := exists_formLines_iff.mpr verdict
    refine ⟨lines, fun empty => ?_, said, (problems_of_not_valid invalid).trans said⟩
    exact invalid (formLines_eq_nil.mp (empty ▸ said))

/-- The entries of a registry with one reserved word, which gives no lexeme. -/
def wordlessTokens : Value := .object [("LET", .object [("category", .string "keyword")])]

theorem byRules_wordlessTokens :
    Validator.byRules schemaDocument (.object [("tokens", wordlessTokens)]) =
      .invalid "'version' is a required property" [] := by
  decide +kernel

/-- With a version the checks fail on these entries; without one they are not looked at. -/
theorem problems_eq_error_iff_wordlessTokens :
    Validator.byRules.Implements schemaDocument ∧
      schema.Holds (.object [("version", .string "1.0"), ("tokens", wordlessTokens)]) ∧
      LacksWord (.object [("version", .string "1.0"), ("tokens", wordlessTokens)]) ∧
      problems .byRules schemaDocument
          (.object [("version", .string "1.0"), ("tokens", wordlessTokens)]) =
        .error .lexemeMissing ∧
      problems .byRules schemaDocument (.object [("tokens", wordlessTokens)]) =
        .ok ["Schema validation error: 'version' is a required property"] := by
  have implements := Validator.byRules_implements
  have valid : Validator.byRules schemaDocument
      (.object [("version", .string "1.0"), ("tokens", wordlessTokens)]) = .valid := by
    decide +kernel
  have holds := (valid_iff_holds implements).mp valid
  have lacks : LacksWord (.object [("version", .string "1.0"), ("tokens", wordlessTokens)]) :=
    ⟨_, _, _, rfl, .head _, rfl, rfl⟩
  obtain ⟨-, fails, -⟩ := problems_eq_error_iff implements (.inl valid)
  have invalid := byRules_wordlessTokens
  obtain ⟨-, -, -, refused⟩ := problems_eq_error_iff implements (.inr ⟨_, _, invalid⟩)
  obtain ⟨lines, -, said, found⟩ := refused (not_holds_of_invalid implements invalid)
  rw [formLines, invalid] at said
  rw [← said] at found
  exact ⟨implements, holds, lacks, (fails _).mpr ⟨rfl, holds, lacks⟩, found⟩

end MonkeyLang.Registry
