import MonkeyLang.Proofs.Registry.Checks
import MonkeyLang.Registry.Report
import MonkeyLang.Registry.Standard
import Mathlib.Data.List.Nodup

/-!
# Accepted registries

A registry conforms to the language when the schema holds for it, it has an entry for each token
kind and for nothing else, and each entry says of its kind what the tables of the language say.
Exactly the conforming registries are accepted, whatever validator the schema is left to. No check
says this alone: the check of the reserved words sees of several entries with one lexeme only the
last, and the checks of fields see no kind that has no entry.
-/
namespace MonkeyLang.Registry

/-- What an entry has to say to be the entry of a kind. -/
structure Entry.Describes (entry : Entry) (kind : Kind) : Prop where
  precedence : entry.precedence? = kind.precedence?.map fun precedence => .string precedence.name
  opens : entry.HasRole "prefix" ↔ kind.opening?.isSome = true
  continues : entry.HasRole "infix" ↔ kind.continuation?.isSome = true
  keyword : entry.category? = some (.string "keyword") ↔ ∃ text, (text, kind) ∈ Kind.keywords
  word : ∀ text, (text, kind) ∈ Kind.keywords → entry.lexeme? = some (.string text)
  lexeme : ∀ value, entry.lexeme? = some value →
    ∃ text token, value = .string text ∧ (Lexer.ofText text).tokens = [token] ∧ token.kind = kind

/-- The entries are one for each kind, and each describes its kind. -/
structure Agrees (entries : List Entry) : Prop where
  names : ∀ name, name ∈ entries.map Entry.name ↔ ∃ kind : Kind, kind.name = name
  describes : ∀ entry ∈ entries, ∀ kind : Kind, kind.name = entry.name → entry.Describes kind

/-- A document of the right form that lists entries which agree with the language. -/
structure Conforms (document : Value) : Prop where
  holds : schema.Holds document
  agrees : ∃ entries : List Entry,
    document.field? "tokens" = some (.object (entries.map Entry.definition)) ∧ Agrees entries

/-! ## Reserved words -/

theorem nameOf?_keyword {text : String} {kind : Kind} (keyword : (text, kind) ∈ Kind.keywords) :
    nameOf? reservedWords (.text text) = some kind.name := by
  have each : ∀ keyword ∈ Kind.keywords,
      nameOf? reservedWords (.text keyword.1) = some keyword.2.name := by decide
  exact each _ keyword

theorem lexedKinds_keyword {text : String} {kind : Kind} (keyword : (text, kind) ∈ Kind.keywords) :
    lexedKinds text = [kind.name] := by
  have each : ∀ keyword ∈ Kind.keywords, lexedKinds keyword.1 = [keyword.2.name] := by
    decide +kernel
  exact each _ keyword

theorem exists_keyword {text name : String}
    (reserved : nameOf? reservedWords (.text text) = some name) :
    ∃ kind : Kind, (text, kind) ∈ Kind.keywords ∧ kind.name = name := by
  rw [reservedWords_eq] at reserved
  obtain ⟨⟨_, kind⟩, keyword, same⟩ := List.mem_map.mp (mem_of_nameOf? reserved)
  obtain ⟨rfl, rfl⟩ := Prod.mk.inj same
  exact ⟨kind, keyword, rfl⟩

theorem eq_of_name_eq {entries : List Entry} (distinct : (entries.map Entry.name).Nodup)
    {entry other : Entry} (found : entry ∈ entries) (otherFound : other ∈ entries)
    (same : entry.name = other.name) : entry = other :=
  List.inj_on_of_nodup_map distinct found otherFound same

section Words
variable {entries : List Entry} (wellFormed : ∀ entry ∈ entries, entry.WellFormed)
  (distinct : (entries.map Entry.name).Nodup)
  (names : ∀ name, name ∈ entries.map Entry.name ↔ ∃ kind : Kind, kind.name = name)

include wellFormed distinct in
/-- Entries with the reserved words of the language belong to the kinds of these words. Several
entries with one word are told apart by what the word is lexed into. -/
theorem keyword_of_sameWords
    (lexemes : ∀ entry ∈ entries, ∀ text, entry.lexeme? = some (.string text) →
      lexedKinds text = [entry.name])
    (given : ∀ entry ∈ entries, entry.isKeyword = true → ∃ value, entry.lexeme? = some value)
    (same : ∀ text, nameOf? (labelled (entries.filterMap Entry.word?)) (.text text)
      = nameOf? reservedWords (.text text))
    {entry : Entry} (found : entry ∈ entries) {kind : Kind} (named : kind.name = entry.name) :
    (entry.isKeyword = true ↔ ∃ text, (text, kind) ∈ Kind.keywords) ∧
      ∀ text, (text, kind) ∈ Kind.keywords → entry.lexeme? = some (.string text) := by
  have word {text : String} (keyword : (text, kind) ∈ Kind.keywords) :
      entry.isKeyword = true ∧ entry.lexeme? = some (.string text) := by
    have listed := mem_of_nameOf? ((same text).trans (nameOf?_keyword keyword))
    obtain ⟨other, otherFound, isWord⟩ := List.mem_filterMap.mp listed
    obtain ⟨isKeyword, lexeme, otherNamed⟩ := Entry.word?_eq_some.mp isWord
    obtain rfl := eq_of_name_eq distinct otherFound found (otherNamed.trans named)
    exact ⟨isKeyword, lexeme⟩
  refine ⟨⟨fun isKeyword => ?_, fun ⟨_, keyword⟩ => (word keyword).1⟩,
    fun _ keyword => (word keyword).2⟩
  obtain ⟨value, lexeme⟩ := given entry found isKeyword
  obtain ⟨text, rfl⟩ := (wellFormed entry found).lexeme value lexeme
  have listed : (text, entry.name) ∈ entries.filterMap Entry.word? :=
    List.mem_filterMap.mpr ⟨entry, found, Entry.word?_eq_some.mpr ⟨isKeyword, lexeme, rfl⟩⟩
  have reserved : nameOf? reservedWords (.text text) ≠ none := by
    rw [← same, ne_eq, nameOf?_eq_none, not_not]
    exact List.mem_map_of_mem listed
  obtain ⟨name, reserved⟩ := Option.ne_none_iff_exists'.mp reserved
  obtain ⟨other, keyword, -⟩ := exists_keyword reserved
  have lexed : [other.name] = [entry.name] :=
    (lexedKinds_keyword keyword).symm.trans (lexemes entry found text lexeme)
  obtain rfl : other = kind :=
    Kind.name_injective ((List.singleton_inj.mp lexed).trans named.symm)
  exact ⟨text, keyword⟩

include names in
/-- Entries that belong to the kinds of the reserved words have the words of the language. -/
theorem sameWords_of_keyword
    (keywords : ∀ entry ∈ entries, ∀ kind : Kind, kind.name = entry.name →
      (entry.isKeyword = true ↔ ∃ text, (text, kind) ∈ Kind.keywords) ∧
        ∀ text, (text, kind) ∈ Kind.keywords → entry.lexeme? = some (.string text)) :
    (∀ entry ∈ entries, entry.isKeyword = true → ∃ value, entry.lexeme? = some value) ∧
      ∀ text, nameOf? (labelled (entries.filterMap Entry.word?)) (.text text)
        = nameOf? reservedWords (.text text) := by
  have lexeme {entry : Entry} (found : entry ∈ entries) (isKeyword : entry.isKeyword = true) :
      ∃ text kind, (text, kind) ∈ Kind.keywords ∧ kind.name = entry.name ∧
        entry.lexeme? = some (.string text) := by
    obtain ⟨kind, named⟩ := (names entry.name).mp (List.mem_map_of_mem found)
    obtain ⟨text, keyword⟩ := (keywords entry found kind named).1.mp isKeyword
    exact ⟨text, kind, keyword, named, (keywords entry found kind named).2 text keyword⟩
  have reserved {text name : String} (listed : (text, name) ∈ entries.filterMap Entry.word?) :
      nameOf? reservedWords (.text text) = some name := by
    obtain ⟨entry, found, isWord⟩ := List.mem_filterMap.mp listed
    obtain ⟨isKeyword, given, rfl⟩ := Entry.word?_eq_some.mp isWord
    obtain ⟨other, kind, keyword, named, otherGiven⟩ := lexeme found isKeyword
    obtain rfl : text = other := by simpa using given.symm.trans otherGiven
    rw [nameOf?_keyword keyword, named]
  have listed {text name : String} (reserved : nameOf? reservedWords (.text text) = some name) :
      (text, name) ∈ entries.filterMap Entry.word? := by
    obtain ⟨kind, keyword, rfl⟩ := exists_keyword reserved
    obtain ⟨entry, found, named⟩ := List.mem_map.mp ((names kind.name).mpr ⟨kind, rfl⟩)
    have own := keywords entry found kind named.symm
    exact List.mem_filterMap.mpr ⟨entry, found,
      Entry.word?_eq_some.mpr ⟨own.1.mpr ⟨text, keyword⟩, own.2 text keyword, named⟩⟩
  refine ⟨fun entry found isKeyword => ?_, fun text => ?_⟩
  · obtain ⟨text, -, -, -, given⟩ := lexeme found isKeyword
    exact ⟨_, given⟩
  · cases given : nameOf? (labelled (entries.filterMap Entry.word?)) (.text text) with
    | some name => exact (reserved (mem_of_nameOf? given)).symm
    | none =>
      rw [nameOf?_eq_none] at given
      refine (Option.eq_none_iff_forall_ne_some.mpr fun name found => given ?_).symm
      exact List.mem_map_of_mem (listed found)

end Words

theorem differences_eq_ok_nil {definitions : List Definition} :
    differences definitions = .ok [] ↔
      nameDifferences (definitions.map fun definition => .text definition.1) = .ok [] ∧
      keywordDifferences definitions = .ok [] ∧ lexemeDifferences definitions = .ok [] ∧
      precedenceDifferences definitions = .ok [] ∧ roleDifferences definitions = .ok [] := by
  simp only [differences, bind_eq_ok, pure, Except.pure, Except.ok.injEq, List.append_eq_nil_iff]
  constructor
  · rintro ⟨_, names, _, keywords, _, lexemes, _, precedences, _, roles,
      ⟨⟨⟨rfl, rfl⟩, rfl⟩, rfl⟩, rfl⟩
    exact ⟨names, keywords, lexemes, precedences, roles⟩
  · rintro ⟨names, keywords, lexemes, precedences, roles⟩
    exact ⟨_, names, _, keywords, _, lexemes, _, precedences, _, roles,
      ⟨⟨⟨rfl, rfl⟩, rfl⟩, rfl⟩, rfl⟩

/-- A lexeme is lexed into one named kind when it is one token of this kind. -/
theorem lexedKinds_eq_singleton {text : String} {kind : Kind} :
    lexedKinds text = [kind.name]
      ↔ ∃ token, (Lexer.ofText text).tokens = [token] ∧ token.kind = kind := by
  rw [lexedKinds, List.map_eq_singleton_iff]
  exact exists_congr fun token => and_congr_right fun _ =>
    ⟨Kind.name_injective, congrArg Kind.name⟩

/-- What the checks ask of an entry, one after the other. -/
theorem Entry.describes_iff {entry : Entry} (wellFormed : entry.WellFormed) {kind : Kind}
    (named : kind.name = entry.name) :
    entry.Describes kind ↔
      (entry.precedence? = kind.precedence?.map fun precedence => .string precedence.name) ∧
      ((entry.HasRole "prefix" ↔ kind.opening?.isSome = true) ∧
        (entry.HasRole "infix" ↔ kind.continuation?.isSome = true) ∧
        (entry.HasRole "infix" → entry.precedence?.isSome = true)) ∧
      ((entry.isKeyword = true ↔ ∃ text, (text, kind) ∈ Kind.keywords) ∧
        ∀ text, (text, kind) ∈ Kind.keywords → entry.lexeme? = some (.string text)) ∧
      ∀ text, entry.lexeme? = some (.string text) → lexedKinds text = [entry.name] := by
  rw [Entry.isKeyword_iff, ← named]
  simp only [lexedKinds_eq_singleton]
  constructor
  · intro describes
    refine ⟨describes.precedence, ⟨describes.opens, describes.continues, fun continues => ?_⟩,
      ⟨describes.keyword, describes.word⟩, fun text lexeme => ?_⟩
    · rw [describes.precedence, Option.isSome_map, ← Kind.isSome_continuation?]
      exact describes.continues.mp continues
    · obtain ⟨_, token, same, single⟩ := describes.lexeme _ lexeme
      obtain rfl := Value.string.inj same
      exact ⟨token, single⟩
  · rintro ⟨precedence, ⟨opens, continues, -⟩, ⟨keyword, word⟩, lexed⟩
    refine ⟨precedence, opens, continues, keyword, word, fun value lexeme => ?_⟩
    obtain ⟨text, rfl⟩ := wellFormed.lexeme value lexeme
    obtain ⟨token, single⟩ := lexed text lexeme
    exact ⟨text, token, rfl, single⟩

/-- There is no difference between well-formed entries and the language when they agree. -/
theorem differences_eq_nil {entries : List Entry}
    (wellFormed : ∀ entry ∈ entries, entry.WellFormed)
    (distinct : (entries.map Entry.name).Nodup) :
    differences (entries.map Entry.definition) = .ok [] ↔ Agrees entries := by
  rw [differences_eq_ok_nil, labels_definition, nameDifferences_eq_nil,
    keywordDifferences_eq_nil wellFormed, lexemeDifferences_eq_nil wellFormed]
  constructor
  · rintro ⟨names, ⟨given, same⟩, lexemes, precedences, roles⟩
    rw [precedenceDifferences_eq_nil wellFormed distinct names] at precedences
    rw [roleDifferences_eq_nil wellFormed names] at roles
    refine ⟨names, fun entry found kind named => ?_⟩
    exact (Entry.describes_iff (wellFormed entry found) named).mpr
      ⟨precedences entry found kind named, roles entry found kind named,
        keyword_of_sameWords wellFormed distinct lexemes given same found named,
        lexemes entry found⟩
  · rintro ⟨names, describes⟩
    have each entry (found : entry ∈ entries) kind (named : kind.name = entry.name) :=
      (Entry.describes_iff (wellFormed entry found) named).mp (describes entry found kind named)
    refine ⟨names, sameWords_of_keyword names fun entry found kind named => ?_,
      fun entry found => ?_, ?_, ?_⟩
    · exact (each entry found kind named).2.2.1
    · obtain ⟨kind, named⟩ := (names entry.name).mp (List.mem_map_of_mem found)
      exact (each entry found kind named).2.2.2
    · rw [precedenceDifferences_eq_nil wellFormed distinct names]
      exact fun entry found kind named => (each entry found kind named).1
    · rw [roleDifferences_eq_nil wellFormed names]
      exact fun entry found kind named => (each entry found kind named).2.1

/-! ## Documents -/

theorem definition_injective : Function.Injective Entry.definition := by
  rintro ⟨name, fields⟩ ⟨other, otherFields⟩ same
  simpa [Entry.definition] using same

theorem tokens_of_field? {document listing : Value}
    (given : document.field? "tokens" = some listing) : tokens document = .ok listing := by
  cases document with
  | object fields =>
    rw [Value.field?] at given
    rw [tokens, given, Option.getD_some]
  | _ => simp [Value.field?] at given

theorem nodup_names {document : Value} (distinct : document.namesDistinct = true)
    {entries : List Entry}
    (given : document.field? "tokens" = some (.object (entries.map Entry.definition))) :
    (entries.map Entry.name).Nodup := by
  have own := Value.namesDistinct_of_field? distinct given
  rw [Value.namesDistinct, Bool.and_eq_true, decide_eq_true_iff, List.map_map] at own
  exact own.1

/-- The problems of a valid document are what its entries differ in from the language. -/
theorem problems_of_valid {validate : Validator} {given document : Value}
    (valid : validate given document = .valid) :
    problems validate given document =
      (do differences (← definitionsOf (← tokens document))) := by
  rw [problems, formLines_eq_nil.mpr valid]
  rfl

/-- Of a document that is not valid no more is said than what its form is like. -/
theorem problems_of_not_valid {validate : Validator} {given document : Value}
    (invalid : validate given document ≠ .valid) :
    problems validate given document = formLines validate given document := by
  cases said : formLines validate given document with
  | error failure => rw [problems, said]; rfl
  | ok lines =>
    rw [problems, said]
    cases lines with
    | nil => exact absurd (formLines_eq_nil.mp said) invalid
    | cons line lines => rfl

/-- A document without a problem is valid. -/
theorem valid_of_problems {validate : Validator} {given document : Value}
    (silent : problems validate given document = .ok []) : validate given document = .valid := by
  by_contra invalid
  rw [problems_of_not_valid invalid] at silent
  exact invalid (formLines_eq_nil.mp silent)

section
variable {validate : Validator} (implements : validate.Implements schemaDocument)
  {document : Value}
include implements

/-- A document without a problem has the form of a registry. -/
theorem holds_of_problems (silent : problems validate schemaDocument document = .ok []) :
    schema.Holds document :=
  (valid_iff_holds implements).mp (valid_of_problems silent)

/-- The problems of a document of the right form are the differences of its entries. -/
theorem problems_of_holds (holds : schema.Holds document) {entries : List Entry}
    (given : document.field? "tokens" = some (.object (entries.map Entry.definition))) :
    problems validate schemaDocument document = differences (entries.map Entry.definition) := by
  rw [problems_of_valid ((valid_iff_holds implements).mpr holds), tokens_of_field? given]
  rfl

/-- A document that lists entries under different names has no problem when the schema holds for it
and the entries agree with the language. -/
theorem problems_eq_nil_of_nodup {entries : List Entry}
    (given : document.field? "tokens" = some (.object (entries.map Entry.definition)))
    (distinct : (entries.map Entry.name).Nodup) :
    problems validate schemaDocument document = .ok []
      ↔ schema.Holds document ∧ Agrees entries := by
  have wellFormed (holds : schema.Holds document) : ∀ entry ∈ entries, entry.WellFormed := by
    obtain ⟨others, othersGiven, wellFormed⟩ := exists_entries_of_holds holds
    have same := Value.object.inj (Option.some.inj (given.symm.trans othersGiven))
    obtain rfl := List.map_injective_iff.mpr definition_injective same
    exact wellFormed
  constructor
  · intro silent
    have holds := holds_of_problems implements silent
    rw [problems_of_holds implements holds given,
      differences_eq_nil (wellFormed holds) distinct] at silent
    exact ⟨holds, silent⟩
  · rintro ⟨holds, agrees⟩
    rw [problems_of_holds implements holds given]
    exact (differences_eq_nil (wellFormed holds) distinct).mpr agrees

/-- A document has no problem when it conforms. -/
theorem problems_eq_nil (distinct : document.namesDistinct = true) :
    problems validate schemaDocument document = .ok [] ↔ Conforms document := by
  constructor
  · intro silent
    obtain ⟨entries, given, -⟩ := exists_entries_of_holds (holds_of_problems implements silent)
    obtain ⟨holds, agrees⟩ :=
      (problems_eq_nil_of_nodup implements given (nodup_names distinct given)).mp silent
    exact ⟨holds, entries, given, agrees⟩
  · rintro ⟨holds, entries, given, agrees⟩
    exact (problems_eq_nil_of_nodup implements given (nodup_names distinct given)).mpr
      ⟨holds, agrees⟩

end

/-! ## Reports -/

/-- The category of an entry as a text. -/
def Entry.categoryText (entry : Entry) : String :=
  match entry.category? with
  | some (.string text) => text
  | _ => ""

/-- The binding power of an entry as a text, if it is given. -/
def Entry.precedenceText? (entry : Entry) : Option String :=
  match entry.precedence? with
  | some (.string text) => some text
  | _ => none

/-- Texts in order with the number of their occurrences. -/
def counts (texts : List String) : List (String × Nat) :=
  (Text.sorted texts).map fun text => (text, texts.count text)

theorem labelsOf_definition {entry : Entry} (wellFormed : entry.WellFormed) :
    labelsOf entry.definition
      = .ok (.text entry.categoryText, entry.precedenceText?.map .text) := by
  obtain ⟨category, categorized⟩ := wellFormed.category
  rw [labelsOf, entryOf_definition, Entry.categoryText, Entry.precedenceText?]
  cases given : entry.precedence? with
  | none => simp [bind, Except.bind, categorized, given, Label.ofValue, pure, Except.pure]
  | some value =>
    obtain ⟨text, rfl⟩ := wellFormed.precedence value given
    simp [bind, Except.bind, categorized, given, Label.ofValue, pure, Except.pure, Functor.map,
      Except.map]

/-- Well-formed entries are counted by the texts of their fields. -/
theorem ofDefinitions_definition {entries : List Entry}
    (wellFormed : ∀ entry ∈ entries, entry.WellFormed) :
    Summary.ofDefinitions (entries.map Entry.definition)
      = .ok ⟨entries.length, counts (entries.map Entry.categoryText),
          counts (entries.filterMap Entry.precedenceText?)⟩ := by
  have walked : (entries.map Entry.definition).mapM labelsOf = .ok (entries.map fun entry =>
      (.text entry.categoryText, entry.precedenceText?.map .text)) := by
    rw [List.mapM_map]
    exact mapM_eq_ok_map fun entry found => labelsOf_definition (wellFormed entry found)
  have categories : (entries.map fun entry =>
        (Label.text entry.categoryText, entry.precedenceText?.map Label.text)).map Prod.fst
      = (entries.map Entry.categoryText).map .text := by
    simp
  have precedences : (entries.map fun entry =>
        (Label.text entry.categoryText, entry.precedenceText?.map Label.text)).filterMap Prod.snd
      = (entries.filterMap Entry.precedenceText?).map .text := by
    rw [List.filterMap_map, List.map_filterMap]
    rfl
  rw [Summary.ofDefinitions, walked]
  simp only [bind, Except.bind, categories, precedences, tally_text, List.length_map]
  rfl

theorem Report.exitCode_eq_zero {report : Report} :
    report.exitCode = 0 ↔ report.passed = true := by
  rw [Report.exitCode]
  cases report.passed <;> decide

/-- A report ends with success when there was no problem to report. -/
theorem report_passed {validate : Validator} (implements : validate.Implements schemaDocument)
    {registryPath schemaPath : String} {document : Value} :
    (∃ report, Report.of validate registryPath schemaPath (.found document)
        (.found schemaDocument) = .ok report ∧ report.exitCode = 0) ↔
      problems validate schemaDocument document = .ok [] := by
  simp only [Report.of, Report.ofContent]
  constructor
  · rintro ⟨report, made, success⟩
    obtain ⟨lines, found, made⟩ := bind_eq_ok.mp made
    obtain ⟨_, _, made⟩ := bind_eq_ok.mp made
    obtain ⟨_, _, made⟩ := bind_eq_ok.mp made
    obtain ⟨_, _, made⟩ := bind_eq_ok.mp made
    obtain rfl := Except.ok.inj made
    rw [Report.exitCode_eq_zero, List.isEmpty_iff] at success
    rwa [success] at found
  · intro silent
    obtain ⟨entries, given, wellFormed⟩ :=
      exists_entries_of_holds (holds_of_problems implements silent)
    rw [silent, tokens_of_field? given]
    simp only [bind, Except.bind, countedDefinitions, ofDefinitions_definition wellFormed]
    exact ⟨_, rfl, rfl⟩

/-- By any validator that goes by what the schema means, a document, the names in each of its
objects being different as they always are, is accepted just when it conforms to the language.
Accepted means that the checks end without a problem, and likewise that a report on it is made and
ends with success. -/
theorem accepted_iff_conforms {validate : Validator}
    (implements : validate.Implements schemaDocument) {document : Value}
    (distinct : document.namesDistinct = true) :
    (problems validate schemaDocument document = .ok [] ↔ Conforms document) ∧
      ∀ registryPath schemaPath,
        (∃ report, Report.of validate registryPath schemaPath (.found document)
            (.found schemaDocument) = .ok report ∧ report.exitCode = 0) ↔ Conforms document :=
  ⟨problems_eq_nil implements distinct,
    fun _ _ => (report_passed implements).trans (problems_eq_nil implements distinct)⟩

/-- The standard registry conforms, so a report on it ends with success, wherever it is read. -/
theorem accepted_iff_conforms_standard :
    Validator.byRules.Implements schemaDocument ∧ standard.namesDistinct = true ∧
      Conforms standard ∧
      ∀ registryPath schemaPath, ∃ report,
        Report.of .byRules registryPath schemaPath (.found standard) (.found schemaDocument)
            = .ok report ∧ report.exitCode = 0 := by
  have implements := Validator.byRules_implements
  have distinct : standard.namesDistinct = true := by decide
  obtain ⟨checked, reported⟩ := accepted_iff_conforms implements distinct
  have conforms : Conforms standard := checked.mp (by decide +kernel)
  exact ⟨implements, distinct, conforms, fun _ _ => (reported _ _).mpr conforms⟩

end MonkeyLang.Registry
