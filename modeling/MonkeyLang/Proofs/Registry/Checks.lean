import MonkeyLang.Proofs.Registry.Shape
import MonkeyLang.Registry.Agreement
import Mathlib.Data.List.Forall2

/-!
# What the checks find

Each check of a registry gives no line in exactly one case, and this case is a fact about the
entries. A check that fails gives no lines either, but it does not count as one without a line:
only the check of the reserved words can fail on well-formed entries, and does when one of them
gives no lexeme.
-/
namespace MonkeyLang

theorem Text.sorted_eq_nil {texts : List String} : sorted texts = [] ↔ texts = [] := by
  simp only [List.eq_nil_iff_forall_not_mem, mem_sorted]

namespace Registry

theorem any_same {texts : List String} {text : String} :
    (texts.map Label.text).any (Label.text text).same = texts.contains text := by
  rw [List.any_map, List.contains_eq_any_beq]
  rfl

section Walks
variable {α β : Type}

theorem bind_eq_ok {first : Except Failure α} {next : α → Except Failure β} {result : β} :
    (first >>= next) = .ok result ↔ ∃ value, first = .ok value ∧ next value = .ok result := by
  cases first <;> simp [bind, Except.bind]

/-- A walk over a list succeeds when each step does. -/
theorem mapM_eq_ok {read : α → Except Failure β} {items : List α} {results : List β} :
    items.mapM read = .ok results
      ↔ List.Forall₂ (fun item result => read item = .ok result) items results := by
  induction items generalizing results with
  | nil => simp [pure, Except.pure, eq_comm]
  | cons item items ih =>
    simp only [List.mapM_cons, bind_eq_ok, List.forall₂_cons_left_iff, ih]
    constructor
    · rintro ⟨result, first, others, rest, same⟩
      exact ⟨result, others, first, rest, (Except.ok.inj same).symm⟩
    · rintro ⟨result, others, first, rest, rfl⟩
      exact ⟨result, first, others, rest, rfl⟩

/-- A walk of which each step has a known result. -/
theorem mapM_eq_ok_map {read : α → Except Failure β} {result : α → β} {items : List α}
    (each : ∀ item ∈ items, read item = .ok (result item)) :
    items.mapM read = .ok (items.map result) :=
  mapM_eq_ok.mpr (List.forall₂_map_right_iff.mpr (List.forall₂_same.mpr each))

theorem exists_of_mapM {read : α → Except Failure β} {items : List α} {results : List β}
    (walked : items.mapM read = .ok results) {item : α} (found : item ∈ items) :
    ∃ result ∈ results, read item = .ok result := by
  rw [mapM_eq_ok] at walked
  induction walked with
  | nil => exact absurd found List.not_mem_nil
  | cons first rest ih =>
    rcases List.mem_cons.mp found with rfl | later
    · exact ⟨_, .head _, first⟩
    · obtain ⟨result, member, read⟩ := ih later
      exact ⟨result, .tail _ member, read⟩

/-- A walk has one result throughout when each step has it. -/
theorem mapM_quiet {read : α → Except Failure β} {quiet : β} {items : List α} :
    (∃ results, items.mapM read = .ok results ∧ ∀ result ∈ results, result = quiet)
      ↔ ∀ item ∈ items, read item = .ok quiet := by
  constructor
  · rintro ⟨results, walked, same⟩
    rw [mapM_eq_ok] at walked
    induction walked with
    | nil => simp
    | cons first rest ih =>
      rw [List.forall_mem_cons] at same ⊢
      exact ⟨same.1 ▸ first, ih same.2⟩
  · intro each
    exact ⟨items.map fun _ => quiet, mapM_eq_ok_map each, by simp⟩

end Walks

/-! ## Names -/

theorem mem_names {name : String} :
    name ∈ Kind.all.map Kind.name ↔ ∃ kind : Kind, kind.name = name := by
  simp [Kind.mem_all]

theorem labels_definition (entries : List Entry) :
    (entries.map Entry.definition).map (fun definition => Label.text definition.1)
      = (entries.map Entry.name).map .text := by
  simp [Entry.definition]

theorem mapM_text {β : Type} (read : Label → Except Failure β) {result : String → β}
    (each : ∀ text, read (.text text) = .ok (result text)) (texts : List String) :
    (texts.map Label.text).mapM read = .ok (texts.map result) := by
  rw [List.mapM_map]
  exact mapM_eq_ok_map fun text _ => each text

/-- The check of the names lists the kinds without an entry, and the entries without a kind. -/
theorem nameDifferences_text (names : List String) :
    nameDifferences (names.map .text) = .ok
      ((Text.sorted ((Kind.all.map Kind.name).filter (!names.contains ·))).map
          (fun name => "TokenKind." ++ name ++ " is missing from the registry") ++
        (Text.sorted (names.filter (!(Kind.all.map Kind.name).contains ·))).map
          (fun name => "Registry entry '" ++ name ++ "' is not a TokenKind")) := by
  have unknown : (names.map Label.text).filter (fun name =>
        !(Kind.all.map Kind.name).any fun text => name.same (.text text))
      = (names.filter (!(Kind.all.map Kind.name).contains ·)).map .text := by
    rw [List.filter_map]
    rfl
  have lines := mapM_text unknownName (fun _ => rfl)
    (Text.sorted (names.filter (!(Kind.all.map Kind.name).contains ·)))
  rw [nameDifferences, unknown, Label.gathered_text, Label.ordered_text]
  simp only [any_same, bind, Except.bind, pure, Except.pure, lines]

/-- The check of the names is silent when these are the names of the token kinds. -/
theorem nameDifferences_eq_nil {names : List String} :
    nameDifferences (names.map .text) = .ok []
      ↔ ∀ name, name ∈ names ↔ ∃ kind : Kind, kind.name = name := by
  simp only [nameDifferences_text, Except.ok.injEq, List.append_eq_nil_iff, List.map_eq_nil_iff,
    Text.sorted_eq_nil, List.filter_eq_nil_iff, Bool.not_eq_true', Bool.not_eq_false,
    List.contains_iff_mem, mem_names]
  exact ⟨fun same name => ⟨same.2 name, same.1 name⟩,
    fun same => ⟨fun name => (same name).mpr, fun name => (same name).mp⟩⟩

/-! ## Reserved words -/

/-- The reserved word that an entry gives, with the name of the entry. -/
def Entry.word? (entry : Entry) : Option (String × String) :=
  match entry.isKeyword, entry.lexeme? with
  | true, some (.string text) => some (text, entry.name)
  | _, _ => none

theorem Entry.isKeyword_iff {entry : Entry} :
    entry.isKeyword = true ↔ entry.category? = some (.string "keyword") := by
  rw [Entry.isKeyword, Option.any_eq_true]
  simp only [Value.string_same, exists_eq_right]

theorem Entry.word?_eq_some {entry : Entry} {text name : String} :
    entry.word? = some (text, name) ↔ entry.isKeyword = true ∧
      entry.lexeme? = some (.string text) ∧ entry.name = name := by
  unfold Entry.word?
  split
  · rename_i keyword given
    simp [keyword, given]
  · rename_i other
    simp only [reduceCtorEq, false_iff]
    rintro ⟨keyword, given, -⟩
    exact other text keyword given

/-- Words as the checks compare them. -/
def labelled (words : List (String × String)) : List (Label × String) :=
  words.map fun word => (.text word.1, word.2)

/-- The reserved words of the language, with the names of their kinds, as texts. -/
def languageWords : List (String × String) :=
  Kind.keywords.map fun keyword => (keyword.1, keyword.2.name)

theorem reservedWords_eq : reservedWords = labelled languageWords := rfl

theorem nameOf?_labelled {words : List (String × String)} {text : String} :
    nameOf? (labelled words) (.text text)
      = (words.reverse.find? (·.1 == text)).map Prod.snd := by
  rw [nameOf?, labelled, ← List.map_reverse, List.find?_map, Option.map_map]
  rfl

theorem nameOf?_eq_none {words : List (String × String)} {text : String} :
    nameOf? (labelled words) (.text text) = none ↔ text ∉ words.map Prod.fst := by
  simp only [nameOf?_labelled, Option.map_eq_none_iff, List.find?_eq_none, List.mem_reverse,
    beq_iff_eq, List.mem_map, not_exists, not_and]

theorem mem_of_nameOf? {words : List (String × String)} {text name : String}
    (found : nameOf? (labelled words) (.text text) = some name) : (text, name) ∈ words := by
  rw [nameOf?_labelled, Option.map_eq_some_iff] at found
  obtain ⟨⟨other, _⟩, found, rfl⟩ := found
  obtain rfl : other = text := by simpa using List.find?_some found
  exact List.mem_reverse.mp (List.mem_of_find?_eq_some found)

theorem not_isNone_nameOf? {words : List (String × String)} {text : String} :
    ¬ (nameOf? (labelled words) (.text text)).isNone = true ↔ text ∈ words.map Prod.fst := by
  rw [Option.isNone_iff_eq_none, nameOf?_eq_none, not_not]

theorem wordsMissing_labelled (words others : List (String × String)) :
    wordsMissing (labelled words) (labelled others)
      = ((words.map Prod.fst).filter fun text =>
          (nameOf? (labelled others) (.text text)).isNone).map .text := by
  have texts : (labelled words).map Prod.fst = (words.map Prod.fst).map .text := by
    simp [labelled]
  rw [wordsMissing, texts, List.filter_map]
  rfl

theorem nameConflict_eq_none {words : List (String × String)} {text : String}
    (reserved : text ∈ languageWords.map Prod.fst) (given : text ∈ words.map Prod.fst) :
    nameConflict (labelled words) text = none
      ↔ nameOf? (labelled words) (.text text) = nameOf? reservedWords (.text text) := by
  have named {words : List (String × String)} (found : text ∈ words.map Prod.fst) :
      ∃ name, nameOf? (labelled words) (.text text) = some name :=
    Option.ne_none_iff_exists'.mp (mt nameOf?_eq_none.mp (not_not_intro found))
  obtain ⟨kind, kindFound⟩ := named reserved
  obtain ⟨name, nameFound⟩ := named given
  simp [nameConflict, reservedWords_eq, kindFound, nameFound, @eq_comm _ name]

/-- The check of the reserved words lists the words of one side alone, and those with two names. -/
theorem keywordLines_labelled (words : List (String × String)) :
    keywordLines (labelled words) = .ok
      ((Text.sorted (
          ((languageWords.map Prod.fst).filter fun text =>
            (nameOf? (labelled words) (.text text)).isNone) ++
          (words.map Prod.fst).filter fun text => (nameOf? reservedWords (.text text)).isNone)).map
          (fun text => "Keyword '" ++ text ++ "' is in only one of registry / KEYWORDS") ++
        (Text.sorted (languageWords.map Prod.fst)).filterMap
          (nameConflict (labelled words))) := by
  have lines := mapM_text onlyOneSide (fun _ => rfl) (Text.sorted (
    ((languageWords.map Prod.fst).filter fun text =>
      (nameOf? (labelled words) (.text text)).isNone) ++
    (words.map Prod.fst).filter fun text => (nameOf? reservedWords (.text text)).isNone))
  rw [keywordLines, reservedWords_eq, wordsMissing_labelled, wordsMissing_labelled,
    ← List.map_append, Label.gathered_text, Label.ordered_text]
  simp only [bind, Except.bind, pure, Except.pure, ← reservedWords_eq, lines]
  rfl

/-- The given words are those of the language when each word has one name on both sides. -/
theorem keywordLines_eq_nil {words : List (String × String)} :
    keywordLines (labelled words) = .ok []
      ↔ ∀ text, nameOf? (labelled words) (.text text) = nameOf? reservedWords (.text text) := by
  simp only [keywordLines_labelled, reservedWords_eq, Except.ok.injEq, List.append_eq_nil_iff,
    List.map_eq_nil_iff, Text.sorted_eq_nil, List.filter_eq_nil_iff, List.filterMap_eq_nil_iff,
    not_isNone_nameOf?, Text.mem_sorted]
  constructor
  · rintro ⟨⟨given, reserved⟩, agree⟩ text
    by_cases known : text ∈ languageWords.map Prod.fst
    · exact (nameConflict_eq_none known (given text known)).mp (agree text known)
    · rw [nameOf?_eq_none.mpr known, nameOf?_eq_none.mpr (mt (reserved text) known)]
  · intro same
    have texts (text : String) : text ∈ words.map Prod.fst ↔ text ∈ languageWords.map Prod.fst := by
      rw [← not_iff_not, ← nameOf?_eq_none, ← nameOf?_eq_none, same]
    refine ⟨⟨fun text => (texts text).mpr, fun text => (texts text).mp⟩, fun text known => ?_⟩
    exact (nameConflict_eq_none known ((texts text).mpr known)).mpr (same text)

theorem keywordOf?_definition {entry : Entry} (readable : entry.Readable)
    (given : entry.isKeyword = true → ∃ value, entry.lexeme? = some value) :
    keywordOf? entry.definition
      = .ok (entry.word?.map fun word => (.text word.1, word.2)) := by
  rw [keywordOf?, entryOf_definition]
  cases keyword : entry.isKeyword with
  | false => simp [bind, Except.bind, keyword, Entry.word?, pure, Except.pure]
  | true =>
    obtain ⟨value, found⟩ := given keyword
    obtain ⟨text, rfl⟩ := readable.lexeme value found
    simp [bind, Except.bind, keyword, found, Entry.word?, keywordOf, Label.ofValue, pure,
      Except.pure, Functor.map, Except.map]

/-- Entries that all give their lexemes have their reserved words compared with the language's. -/
theorem keywordDifferences_definition {entries : List Entry}
    (readable : ∀ entry ∈ entries, entry.Readable)
    (given : ∀ entry ∈ entries, entry.isKeyword = true → ∃ value, entry.lexeme? = some value) :
    keywordDifferences (entries.map Entry.definition)
      = keywordLines (labelled (entries.filterMap Entry.word?)) := by
  have walked : (entries.map Entry.definition).mapM keywordOf?
      = .ok (entries.map fun entry => entry.word?.map fun word => (.text word.1, word.2)) := by
    rw [List.mapM_map]
    exact mapM_eq_ok_map fun entry found =>
      keywordOf?_definition (readable entry found) (given entry found)
  have words : (entries.map fun entry =>
        entry.word?.map fun word => (Label.text word.1, word.2)).filterMap id
      = labelled (entries.filterMap Entry.word?) := by
    rw [List.filterMap_map, labelled, List.map_filterMap]
    rfl
  rw [keywordDifferences, walked, ← words]
  rfl

/-- The check of the reserved words is silent when each of them gives its lexeme and the words are
those of the language. -/
theorem keywordDifferences_eq_nil {entries : List Entry}
    (wellFormed : ∀ entry ∈ entries, entry.WellFormed) :
    keywordDifferences (entries.map Entry.definition) = .ok []
      ↔ (∀ entry ∈ entries, entry.isKeyword = true → ∃ value, entry.lexeme? = some value) ∧
        ∀ text, nameOf? (labelled (entries.filterMap Entry.word?)) (.text text)
          = nameOf? reservedWords (.text text) := by
  have readable entry (found : entry ∈ entries) := (wellFormed entry found).readable
  constructor
  · intro silent
    have given : ∀ entry ∈ entries, entry.isKeyword = true →
        ∃ value, entry.lexeme? = some value := by
      intro entry found keyword
      rw [keywordDifferences, List.mapM_map] at silent
      obtain ⟨results, walked, -⟩ := bind_eq_ok.mp silent
      obtain ⟨result, -, read⟩ := exists_of_mapM walked found
      cases given : entry.lexeme? with
      | some value => exact ⟨value, rfl⟩
      | none =>
        simp [keywordOf?, keyword, keywordOf, given, bind, Except.bind, Functor.map,
          Except.map] at read
    rw [keywordDifferences_definition readable given, keywordLines_eq_nil] at silent
    exact ⟨given, silent⟩
  · rintro ⟨given, same⟩
    rw [keywordDifferences_definition readable given, keywordLines_eq_nil]
    exact same

/-! ## Lexemes -/

theorem lexemeDifference_eq_none {entry : Entry} (wellFormed : entry.WellFormed) :
    lexemeDifference entry.definition = .ok none
      ↔ ∀ text, entry.lexeme? = some (.string text) → lexedKinds text = [entry.name] := by
  rw [lexemeDifference, entryOf_definition]
  cases given : entry.lexeme? with
  | none => simp [bind, Except.bind, given, pure, Except.pure]
  | some value =>
    obtain ⟨text, rfl⟩ := wellFormed.lexeme value given
    by_cases single : lexedKinds text = [entry.name] <;>
      simp [bind, Except.bind, given, pure, Except.pure, lexemeKinds, single]

/-- The check of the lexemes is silent when each of them is one token of its entry's kind. -/
theorem lexemeDifferences_eq_nil {entries : List Entry}
    (wellFormed : ∀ entry ∈ entries, entry.WellFormed) :
    lexemeDifferences (entries.map Entry.definition) = .ok []
      ↔ ∀ entry ∈ entries, ∀ text, entry.lexeme? = some (.string text) →
        lexedKinds text = [entry.name] := by
  rw [lexemeDifferences, bind_eq_ok]
  simp only [pure, Except.pure, Except.ok.injEq, List.filterMap_eq_nil_iff, id_eq, mapM_quiet,
    List.forall_mem_map]
  exact forall₂_congr fun entry found => lexemeDifference_eq_none (wellFormed entry found)

/-! ## Binding powers -/

/-- What the entries give as binding powers, by name. -/
def givenPrecedences (entries : List Entry) : List (String × Option Value) :=
  entries.map fun entry => (entry.name, entry.precedence?)

/-- Under a name that occurs once, what stands there is found. -/
theorem lookup_eq_some_of_nodup {α : Type} {fields : List (String × α)}
    (distinct : (fields.map Prod.fst).Nodup) {name : String} {value : α} :
    fields.lookup name = some value ↔ (name, value) ∈ fields := by
  constructor
  · intro found
    obtain ⟨before, after, rfl, -⟩ := List.lookup_eq_some_iff.mp found
    simp
  · intro member
    obtain ⟨before, after, rfl⟩ := List.append_of_mem member
    rw [List.map_append, List.nodup_append] at distinct
    refine List.lookup_eq_some_iff.mpr ⟨before, after, rfl, fun earlier listed => ?_⟩
    have differ := distinct.2.2 earlier.1 (List.mem_map_of_mem listed) name (by simp)
    simpa using Ne.symm differ

theorem names_givenPrecedences (entries : List Entry) :
    (givenPrecedences entries).map Prod.fst = entries.map Entry.name := by
  simp [givenPrecedences]

theorem lookup_givenPrecedences {entries : List Entry}
    (distinct : (entries.map Entry.name).Nodup) {entry : Entry} (found : entry ∈ entries) :
    (givenPrecedences entries).lookup entry.name = some entry.precedence? := by
  rw [← names_givenPrecedences] at distinct
  exact (lookup_eq_some_of_nodup distinct).mpr (List.mem_map_of_mem found)

theorem tablePrecedence_name (kind : Kind) :
    tablePrecedence kind.name
      = (kind.precedence?.map fun precedence => Value.string precedence.name).getD .null := by
  rw [tablePrecedence, Kind.ofName?_name, Option.bind_some]
  cases kind.precedence? <;> rfl

/-- The line about an entry's binding power is left out when it is that of the entry's kind. -/
theorem precedenceDifference_eq_none {entries : List Entry}
    (distinct : (entries.map Entry.name).Nodup) {entry : Entry} (found : entry ∈ entries)
    (wellFormed : entry.WellFormed) {kind : Kind} (named : kind.name = entry.name) :
    precedenceDifference (givenPrecedences entries) entry.name = .ok none
      ↔ entry.precedence? = kind.precedence?.map fun precedence => .string precedence.name := by
  rw [precedenceDifference, lookup_givenPrecedences distinct found, ← named, tablePrecedence_name]
  have texts := wellFormed.precedence
  cases given : entry.precedence? with
  | none =>
    cases kind.precedence? <;>
      simp [Value.same, Value.magnitude?, bind, Except.bind, pure, Except.pure]
  | some value =>
    obtain ⟨text, rfl⟩ := texts value given
    cases kind.precedence? <;>
      simp [Value.same, Value.magnitude?, @eq_comm _ text, bind, Except.bind, pure, Except.pure]

theorem mem_boundNames {name : String} :
    name ∈ boundNames ↔ ∃ kind : Kind, kind.precedence?.isSome = true ∧ kind.name = name := by
  simp [boundNames, Kind.mem_all]

theorem mem_givenNames {entries : List Entry} {name : String} :
    name ∈ ((givenPrecedences entries).filter (·.2.isSome)).map Prod.fst
      ↔ ∃ entry ∈ entries, entry.precedence?.isSome = true ∧ entry.name = name := by
  simp [givenPrecedences, List.filter_map, and_assoc]

/-- The check of the binding powers compares each name that has one on either side. -/
theorem precedenceDifferences_definition (entries : List Entry) :
    precedenceDifferences (entries.map Entry.definition) = (do
      let lines ← (Text.sorted (boundNames ++
        ((givenPrecedences entries).filter (·.2.isSome)).map Prod.fst)).mapM
          (precedenceDifference (givenPrecedences entries))
      return lines.filterMap id) := by
  have walked : (entries.map Entry.definition).mapM givenPrecedence
      = .ok (givenPrecedences entries) := by
    rw [List.mapM_map]
    exact mapM_eq_ok_map fun _ _ => rfl
  rw [precedenceDifferences, walked]
  rfl

theorem precedenceDifferences_eq_nil_iff {entries : List Entry} :
    precedenceDifferences (entries.map Entry.definition) = .ok []
      ↔ ∀ name, (∃ kind : Kind, kind.precedence?.isSome = true ∧ kind.name = name) ∨
        (∃ entry ∈ entries, entry.precedence?.isSome = true ∧ entry.name = name) →
        precedenceDifference (givenPrecedences entries) name = .ok none := by
  rw [precedenceDifferences_definition, bind_eq_ok]
  simp only [pure, Except.pure, Except.ok.injEq, List.filterMap_eq_nil_iff, id_eq, mapM_quiet,
    Text.mem_sorted, List.mem_append, mem_boundNames, mem_givenNames]

/-- The check of the binding powers is silent when those of the entries are those of their kinds,
provided that there is an entry for each kind and for nothing else. -/
theorem precedenceDifferences_eq_nil {entries : List Entry}
    (wellFormed : ∀ entry ∈ entries, entry.WellFormed)
    (distinct : (entries.map Entry.name).Nodup)
    (names : ∀ name, name ∈ entries.map Entry.name ↔ ∃ kind : Kind, kind.name = name) :
    precedenceDifferences (entries.map Entry.definition) = .ok []
      ↔ ∀ entry ∈ entries, ∀ kind : Kind, kind.name = entry.name →
        entry.precedence? = kind.precedence?.map fun precedence => .string precedence.name := by
  rw [precedenceDifferences_eq_nil_iff]
  constructor
  · intro silent entry found kind named
    rcases Bool.eq_false_or_eq_true kind.precedence?.isSome with bound | unbound
    · exact (precedenceDifference_eq_none distinct found (wellFormed entry found) named).mp
        (silent entry.name (.inl ⟨kind, bound, named⟩))
    · rcases Bool.eq_false_or_eq_true entry.precedence?.isSome with given | absent
      · exact (precedenceDifference_eq_none distinct found (wellFormed entry found) named).mp
          (silent entry.name (.inr ⟨entry, found, given, rfl⟩))
      · rw [Option.isSome_eq_false_iff, Option.isNone_iff_eq_none] at unbound absent
        rw [absent, unbound, Option.map_none]
  · intro agree name compared
    have listed : name ∈ entries.map Entry.name := by
      rcases compared with ⟨kind, -, named⟩ | ⟨entry, found, -, named⟩
      · exact (names name).mpr ⟨kind, named⟩
      · exact named ▸ List.mem_map_of_mem found
    obtain ⟨kind, named⟩ := (names name).mp listed
    obtain ⟨entry, found, rfl⟩ := List.mem_map.mp listed
    exact (precedenceDifference_eq_none distinct found (wellFormed entry found) named).mpr
      (agree entry found kind named)

/-! ## Roles -/

/-- A role that an entry lists. -/
def Entry.HasRole (entry : Entry) (role : String) : Prop :=
  ∃ items, entry.field? "roles" = some (.array items) ∧ .string role ∈ items

theorem exists_roles {entry : Entry} (readable : entry.Readable) :
    ∃ texts : List String, entry.roles = .ok (texts.map .text) ∧
      ∀ role, role ∈ texts ↔ entry.HasRole role := by
  have listed (texts : List String) :
      Label.listOf (.array (texts.map .string)) = .ok (texts.map .text) := by
    rw [Label.listOf, List.mapM_map]
    exact mapM_eq_ok_map fun _ _ => rfl
  cases given : entry.field? "roles" with
  | none =>
    refine ⟨[], ?_, fun role => ?_⟩
    · rw [Entry.roles, given]
      exact listed []
    · simp [Entry.HasRole, given]
  | some value =>
    obtain ⟨texts, rfl⟩ := readable.roles value given
    refine ⟨texts, ?_, fun role => ?_⟩
    · rw [Entry.roles, given]
      exact listed texts
    · simp [Entry.HasRole, given]

theorem roleDifference_eq_nil {entry : Entry} (wellFormed : entry.WellFormed) {kind : Kind}
    (named : kind.name = entry.name) :
    roleDifference entry.definition = .ok []
      ↔ (entry.HasRole "prefix" ↔ kind.opening?.isSome = true) ∧
        (entry.HasRole "infix" ↔ kind.continuation?.isSome = true) ∧
        (entry.HasRole "infix" → entry.precedence?.isSome = true) := by
  obtain ⟨texts, read, roles⟩ := exists_roles wellFormed.readable
  have starts : startsExpression entry.name = kind.opening?.isSome := by
    rw [startsExpression, ← named, Kind.ofName?_name, Option.bind_some]
  have continues : continuesExpression entry.name = kind.continuation?.isSome := by
    rw [continuesExpression, ← named, Kind.ofName?_name, Option.bind_some]
  rw [roleDifference, entryOf_definition, ← roles, ← roles]
  simp only [bind, Except.bind, read, any_same, starts, continues]
  have decided (role : String) (plays : Bool) :
      texts.contains role = plays ↔ (role ∈ texts ↔ plays = true) := by
    rw [Bool.eq_iff_iff, List.contains_iff_mem]
  simp only [pure, Except.pure, Except.ok.injEq, List.append_eq_nil_iff, ite_eq_left_iff,
    ite_eq_right_iff, List.cons_ne_nil, imp_false, not_not, Bool.and_eq_true, not_and, decided,
    iff_true, Option.isNone_iff_eq_none, Option.isSome_iff_ne_none, ne_eq, and_assoc]

/-- The check of the roles is silent when those of each entry are the roles of its kind, and an
entry with the role of a continuation has a binding power. -/
theorem roleDifferences_eq_nil {entries : List Entry}
    (wellFormed : ∀ entry ∈ entries, entry.WellFormed)
    (names : ∀ name, name ∈ entries.map Entry.name ↔ ∃ kind : Kind, kind.name = name) :
    roleDifferences (entries.map Entry.definition) = .ok []
      ↔ ∀ entry ∈ entries, ∀ kind : Kind, kind.name = entry.name →
        (entry.HasRole "prefix" ↔ kind.opening?.isSome = true) ∧
        (entry.HasRole "infix" ↔ kind.continuation?.isSome = true) ∧
        (entry.HasRole "infix" → entry.precedence?.isSome = true) := by
  rw [roleDifferences, bind_eq_ok]
  simp only [pure, Except.pure, Except.ok.injEq, List.flatten_eq_nil_iff, mapM_quiet,
    List.forall_mem_map]
  refine forall₂_congr fun entry found => ⟨fun silent kind named => ?_, fun agree => ?_⟩
  · exact (roleDifference_eq_nil (wellFormed entry found) named).mp silent
  · obtain ⟨kind, named⟩ := (names entry.name).mp (List.mem_map_of_mem found)
    exact (roleDifference_eq_nil (wellFormed entry found) named).mpr (agree kind named)

end Registry

end MonkeyLang
