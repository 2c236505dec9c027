import MonkeyLang.Proofs.Registry.Completion

/-!
# What can be counted

The summary of a registry counts labels of any sort but can show texts alone, and it is made before
anything is known about the entries. It comes about in exactly one case: the entries are objects,
and what they give as category or as binding power are texts. Nothing else in an entry matters, and
nothing in it has to be there.
-/
namespace MonkeyLang.Registry

namespace Label

/-- A label that is a text. -/
def IsText (label : Label) : Prop := ∃ content, label = text content

theorem isText_of_same {label other : Label} (counted : label.same other = true)
    (isText : other.IsText) : label.IsText := by
  obtain ⟨content, rfl⟩ := isText
  cases label with
  | text own => exact ⟨own, rfl⟩
  | _ => simp [same, magnitude?] at counted

theorem exists_content_iff {label : Label} :
    (∃ content, label.content = .ok content) ↔ label.IsText := by
  cases label <;> simp [Label.content, IsText]

/-- A value is read as a text just when it is one. -/
theorem exists_isText_iff {value : Value} :
    (∃ label, ofValue value = .ok label ∧ label.IsText) ↔ ∃ text, value = .string text := by
  cases value <;> simp [ofValue, IsText]

/-- Labels in order that are all texts were put in order from texts. -/
theorem isText_of_insertOrdered {label : Label} {labels : List Label}
    (texts : ∀ member ∈ insertOrdered label labels, member.IsText) :
    label.IsText ∧ ∀ member ∈ labels, member.IsText := by
  induction labels with
  | nil => exact ⟨texts label (.head _), by simp⟩
  | cons first others ih =>
    rw [insertOrdered] at texts
    split at texts
    · rename_i counted
      obtain ⟨own, rest⟩ := List.forall_mem_cons.mp texts
      exact ⟨own, List.forall_mem_cons.mpr ⟨isText_of_same counted own, rest⟩⟩
    split at texts
    · obtain ⟨here, rest⟩ := List.forall_mem_cons.mp texts
      obtain ⟨own, later⟩ := ih rest
      exact ⟨own, List.forall_mem_cons.mpr ⟨here, later⟩⟩
    · exact List.forall_mem_cons.mp texts

theorem isText_of_ascending {labels : List Label}
    (texts : ∀ member ∈ ascending labels, member.IsText) : ∀ member ∈ labels, member.IsText := by
  induction labels with
  | nil => simp
  | cons label labels ih =>
    obtain ⟨own, rest⟩ := isText_of_insertOrdered texts
    exact List.forall_mem_cons.mpr ⟨own, ih rest⟩

theorem ordered_eq_ok {labels inOrder : List Label} (found : ordered labels = .ok inOrder) :
    inOrder = ascending labels := by
  unfold ordered at found
  split at found
  · simp at found
  · exact (Except.ok.inj found).symm

end Label

theorem exists_texts {labels : List Label} (texts : ∀ label ∈ labels, label.IsText) :
    ∃ contents : List String, labels = contents.map .text := by
  have each : ∀ label ∈ labels, ∃ content, True ∧ label = .text content := fun label member =>
    (texts label member).imp fun _ same => ⟨trivial, same⟩
  obtain ⟨contents, -, same⟩ := exists_parts each
  exact ⟨contents, same⟩

/-- Labels can be counted just when they are texts. -/
theorem exists_tally_iff {labels : List Label} :
    (∃ counts, tally labels = .ok counts) ↔ ∀ label ∈ labels, label.IsText := by
  constructor
  · rintro ⟨counts, counted⟩
    obtain ⟨inOrder, ordered, shown⟩ := bind_eq_ok.mp counted
    obtain rfl := Label.ordered_eq_ok ordered
    refine Label.isText_of_ascending fun label member => ?_
    obtain ⟨count, -, row⟩ := exists_of_mapM shown member
    obtain ⟨content, isContent, -⟩ := bind_eq_ok.mp row
    exact Label.exists_content_iff.mp ⟨content, isContent⟩
  · intro texts
    obtain ⟨contents, rfl⟩ := exists_texts texts
    exact ⟨_, tally_text contents⟩

/-! ## Entries -/

/-- The category of an entry and its binding power are texts, where they are given. -/
structure Entry.Countable (entry : Entry) : Prop where
  category : ∀ value, entry.category? = some value → ∃ text, value = .string text
  precedence : ∀ value, entry.precedence? = some value → ∃ text, value = .string text

theorem entryOf_eq_ok {definition : Definition} {entry : Entry} :
    entryOf definition = .ok entry ↔ definition = entry.definition := by
  constructor
  · obtain ⟨name, value⟩ := definition
    intro isEntry
    cases value <;> simp [entryOf] at isEntry
    rw [← isEntry, Entry.definition]
  · rintro rfl
    exact entryOf_definition entry

/-- The category of a definition and its binding power are read as texts just when the definition is
that of a countable entry. -/
theorem exists_labelsOf_iff {definition : Definition} :
    (∃ labels, labelsOf definition = .ok labels ∧ labels.1.IsText ∧
        ∀ label ∈ labels.2, label.IsText)
      ↔ ∃ entry : Entry, entry.Countable ∧ definition = entry.definition := by
  constructor
  · rintro ⟨⟨category, precedence⟩, read, isText, isTextToo⟩
    obtain ⟨entry, isEntry, read⟩ := bind_eq_ok.mp read
    obtain ⟨_, categorized, read⟩ := bind_eq_ok.mp read
    obtain ⟨_, bound, same⟩ := bind_eq_ok.mp read
    obtain ⟨rfl, rfl⟩ := Prod.mk.inj (Except.ok.inj same)
    refine ⟨entry, ⟨fun value given => ?_, fun value given => ?_⟩, entryOf_eq_ok.mp isEntry⟩
    · rw [given] at categorized
      exact Label.exists_isText_iff.mp ⟨_, categorized, isText⟩
    · rw [given] at bound
      cases labelled : Label.ofValue value with
      | error failure => simp [labelled, Functor.map, Except.map] at bound
      | ok label =>
        obtain rfl : some label = _ := by simpa [labelled, Functor.map, Except.map] using bound
        exact Label.exists_isText_iff.mp ⟨label, labelled, isTextToo label rfl⟩
  · rintro ⟨entry, countable, rfl⟩
    have categorized : ∃ label,
        Label.ofValue (entry.category?.getD (.string "unknown")) = .ok label ∧ label.IsText := by
      cases given : entry.category? with
      | none => exact ⟨_, rfl, _, rfl⟩
      | some value => exact Label.exists_isText_iff.mpr (countable.category value given)
    have bound : ∃ label?, entry.precedence?.mapM Label.ofValue = .ok label? ∧
        ∀ label ∈ label?, label.IsText := by
      cases given : entry.precedence? with
      | none => exact ⟨none, rfl, by simp⟩
      | some value =>
        obtain ⟨label, read, isText⟩ :=
          Label.exists_isText_iff.mpr (countable.precedence value given)
        exact ⟨some label, by simp [read, Functor.map, Except.map], by simpa using isText⟩
    obtain ⟨category, categorized, isText⟩ := categorized
    obtain ⟨precedence, bound, isTextToo⟩ := bound
    refine ⟨(category, precedence), ?_, isText, isTextToo⟩
    rw [labelsOf, entryOf_definition]
    simp only [bind, Except.bind, categorized, bound, pure, Except.pure]

/-- Definitions can be counted just when they are those of countable entries. -/
theorem exists_summary_iff {definitions : List Definition} :
    (∃ summary, Summary.ofDefinitions definitions = .ok summary)
      ↔ ∃ entries : List Entry, (∀ entry ∈ entries, entry.Countable) ∧
        definitions = entries.map Entry.definition := by
  constructor
  · rintro ⟨summary, made⟩
    obtain ⟨labels, walked, made⟩ := bind_eq_ok.mp made
    obtain ⟨categories, categorized, made⟩ := bind_eq_ok.mp made
    obtain ⟨precedences, bound, made⟩ := bind_eq_ok.mp made
    have isText := exists_tally_iff.mp ⟨categories, categorized⟩
    have isTextToo := exists_tally_iff.mp ⟨precedences, bound⟩
    refine exists_parts fun definition found => exists_labelsOf_iff.mp ?_
    obtain ⟨own, member, read⟩ := exists_of_mapM walked found
    refine ⟨own, read, isText _ (List.mem_map_of_mem member), fun label given => ?_⟩
    exact isTextToo label (List.mem_filterMap.mpr ⟨own, member, given⟩)
  · rintro ⟨entries, countable, rfl⟩
    have each : ∀ definition ∈ entries.map Entry.definition, ∃ labels,
        labelsOf definition = .ok labels ∧ labels.1.IsText ∧ ∀ label ∈ labels.2, label.IsText :=
      List.forall_mem_map.mpr fun entry found =>
        exists_labelsOf_iff.mpr ⟨entry, countable entry found, rfl⟩
    obtain ⟨labels, walked, texts⟩ := exists_mapM_forall each
    obtain ⟨categories, categorized⟩ : ∃ counts, tally (labels.map Prod.fst) = .ok counts :=
      exists_tally_iff.mpr (List.forall_mem_map.mpr fun own member => (texts own member).1)
    obtain ⟨precedences, bound⟩ : ∃ counts, tally (labels.filterMap Prod.snd) = .ok counts := by
      refine exists_tally_iff.mpr fun label listed => ?_
      obtain ⟨own, member, given⟩ := List.mem_filterMap.mp listed
      exact (texts own member).2 label given
    rw [Summary.ofDefinitions, walked]
    simp only [bind, Except.bind, categorized, bound, pure, Except.pure]
    exact ⟨_, rfl⟩

/-! ## Documents -/

/-- The summary of a document. -/
def summaryOf (document : Value) : Except Failure Summary := do
  Summary.ofDefinitions (← countedDefinitions (← tokens document))

/-- A document that is an object, with entries that can be counted if it lists any. -/
def Countable (document : Value) : Prop :=
  ∃ fields, document = .object fields ∧ ∀ listing, fields.lookup "tokens" = some listing →
    ∃ entries : List Entry, (∀ entry ∈ entries, entry.Countable) ∧
      listing = .object (entries.map Entry.definition)

theorem countedDefinitions_eq_ok {listing : Value} {definitions : List Definition} :
    countedDefinitions listing = .ok definitions ↔ listing = .object definitions := by
  cases listing <;> simp [countedDefinitions]

/-- A document has a summary just when it is countable. -/
theorem exists_summaryOf_iff {document : Value} :
    (∃ summary, summaryOf document = .ok summary) ↔ Countable document := by
  constructor
  · rintro ⟨summary, made⟩
    obtain ⟨listing, found, made⟩ := bind_eq_ok.mp made
    obtain ⟨definitions, counted, made⟩ := bind_eq_ok.mp made
    obtain ⟨entries, countable, rfl⟩ := exists_summary_iff.mp ⟨summary, made⟩
    obtain rfl := countedDefinitions_eq_ok.mp counted
    cases document with
    | object fields =>
      refine ⟨fields, rfl, fun given lookup => ⟨entries, countable, ?_⟩⟩
      rw [tokens, lookup] at found
      exact Except.ok.inj found
    | _ => simp [tokens] at found
  · rintro ⟨fields, rfl, countable⟩
    cases given : fields.lookup "tokens" with
    | none =>
      rw [summaryOf, tokens, given]
      exact exists_summary_iff.mpr ⟨[], by simp, rfl⟩
    | some listing =>
      obtain ⟨entries, each, rfl⟩ := countable listing given
      rw [summaryOf, tokens, given]
      exact exists_summary_iff.mpr ⟨entries, each, rfl⟩

end MonkeyLang.Registry
