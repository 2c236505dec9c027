import MonkeyLang.Proofs.Registry.Counting
import Mathlib.Algebra.BigOperators.Group.List.Lemmas
import Mathlib.Algebra.GroupWithZero.Nat
import Mathlib.Data.List.Perm.Basic

/-!
# The order of the entries

A registry lists its entries in some order, and two orders of the same entries come to the same
verdict. What is put in order before it is shown has lost the order of the entries, and what is
found entry by entry is found in another order. The check of the reserved words alone looks at the
order: of several entries with one word it sees the last, and in another order it may give other
lines. But one word is lexed into one kind, so the check of the lexemes finds fault with all but one
of these entries, and the verdict stays.
-/
namespace MonkeyLang

theorem Text.nodup_sorted (texts : List String) : (sorted texts).Nodup :=
  (pairwise_sorted texts).imp fun before => before.2

/-- Sorted texts depend only on which texts there are. -/
theorem Text.sorted_congr {texts others : List String}
    (same : ∀ text, text ∈ texts ↔ text ∈ others) : sorted texts = sorted others := by
  have permuted : (sorted texts).Perm (sorted others) :=
    (List.perm_ext_iff_of_nodup (nodup_sorted texts) (nodup_sorted others)).mpr
      (by simpa using same)
  refine permuted.eq_of_pairwise (fun a b _ _ before after => ?_) (pairwise_sorted texts)
    (pairwise_sorted others)
  exact String.le_antisymm before.1 after.1

theorem Text.sorted_perm_dedup (texts : List String) : (sorted texts).Perm texts.dedup :=
  (List.perm_ext_iff_of_nodup (nodup_sorted texts) texts.nodup_dedup).mpr (by simp)

namespace Registry

/-- A walk over items in another order has the same results in another order. -/
theorem exists_perm_mapM {α β : Type} {read : α → Except Failure β} {items others : List α}
    (permuted : items.Perm others) {results : List β} (walked : items.mapM read = .ok results) :
    ∃ rearranged, others.mapM read = .ok rearranged ∧ results.Perm rearranged := by
  obtain ⟨rearranged, each, same⟩ :=
    List.perm_comp_forall₂ permuted.symm (mapM_eq_ok.mp walked)
  exact ⟨rearranged, mapM_eq_ok.mpr each, same.symm⟩

/-- What stands under a name does not depend on the order, if no name occurs twice. -/
theorem lookup_perm {α : Type} {fields others : List (String × α)} (permuted : fields.Perm others)
    (distinct : (fields.map Prod.fst).Nodup) (name : String) :
    fields.lookup name = others.lookup name := by
  have distinctToo : (others.map Prod.fst).Nodup := (permuted.map Prod.fst).nodup distinct
  refine Option.ext fun value => ?_
  rw [lookup_eq_some_of_nodup distinct, lookup_eq_some_of_nodup distinctToo, permuted.mem_iff]

theorem find?_map_snd {α : Type} (fields : List (String × α)) (name : String) :
    (fields.find? (·.1 == name)).map Prod.snd = fields.lookup name := by
  induction fields with
  | nil => rfl
  | cons field fields ih =>
    rw [List.find?_cons, List.lookup_cons, BEq.comm]
    split <;> simp_all

/-! ## Checks of two orders -/

/-- A check gives the same lines for two lists of entries. -/
def GivesSame (check : List Definition → Except Failure (List String))
    (entries others : List Entry) : Prop :=
  ∃ lines, check (entries.map Entry.definition) = .ok lines ∧
    check (others.map Entry.definition) = .ok lines

/-- A check gives the same lines for two lists of entries, perhaps in another order. -/
def GivesRearranged (check : List Definition → Except Failure (List String))
    (entries others : List Entry) : Prop :=
  ∃ lines rearranged, check (entries.map Entry.definition) = .ok lines ∧
    check (others.map Entry.definition) = .ok rearranged ∧ lines.Perm rearranged

section
variable {entries others : List Entry} (permuted : entries.Perm others)
include permuted

/-- A check of each entry by itself gives its lines in the order of the entries. -/
theorem givesRearranged_of_walk {β : Type} {read : Definition → Except Failure β}
    {gather : List β → List String}
    (gathered : ∀ results rearranged, results.Perm rearranged →
      (gather results).Perm (gather rearranged))
    (ends : ∃ lines, (return gather (← (entries.map Entry.definition).mapM read)) =
      (Except.ok lines : Except Failure (List String))) :
    GivesRearranged (fun definitions => do return gather (← definitions.mapM read))
      entries others := by
  obtain ⟨lines, found⟩ := ends
  obtain ⟨results, walked, same⟩ := bind_eq_ok.mp found
  obtain rfl := Except.ok.inj same
  obtain ⟨rearranged, otherWalked, order⟩ := exists_perm_mapM (permuted.map _) walked
  exact ⟨_, _, found, bind_eq_ok.mpr ⟨_, otherWalked, rfl⟩, gathered _ _ order⟩

theorem lexemeDifferences_perm (readable : ∀ entry ∈ entries, entry.Readable) :
    GivesRearranged lexemeDifferences entries others :=
  givesRearranged_of_walk permuted (fun _ _ order => order.filterMap id)
    (lexemeDifferences_ends readable)

theorem roleDifferences_perm (readable : ∀ entry ∈ entries, entry.Readable) :
    GivesRearranged roleDifferences entries others :=
  givesRearranged_of_walk permuted (fun _ _ order => order.flatten)
    (roleDifferences_ends readable)

theorem nameDifferences_perm :
    GivesSame (fun definitions => nameDifferences (definitions.map fun definition =>
      .text definition.1)) entries others := by
  have members (name : String) : name ∈ entries.map Entry.name ↔ name ∈ others.map Entry.name :=
    (permuted.map Entry.name).mem_iff
  have listed (name : String) :
      (entries.map Entry.name).contains name = (others.map Entry.name).contains name := by
    rw [Bool.eq_iff_iff, List.contains_iff_mem, List.contains_iff_mem, members]
  have found := nameDifferences_text (entries.map Entry.name)
  have otherFound := nameDifferences_text (others.map Entry.name)
  simp only [← listed] at otherFound
  rw [← Text.sorted_congr fun name => ((permuted.map Entry.name).filter _).mem_iff] at otherFound
  rw [← labels_definition] at found otherFound
  exact ⟨_, found, otherFound⟩

theorem precedenceDifferences_perm (distinct : (entries.map Entry.name).Nodup)
    (countable : ∀ entry ∈ entries, entry.Countable) :
    GivesSame precedenceDifferences entries others := by
  have given : (givenPrecedences entries).Perm (givenPrecedences others) := permuted.map _
  have same : precedenceDifference (givenPrecedences entries) =
      precedenceDifference (givenPrecedences others) := by
    funext name
    rw [← names_givenPrecedences] at distinct
    rw [precedenceDifference, precedenceDifference, lookup_perm given distinct name]
  have compared (name : String) : name ∈ boundNames ++
        ((givenPrecedences entries).filter (·.2.isSome)).map Prod.fst ↔
      name ∈ boundNames ++ ((givenPrecedences others).filter (·.2.isSome)).map Prod.fst := by
    simp only [List.mem_append, mem_givenNames, permuted.mem_iff]
  obtain ⟨lines, found⟩ := precedenceDifferences_ends fun entry member =>
    (countable entry member).precedence
  refine ⟨lines, found, ?_⟩
  rwa [precedenceDifferences_definition, ← same, ← Text.sorted_congr compared,
    ← precedenceDifferences_definition]

end

/-! ## Reserved words -/

theorem keywordLines_perm {words others : List (String × String)} (permuted : words.Perm others)
    (distinct : (words.map Prod.fst).Nodup) :
    keywordLines (labelled words) = keywordLines (labelled others) := by
  -- Of several entries with one word the last counts, so the words are looked up from the end.
  have backwards : words.reverse.Perm others.reverse :=
    words.reverse_perm.trans (permuted.trans others.reverse_perm.symm)
  have named (text : String) :
      nameOf? (labelled words) (.text text) = nameOf? (labelled others) (.text text) := by
    rw [nameOf?_labelled, nameOf?_labelled, find?_map_snd, find?_map_snd]
    refine lookup_perm backwards ?_ text
    rwa [List.map_reverse, List.nodup_reverse]
  have conflicts : nameConflict (labelled words) = nameConflict (labelled others) := by
    funext text
    rw [nameConflict, nameConflict, named]
  have given := (permuted.map Prod.fst).filter fun text =>
    (nameOf? reservedWords (.text text)).isNone
  rw [keywordLines_labelled, keywordLines_labelled]
  simp only [named, conflicts]
  rw [Text.sorted_congr fun text => (given.append_left _).mem_iff]

/-- Entries of reserved words with different lexemes give different words. -/
theorem nodup_words {entries : List Entry}
    (differ : ((entries.filter Entry.isKeyword).map Entry.lexeme?).Nodup) :
    ((entries.filterMap Entry.word?).map Prod.fst).Nodup := by
  rw [List.Nodup, List.pairwise_map, List.pairwise_filter] at differ
  rw [List.Nodup, List.pairwise_map, List.pairwise_filterMap]
  refine differ.imp fun {entry other} apart => ?_
  rintro ⟨text, name⟩ word ⟨otherText, otherName⟩ otherWord same
  obtain ⟨keyword, lexeme, -⟩ := Entry.word?_eq_some.mp word
  obtain ⟨otherKeyword, otherLexeme, -⟩ := Entry.word?_eq_some.mp otherWord
  exact apart keyword otherKeyword (by rw [lexeme, otherLexeme, show text = otherText from same])

theorem keywordDifferences_perm {entries others : List Entry} (permuted : entries.Perm others)
    (readable : ∀ entry ∈ entries, entry.Readable) (given : ∀ entry ∈ entries, ¬ entry.LacksWord)
    (differ : ((entries.filter Entry.isKeyword).map Entry.lexeme?).Nodup) :
    GivesSame keywordDifferences entries others := by
  have words (list : List Entry) (among : ∀ entry ∈ list, entry ∈ entries) :
      keywordDifferences (list.map Entry.definition) =
        keywordLines (labelled (list.filterMap Entry.word?)) :=
    keywordDifferences_definition (fun entry found => readable entry (among entry found))
      fun entry found => Entry.exists_lexeme (given entry (among entry found))
  obtain ⟨lines, found⟩ := keywordDifferences_ends readable given
  refine ⟨lines, found, ?_⟩
  rw [words others fun entry => permuted.mem_iff.mpr,
    ← keywordLines_perm (permuted.filterMap _) (nodup_words differ),
    ← words entries fun _ => id, found]

/-! ## Summaries -/

theorem tally_perm {labels others : List Label} (permuted : labels.Perm others)
    {counts : List (String × Nat)} (counted : tally labels = .ok counts) :
    tally others = .ok counts := by
  have texts := exists_tally_iff.mp ⟨counts, counted⟩
  obtain ⟨contents, rfl⟩ := exists_texts texts
  obtain ⟨otherContents, rfl⟩ := exists_texts fun label member =>
    texts label (permuted.mem_iff.mpr member)
  have same : contents.Perm otherContents :=
    (List.map_perm_map_iff fun _ _ => Label.text.inj).mp permuted
  rw [← counted, tally_text, tally_text, Text.sorted_congr fun text => same.mem_iff]
  simp only [same.count_eq]

/-- Each label is counted once. -/
theorem sum_tally {labels : List Label} {counts : List (String × Nat)}
    (counted : tally labels = .ok counts) : (counts.map Prod.snd).sum = labels.length := by
  obtain ⟨contents, rfl⟩ := exists_texts (exists_tally_iff.mp ⟨counts, counted⟩)
  rw [tally_text] at counted
  obtain rfl := Except.ok.inj counted
  rw [List.map_map, List.length_map, ← List.sum_map_count_dedup_eq_length contents]
  exact ((Text.sorted_perm_dedup contents).map _).sum_eq

theorem ofDefinitions_perm {entries others : List Entry} (permuted : entries.Perm others)
    {summary : Summary}
    (made : Summary.ofDefinitions (entries.map Entry.definition) = .ok summary) :
    Summary.ofDefinitions (others.map Entry.definition) = .ok summary := by
  obtain ⟨labels, walked, made⟩ := bind_eq_ok.mp made
  obtain ⟨categories, categorized, made⟩ := bind_eq_ok.mp made
  obtain ⟨precedences, bound, made⟩ := bind_eq_ok.mp made
  obtain ⟨rearranged, otherWalked, order⟩ := exists_perm_mapM (permuted.map _) walked
  have otherCategorized := tally_perm (order.map Prod.fst) categorized
  have otherBound := tally_perm (order.filterMap Prod.snd) bound
  rw [← made, Summary.ofDefinitions, otherWalked]
  simp only [bind, Except.bind, otherCategorized, otherBound, (permuted.map _).length_eq]

/-- A summary gives the number of entries, and counts each of them in one category. -/
theorem sum_byCategory {entries : List Entry} {summary : Summary}
    (made : Summary.ofDefinitions (entries.map Entry.definition) = .ok summary) :
    summary.total = entries.length ∧
      (summary.byCategory.map Prod.snd).sum = entries.length := by
  obtain ⟨labels, walked, made⟩ := bind_eq_ok.mp made
  obtain ⟨categories, categorized, made⟩ := bind_eq_ok.mp made
  obtain ⟨precedences, -, made⟩ := bind_eq_ok.mp made
  obtain rfl := Except.ok.inj made
  have length := (mapM_eq_ok.mp walked).length_eq
  rw [List.length_map] at length
  refine ⟨List.length_map _, (sum_tally categorized).trans ?_⟩
  rw [List.length_map, length]

/-! ## Verdicts -/

/-- A document that lists entries among other fields. -/
def documentOf (before : List (String × Value)) (entries : List Entry)
    (after : List (String × Value)) : Value :=
  .object (before ++ ("tokens", .object (entries.map Entry.definition)) :: after)

section
variable {before after : List (String × Value)} (absent : "tokens" ∉ before.map Prod.fst)
include absent

theorem field?_documentOf (entries : List Entry) :
    (documentOf before entries after).field? "tokens" =
      some (.object (entries.map Entry.definition)) :=
  List.lookup_eq_some_iff.mpr ⟨before, after, rfl, fun field listed => by
    simpa using fun same : "tokens" = field.1 => absent (same ▸ List.mem_map_of_mem listed)⟩

variable {entries others : List Entry} (permuted : entries.Perm others)
include permuted

theorem holds_perm (holds : schema.Holds (documentOf before entries after)) :
    schema.Holds (documentOf before others after) := by
  obtain ⟨_, same, names, ⟨version, shows, versionGiven⟩, definitions, nonempty, each, given⟩ :=
    holds_iff_documented.mp holds
  obtain rfl := Value.object.inj same
  obtain rfl := Value.object.inj (Option.some.inj
    (given.symm.trans (field?_documentOf absent entries)))
  refine holds_iff_documented.mpr ⟨_, rfl, fun name => ?_, ⟨version, shows, ?_⟩,
    _, ?_, fun definition found => ?_, field?_documentOf absent others⟩
  · simpa using names name
  · simpa [List.lookup_append, List.lookup_cons] using versionGiven
  · exact fun empty => nonempty ((empty ▸ permuted.map _).eq_nil)
  · exact each definition ((permuted.map _).mem_iff.mpr found)

end

theorem Agrees.perm {entries others : List Entry} (agrees : Agrees entries)
    (permuted : entries.Perm others) : Agrees others :=
  ⟨fun name => (permuted.map Entry.name).mem_iff.symm.trans (agrees.names name),
    fun entry found => agrees.describes entry (permuted.mem_iff.mpr found)⟩

/-- A document without a problem has none with its entries in another order. -/
theorem problems_eq_nil_perm {validate : Validator}
    (implements : validate.Implements schemaDocument) {before after : List (String × Value)}
    (absent : "tokens" ∉ before.map Prod.fst) {entries others : List Entry}
    (permuted : entries.Perm others) (distinct : (entries.map Entry.name).Nodup)
    (silent : problems validate schemaDocument (documentOf before entries after) = .ok []) :
    problems validate schemaDocument (documentOf before others after) = .ok [] := by
  have distinctToo := (permuted.map Entry.name).nodup distinct
  -- All checks together come to agreement, which speaks of each entry and not of their order.
  obtain ⟨holds, agrees⟩ :=
    (problems_eq_nil_of_nodup implements (field?_documentOf absent entries) distinct).mp silent
  exact (problems_eq_nil_of_nodup implements (field?_documentOf absent others) distinctToo).mpr
    ⟨holds_perm absent permuted holds, agrees.perm permuted⟩

/-! ## Both orders -/

/-- The order of entries does not matter. For any order of entries under different names, the checks
of the names and of the binding powers give the same lines, and those of the lexemes and the roles
the same ones in another order. If the reserved words have different lexemes, the check of these
gives the same lines as well. The summary is the same, with each entry counted in one category. Even
if several reserved words have one lexeme, a document with the entries has no problem in one order
just when it has none in the other, by any validator that goes by what the schema means. -/
theorem checks_independent_of_order {entries others : List Entry} (permuted : entries.Perm others)
    (distinct : (entries.map Entry.name).Nodup)
    (countable : ∀ entry ∈ entries, entry.Countable)
    (readable : ∀ entry ∈ entries, entry.Readable)
    (given : ∀ entry ∈ entries, ¬ entry.LacksWord) :
    GivesSame (fun definitions => nameDifferences (definitions.map fun definition =>
        .text definition.1)) entries others ∧
      GivesSame precedenceDifferences entries others ∧
      GivesRearranged lexemeDifferences entries others ∧
      GivesRearranged roleDifferences entries others ∧
      (((entries.filter Entry.isKeyword).map Entry.lexeme?).Nodup →
        GivesSame keywordDifferences entries others) ∧
      (∃ summary, Summary.ofDefinitions (entries.map Entry.definition) = .ok summary ∧
        Summary.ofDefinitions (others.map Entry.definition) = .ok summary ∧
        summary.total = entries.length ∧
        (summary.byCategory.map Prod.snd).sum = entries.length) ∧
      ∀ validate : Validator, validate.Implements schemaDocument →
        ∀ before after, "tokens" ∉ before.map Prod.fst →
          (problems validate schemaDocument (documentOf before entries after) = .ok [] ↔
            problems validate schemaDocument (documentOf before others after) = .ok []) := by
  have distinctToo := (permuted.map Entry.name).nodup distinct
  refine ⟨nameDifferences_perm permuted, precedenceDifferences_perm permuted distinct countable,
    lexemeDifferences_perm permuted readable, roleDifferences_perm permuted readable,
    keywordDifferences_perm permuted readable given, ?_,
    fun validate implements before after absent => ⟨?_, ?_⟩⟩
  · obtain ⟨summary, made⟩ := exists_summary_iff.mpr ⟨entries, countable, rfl⟩
    exact ⟨summary, made, ofDefinitions_perm permuted made, sum_byCategory made⟩
  · exact problems_eq_nil_perm implements absent permuted distinct
  · exact problems_eq_nil_perm implements absent permuted.symm distinctToo

/-- The entry of a reserved word. -/
def wordEntry (name word : String) : Entry :=
  ⟨name, [("category", .string "keyword"), ("lexeme", .string word)]⟩

/-- Two reserved words, and twice the same one: its two orders give different lines, for only the
last of its entries is seen. -/
theorem checks_independent_of_order_wordEntry :
    GivesSame keywordDifferences [wordEntry "TRUE" "true", wordEntry "FALSE" "false"]
        [wordEntry "FALSE" "false", wordEntry "TRUE" "true"] ∧
      ¬ GivesSame keywordDifferences [wordEntry "TRUE" "true", wordEntry "YES" "true"]
        [wordEntry "YES" "true", wordEntry "TRUE" "true"] ∧
      ∀ version, problems .byRules schemaDocument (documentOf [("version", version)]
          [wordEntry "TRUE" "true", wordEntry "YES" "true"] []) = .ok [] ↔
        problems .byRules schemaDocument (documentOf [("version", version)]
          [wordEntry "YES" "true", wordEntry "TRUE" "true"] []) = .ok [] := by
  have countable (name word : String) : (wordEntry name word).Countable :=
    ⟨fun value given => ⟨"keyword", (Option.some.inj given).symm⟩,
      fun value given => nomatch show none = some value from given⟩
  have readable (name word : String) : (wordEntry name word).Readable :=
    ⟨fun value given => ⟨word, (Option.some.inj given).symm⟩,
      fun value given => nomatch show none = some value from given⟩
  have given (name word : String) : ¬ (wordEntry name word).LacksWord := fun lacks =>
    absurd lacks.2 (Option.some_ne_none _)
  have different := checks_independent_of_order
    (.swap (wordEntry "FALSE" "false") (wordEntry "TRUE" "true") []) (by decide)
    (by simp [countable]) (by simp [readable]) (by simp [given])
  have repeated := checks_independent_of_order
    (.swap (wordEntry "YES" "true") (wordEntry "TRUE" "true") []) (by decide)
    (by simp [countable]) (by simp [readable]) (by simp [given])
  have lexemes : ([wordEntry "TRUE" "true", wordEntry "FALSE" "false"].filter
      Entry.isKeyword).map Entry.lexeme? = [some (.string "true"), some (.string "false")] := rfl
  refine ⟨different.2.2.2.2.1 (lexemes ▸ by simp), ?_, fun version => ?_⟩
  · rintro ⟨lines, found, otherFound⟩
    exact absurd (found.trans otherFound.symm) (by decide +kernel)
  · exact repeated.2.2.2.2.2.2 _ Validator.byRules_implements [("version", version)] [] (by simp)

end Registry
end MonkeyLang
