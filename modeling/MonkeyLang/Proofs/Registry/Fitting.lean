import MonkeyLang.Schema.Pattern

/-!
# Where patterns fit

A pattern fits a text when the text falls into pieces that its parts take one after the other. Each
kind of part takes its piece in its own way; together these give the texts in which the patterns of
a registry's schema are found.
-/
namespace MonkeyLang

namespace PatternPart

/-- A repetition takes any of the first pieces that consist of characters of its class. -/
theorem mem_remainders {test : Char → Bool} {text rest : List Char} :
    rest ∈ remainders test text ↔
      ∃ taken, taken ≠ [] ∧ (∀ c ∈ taken, test c = true) ∧ text = taken ++ rest := by
  induction text with
  | nil =>
    constructor
    · exact fun found => nomatch found
    · rintro ⟨taken, nonempty, -, split⟩
      exact absurd (List.append_eq_nil_iff.mp split.symm).1 nonempty
  | cons c text ih =>
    rw [remainders]
    cases passed : test c with
    | false =>
      simp only [Bool.false_eq_true, if_false, List.not_mem_nil, false_iff]
      rintro ⟨_ | ⟨first, taken⟩, nonempty, tested, split⟩
      · exact nonempty rfl
      · obtain ⟨rfl, -⟩ := List.cons.inj split
        exact Bool.false_ne_true (passed.symm.trans (tested c (.head _)))
    | true =>
      rw [if_pos rfl, List.mem_cons, ih]
      constructor
      · rintro (rfl | ⟨taken, -, tested, rfl⟩)
        · exact ⟨[c], by simp, by simpa using passed, rfl⟩
        · exact ⟨c :: taken, by simp, List.forall_mem_cons.mpr ⟨passed, tested⟩, rfl⟩
      · rintro ⟨_ | ⟨first, _ | ⟨second, taken⟩⟩, nonempty, tested, split⟩
        · exact absurd rfl nonempty
        · exact .inl (List.cons.inj split).2.symm
        · exact .inr ⟨second :: taken, by simp, (List.forall_mem_cons.mp tested).2,
            (List.cons.inj split).2⟩

section
variable {chars : CharClass} {parts : List PatternPart} {whole : Bool} {text : List Char}

theorem fit_finish : fit [finish] whole text = true ↔ text = [] ∨ text = ['\n'] := by
  simp [fit]

theorem fit_once : fit (once chars :: parts) whole text = true ↔
    ∃ c rest, chars.has c = true ∧ text = c :: rest ∧ fit parts false rest = true := by
  cases text with
  | nil => simp [fit]
  | cons first text =>
    rw [fit, Bool.and_eq_true]
    constructor
    · exact fun ⟨own, fits⟩ => ⟨first, text, own, rfl, fits⟩
    · rintro ⟨_, _, own, ⟨⟩, fits⟩
      exact ⟨own, fits⟩

theorem fit_atLeastOnce : fit (atLeastOnce chars :: parts) whole text = true ↔
    ∃ taken rest, taken ≠ [] ∧ (∀ c ∈ taken, chars.has c = true) ∧ text = taken ++ rest ∧
      fit parts false rest = true := by
  rw [fit, List.any_eq_true]
  simp only [mem_remainders]
  constructor
  · rintro ⟨rest, ⟨taken, nonempty, tested, split⟩, fits⟩
    exact ⟨taken, rest, nonempty, tested, split, fits⟩
  · rintro ⟨taken, rest, nonempty, tested, split, fits⟩
    exact ⟨rest, ⟨taken, nonempty, tested, split⟩, fits⟩

/-- Behind the start of a text it makes no difference whether a repetition takes something. -/
theorem fit_anyTimes : fit (anyTimes chars :: parts) false text = true ↔
    ∃ taken rest, (∀ c ∈ taken, chars.has c = true) ∧ text = taken ++ rest ∧
      fit parts false rest = true := by
  rw [fit, Bool.or_eq_true, List.any_eq_true]
  simp only [mem_remainders]
  constructor
  · rintro (fits | ⟨rest, ⟨taken, -, tested, split⟩, fits⟩)
    · exact ⟨[], text, by simp, rfl, fits⟩
    · exact ⟨taken, rest, tested, split, fits⟩
  · rintro ⟨taken, rest, tested, rfl, fits⟩
    by_cases empty : taken = []
    · exact .inl (by rwa [empty, List.nil_append])
    · exact .inr ⟨rest, ⟨taken, empty, tested, rfl⟩, fits⟩

end

end PatternPart

namespace Pattern

open PatternPart

/-- A pattern that begins with the start of a text fits there or nowhere. -/
theorem isIn_of_start {pattern : Pattern} {parts : List PatternPart}
    (anchored : pattern.parts = .start :: parts) {text : String} :
    pattern.isIn text = fit parts true text.toList := by
  have nowhere : (remainders (fun _ => true) text.toList).any (fit (.start :: parts) false)
      = false :=
    List.any_eq_false.mpr fun _ _ => by simp [fit]
  rw [isIn, anchored, nowhere, Bool.or_false, fit, Bool.true_and]

/-! ## The patterns of registries -/

/-- One or more decimal digits. -/
def IsDecimal (text : List Char) : Prop := text ≠ [] ∧ ∀ c ∈ text, Text.isDecimalDigit c = true

/-- A number, a dot and another number. -/
def IsVersion (text : List Char) : Prop :=
  ∃ major minor, IsDecimal major ∧ IsDecimal minor ∧ text = major ++ '.' :: minor

/-- A letter from A to Z. -/
def IsCapital (c : Char) : Prop := 'A' ≤ c ∧ c ≤ 'Z'

/-- A capital letter, followed by capital letters and underscores. -/
def IsCapitals (text : List Char) : Prop :=
  ∃ first others, IsCapital first ∧ (∀ c ∈ others, IsCapital c ∨ c = '_') ∧ text = first :: others

/-- A text of some form, with at most one newline behind it. -/
def Shows (Form : List Char → Prop) (text : String) : Prop :=
  ∃ body ending, Form body ∧ (ending = [] ∨ ending = ['\n']) ∧ text.toList = body ++ ending

theorem le_and_le_iff {own c : Char} : own ≤ c ∧ c ≤ own ↔ c = own :=
  ⟨fun between => Char.le_antisymm between.2 between.1, fun same => by simp [same]⟩

/-- A class of one character. -/
theorem has_single {own c : Char} : (CharClass.among [(own, own)]).has c = true ↔ c = own := by
  simp [CharClass.has, le_and_le_iff]

theorem has_capital {c : Char} : (CharClass.among [('A', 'Z')]).has c = true ↔ IsCapital c := by
  simp [CharClass.has, IsCapital]

theorem has_capital_or_underscore {c : Char} :
    (CharClass.among [('A', 'Z'), ('_', '_')]).has c = true ↔ IsCapital c ∨ c = '_' := by
  simp [CharClass.has, IsCapital, le_and_le_iff]

/-- The pattern of versions is found in versions. -/
theorem isIn_version_iff {text : String} : version.isIn text = true ↔ Shows IsVersion text := by
  rw [isIn_of_start rfl]
  simp only [fit_atLeastOnce, fit_once, fit_finish, has_single]
  constructor
  · rintro ⟨major, _, first, digits, split, _, _, rfl, rfl, minor, ending, second, others, rfl,
      ends⟩
    exact ⟨_, ending, ⟨major, minor, ⟨first, digits⟩, ⟨second, others⟩, rfl⟩, ends, by simp [split]⟩
  · rintro ⟨_, ending, ⟨major, minor, ⟨first, digits⟩, ⟨second, others⟩, rfl⟩, ends, split⟩
    exact ⟨major, _, first, digits, by rw [split, List.append_assoc, List.cons_append], _, _, rfl,
      rfl, minor, ending, second, others, rfl, ends⟩

/-- The pattern of names is found in names. -/
theorem isIn_capitals_iff {text : String} : capitals.isIn text = true ↔ Shows IsCapitals text := by
  rw [isIn_of_start rfl]
  simp only [fit_once, fit_anyTimes, fit_finish, has_capital, has_capital_or_underscore]
  constructor
  · rintro ⟨first, _, letter, split, others, ending, letters, rfl, ends⟩
    exact ⟨_, ending, ⟨first, others, letter, letters, rfl⟩, ends, split⟩
  · rintro ⟨_, ending, ⟨first, others, letter, letters, rfl⟩, ends, split⟩
    exact ⟨first, _, letter, split, others, ending, letters, rfl, ends⟩

end Pattern

end MonkeyLang
