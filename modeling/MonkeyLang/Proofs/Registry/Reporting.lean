import MonkeyLang.Proofs.Registry.Counting

/-!
# Reports that are finished

A report goes on to the summary after a document has been found to break the schema, so it is
finished only if what the summary needs is there. It is finished in exactly one case: the document
is countable, the validator does not fail on it, and it is not one for which the schema holds though
a reserved word in it gives no lexeme. A finished report shows every problem, the summary and the
verdict, and its status is that of the verdict.
-/
namespace MonkeyLang.Registry

/-- The lines of a report behind its heading: the problems, the summary and the verdict. -/
def findings (lines : List String) (summary : Summary) : List String :=
  if lines = [] then summary.lines ++ ["Validation PASSED."]
  else "ERRORS:" :: lines.map ("  ✗ " ++ ·) ++ [""] ++ summary.lines ++
    ["Validation FAILED with errors."]

theorem findings_eq (lines : List String) (summary : Summary) :
    findings lines summary =
      Report.problemLines lines ++ summary.lines ++ [Report.verdict lines.isEmpty] := by
  cases lines <;> simp [findings, Report.problemLines, Report.verdict]

section
variable {validate : Validator} {registryPath schemaPath : String}

/-- A report on a document that was read is made of its problems and its summary. -/
theorem of_eq_ok_iff {document given : Value} {report : Report} :
    Report.of validate registryPath schemaPath (.found document) (.found given) = .ok report ↔
      ∃ lines summary, problems validate given document = .ok lines ∧
        summaryOf document = .ok summary ∧
        report = ⟨lines.isEmpty, ofLines (Report.continuing registryPath schemaPath ++ [""] ++
          findings lines summary)⟩ := by
  have text (lines : List String) (summary : Summary) :
      Report.continuing registryPath schemaPath ++ [""] ++ Report.problemLines lines ++
          summary.lines ++ [Report.verdict lines.isEmpty] =
        Report.continuing registryPath schemaPath ++ [""] ++ findings lines summary := by
    rw [findings_eq]
    simp only [List.append_assoc]
  simp only [Report.of, Report.ofContent, summaryOf, bind_eq_ok, text, pure, Except.pure,
    Except.ok.injEq, @eq_comm _ _ report]
  constructor
  · rintro ⟨lines, found, listing, given, definitions, counted, summary, made, same⟩
    exact ⟨lines, summary, found, ⟨listing, given, definitions, counted, made⟩, same⟩
  · rintro ⟨lines, summary, found, ⟨listing, given, definitions, counted, made⟩, same⟩
    exact ⟨lines, found, listing, given, definitions, counted, summary, made, same⟩

/-- A report is made when the problems of the document are found and it has a summary. -/
theorem exists_report_iff {document given : Value} :
    (∃ report, Report.of validate registryPath schemaPath (.found document) (.found given)
        = .ok report) ↔
      Countable document ∧ ∃ lines, problems validate given document = .ok lines := by
  simp only [of_eq_ok_iff, ← exists_summaryOf_iff]
  constructor
  · rintro ⟨report, lines, summary, found, counted, -⟩
    exact ⟨⟨summary, counted⟩, lines, found⟩
  · rintro ⟨⟨summary, counted⟩, lines, found⟩
    exact ⟨_, lines, summary, found, counted, rfl⟩

end

/-- On which documents a report is finished: countable ones on which the validator does not fail,
except if the schema holds and a reserved word gives no lexeme. -/
def Reportable (validate : Validator) (document : Value) : Prop :=
  Countable document ∧ (∀ failure, validate schemaDocument document ≠ .failed failure) ∧
    ¬ (schema.Holds document ∧ LacksWord document)

/-- By a validator that goes by what the schema means, a report is finished exactly on a reportable
document. It shows all problems, if there are any, then the summary and the verdict, and the status
says whether there was a problem. On any other document the report fails before its end. -/
theorem report_finished_iff {validate : Validator} (implements : validate.Implements schemaDocument)
    (registryPath schemaPath : String) (document : Value) :
    (Reportable validate document ↔
      ∃ report lines summary,
        Report.of validate registryPath schemaPath (.found document) (.found schemaDocument)
          = .ok report ∧
        problems validate schemaDocument document = .ok lines ∧
        summaryOf document = .ok summary ∧
        report.text = ofLines
          (Report.continuing registryPath schemaPath ++ [""] ++ findings lines summary) ∧
        report.exitCode = if lines = [] then 0 else 1) ∧
    (¬ Reportable validate document ↔
      ∃ failure,
        Report.of validate registryPath schemaPath (.found document) (.found schemaDocument)
          = .error failure) := by
  have made : (∃ report, Report.of validate registryPath schemaPath (.found document)
      (.found schemaDocument) = .ok report) ↔ Reportable validate document :=
    exists_report_iff.trans (and_congr_right fun _ => exists_problems_iff implements)
  rw [← made]
  constructor
  · constructor
    · rintro ⟨report, made⟩
      obtain ⟨lines, summary, found, counted, same⟩ := of_eq_ok_iff.mp made
      refine ⟨report, lines, summary, made, found, counted, by rw [same], ?_⟩
      rw [same, Report.exitCode]
      simp only [List.isEmpty_iff]
    · rintro ⟨report, -, -, made, -⟩
      exact ⟨report, made⟩
  · cases Report.of validate registryPath schemaPath (.found document) (.found schemaDocument) <;>
      simp

/-- A report on entries that break the schema is finished. -/
theorem report_finished_iff_wordlessTokens :
    Validator.byRules.Implements schemaDocument ∧
      ∀ registryPath schemaPath, ∃ report,
        Report.of .byRules registryPath schemaPath (.found (.object [("tokens", wordlessTokens)]))
          (.found schemaDocument) = .ok report ∧ report.exitCode = 1 := by
  have implements := Validator.byRules_implements
  have invalid := byRules_wordlessTokens
  have countable : Countable (.object [("tokens", wordlessTokens)]) := by
    refine ⟨_, rfl, fun listing given => ?_⟩
    obtain rfl : wordlessTokens = listing := Option.some.inj given
    refine ⟨[⟨"LET", [("category", .string "keyword")]⟩], ?_, rfl⟩
    rw [List.forall_mem_singleton]
    exact ⟨fun value found => ⟨"keyword", (Option.some.inj found).symm⟩,
      fun value found => nomatch show none = some value from found⟩
  have reportable : Reportable .byRules (.object [("tokens", wordlessTokens)]) :=
    ⟨countable, fun failure => by simp [invalid],
      fun both => not_holds_of_invalid implements invalid both.1⟩
  refine ⟨implements, fun registryPath schemaPath => ?_⟩
  obtain ⟨finished, -⟩ := report_finished_iff implements registryPath schemaPath
    (.object [("tokens", wordlessTokens)])
  obtain ⟨report, lines, summary, made, found, -, -, status⟩ := finished.mp reportable
  have said : lines ≠ [] := fun empty => by
    have valid := valid_of_problems (empty ▸ found)
    simp [invalid] at valid
  exact ⟨report, made, status.trans (if_neg said)⟩

/-- A document whose entries are given as null, as an empty listing is read. -/
def nullListing : Value := .object [("version", .string "1.0"), ("tokens", .null)]

/-- What is wrong with the document is found, and the report on it is not finished, whatever
validator is used. -/
theorem not_report_finished :
    problems .byRules schemaDocument nullListing = .ok
      ["Schema validation error: None is not of type 'object'", "  at path: tokens"] ∧
    ∀ validate, ¬ ∀ registryPath schemaPath document, ∃ report,
      Report.of validate registryPath schemaPath (.found document) (.found schemaDocument)
        = .ok report := by
  refine ⟨by decide +kernel, fun validate finished => ?_⟩
  obtain ⟨⟨fields, same, countable⟩, -⟩ :=
    exists_report_iff.mp (finished "tokens.yaml" "schema.json" nullListing)
  obtain rfl := Value.object.inj same
  obtain ⟨entries, -, listed⟩ := countable .null rfl
  exact absurd listed (by simp)

end MonkeyLang.Registry
