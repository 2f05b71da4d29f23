import CodeTidy.Proofs.Diagnostic
import CodeTidy.Proofs.Operation.Ignoring
import CodeTidy.Proofs.Operation.Prediction

/-!
# What a checker finds is reported

A finding is dropped when its code begins with an ignored prefix (`Flake8Settings.ignores_iff`),
and a checker that fails has to find something.  So what `grammar-check` reports on a source is
decided by what the checker prints and by its exit status
(`Workshop.perform_grammarCheck_of_found`), and since exactly the printed findings are read, these
are reported (`Workshop.printed_findings_reported`).
-/

namespace CodeTidy

open CodeTidy.Text CodeTidy.Diagnostic

namespace Workshop

variable {w : Workshop} {s : Site} {path : Path} {source : String} {output : ToolOutput}
  {found : List Diagnostic}

section

variable (hpy : path.hasExtension "py" = true) (hr : s.readText path = .ok source)
  (hc : w.checker s path source = .ok output) (hfound : parseAll output.stdout.toList = found)

include hpy hr hc hfound

theorem styleFindings_of_checker :
    w.styleFindings s path
      = if output.status ≠ some 0 ∧ found = [] then
          .error (.tool (output.failure (((w.settings.command .flake8).program?).getD "")))
        else .ok found := by
  unfold styleFindings
  rw [if_neg (by simp [Path.isNotebook_of_python hpy]), hr]
  show Except.mapError _ (Checker.findings _ _ _) = _
  rw [Checker.findings, hc]
  simp only [hfound, ToolOutput.success, Bool.and_eq_true, Bool.not_eq_true', beq_eq_false_iff_ne,
    List.isEmpty_iff]
  split <;> rfl

/-- A checker that fails has to find something. -/
theorem perform_grammarCheck_of_failed (hfailed : output.status ≠ some 0 ∧ found = [])
    (mode : Mode) : (w.perform mode .grammarCheck path s).1.status = .error := by
  rw [outcome_perform rfl, propose, proposeCheck, styleFindings_of_checker hpy hr hc hfound,
    if_pos hfailed]
  rfl

theorem perform_grammarCheck_of_found (hfailed : ¬ (output.status ≠ some 0 ∧ found = []))
    {kept : List Diagnostic}
    (hkept : found.filter (fun d => !w.settings.flake8.ignores path d.code) = kept) (mode : Mode) :
    (w.perform mode .grammarCheck path s).1
      = ⟨path, Operation.grammarCheck.name, if kept = [] then .clean else .violation, none,
          kept⟩ := by
  rw [outcome_perform rfl, propose, proposeCheck, styleFindings_of_checker hpy hr hc hfound,
    if_neg hfailed, Proposal.ofExcept, hkept, Proposal.ofDiagnostics]
  simp only [List.isEmpty_iff]
  split
  · rename_i hnil
    rw [hnil]
    rfl
  · rfl

end

/-- **What a checker prints is reported.**  Of its output exactly the findings are read, in their
order, whatever noise stands between them.  So on a Python file `grammar-check` ends with an error
exactly when the checker fails and prints no finding; otherwise the findings whose code begins with
no ignored prefix are reported, in their order, and the file is clean when there are none. -/
theorem printed_findings_reported {printed : List OutputLine} {text : List Char}
    (hprints : Prints printed text) (hsound : ∀ l ∈ printed, l.Sound) :
    let found := printed.filterMap OutputLine.finding?
    parseAll text = found ∧
      ∀ (w : Workshop) (mode : Mode) (path : Path) (s : Site) (source : String)
        (output : ToolOutput), path.hasExtension "py" = true → s.readText path = .ok source →
        w.checker s path source = .ok output → output.stdout = String.ofList text →
        let kept := found.filter fun d => !w.settings.flake8.ignores path d.code
        let outcome := (w.perform mode .grammarCheck path s).1
        (∀ code, w.settings.flake8.ignores path code = true ↔
            ∃ lead, w.settings.flake8.Applies path lead ∧ lead.toList <+: code.toList) ∧
          (outcome.status = .error ↔ output.status ≠ some 0 ∧ found = []) ∧
          (outcome.status ≠ .error → outcome.diagnostics = kept ∧
            (outcome.status = .clean ↔ kept = []) ∧ (outcome.status = .violation ↔ kept ≠ [])) := by
  intro found
  have hparse : parseAll text = found := parseAll_of_prints hprints hsound
  refine ⟨hparse, fun w mode path s source output hpy hr hc hstdout => ?_⟩
  intro kept outcome
  refine ⟨fun code => Flake8Settings.ignores_iff, ?_⟩
  have hfound : parseAll output.stdout.toList = found := by
    rw [hstdout, String.toList_ofList, hparse]
  by_cases hfailed : output.status ≠ some 0 ∧ found = []
  · have herror : outcome.status = .error :=
      perform_grammarCheck_of_failed hpy hr hc hfound hfailed mode
    exact ⟨iff_of_true herror hfailed, fun hne => absurd herror hne⟩
  · have houtcome := perform_grammarCheck_of_found hpy hr hc hfound hfailed rfl mode
    have hstatus : outcome.status = if kept = [] then .clean else .violation :=
      congrArg Outcome.status houtcome
    have hdiagnostics : outcome.diagnostics = kept := congrArg Outcome.diagnostics houtcome
    by_cases hkept : kept = []
    · simp [hstatus, hdiagnostics, hkept, hfailed]
    · simp [hstatus, hdiagnostics, hkept, hfailed]

/-! A checker that prints two findings with a line of noise between them, and fails.  The text of
the second looks like a finding, and its code is ignored. -/

def unusedImport : Diagnostic :=
  ⟨1, 1, none, "F401", "'os' imported but unused"⟩

def longLine : Diagnostic :=
  ⟨18446744073709551615, 80, none, "E501", "2:3:W291:x"⟩

def printedLines : List OutputLine :=
  [.finding unusedImport, .noise "1 file".toList, .finding longLine]

def printedText : String :=
  "1:1:F401:'os' imported but unused\r\n1 file\n18446744073709551615:80:E501:2:3:W291:x\n"

def checkedPath : Path :=
  .ofString "a.py"

def checkedSite : Site :=
  ⟨⟨[([Utf8.encode "a.py"], .file (Utf8.encode "import os\n") false)], by decide⟩, [], []⟩

def printingWorkshop : Workshop :=
  ⟨{ flake8 := { extendIgnore := ["W6"], perFileIgnores := [("a.py", ["E5"])] } },
    ⟨fun _ _ _ => .completed ⟨Utf8.encode printedText, [], some 1, 0⟩, 0⟩⟩

theorem prints_printedLines : Prints printedLines printedText.toList := by
  have htext : printedText.toList = (OutputLine.finding unusedImport).text ++ '\r' :: '\n' ::
      ((OutputLine.noise "1 file".toList).text ++ '\n' ::
        ((OutputLine.finding longLine).text ++ '\n' :: [])) := by
    rfl
  rw [htext]
  exact .crlf _ (.lf _ (.lf _ .nil))

theorem sound_printedLines : ∀ l ∈ printedLines, l.Sound := by
  have hunused : unusedImport.Printable := by
    refine ⟨by decide, by decide, rfl, ⟨['F'], ['4', '0', '1'], rfl, ?_, ?_⟩, ?_, by decide⟩
    · exact ⟨by simp, List.all_eq_true.1 (by decide)⟩
    · exact ⟨by simp, List.all_eq_true.1 (by decide)⟩
    · exact trimmed_of_trim_eq rfl
  have hlong : longLine.Printable := by
    refine ⟨by decide, by decide, rfl, ⟨['E'], ['5', '0', '1'], rfl, ?_, ?_⟩, ?_, by decide⟩
    · exact ⟨by simp, List.all_eq_true.1 (by decide)⟩
    · exact ⟨by simp, List.all_eq_true.1 (by decide)⟩
    · exact trimmed_of_trim_eq rfl
  have hnoise : (OutputLine.noise "1 file".toList).Sound := by
    refine ⟨by decide, ?_⟩
    rintro ⟨row, column, code, text, hparts⟩
    have hcolon : ':' ∈ trimEnd "1 file".toList := by
      rw [hparts.eq]
      simp
    exact absurd hcolon (by decide)
  intro l hl
  simp only [printedLines, List.mem_cons, List.not_mem_nil, or_false] at hl
  obtain rfl | rfl | rfl := hl
  · exact hunused
  · exact hnoise
  · exact hlong

theorem printed_findings_reported_sample :
    let outcome := (printingWorkshop.perform .check .grammarCheck checkedPath checkedSite).1
    parseAll printedText.toList = [unusedImport, longLine] ∧
      outcome.status = .violation ∧ outcome.diagnostics = [unusedImport] := by
  intro outcome
  obtain ⟨hparse, hreported⟩ := printed_findings_reported prints_printedLines sound_printedLines
  have hchecker : printingWorkshop.checker checkedSite checkedPath "import os\n"
      = .ok ⟨printedText, "", some 1⟩ := by
    have hcompleted : printingWorkshop.checker checkedSite checkedPath "import os\n"
        = .ok (.ofCompletion ⟨Utf8.encode printedText, [], some 1, 0⟩) := rfl
    have hsilent : Utf8.decodeLossy [] = "" := rfl
    rw [hcompleted, ToolOutput.ofCompletion, Utf8.decodeLossy_encode, hsilent]
  obtain ⟨-, herror, hkept⟩ := hreported printingWorkshop .check checkedPath checkedSite
    "import os\n" ⟨printedText, "", some 1⟩ rfl rfl hchecker (by simp)
  have hfilter : ([unusedImport, longLine].filter fun d =>
      !printingWorkshop.settings.flake8.ignores checkedPath d.code) = [unusedImport] := by
    rfl
  have hno : outcome.status ≠ .error := fun h => by
    simpa [printedLines, OutputLine.finding?] using herror.1 h
  obtain ⟨hdiagnostics, -, hviolation⟩ := hkept hno
  exact ⟨hparse, hviolation.2 (hfilter ▸ by simp), hdiagnostics.trans hfilter⟩

end Workshop

end CodeTidy
