import CodeTidy.Proofs.Endings
import CodeTidy.Proofs.Operation.Blame

/-!
# Settled sources

With a sorter and a formatter that agree with each other (`Formatters`), the text that the
formatter leaves is settled, whatever its line endings (`Formatters.settled`): neither tool
changes it any more, and it ends with a line break.  The operations of `lint` keep a settled
source (`Workshop.read_perform_lint`) and find nothing to do (`Workshop.propose_of_settled`).
-/

namespace CodeTidy

open CodeTidy.LineEnding

/-! ### Texts -/

/-- What a sorter and a formatter promise: neither minds CRLF breaks, the formatter prints no
carriage return and ends its last line, and both leave what the formatter prints. -/
structure Formatters (sort format : String → String) : Prop where
  noCr : ∀ x, '\r' ∉ (format x).toList
  endsLine : ∀ x, EndsLine (format x).toList
  sort_crlf : ∀ x : String, '\r' ∉ x.toList →
    sort (String.ofList (normalize .crlf x.toList)) = sort x
  format_crlf : ∀ x : String, '\r' ∉ x.toList →
    format (String.ofList (normalize .crlf x.toList)) = format x
  format_format : ∀ x, format (format x) = format x
  sort_format : ∀ x, sort (format x) = format x

/-- Neither tool changes the text, and no line break is missing at its end. -/
structure Settled (sort format : String → String) (text : String) : Prop where
  sort : transformed text (sort text) = text
  format : transformed text (format text) = text
  endsLine : EndsLine text.toList

/-- A tool that does not mind CRLF breaks makes the same of an output as of what it makes of a
source. -/
theorem apply_transformed {tool : String → String}
    (htool : ∀ x : String, '\r' ∉ x.toList →
      tool (String.ofList (normalize .crlf x.toList)) = tool x)
    {output : String} (h : '\r' ∉ output.toList) (source : String) :
    tool (transformed source output) = tool output := by
  rw [transformed, reapply_of_noCr h]
  split
  · rw [← normalize_crlf_of_noCr h]
    exact htool output h
  · rw [String.ofList_toList]

theorem transformed_transformed {output : String} (h : '\r' ∉ output.toList) (source : String) :
    transformed (transformed source output) output = transformed source output := by
  rw [transformed, transformed, String.toList_ofList, reapply_reapply h]

variable {sort format : String → String}

/-- **What the formatter makes of a source is settled.** -/
theorem Formatters.settled (h : Formatters sort format) (source : String) :
    Settled sort format (transformed source (format source)) where
  sort := by
    rw [apply_transformed h.sort_crlf (h.noCr source), h.sort_format,
      transformed_transformed (h.noCr source)]
  format := by
    rw [apply_transformed h.format_crlf (h.noCr source), h.format_format,
      transformed_transformed (h.noCr source)]
  endsLine := by
    rw [transformed, String.toList_ofList]
    exact endsLine_reapply (h.noCr source) (h.endsLine source) source.toList

theorem Settled.proposeNewline {text : String} (h : Settled sort format text) :
    proposeNewline (Utf8.encode text) = .keep := by
  have hn : needsNewline (Utf8.encode text) = false := by
    unfold needsNewline
    split
    · rfl
    · rename_i last hl
      simp [Utf8.getLast?_encode_of_endsLine h.endsLine hl]
  rw [CodeTidy.proposeNewline, hn]
  rfl

/-! ### Tools that are functions -/

/-- The program of a command is there and makes `f` of every text, in a file with this name. -/
structure Executor.Computes (x : Executor) (words : CommandWords) (filename : Path)
    (f : String → String) : Prop where
  present : ∀ program, words.program? = some program → ∀ t cwd i, i.program = program →
    x.launch t cwd i ≠ .refused .notFound
  run_eq : ∀ site : Site, (∀ program, words.program? = some program → program ∉ site.missing) →
    ∀ input, x.run site words filename input = .ok (f input)

/-- Programs all of which make `f` of what they read. -/
def Toolbox.printing (f : String → String) : Toolbox := fun _ _ i =>
  .completed ⟨Utf8.encode (f (Utf8.decodeLossy i.input)), [], some 0, 0⟩

theorem computes_printing {words : CommandWords} {program : String}
    (h : words.program? = some program) (filename : Path) (f : String → String) :
    Executor.Computes ⟨.printing f, 0⟩ words filename f := by
  refine ⟨fun _ _ t cwd i _ => by simp [Toolbox.printing], fun site hs input => ?_⟩
  have hm : program ∉ site.missing := hs program h
  simp [Executor.run, Executor.execute, h, hm, Toolbox.printing, Executor.overruns,
    ToolOutput.ofCompletion, ToolOutput.success]

namespace Workshop

/-- The sorter and the formatter of the settings are there and work as functions on the texts of a
file. -/
structure Computes (w : Workshop) (path : Path) (sort format : String → String) : Prop where
  sort : w.executor.Computes (w.settings.command .isort) path sort
  format : w.executor.Computes (w.settings.command .black) path format

structure Ready (w : Workshop) (s : Site) : Prop where
  sort : ∀ program, (w.settings.command .isort).program? = some program → program ∉ s.missing
  format : ∀ program, (w.settings.command .black).program? = some program → program ∉ s.missing

variable {w : Workshop} {s : Site} {op : Operation} {path p : Path} {text : String}

theorem notMem_missing_perform {words : CommandWords} {f : String → String}
    (hf : w.executor.Computes words p f)
    (hs : ∀ program, words.program? = some program → program ∉ s.missing) (mode : Mode)
    (op : Operation) (path : Path) :
    ∀ program, words.program? = some program →
      program ∉ (w.perform mode op path s).2.missing := by
  intro program hp hm
  rcases lacks_of_mem_missing hm with hm | ⟨i, hi, hl⟩
  · exact hs program hp hm
  · exact hf.present program hp _ _ i hi hl

theorem Ready.perform (h : w.Ready s) (hw : w.Computes p sort format) (mode : Mode)
    (op : Operation) (path : Path) : w.Ready (w.perform mode op path s).2 :=
  ⟨notMem_missing_perform hw.sort h.sort mode op path,
    notMem_missing_perform hw.format h.format mode op path⟩

/-! ### Operations on a source -/

theorem proposeTransform_of_transformer {tool : Tool} {output : String}
    (hp : p.isNotebook = false)
    (hr : s.files.read s.workingDirectory p = .ok (Utf8.encode text))
    (ht : w.transformer s tool p text = .ok output) (select : Cell → Bool) :
    w.proposeTransform s tool select p
      = .ofContents (Utf8.encode text) (Utf8.encode (transformed text output)) := by
  rw [proposeTransform, if_neg (by simp [hp]), Site.readText_eq_ok_iff.2 hr]
  show (w.transformer s tool p).proposeSource text = _
  rw [Transformer.proposeSource, ht]
  rfl

theorem proposeTransform_of_computes {tool : Tool} {f : String → String}
    (hp : p.isNotebook = false) (hf : w.executor.Computes (w.settings.command tool) p f)
    (hs : ∀ program, (w.settings.command tool).program? = some program → program ∉ s.missing)
    (hr : s.files.read s.workingDirectory p = .ok (Utf8.encode text)) (select : Cell → Bool) :
    w.proposeTransform s tool select p
      = .ofContents (Utf8.encode text) (Utf8.encode (transformed text (f text))) := by
  refine proposeTransform_of_transformer hp hr ?_ select
  rw [transformer, sourceName, if_neg (by simp [hp])]
  exact hf.run_eq s hs text

theorem propose_newlineFix (hr : s.files.read s.workingDirectory p = .ok (Utf8.encode text)) :
    w.propose s .newlineFix p = proposeNewline (Utf8.encode text) := by
  rw [propose, Site.readBytes_eq_ok_iff.2 hr]
  rfl

theorem read_perform_of_ofContents {old new : Bytes} (h : w.propose s op p = .ofContents old new)
    (hr : s.files.read s.workingDirectory p = .ok old) :
    (w.perform .apply op p s).2.files.read s.workingDirectory p = .ok new := by
  unfold Proposal.ofContents at h
  split at h
  · rename_i e
    rw [files_perform_of_none h rfl, hr, e]
  · exact read_perform h rfl hr

theorem encode_proposeNewline (text : String) :
    ∃ text', Utf8.encode text' = ((proposeNewline (Utf8.encode text)).content? .apply).getD
      (Utf8.encode text) := by
  unfold proposeNewline
  split
  · unfold dominantBytes
    split
    · exact ⟨text ++ "\r\n", Utf8.encode_append _ _⟩
    · exact ⟨text ++ "\n", Utf8.encode_append _ _⟩
  · exact ⟨text, rfl⟩

section source

variable (hp : p.isNotebook = false) (hw : w.Computes p sort format) (hs : w.Ready s)
  (hr : s.files.read s.workingDirectory p = .ok (Utf8.encode text))

include hp hw hs hr

/-- **No operation of `lint` has anything to write in a settled source**, and all but the style
checker find it clean. -/
theorem propose_of_settled (h : Settled sort format text) :
    w.propose s .sortImports p = .keep ∧ w.propose s .codeFormat p = .keep ∧
      w.propose s .newlineFix p = .keep := by
  refine ⟨?_, ?_, ?_⟩
  · refine (proposeTransform_of_computes hp hw.sort hs.sort hr _).trans ?_
    rw [h.sort, Proposal.ofContents, if_pos rfl]
  · refine (proposeTransform_of_computes hp hw.format hs.format hr _).trans ?_
    rw [h.format, Proposal.ofContents, if_pos rfl]
  · rw [propose_newlineFix hr, h.proposeNewline]

/-- **After an operation of `lint` a source is a source**: a settled one if the operation was the
formatter, and the same one if it was settled before. -/
theorem read_perform_lint (hf : Formatters sort format) (hop : op ∈ Command.lint.plan false) :
    ∃ text', (w.perform .apply op p s).2.files.read s.workingDirectory p
        = .ok (Utf8.encode text') ∧
      (op = .codeFormat → Settled sort format text') ∧
      (Settled sort format text → text' = text) := by
  simp only [Command.plan, Bool.false_eq_true, if_false, List.nil_append, List.mem_cons,
    List.not_mem_nil, or_false] at hop
  rcases hop with rfl | rfl | rfl | rfl
  · have h := proposeTransform_of_computes hp hw.sort hs.sort hr Cell.hasCode
    exact ⟨_, read_perform_of_ofContents h hr, by simp, fun hset => hset.sort⟩
  · have h := proposeTransform_of_computes hp hw.format hs.format hr Cell.hasText
    exact ⟨_, read_perform_of_ofContents h hr, fun _ => hf.settled text, fun hset => hset.format⟩
  · refine ⟨text, ?_, by simp, fun _ => rfl⟩
    have hrep := w.reports_propose s (show Operation.grammarCheck.fixable = false from rfl) p
    generalize h : w.propose s .grammarCheck p = proposal at hrep
    rw [files_perform_of_none h (by cases hrep <;> rfl), hr]
  · have h : w.propose s .newlineFix p = proposeNewline (Utf8.encode text) := propose_newlineFix hr
    obtain ⟨text', ht⟩ := encode_proposeNewline text
    refine ⟨text', ?_, by simp, fun hset => ?_⟩
    · cases hc : (proposeNewline (Utf8.encode text)).content? .apply with
      | none =>
        rw [hc, Option.getD_none] at ht
        rw [files_perform_of_none h hc, hr, ht]
      | some new =>
        rw [hc, Option.getD_some] at ht
        rw [read_perform h hc hr, ht]
    · rw [hset.proposeNewline] at ht
      exact encode_injective ht

end source

end Workshop

end CodeTidy
