import CodeTidy.Proofs.Operation.Prediction
import CodeTidy.Proofs.Tool.Missing

/-!
# Which programs operations miss

An operation reports a program as missing only when a tool did, so performing it adds no program
to the missing ones that is there (`Workshop.lacks_of_mem_missing`).
-/

namespace CodeTidy

variable {w : Workshop} {s : Site} {op : Operation} {path : Path} {program : String}

/-! ### Where an error comes from -/

namespace Site

/-! What cannot be read has nothing to do with tools. -/

variable {error : OperationError}

theorem tool?_of_readBytes (h : s.readBytes path = .error error) : error.tool? = none := by
  obtain ⟨reason, -, rfl⟩ := mapError_eq_error.1 h
  rfl

theorem tool?_of_readText (h : s.readText path = .error error) : error.tool? = none := by
  rcases bind_eq_error.1 h with h | ⟨content, -, h⟩
  · exact tool?_of_readBytes h
  · split at h
    · obtain rfl := Except.error.inj h
      rfl
    · cases h

theorem tool?_of_readNotebook (h : s.readNotebook path = .error error) : error.tool? = none := by
  rcases bind_eq_error.1 h with h | ⟨text, -, h⟩
  · obtain ⟨reason, -, rfl⟩ := mapError_eq_error.1 h
    rfl
  · obtain ⟨reason, -, rfl⟩ := mapError_eq_error.1 h
    rfl

end Site

namespace Proposal

variable {error : ToolError}

theorem toolError?_ofExcept {α : Type} {x : Except OperationError α} {k : α → Proposal}
    (h : (ofExcept x k).toolError? = some error) :
    (∃ e, x = .error e ∧ e.tool? = some error) ∨
      ∃ a, x = .ok a ∧ (k a).toolError? = some error := by
  cases x with
  | error e => exact .inl ⟨e, rfl, h⟩
  | ok a => exact .inr ⟨a, rfl, h⟩

/-- When reading is not to blame, what was made of the value is. -/
theorem toolError?_of_read {α : Type} {x : Except OperationError α} {k : α → Proposal}
    (hx : ∀ e, x = .error e → e.tool? = none) (h : (ofExcept x k).toolError? = some error) :
    ∃ a, (k a).toolError? = some error := by
  rcases toolError?_ofExcept h with ⟨e, he, htool⟩ | ⟨a, -, ha⟩
  · rw [hx e he] at htool
    cases htool
  · exact ⟨a, ha⟩

theorem toolError?_ofContents (old new : Bytes) : (ofContents old new).toolError? = none := by
  unfold ofContents
  split <;> rfl

theorem toolError?_ofDiagnostics (diagnostics : List Diagnostic) :
    (ofDiagnostics diagnostics).toolError? = none := by
  unfold ofDiagnostics
  split <;> rfl

end Proposal

theorem toolError?_proposeNewline (content : Bytes) :
    (proposeNewline content).toolError? = none := by
  unfold proposeNewline
  split <;> rfl

theorem toolError?_proposeCleaning (keys : List String) (n : Notebook) :
    (proposeCleaning keys n).toolError? = none := by
  unfold proposeCleaning
  split <;> rfl

/-! ### Tools -/

namespace Transformer

variable {tool : Transformer} {error : ToolError}

theorem toolError?_proposeSource {source : String}
    (h : (tool.proposeSource source).toolError? = some error) :
    ∃ input, tool input = .error error := by
  rcases Proposal.toolError?_ofExcept h with ⟨e, he, htool⟩ | ⟨output, -, ho⟩
  · obtain ⟨e', he', rfl⟩ := mapError_eq_error.1 he
    exact ⟨source, by rw [he', Option.some.inj htool]⟩
  · simp [Proposal.toolError?_ofContents] at ho

theorem toolError?_proposeNotebook {select : Cell → Bool} {n : Notebook}
    (h : (tool.proposeNotebook select n).toolError? = some error) :
    ∃ input, tool input = .error error := by
  cases hm : (tool.cellResults select n).findSome? CellResult.missing? with
  | some e =>
    rw [proposeNotebook_of_missing hm] at h
    obtain rfl := Option.some.inj h
    obtain ⟨result, hr, hresult⟩ := List.exists_of_findSome?_eq_some hm
    obtain ⟨c, -, rfl⟩ := List.mem_map.1 hr
    obtain ⟨program, rfl, hc⟩ := CellResult.missing?_eq_some_iff.1 hresult
    exact ⟨c.source, (CellResult.ofCell_eq_failed_iff.1 hc).2⟩
  | none =>
    rw [proposeNotebook_of_not_missing hm] at h
    unfold proposeCells at h
    split at h
    · cases hc : tool.content? select n <;> simp [hc, Proposal.toolError?] at h
    · simp [Proposal.toolError?] at h

end Transformer

namespace Checker

variable {checker : Checker} {words document : String}

theorem notFound_of_findings (h : checker.findings words document = .error (.notFound program)) :
    ∃ input, checker input = .error (.notFound program) := by
  unfold findings at h
  split at h
  · rename_i e he
    exact ⟨document, by rw [he, Except.error.inj h]⟩
  · dsimp only at h
    split at h
    · simp [ToolOutput.failure] at h
    · simp at h

theorem notFound_of_notebookFindings {n : Notebook}
    (h : checker.notebookFindings words n = .error (.notFound program)) :
    ∃ input, checker input = .error (.notFound program) := by
  unfold notebookFindings at h
  split at h
  · simp at h
  · split at h
    · rename_i e he
      rw [Except.error.inj h] at he
      exact notFound_of_findings he
    · simp at h

end Checker

namespace Workshop

theorem lacks_of_proposeTransform {tool : Tool} {select : Cell → Bool}
    (h : (w.proposeTransform s tool select path).toolError? = some (.notFound program)) :
    w.executor.Lacks s program := by
  unfold proposeTransform at h
  split at h
  · obtain ⟨n, hn⟩ := Proposal.toolError?_of_read (fun _ => Site.tool?_of_readNotebook) h
    obtain ⟨input, hi⟩ := Transformer.toolError?_proposeNotebook hn
    exact Executor.lacks_of_run hi
  · obtain ⟨text, ht⟩ := Proposal.toolError?_of_read (fun _ => Site.tool?_of_readText) h
    obtain ⟨input, hi⟩ := Transformer.toolError?_proposeSource ht
    exact Executor.lacks_of_run hi

theorem notFound_of_styleFindings {error : OperationError}
    (h : w.styleFindings s path = .error error) (herror : error.tool? = some (.notFound program)) :
    ∃ input, w.checker s path input = .error (.notFound program) := by
  have hnone : error.tool? ≠ none := by simp [herror]
  unfold styleFindings at h
  dsimp only at h
  split at h
  · rcases bind_eq_error.1 h with h | ⟨n, -, h⟩
    · exact absurd (Site.tool?_of_readNotebook h) hnone
    · obtain ⟨e, he, rfl⟩ := mapError_eq_error.1 h
      obtain rfl := Option.some.inj herror
      exact Checker.notFound_of_notebookFindings he
  · rcases bind_eq_error.1 h with h | ⟨source, -, h⟩
    · exact absurd (Site.tool?_of_readText h) hnone
    · obtain ⟨e, he, rfl⟩ := mapError_eq_error.1 h
      obtain rfl := Option.some.inj herror
      exact Checker.notFound_of_findings he

theorem lacks_of_proposeCheck
    (h : (w.proposeCheck s path).toolError? = some (.notFound program)) :
    w.executor.Lacks s program := by
  rcases Proposal.toolError?_ofExcept h with ⟨error, he, herror⟩ | ⟨found, -, hfound⟩
  · obtain ⟨input, hi⟩ := notFound_of_styleFindings he herror
    exact Executor.lacks_of_execute hi
  · simp [Proposal.toolError?_ofDiagnostics] at hfound

theorem lacks_of_propose (h : (w.propose s op path).toolError? = some (.notFound program)) :
    w.executor.Lacks s program := by
  cases op with
  | sortImports => exact lacks_of_proposeTransform h
  | codeFormat => exact lacks_of_proposeTransform h
  | grammarCheck => exact lacks_of_proposeCheck h
  | newlineFix =>
    obtain ⟨content, hc⟩ := Proposal.toolError?_of_read (fun _ => Site.tool?_of_readBytes) h
    simp [toolError?_proposeNewline] at hc
  | cleanNotebook =>
    obtain ⟨n, hn⟩ := Proposal.toolError?_of_read (fun _ => Site.tool?_of_readNotebook) h
    simp [toolError?_proposeCleaning] at hn
  | docformat =>
    obtain ⟨text, ht⟩ := Proposal.toolError?_of_read (fun _ => Site.tool?_of_readText) h
    simp [proposeReflow, Proposal.toolError?_ofContents] at ht

/-- **Programs that are there do not become missing.** -/
theorem lacks_of_mem_missing {mode : Mode}
    (h : program ∈ (w.perform mode op path s).2.missing) : w.executor.Lacks s program := by
  rw [perform_eq rfl] at h
  rcases MissingTools.mem_note_iff.1 h with h | h
  · exact .inl h
  · exact lacks_of_propose h

end Workshop

end CodeTidy
