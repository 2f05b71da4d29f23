import CodeTidy.Proofs.Run.Steps
import CodeTidy.Proofs.Tool.Missing

/-!
# What a run changes

Checking changes nothing.  Applying an operation to a file changes at most that file, and does so
exactly when it reports the file as modified or fails on some cells of a notebook only
(`Workshop.read_perform_ne_iff`).  So whatever differs after a run is a file that an operation
discovered and reported (`RunPlan.run_frame`).
-/

namespace CodeTidy

/-! ### Failing in part -/

namespace Transformer

variable {tool : Transformer} {select : Cell → Bool} {n : Notebook}

/-- When one cell changes and the tool cannot be missing for some inputs only, it is not
missing. -/
theorem findSome?_missing_eq_none
    (hu : ∀ source program, tool source = .error (.notFound program) →
      ∀ source', tool source' = .error (.notFound program))
    (h : ∃ c ∈ n.cells, ∃ c', CellResult.ofCell select tool c = .changed c') :
    (tool.cellResults select n).findSome? CellResult.missing? = none := by
  obtain ⟨c, -, c', hc⟩ := h
  obtain ⟨-, output, hok, -⟩ := CellResult.ofCell_eq_changed_iff.1 hc
  refine List.findSome?_eq_none_iff.2 fun result hr => ?_
  obtain ⟨d, -, rfl⟩ := List.mem_map.1 hr
  refine CellResult.missing?_eq_none_iff.2 fun program hd => ?_
  have hnot := hu _ _ (CellResult.ofCell_eq_failed_iff.1 hd).2 c.source
  simp [hok] at hnot

theorem proposeNotebook_of_partlyFails
    (hu : ∀ source program, tool source = .error (.notFound program) →
      ∀ source', tool source' = .error (.notFound program))
    (h : tool.PartlyFails select n) :
    ∃ failures new, tool.proposeNotebook select n = .partly failures (some new) := by
  obtain ⟨hfailed, hchanged⟩ := h
  have hc : tool.content? select n = some (Utf8.encode (tool.transformCells select n).render) :=
    if_pos (any_isChanged_iff.2 hchanged)
  refine ⟨CellResult.failures 1 (tool.cellResults select n),
    Utf8.encode (tool.transformCells select n).render, ?_⟩
  rw [proposeNotebook_of_not_missing (findSome?_missing_eq_none hu hchanged), proposeCells, hc]
  split
  · rename_i hnil
    exact absurd hnil (exists_failed_iff.2 hfailed)
  · rfl

end Transformer

namespace Workshop

variable {w : Workshop} {op : Operation} {path : Path} {s : Site}

theorem proposeTransform_of_partlyFails (hu : w.executor.launch.Uniform) {tool : Tool}
    {select : Cell → Bool} (h : w.TransformPartlyFails s tool select path) :
    ∃ failures new, w.proposeTransform s tool select path = .partly failures (some new) := by
  obtain ⟨hp, text, n, hr, hn, hpart⟩ := h
  rw [proposeTransform, if_pos hp, Site.readNotebook_eq_ok_iff.2 ⟨text, hr, hn⟩]
  exact Transformer.proposeNotebook_of_partlyFails
    (fun source program hs => Executor.run_notFound_of_uniform hu hs) hpart

theorem PartlyFails.isNotebook (h : w.PartlyFails s op path) :
    path.isNotebook = true ∧ (op = .sortImports ∨ op = .codeFormat) := by
  cases op with
  | sortImports => exact ⟨h.1, .inl rfl⟩
  | codeFormat => exact ⟨h.1, .inr rfl⟩
  | grammarCheck => exact h.elim
  | newlineFix => exact h.elim
  | cleanNotebook => exact h.elim
  | docformat => exact h.elim

theorem propose_of_partlyFails (hu : w.executor.launch.Uniform) (h : w.PartlyFails s op path) :
    ∃ failures new, w.propose s op path = .partly failures (some new) := by
  obtain rfl | rfl := h.isNotebook.2
  · exact proposeTransform_of_partlyFails hu h
  · exact proposeTransform_of_partlyFails hu h

/-- What is written, if anything is, and how that is reported. -/
theorem content?_propose_cases (w : Workshop) (s : Site) (op : Operation) (path : Path) :
    (w.propose s op path).content? .apply = none ∧
        (w.perform .apply op path s).1.status ≠ .modified ∨
      ∃ new old, (w.propose s op path).content? .apply = some new ∧
        s.files.read s.workingDirectory path = .ok old ∧ new ≠ old ∧
        ((w.perform .apply op path s).1.status = .modified ∨
          (w.perform .apply op path s).1.status = .error ∧ w.PartlyFails s op path) := by
  rw [outcome_perform rfl]
  cases hf : op.fixable with
  | false =>
    have h := w.reports_propose s hf path
    generalize w.propose s op path = p at h
    refine .inl ?_
    cases h <;> simp [Proposal.content?, Proposal.outcome]
  | true =>
    have h := w.rewrites_propose s hf path
    generalize w.propose s op path = p at h
    cases h with
    | keep => exact .inl ⟨rfl, by simp [Proposal.outcome]⟩
    | replace hr hne => exact .inr ⟨_, _, rfl, hr, hne, .inl rfl⟩
    | failed error => exact .inl ⟨rfl, by simp [Proposal.outcome]⟩
    | @partly failures content? hp =>
      cases content? with
      | none => exact .inl ⟨rfl, by simp [Proposal.outcome]⟩
      | some new =>
        obtain ⟨hpart, old, hr, hne⟩ := hp new rfl
        exact .inr ⟨new, old, rfl, hr, hne, .inr ⟨rfl, hpart⟩⟩

/-- An operation changes a file exactly when it reports the file as modified or fails on it in
part. -/
theorem read_perform_ne_iff (hu : w.executor.launch.Uniform) :
    (w.perform .apply op path s).2.files.read s.workingDirectory path
        ≠ s.files.read s.workingDirectory path ↔
      (w.perform .apply op path s).1.status = .modified ∨
        (w.perform .apply op path s).1.status = .error ∧ w.PartlyFails s op path := by
  rcases w.content?_propose_cases s op path with ⟨hnone, hs⟩ | ⟨new, old, hnew, hr, hne, hs⟩
  · rw [files_perform_of_none rfl hnone]
    refine ⟨fun h => absurd rfl h, fun h => ?_⟩
    rcases h with h | ⟨-, h⟩
    · exact absurd h hs
    · obtain ⟨failures, new, h⟩ := propose_of_partlyFails hu h
      simp [h, Proposal.content?] at hnone
  · exact ⟨fun _ => hs, fun _ => read_perform_ne rfl hnew hr hne⟩

theorem status_of_get?_perform_ne {l : Location}
    (h : (w.perform .apply op path s).2.files.get? l ≠ s.files.get? l) :
    s.files.resolve s.workingDirectory path = .ok l ∧
      ((w.perform .apply op path s).1.status = .modified ∨
        (w.perform .apply op path s).1.status = .error ∧ path.isNotebook = true ∧
          (op = .sortImports ∨ op = .codeFormat)) := by
  refine ⟨Decidable.byContradiction fun hl => h (w.get?_perform_of_ne .apply op hl), ?_⟩
  rcases w.content?_propose_cases s op path with ⟨hnone, -⟩ | ⟨new, old, -, -, -, hs⟩
  · exact absurd (by rw [files_perform_of_none rfl hnone]) h
  · exact hs.imp_right fun hp => ⟨hp.1, hp.2.isNotebook⟩

end Workshop

/-! ### Runs -/

namespace RunPlan

variable {r : RunPlan} {ops : List Operation} {s : Site}

theorem files_run_check (h : r.mode = .check) (ops : List Operation) (s : Site) :
    (r.run ops s).2.site.files = s.files := by
  refine run_induction (I := fun s' _ => s'.files = s.files) rfl fun op path _ s' os _ hs => ?_
  rw [h, Workshop.files_perform_check]
  exact hs

/-- The report accounts for a change: an operation that discovered the file has reported it as
modified, or as a notebook on which it failed in part. -/
def Accounted (r : RunPlan) (ops : List Operation) (s : Site) (os : List Outcome) (l : Location) :
    Prop :=
  ∃ op path, r.Targeted ops s op path ∧ s.files.resolve s.workingDirectory path = .ok l ∧
    ∃ o ∈ os, o.path = path ∧ o.operation = op.name ∧
      (o.status = .modified ∨
        o.status = .error ∧ path.isNotebook = true ∧ (op = .sortImports ∨ op = .codeFormat))

theorem Accounted.append {os : List Outcome} {l : Location} (h : r.Accounted ops s os l)
    (os' : List Outcome) : r.Accounted ops s (os ++ os') l := by
  obtain ⟨op, path, ht, hl, o, ho, h⟩ := h
  exact ⟨op, path, ht, hl, o, List.mem_append_left _ ho, h⟩

/-- Whatever differs after a run that applies operations is accounted for. -/
theorem accounted_of_get?_run_ne (hm : r.mode = .apply) {l : Location}
    (h : (r.run ops s).2.site.files.get? l ≠ s.files.get? l) :
    r.Accounted ops s (r.run ops s).2.report.outcomes l := by
  revert h
  refine run_induction (I := fun s' os => s'.files.get? l ≠ s.files.get? l → r.Accounted ops s os l)
    (fun h => absurd rfl h) fun op path ht s' os hs hold hne => ?_
  rw [hm] at hne ⊢
  by_cases hstep : (r.workshop.perform .apply op path s').2.files.get? l = s'.files.get? l
  · exact (hold (hstep ▸ hne)).append _
  · obtain ⟨hl, hstatus⟩ := Workshop.status_of_get?_perform_ne hstep
    rw [hs.resolve] at hl
    obtain ⟨hpath, hop⟩ := r.workshop.path_perform .apply op path s'
    exact ⟨op, path, ht, hl, _, List.mem_append_right _ List.mem_cons_self, hpath, hop, hstatus⟩

/-- **What a run changes.**  Checking changes nothing; applying an operation to a file changes no
other file, and that file exactly when it reports it as modified or fails on it in part; and
whatever differs after a run was discovered by an operation that reported it. -/
theorem run_frame (r : RunPlan) (hu : r.workshop.executor.launch.Uniform) (ops : List Operation)
    (s : Site) :
    (r.mode = .check → (r.run ops s).2.site.files = s.files) ∧
      (∀ op path s',
        let (outcome, done) := r.workshop.perform .apply op path s'
        (∀ l, s'.files.resolve s'.workingDirectory path ≠ .ok l →
          done.files.get? l = s'.files.get? l) ∧
        (done.files.read s'.workingDirectory path ≠ s'.files.read s'.workingDirectory path ↔
          outcome.status = .modified ∨
            outcome.status = .error ∧ r.workshop.PartlyFails s' op path)) ∧
      ∀ l, (r.run ops s).2.site.files.get? l ≠ s.files.get? l →
        r.Accounted ops s (r.run ops s).2.report.outcomes l := by
  refine ⟨fun h => files_run_check h ops s, fun op path s' => ⟨fun l hl => ?_, ?_⟩, fun l hl => ?_⟩
  · exact Workshop.get?_perform_of_ne _ _ _ hl
  · exact Workshop.read_perform_ne_iff hu
  · cases hm : r.mode with
    | apply => exact accounted_of_get?_run_ne hm hl
    | check => exact absurd (by rw [files_run_check hm]) hl

/-! A notebook of two cells, with a tool that fails on the first and changes the second. -/

def sampleToolbox : Toolbox := fun _ _ i =>
  if i.input = Utf8.encode "bad" then .completed ⟨[], [], some 1, 0⟩
  else .completed ⟨Utf8.encode "good", [], some 0, 0⟩

def sampleText : String :=
  "\x7b\"cells\": [\x7b\"cell_type\": \"code\", \"source\": \"bad\", \"outputs\": []\x7d, "
    ++ "\x7b\"cell_type\": \"code\", \"source\": \"x=1\", \"outputs\": []\x7d]\x7d"

def sampleCell (source : String) : Cell :=
  ⟨.code, [("cell_type", .string "code"), ("source", .string source), ("outputs", .array [])]⟩

def samplePath : Path :=
  .ofString "n.ipynb"

def sampleSite : Site :=
  ⟨⟨[([Utf8.encode "n.ipynb"], .file (Utf8.encode sampleText) false)], .single (by decide) _⟩, [], []⟩

def samplePlan : RunPlan :=
  ⟨⟨{}, ⟨sampleToolbox, 0⟩⟩, ⟨[], true⟩, samplePath, .apply⟩

theorem uniform_sampleToolbox : sampleToolbox.Uniform := by
  intro t cwd i j _ h
  unfold sampleToolbox at h
  split at h <;> simp at h

theorem ofCell_sample_bad :
    CellResult.ofCell Cell.hasCode (samplePlan.workshop.transformer sampleSite .isort samplePath)
        (sampleCell "bad")
      = .failed (.failed "isort" "Exit code 1: ") := by
  rw [CellResult.ofCell_eq_failed_iff]
  constructor <;> rfl

theorem ofCell_sample_changed :
    CellResult.ofCell Cell.hasCode (samplePlan.workshop.transformer sampleSite .isort samplePath)
        (sampleCell "x=1")
      = .changed (sampleCell "good") := by
  rw [CellResult.ofCell_eq_changed_iff]
  exact ⟨rfl, "good", rfl, by decide, rfl⟩

theorem partlyFails_sample : samplePlan.workshop.PartlyFails sampleSite .sortImports samplePath := by
  have hread : ∀ b, (FileTree.mk [([Utf8.encode "n.ipynb"], .file b false)]
      (.single (by decide) _)).read [] samplePath = .ok b := fun b => rfl
  have hparse : Notebook.parse sampleText.toList
      = .ok ⟨[("cells", .null)], [sampleCell "bad", sampleCell "x=1"]⟩ := by
    decide +kernel
  exact ⟨by decide, sampleText, _, hread _, hparse,
    ⟨_, List.mem_cons_self, _, ofCell_sample_bad⟩,
    ⟨_, List.mem_cons_of_mem _ List.mem_cons_self, _, ofCell_sample_changed⟩⟩

theorem run_frame_sample :
    samplePlan.workshop.executor.launch.Uniform ∧
      (samplePlan.workshop.perform .apply .sortImports samplePath sampleSite).1.status = .error ∧
      (samplePlan.workshop.perform .apply .sortImports samplePath sampleSite).2.files.read
          sampleSite.workingDirectory samplePath
        ≠ sampleSite.files.read sampleSite.workingDirectory samplePath := by
  have hs : (samplePlan.workshop.perform .apply .sortImports samplePath sampleSite).1.status
      = .error := by
    obtain ⟨failures, new, h⟩ :=
      Workshop.propose_of_partlyFails uniform_sampleToolbox partlyFails_sample
    rw [Workshop.perform_eq h]
    rfl
  have hstep : ∀ op path s', (samplePlan.workshop.perform .apply op path s').1.status = .error →
      samplePlan.workshop.PartlyFails s' op path →
      (samplePlan.workshop.perform .apply op path s').2.files.read s'.workingDirectory path
        ≠ s'.files.read s'.workingDirectory path :=
    fun op path s' he hp =>
      ((run_frame samplePlan uniform_sampleToolbox [] s').2.1 op path s').2.2 (.inr ⟨he, hp⟩)
  exact ⟨uniform_sampleToolbox, hs, hstep _ _ _ hs partlyFails_sample⟩

end RunPlan

end CodeTidy
