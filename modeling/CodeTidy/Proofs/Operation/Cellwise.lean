import CodeTidy.Proofs.Operation.Cleaning
import CodeTidy.Proofs.Tool.Missing

/-!
# Notebooks are transformed cell by cell

What a tool does to one cell depends on that cell alone: it fails on it (`Transformer.failure?`),
replaces its source (`Transformer.replacement?`), or leaves it.  The file afterwards holds the
notebook with exactly the replaced sources, and what is reported are exactly the failures
(`Workshop.notebook_cellwise`).
-/

namespace CodeTidy

open CodeTidy.Text

/-! ### One cell -/

/-- A source that is stored as this value, with another text. -/
def Json.holding (text : String) : Json → Json
  | .string _ => .string text
  | .array _ => .array ((pieces text.toList).map fun p => .string (String.ofList p))
  | value => value

/-- The cell with another text as its source, stored in the way in which it was stored. -/
def Cell.withSource (text : String) (c : Cell) : Cell :=
  { c with data := c.data.mapValues fun name value =>
      if name = "source" then value.holding text else value }

theorem Cell.setSource_eq_withSource {P : Json.Number → Prop} {d : Nat} {c : Cell}
    (h : c.Sound P d) (text : String) : c.setSource text = c.withSource text := by
  obtain ⟨source, hs, hsource⟩ := h.valid.source
  have hdata : c.data.insert "source" (c.storedSource text)
      = c.data.mapValues fun name value =>
          if name = "source" then value.holding text else value := by
    refine (Json.Members.insert_eq_mapValues h.nodup_keys (by simp [hs]) _).trans
      (Json.Members.mapValues_congr h.nodup_keys fun name value hv => ?_)
    split
    · rename_i hname
      rw [hname, hs] at hv
      obtain rfl := Option.some.inj hv
      rw [storedSource, hs]
      cases source <;> first | rfl | simp [isSource] at hsource
    · rfl
  rw [setSource_eq, hdata, withSource]

namespace Transformer

variable (tool : Transformer) (select : Cell → Bool)

/-- Why the tool fails on a cell, if it is selected and the tool fails. -/
def failure? (c : Cell) : Option ToolError :=
  if select c then
    match tool c.source with
    | .error error => some error
    | .ok _ => none
  else none

/-- The source that the tool gives a cell, if it is selected, the tool succeeds, and the output
differs from the source but for breaks at the end. -/
def replacement? (c : Cell) : Option String :=
  if select c then
    match tool c.source with
    | .error _ => none
    | .ok output =>
      if trimBreaksString output = trimBreaksString c.source then none
      else some (trimBreaksString output)
  else none

def rewritten (c : Cell) : Cell :=
  (tool.replacement? select c).elim c c.withSource

/-- The numbers of the cells on which the tool fails, from one, in order, each with the reason. -/
def failing (n : Notebook) : List (Nat × ToolError) :=
  (n.cells.zipIdx 1).filterMap fun x => (tool.failure? select x.1).map fun error => (x.2, error)

variable {tool select} {c : Cell} {n : Notebook}

/-! ### The results of cells -/

theorem failure?_eq_some_iff {error : ToolError} :
    tool.failure? select c = some error ↔ CellResult.ofCell select tool c = .failed error := by
  rw [CellResult.ofCell_eq_failed_iff, failure?]
  cases select c with
  | false => simp
  | true => cases tool c.source <;> simp

theorem replacement?_eq_some_iff {text : String} :
    tool.replacement? select c = some text ↔
      select c = true ∧ ∃ output, tool c.source = .ok output ∧
        trimBreaksString output ≠ trimBreaksString c.source ∧ text = trimBreaksString output := by
  rw [replacement?]
  cases select c with
  | false => simp
  | true =>
    cases tool c.source with
    | error e => simp
    | ok output =>
      by_cases h : trimBreaksString output = trimBreaksString c.source
      · simp [h]
      · simp [h, eq_comm]

theorem isChanged_ofCell_iff :
    (CellResult.ofCell select tool c).isChanged = true ↔
      tool.replacement? select c ≠ none := by
  rw [CellResult.isChanged_iff, Option.ne_none_iff_exists']
  constructor
  · rintro ⟨c', h⟩
    obtain ⟨hs, output, ho, hne, -⟩ := CellResult.ofCell_eq_changed_iff.1 h
    exact ⟨_, replacement?_eq_some_iff.2 ⟨hs, output, ho, hne, rfl⟩⟩
  · rintro ⟨text, h⟩
    obtain ⟨hs, output, ho, hne, -⟩ := replacement?_eq_some_iff.1 h
    exact ⟨_, CellResult.ofCell_eq_changed_iff.2 ⟨hs, output, ho, hne, rfl⟩⟩

theorem rewritten_of_replacement?_eq_none (h : tool.replacement? select c = none) :
    tool.rewritten select c = c := by
  rw [rewritten, h]
  rfl

theorem rewritten_of_not_changed
    (h : (CellResult.ofCell select tool c).isChanged = false) : tool.rewritten select c = c := by
  refine rewritten_of_replacement?_eq_none ?_
  by_contra hsome
  rw [isChanged_ofCell_iff.2 hsome] at h
  exact Bool.noConfusion h

theorem cell_ofCell {P : Json.Number → Prop} {d : Nat} (h : c.Sound P d) :
    (CellResult.ofCell select tool c).cell c = tool.rewritten select c := by
  have hkeep (hc : (CellResult.ofCell select tool c).isChanged = false) :
      c = tool.rewritten select c := (rewritten_of_not_changed hc).symm
  cases hr : CellResult.ofCell select tool c with
  | changed c' =>
    obtain ⟨hs, output, ho, hne, rfl⟩ := CellResult.ofCell_eq_changed_iff.1 hr
    have htext := replacement?_eq_some_iff.2 ⟨hs, output, ho, hne, rfl⟩
    rw [rewritten, htext, Option.elim_some, ← Cell.setSource_eq_withSource h]
    rfl
  | unchanged => exact hkeep (by rw [hr]; rfl)
  | failed error => exact hkeep (by rw [hr]; rfl)

theorem transformCells_eq {P : Json.Number → Prop} (h : n.Sound P) :
    tool.transformCells select n = { n with cells := n.cells.map (tool.rewritten select) } := by
  have hcells : n.cells.map (fun c => (CellResult.ofCell select tool c).cell c)
      = n.cells.map (tool.rewritten select) :=
    List.map_congr_left fun c hc => cell_ofCell (h.cells c hc)
  rw [transformCells, hcells]

theorem any_isChanged_eq_false_iff :
    (tool.cellResults select n).any CellResult.isChanged = false ↔
      ∀ c ∈ n.cells, tool.replacement? select c = none := by
  rw [List.any_eq_false]
  simp only [cellResults, List.mem_map, forall_exists_index, and_imp, forall_apply_eq_imp_iff₂,
    isChanged_ofCell_iff, not_not]

theorem failures_map_ofCell :
    ∀ (cells : List Cell) (number : Nat),
      CellResult.failures number (cells.map (CellResult.ofCell select tool))
        = (cells.zipIdx number).filterMap fun x =>
            (tool.failure? select x.1).map fun error => (x.2, error)
  | [], _ => rfl
  | c :: cs, number => by
    have ih := failures_map_ofCell cs (number + 1)
    rw [List.map_cons, List.zipIdx_cons, List.filterMap_cons]
    cases hf : tool.failure? select c with
    | some error =>
      rw [failure?_eq_some_iff.1 hf, CellResult.failures, ih]
      rfl
    | none =>
      cases hr : CellResult.ofCell select tool c with
      | failed error => simp [failure?_eq_some_iff.2 hr] at hf
      | unchanged => exact ih
      | changed c' => exact ih

theorem failures_cellResults :
    CellResult.failures 1 (tool.cellResults select n) = tool.failing select n :=
  failures_map_ofCell n.cells 1

theorem failing_eq_nil_iff :
    tool.failing select n = [] ↔ ∀ c ∈ n.cells, tool.failure? select c = none := by
  rw [← failures_cellResults, failures_eq_nil_iff, cellResults]
  simp only [List.mem_map, forall_exists_index, and_imp, forall_apply_eq_imp_iff₂,
    Option.eq_none_iff_forall_ne_some, Ne, failure?_eq_some_iff]

theorem findSome?_missing_eq_none_iff :
    (tool.cellResults select n).findSome? CellResult.missing? = none ↔
      ∀ c ∈ n.cells, ∀ program, tool.failure? select c ≠ some (.notFound program) := by
  rw [List.findSome?_eq_none_iff, cellResults]
  simp only [List.mem_map, forall_exists_index, and_imp, forall_apply_eq_imp_iff₂,
    CellResult.missing?_eq_none_iff, Ne, failure?_eq_some_iff]

theorem failure?_of_findSome?_missing {error : ToolError}
    (h : (tool.cellResults select n).findSome? CellResult.missing? = some error) :
    ∃ c ∈ n.cells, ∃ program, error = .notFound program ∧
      tool.failure? select c = some (.notFound program) := by
  obtain ⟨result, hr, hm⟩ := List.exists_of_findSome?_eq_some h
  obtain ⟨c, hc, rfl⟩ := List.mem_map.1 hr
  obtain ⟨program, rfl, hf⟩ := CellResult.missing?_eq_some_iff.1 hm
  exact ⟨c, hc, program, rfl, failure?_eq_some_iff.2 hf⟩

/-! ### What is proposed for a notebook -/

theorem proposeCells_of_failing_eq_nil (h : tool.failing select n = []) :
    tool.proposeCells select n = (tool.content? select n).elim .keep .replace := by
  rw [proposeCells, failures_cellResults, h]

theorem proposeCells_of_failing_ne_nil (h : tool.failing select n ≠ []) :
    tool.proposeCells select n = .partly (tool.failing select n) (tool.content? select n) := by
  rw [proposeCells, failures_cellResults]
  split
  · rename_i hnil
    exact absurd hnil h
  · rfl

theorem content?_proposeCells :
    (tool.proposeCells select n).content? .apply = tool.content? select n := by
  unfold proposeCells
  split
  · cases tool.content? select n <;> rfl
  · rfl

theorem content?_eq_none_iff :
    tool.content? select n = none ↔ ∀ c ∈ n.cells, tool.replacement? select c = none := by
  rw [← any_isChanged_eq_false_iff, content?]
  split
  · rename_i h
    simp [h]
  · rename_i h
    simpa using h

theorem written_of_content? {text : String} (hn : Notebook.parse text.toList = .ok n)
    (hi : n.Integral) {content : Bytes} (h : tool.content? select n = some content) :
    ∃ text', content = Utf8.encode text' ∧ n.Written text ∧
      Notebook.Written { n with cells := n.cells.map (tool.rewritten select) } text' := by
  have hs := Notebook.sound_of_parse hn
  have hc : n.cells ≠ [] := by
    rintro hnil
    rw [content?_eq_none_iff.2 (by simp [hnil])] at h
    exact Option.some_ne_none _ h.symm
  unfold content? at h
  split at h
  · refine ⟨_, (Option.some.inj h).symm, (Notebook.written_of_parse hn hc).1, ?_⟩
    rw [← transformCells_eq hs]
    exact Notebook.written_render hn hc rfl (sound_transformCells hs)
      ((sound_transformCells (hs.and_isInt hi)).integral fun _ hk => hk.2)
  · simp at h

end Transformer

/-! ### The operations -/

/-- The tool to which an operation hands the cells of a notebook, and the cells that it selects. -/
def Operation.cellTool? : Operation → Option (Tool × (Cell → Bool))
  | .sortImports => some (.isort, Cell.hasCode)
  | .codeFormat => some (.black, Cell.hasText)
  | _ => none

namespace Workshop

variable {w : Workshop} {s : Site} {path : Path} {op : Operation} {tool : Tool}
  {select : Cell → Bool} {text : String} {n : Notebook}

theorem propose_of_cellTool? (hop : op.cellTool? = some (tool, select)) :
    w.propose s op path = w.proposeTransform s tool select path := by
  cases op <;> simp only [Operation.cellTool?, Option.some.injEq, Prod.mk.injEq, reduceCtorEq]
    at hop <;> obtain ⟨rfl, rfl⟩ := hop <;> rfl

theorem propose_notebook (hop : op.cellTool? = some (tool, select)) (hp : path.isNotebook = true)
    (hr : s.files.readText s.workingDirectory path = .ok text)
    (hn : Notebook.parse text.toList = .ok n) :
    w.propose s op path = (w.transformer s tool path).proposeNotebook select n := by
  rw [propose_of_cellTool? hop, proposeTransform, if_pos hp, Site.readNotebook_of_readText hr hn]
  rfl

theorem program_of_notFound {c : Cell} {program : String}
    (h : (w.transformer s tool path).failure? select c = some (.notFound program)) :
    (w.settings.command tool).program? = some program := by
  have hrun := (CellResult.ofCell_eq_failed_iff.1 (Transformer.failure?_eq_some_iff.1 h)).2
  exact (Executor.execute_eq_notFound_iff.1 (Executor.run_eq_notFound_iff.1 hrun)).1

theorem status_proposeCells (run : Transformer) (select : Cell → Bool) (n : Notebook)
    (op : Operation) (path : Path) :
    let outcome := (run.proposeCells select n).outcome op .apply path
    (outcome.status = .error ↔ ∃ c ∈ n.cells, run.failure? select c ≠ none) ∧
      (outcome.status = .modified ↔ (∀ c ∈ n.cells, run.failure? select c = none) ∧
        ∃ c ∈ n.cells, run.replacement? select c ≠ none) ∧
      (outcome.status = .clean ↔ (∀ c ∈ n.cells, run.failure? select c = none) ∧
        ∀ c ∈ n.cells, run.replacement? select c = none) ∧
      (outcome.status = .error → outcome.message
        = (Finding.ofFailures (run.failing select n)).message) := by
  have hsome : (∃ c ∈ n.cells, run.replacement? select c ≠ none) ↔
      run.content? select n ≠ none := by
    rw [Ne, Transformer.content?_eq_none_iff]
    simp only [not_forall, exists_prop]
  have hfail : (∃ c ∈ n.cells, run.failure? select c ≠ none) ↔ run.failing select n ≠ [] := by
    rw [Ne, Transformer.failing_eq_nil_iff]
    simp only [not_forall, exists_prop]
  rw [hsome, hfail, ← Transformer.content?_eq_none_iff, ← Transformer.failing_eq_nil_iff]
  by_cases hf : run.failing select n = []
  · rw [Transformer.proposeCells_of_failing_eq_nil hf]
    cases run.content? select n <;> simp [hf, Proposal.outcome]
  · rw [Transformer.proposeCells_of_failing_ne_nil hf]
    simp [hf, Proposal.outcome]

/-- **A notebook is transformed cell by cell.**  When the program is missing, nothing is stored and
the error says so.  Else the file holds the same notebook with the sources that the tool gave, or
its old bytes when no source was replaced; and what is reported is an error that names the failing
cells in order, if there are any, or else whether a source was replaced. -/
theorem notebook_cellwise (w : Workshop) (s : Site) (path : Path)
    (hop : op.cellTool? = some (tool, select)) (hp : path.isNotebook = true)
    (hr : s.files.readText s.workingDirectory path = .ok text)
    (hn : Notebook.parse text.toList = .ok n) (hi : n.Integral) :
    let run := w.transformer s tool path
    let outcome := (w.perform .apply op path s).1
    let done := (w.perform .apply op path s).2
    (∀ program, (∃ c ∈ n.cells, run.failure? select c = some (.notFound program)) →
        outcome.status = .error ∧ outcome.message = some (ToolError.notFound program).message ∧
          done.files = s.files) ∧
      ((∀ c ∈ n.cells, ∀ program, run.failure? select c ≠ some (.notFound program)) →
        ((∀ c ∈ n.cells, run.replacement? select c = none) → done.files = s.files) ∧
        ((∃ c ∈ n.cells, run.replacement? select c ≠ none) → n.Written text ∧
          ∃ text', done.files.readText s.workingDirectory path = .ok text' ∧
            Notebook.Written { n with cells := n.cells.map (run.rewritten select) } text') ∧
        (outcome.status = .error ↔ ∃ c ∈ n.cells, run.failure? select c ≠ none) ∧
        (outcome.status = .error → outcome.message = some ("Failed to process "
          ++ toString (run.failing select n).length ++ " cell(s): "
          ++ String.intercalate "; " ((run.failing select n).map fun x =>
            "cell " ++ toString x.1 ++ ": " ++ x.2.message))) ∧
        (outcome.status = .modified ↔ (∀ c ∈ n.cells, run.failure? select c = none) ∧
          ∃ c ∈ n.cells, run.replacement? select c ≠ none) ∧
        (outcome.status = .clean ↔ (∀ c ∈ n.cells, run.failure? select c = none) ∧
          ∀ c ∈ n.cells, run.replacement? select c = none)) := by
  intro run outcome done
  have hpropose : w.propose s op path = run.proposeNotebook select n :=
    propose_notebook hop hp hr hn
  have hread := FileTree.readText_eq_ok_iff.1 hr
  constructor
  · rintro program ⟨c, hc, hmissing⟩
    cases hm : (run.cellResults select n).findSome? CellResult.missing? with
    | none => exact absurd hmissing (Transformer.findSome?_missing_eq_none_iff.1 hm c hc program)
    | some error =>
      -- the first cell that reports a missing program need not be `c`, but it is the same program
      obtain ⟨c', -, program', rfl, hmissing'⟩ := Transformer.failure?_of_findSome?_missing hm
      obtain rfl : program' = program := Option.some.inj
        ((program_of_notFound hmissing').symm.trans (program_of_notFound hmissing))
      rw [Transformer.proposeNotebook_of_missing hm] at hpropose
      have houtcome : outcome = _ := outcome_perform hpropose _
      rw [houtcome]
      exact ⟨rfl, rfl, files_perform_of_none hpropose rfl⟩
  · intro hpresent
    have hm := Transformer.findSome?_missing_eq_none_iff.2 hpresent
    rw [Transformer.proposeNotebook_of_not_missing hm] at hpropose
    have hcontent : (run.proposeCells select n).content? .apply = run.content? select n :=
      Transformer.content?_proposeCells
    have houtcome : outcome = (run.proposeCells select n).outcome op .apply path :=
      outcome_perform hpropose _
    rw [houtcome]
    obtain ⟨herror, hmodified, hclean, hmessage⟩ := status_proposeCells run select n op path
    refine ⟨fun hnone => ?_, fun hsome => ?_, herror, hmessage, hmodified, hclean⟩
    · exact files_perform_of_none hpropose
        (hcontent.trans (Transformer.content?_eq_none_iff.2 hnone))
    · obtain ⟨c, hc, hchanged⟩ := hsome
      obtain ⟨content, hcontent'⟩ := Option.ne_none_iff_exists'.1 fun hnone =>
        hchanged (Transformer.content?_eq_none_iff.1 hnone c hc)
      obtain ⟨text', rfl, hold, hnew⟩ := Transformer.written_of_content? hn hi hcontent'
      exact ⟨hold, text', FileTree.readText_eq_ok_iff.2
        (read_perform hpropose (hcontent.trans hcontent') hread), hnew⟩

/-! A notebook of three cells: the tool fails on the first, changes the second, which is stored line
by line, and does not see the third. -/

def mixedCode (source : Json) : Cell :=
  ⟨.code, [("source", source), ("cell_type", .string "code"), ("outputs", .array [])]⟩

def mixedRaw : Cell :=
  ⟨.raw, [("cell_type", .string "raw"), ("source", .string "bad")]⟩

/-- The notebook, with the lines of its second cell. -/
def mixedNotebook (lines : List String) : Notebook :=
  ⟨[("cells", .null)],
    [mixedCode (.string "bad"), mixedCode (.array (lines.map .string)), mixedRaw]⟩

def mixedText : String :=
  (mixedNotebook ["x=1\n", "y\n"]).render

/-- Programs that fail on one text and print another for all the rest. -/
def pickyToolbox : Toolbox := fun _ _ i =>
  if i.input = Utf8.encode "bad" then .completed ⟨[], Utf8.encode "E9\n", some 123, 0⟩
  else .completed ⟨Utf8.encode "x = 1\ny\n", [], some 0, 0⟩

def pickyWorkshop : Workshop :=
  ⟨{}, ⟨pickyToolbox, 0⟩⟩

theorem integral_mixedNotebook (lines : List String) : (mixedNotebook lines).Integral := by
  constructor <;> simp [mixedNotebook, mixedCode, mixedRaw, Cell.toJson, Json.integral_object_iff,
    Json.integral_array_iff, Json.Integral.null, Json.Integral.string, -Prod.forall]

theorem sound_mixedCode {source : Json} (hs : Cell.isSource source = true)
    (hw : source.WellFormed Json.Number.Fits 1) {d : Nat} :
    (mixedCode source).Sound Json.Number.Fits (d + 1) where
  valid := ⟨⟨"code", rfl, rfl⟩, ⟨source, rfl, hs⟩, fun _ => ⟨[], rfl⟩⟩
  wellFormed := by
    refine .object (by simp [mixedCode, Json.Members.keys]) fun m hm => ?_
    simp only [mixedCode, List.mem_cons, List.not_mem_nil, or_false] at hm
    obtain rfl | rfl | rfl := hm
    · exact hw.mono (by omega)
    · exact .string _
    · exact .array (by simp)

theorem sound_mixedRaw {d : Nat} : mixedRaw.Sound Json.Number.Fits d where
  valid := ⟨⟨"raw", rfl, rfl⟩, ⟨.string "bad", rfl, rfl⟩, fun h => CellKind.noConfusion h⟩
  wellFormed := by
    refine .object (by simp [mixedRaw, Json.Members.keys]) fun m hm => ?_
    simp only [mixedRaw, List.mem_cons, List.not_mem_nil, or_false] at hm
    obtain rfl | rfl := hm
    · exact .string _
    · exact .string _

theorem sound_mixedNotebook (lines : List String) :
    (mixedNotebook lines).Sound Json.Number.Fits where
  root := .object (by simp [mixedNotebook, Json.Members.keys]) (by
    simpa [mixedNotebook] using .null)
  cells := by
    intro c hc
    simp only [mixedNotebook, List.mem_cons, List.not_mem_nil, or_false] at hc
    obtain rfl | rfl | rfl := hc
    · exact sound_mixedCode rfl (.string _)
    · refine sound_mixedCode (by simp [Cell.isSource, Json.string?]) (.array fun j hj => ?_)
      obtain ⟨line, -, rfl⟩ := List.mem_map.1 hj
      exact .string _
    · exact sound_mixedRaw

theorem parse_mixedText :
    Notebook.parse mixedText.toList = .ok (mixedNotebook ["x=1\n", "y\n"]) :=
  Notebook.parse_render (sound_mixedNotebook _) (integral_mixedNotebook _)

theorem source_bad : (mixedCode (.string "bad")).source = "bad" := by
  rfl

theorem source_lines :
    (mixedCode (.array [.string "x=1\n", .string "y\n"])).source = "x=1\ny\n" := by
  rfl

theorem hasText_mixedRaw : mixedRaw.hasText = false := by
  rfl

section

variable (h : s.missing = [])

include h

theorem transformer_picky_bad :
    pickyWorkshop.transformer s .black notebookPath "bad"
      = .error (.failed "black" "Exit code 123: E9") := by
  obtain ⟨files, cwd, missing⟩ := s
  obtain rfl := h
  rfl

theorem transformer_picky_good :
    pickyWorkshop.transformer s .black notebookPath "x=1\ny\n" = .ok "x = 1\ny\n" := by
  obtain ⟨files, cwd, missing⟩ := s
  obtain rfl := h
  rfl

theorem failure?_mixed :
    (mixedNotebook ["x=1\n", "y\n"]).cells.map
        ((pickyWorkshop.transformer s .black notebookPath).failure? Cell.hasText)
      = [some (.failed "black" "Exit code 123: E9"), none, none] := by
  have htext : (mixedCode (.string "bad")).hasText = true := rfl
  simp [mixedNotebook, Transformer.failure?, source_bad, source_lines, htext, hasText_mixedRaw,
    transformer_picky_bad h, transformer_picky_good h]

theorem replacement?_mixed :
    (mixedNotebook ["x=1\n", "y\n"]).cells.map
        ((pickyWorkshop.transformer s .black notebookPath).replacement? Cell.hasText)
      = [none, some "x = 1\ny", none] := by
  have htext : (mixedCode (.array [.string "x=1\n", .string "y\n"])).hasText = true := rfl
  have hnew : trimBreaksString "x = 1\ny\n" = "x = 1\ny" := rfl
  have hold : trimBreaksString "x=1\ny\n" = "x=1\ny" := rfl
  simp [mixedNotebook, Transformer.replacement?, source_bad, source_lines, htext, hasText_mixedRaw,
    hnew, hold, transformer_picky_bad h, transformer_picky_good h]

theorem rewritten_mixed :
    (mixedNotebook ["x=1\n", "y\n"]).cells.map
        ((pickyWorkshop.transformer s .black notebookPath).rewritten Cell.hasText)
      = (mixedNotebook ["x = 1\n", "y"]).cells := by
  have hr := replacement?_mixed h
  have hw : (mixedCode (.array [.string "x=1\n", .string "y\n"])).withSource "x = 1\ny"
      = mixedCode (.array [.string "x = 1\n", .string "y"]) := rfl
  simp only [mixedNotebook, List.map_cons, List.map_nil, List.cons.injEq, and_true] at hr
  simp [mixedNotebook, Transformer.rewritten, hr, hw]

end

theorem notebook_cellwise_sample :
    let s := notebookSite mixedText
    let outcome := (pickyWorkshop.perform .apply .codeFormat notebookPath s).1
    let done := (pickyWorkshop.perform .apply .codeFormat notebookPath s).2
    Notebook.parse mixedText.toList = .ok (mixedNotebook ["x=1\n", "y\n"]) ∧
      (mixedNotebook ["x=1\n", "y\n"]).Integral ∧ outcome.status = .error ∧
      ∃ text', done.files.readText s.workingDirectory notebookPath = .ok text' ∧
        (mixedNotebook ["x = 1\n", "y"]).Written text' := by
  intro s
  have hn := parse_mixedText
  have hi := integral_mixedNotebook ["x=1\n", "y\n"]
  have hf := failure?_mixed (s := s) rfl
  have hr := replacement?_mixed (s := s) rfl
  simp only [mixedNotebook, List.map_cons, List.map_nil, List.cons.injEq, and_true] at hf hr
  have hop : Operation.codeFormat.cellTool? = some (.black, Cell.hasText) := rfl
  obtain ⟨-, hpresent⟩ := notebook_cellwise pickyWorkshop s notebookPath hop (by decide)
    (readText_notebookSite mixedText) hn hi
  obtain ⟨-, hchanged, herror, -⟩ := hpresent (by simp [mixedNotebook, hf])
  obtain ⟨-, text', hread, hwritten⟩ := hchanged (by simp [mixedNotebook, hr])
  rw [rewritten_mixed rfl] at hwritten
  exact ⟨hn, hi, herror.2 (by simp [mixedNotebook, hf]), text', hread, hwritten⟩

end Workshop

end CodeTidy
