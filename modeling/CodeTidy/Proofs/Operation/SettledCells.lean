import CodeTidy.Proofs.Operation.Cellwise
import CodeTidy.Proofs.Operation.Settled

/-!
# Settled notebooks

A tool that has nothing to add to its own output without the breaks at its end replaces no source
in a cell that it has rewritten (`Transformer.replacement?_rewritten`), whether it is handed the
cell once more or not.  What is stored of a notebook is read as its rewritten cells
(`Workshop.exists_parse_perform`), so one run settles a notebook (`Workshop.notebook_settles`).
-/

namespace CodeTidy

open CodeTidy.Text

/-! ### Cells -/

theorem Cell.source_withSource {P : Json.Number → Prop} {d : Nat} {c : Cell} (h : c.Sound P d)
    (text : String) : (c.withSource text).source = text := by
  rw [← Cell.setSource_eq_withSource h, Cell.source_setSource]

namespace Transformer

variable {tool : Transformer} {select : Cell → Bool} {f : String → String} {c : Cell}
  {n : Notebook}

/-- The output of the tool for its own output, breaks at the end aside, is that output. -/
def Stable (f : String → String) : Prop :=
  ∀ x, trimBreaksString (f (trimBreaksString (f x))) = trimBreaksString (f x)

/-- **A rewritten cell is not rewritten again.** -/
theorem replacement?_rewritten {P : Json.Number → Prop} {d : Nat} (htool : ∀ x, tool x = .ok (f x))
    (hf : Stable f) (h : c.Sound P d) :
    tool.replacement? select (tool.rewritten select c) = none := by
  rw [rewritten]
  cases hr : tool.replacement? select c with
  | none => exact hr
  | some text =>
    obtain ⟨-, output, ho, -, rfl⟩ := replacement?_eq_some_iff.1 hr
    obtain rfl := Except.ok.inj ((htool _).symm.trans ho)
    refine Option.eq_none_iff_forall_ne_some.2 fun again hagain => ?_
    obtain ⟨-, output, ho, hne, -⟩ := replacement?_eq_some_iff.1 hagain
    obtain rfl := Except.ok.inj ((htool _).symm.trans ho)
    rw [Option.elim_some, Cell.source_withSource h, hf, trimBreaksString_trimBreaksString] at hne
    exact hne rfl

theorem proposeNotebook_of_total (htool : ∀ x, tool x = .ok (f x)) :
    tool.proposeNotebook select n = (tool.content? select n).elim .keep .replace := by
  have hfail : ∀ c, tool.failure? select c = none := fun c => by
    rw [failure?, htool]
    exact ite_self none
  rw [proposeNotebook_of_not_missing, proposeCells_of_failing_eq_nil]
  · exact failing_eq_nil_iff.2 fun c _ => hfail c
  · refine findSome?_missing_eq_none_iff.2 fun c _ program => ?_
    rw [hfail]
    exact (Option.some_ne_none _).symm

end Transformer

namespace Workshop

variable {w : Workshop} {s again : Site} {path : Path} {op : Operation} {tool : Tool}
  {select : Cell → Bool} {text : String} {n : Notebook} {f : String → String}

section

variable (hop : op.cellTool? = some (tool, select)) (hp : path.isNotebook = true)

include hop hp

/-- **What is read after an operation has the rewritten cells**, whether it was stored or not. -/
theorem exists_parse_perform (hr : s.files.readText s.workingDirectory path = .ok text)
    (hn : Notebook.parse text.toList = .ok n) (hi : n.Integral)
    (htool : ∀ x, w.transformer s tool path x = .ok (f x)) :
    ∃ text' m, (w.perform .apply op path s).2.files.readText s.workingDirectory path = .ok text' ∧
      Notebook.parse text'.toList = .ok m ∧
      m.cells = n.cells.map ((w.transformer s tool path).rewritten select) := by
  have hpropose := propose_notebook (w := w) hop hp hr hn
  rw [Transformer.proposeNotebook_of_total htool] at hpropose
  cases hc : (w.transformer s tool path).content? select n with
  | none =>
    rw [hc, Option.elim_none] at hpropose
    refine ⟨text, n, by rw [files_perform_of_none hpropose rfl, hr], hn, ?_⟩
    rw [List.map_congr_left fun c hcell => Transformer.rewritten_of_replacement?_eq_none
      (Transformer.content?_eq_none_iff.1 hc c hcell), List.map_id']
  | some content =>
    rw [hc, Option.elim_some] at hpropose
    obtain ⟨text', rfl, -, hwritten⟩ := Transformer.written_of_content? hn hi hc
    exact ⟨text', _, FileTree.readText_eq_ok_iff.2
      (read_perform hpropose rfl (FileTree.readText_eq_ok_iff.1 hr)), hwritten.parse, rfl⟩

theorem perform_of_no_replacement (hr : s.files.readText s.workingDirectory path = .ok text)
    (hn : Notebook.parse text.toList = .ok n)
    (htool : ∀ x, w.transformer s tool path x = .ok (f x))
    (h : ∀ c ∈ n.cells, (w.transformer s tool path).replacement? select c = none) (mode : Mode) :
    (w.perform mode op path s).1.status = .clean ∧
      (w.perform mode op path s).2.files = s.files := by
  have hkeep : w.propose s op path = .keep := by
    rw [propose_notebook hop hp hr hn, Transformer.proposeNotebook_of_total htool,
      Transformer.content?_eq_none_iff.2 h, Option.elim_none]
  refine ⟨?_, files_perform_of_none hkeep rfl⟩
  rw [outcome_perform hkeep]
  rfl

end

/-- **One run settles a notebook.**  When the tool is a function that is stable on its own output,
a later process that finds the files as an operation has left them, and knows of no more missing
programs, finds the notebook clean and leaves all files as they are. -/
theorem notebook_settles (hop : op.cellTool? = some (tool, select)) (hp : path.isNotebook = true)
    (hr : s.files.readText s.workingDirectory path = .ok text)
    (hn : Notebook.parse text.toList = .ok n) (hi : n.Integral)
    (hw : w.executor.Computes (w.settings.command tool) (sourceName path) f)
    (hs : ∀ program, (w.settings.command tool).program? = some program → program ∉ s.missing)
    (hf : Transformer.Stable f)
    (hfiles : again.files = (w.perform .apply op path s).2.files)
    (hwd : again.workingDirectory = s.workingDirectory)
    (hmissing : again.missing ⊆ (w.perform .apply op path s).2.missing) :
    (w.perform .check op path again).1.status = .clean ∧
      (w.perform .apply op path again).1.status = .clean ∧
      (w.perform .apply op path again).2.files = again.files := by
  have htool : ∀ x, w.transformer s tool path x = .ok (f x) := hw.run_eq s hs
  obtain ⟨text', m, hr', hm, hcells⟩ := exists_parse_perform hop hp hr hn hi htool
  rw [← hfiles, ← hwd] at hr'
  have htool' : ∀ x, w.transformer again tool path x = .ok (f x) :=
    hw.run_eq again fun program hprogram hmem =>
      notMem_missing_perform hw hs .apply op path program hprogram (hmissing hmem)
  have hnone : ∀ c ∈ m.cells, (w.transformer again tool path).replacement? select c = none := by
    rw [hcells, funext htool, ← funext htool']
    intro c hc
    obtain ⟨old, hold, rfl⟩ := List.mem_map.1 hc
    exact Transformer.replacement?_rewritten htool' hf ((Notebook.sound_of_parse hn).cells old hold)
  have hkeep := perform_of_no_replacement hop hp hr' hm htool' hnone
  exact ⟨(hkeep .check).1, hkeep .apply⟩

/-! A formatter that drops number signs, after which a cell that held a comment is blank and is not
handed to it again. -/

def unhashed (text : String) : String :=
  String.ofList (text.toList.filter (· != '#'))

def unhashedWorkshop : Workshop :=
  ⟨{}, ⟨.printing unhashed, 0⟩⟩

theorem stable_unhashed : Transformer.Stable unhashed := fun x => by
  have hkept : unhashed (trimBreaksString (unhashed x)) = trimBreaksString (unhashed x) := by
    refine (congrArg String.ofList (List.filter_eq_self.2 fun c hc => ?_)).trans
      String.ofList_toList
    rw [trimBreaksString, String.toList_ofList, unhashed, String.toList_ofList] at hc
    exact (List.mem_filter.1 ((List.rdropWhile_prefix _ _).subset hc)).2
  rw [hkept, trimBreaksString_trimBreaksString]

theorem computes_unhashed :
    unhashedWorkshop.executor.Computes (unhashedWorkshop.settings.command .black)
      (sourceName notebookPath) unhashed :=
  computes_printing (show _ = some "black" from rfl) _ unhashed

theorem replacement?_unhashed (h : s.missing = []) :
    (mixedNotebook ["#\n"]).cells.map
        ((unhashedWorkshop.transformer s .black notebookPath).replacement? Cell.hasText)
      = [none, some "", none] := by
  have htool : unhashedWorkshop.transformer s .black notebookPath = fun x => .ok (unhashed x) :=
    funext (computes_unhashed.run_eq s fun _ _ => h ▸ List.not_mem_nil)
  have hbad : trimBreaksString (unhashed "bad") = trimBreaksString "bad" := rfl
  have hsource : (mixedCode (.array [.string "#\n"])).source = "#\n" := rfl
  have htext : (mixedCode (.array [.string "#\n"])).hasText = true := rfl
  have hnew : trimBreaksString (unhashed "#\n") = "" := rfl
  have hold : trimBreaksString "#\n" = "#" := rfl
  simp [mixedNotebook, Transformer.replacement?, htool, source_bad, hbad, hsource, htext, hnew,
    hold, hasText_mixedRaw]

theorem notebook_settles_unhashed :
    let n := mixedNotebook ["#\n"]
    let s := notebookSite n.render
    let done := (unhashedWorkshop.perform .apply .codeFormat notebookPath s).2
    Notebook.parse n.render.toList = .ok n ∧ n.Integral ∧ Transformer.Stable unhashed ∧
      n.cells.map ((unhashedWorkshop.transformer s .black notebookPath).replacement? Cell.hasText)
        = [none, some "", none] ∧
      (unhashedWorkshop.perform .check .codeFormat notebookPath done).1.status = .clean ∧
      (unhashedWorkshop.perform .apply .codeFormat notebookPath done).2.files = done.files := by
  intro n s
  have hn : Notebook.parse n.render.toList = .ok n :=
    Notebook.parse_render (sound_mixedNotebook _) (integral_mixedNotebook _)
  have hr : s.files.readText s.workingDirectory notebookPath = .ok n.render :=
    readText_notebookSite n.render
  have hwd :=
    (unhashedWorkshop.samePaths_perform .apply .codeFormat notebookPath s).workingDirectory
  obtain ⟨hcheck, -, hfiles⟩ := notebook_settles (show Operation.codeFormat.cellTool? = _ from rfl)
    (by decide) hr hn (integral_mixedNotebook _) computes_unhashed
    (fun _ _ => List.not_mem_nil) stable_unhashed rfl hwd (List.Subset.refl _)
  exact ⟨hn, integral_mixedNotebook _, stable_unhashed, replacement?_unhashed rfl, hcheck, hfiles⟩

end Workshop

end CodeTidy
