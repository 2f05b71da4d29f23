import CodeTidy.Proofs.Operation.Blame

/-!
# What the memory of missing programs is worth

A program that was looked for in vain is not looked for again.  Where the files that a program sees
do not decide what it does (`Toolbox.IgnoresFiles`), and a program that is missing for one input is
missing for all (`Toolbox.Uniform`), looking again would have come to the same: whatever has been
performed in between, a tool answers as it did at first (`Executor.Recalls.execute_eq`).  What an
operation proposes for a file depends on these answers and on the file alone
(`Workshop.propose_congr`).
-/

namespace CodeTidy

/-- What a program does does not depend on the files around it. -/
def Toolbox.IgnoresFiles (launch : Toolbox) : Prop :=
  ∀ t t' cwd i, launch t cwd i = launch t' cwd i

namespace Executor

variable {x : Executor} {s a : Site} {words : CommandWords} {filename : Path} {input : String}

/-- At a later site the programs known to be missing are those that were known at first, and some
more that nobody could ever launch. -/
structure Recalls (x : Executor) (s a : Site) : Prop where
  workingDirectory : a.workingDirectory = s.workingDirectory
  keeps : ∀ program ∈ s.missing, program ∈ a.missing
  lacks : ∀ program ∈ a.missing, program ∈ s.missing ∨
    ∀ t i, i.program = program → x.launch t s.workingDirectory i = .refused .notFound

theorem Recalls.refl (x : Executor) (s : Site) : x.Recalls s s :=
  ⟨rfl, fun _ h => h, fun _ h => .inl h⟩

/-- **What is remembered changes no answer.** -/
theorem Recalls.execute_eq (h : x.Recalls s a) (hfiles : x.launch.IgnoresFiles) :
    x.execute a words filename input = x.execute s words filename input := by
  unfold execute
  cases words.program? with
  | none => rfl
  | some program =>
    have hlaunch : ∀ i, x.launch a.files a.workingDirectory i
        = x.launch s.files s.workingDirectory i := by
      intro i
      rw [h.workingDirectory]
      exact hfiles _ _ _ _
    by_cases hs : program ∈ s.missing
    · have ha : program ∈ a.missing := h.keeps program hs
      simp [hs, ha]
    · by_cases ha : program ∈ a.missing
      · -- the program was not known to be missing, but it was
        have hrefused := (h.lacks program ha).resolve_left hs
        simp [hs, ha, hrefused]
      · simp [hs, ha, hlaunch]

end Executor

namespace Workshop

variable {w : Workshop} {s a b : Site} {path : Path}

/-- **What is proposed for a file depends on the file and on the answers of the tools.** -/
theorem propose_congr
    (hread : a.files.read a.workingDirectory path = b.files.read b.workingDirectory path)
    (hexecute : ∀ words filename input,
      w.executor.execute a words filename input = w.executor.execute b words filename input)
    (op : Operation) : w.propose a op path = w.propose b op path := by
  have hbytes : a.readBytes path = b.readBytes path := Site.readBytes_congr hread
  have htext : a.readText path = b.readText path := Site.readText_congr hread
  have hnotebook : a.readNotebook path = b.readNotebook path := Site.readNotebook_congr hread
  have htransformer : ∀ tool, w.transformer a tool path = w.transformer b tool path := by
    intro tool
    funext source
    rw [transformer, transformer, Executor.run, Executor.run, hexecute]
  have hchecker : w.checker a path = w.checker b path := by
    funext source
    exact hexecute _ _ _
  have htransform : ∀ tool select,
      w.proposeTransform a tool select path = w.proposeTransform b tool select path := by
    intro tool select
    rw [proposeTransform, proposeTransform, htext, hnotebook, htransformer]
  cases op with
  | sortImports => exact htransform _ _
  | codeFormat => exact htransform _ _
  | grammarCheck =>
    simp only [propose, proposeCheck, styleFindings, htext, hnotebook, hchecker]
  | newlineFix => simp only [propose, hbytes]
  | cleanNotebook => simp only [propose, hnotebook]
  | docformat => simp only [propose, htext]

theorem recalls_perform (hfiles : w.executor.launch.IgnoresFiles)
    (hu : w.executor.launch.Uniform) (h : w.executor.Recalls s a) (mode : Mode) (op : Operation)
    (path : Path) : w.executor.Recalls s (w.perform mode op path a).2 where
  workingDirectory := (w.samePaths_perform mode op path a).workingDirectory.trans h.workingDirectory
  keeps := by
    intro program hm
    rw [perform_eq rfl]
    exact MissingTools.mem_note_iff.2 (.inl (h.keeps program hm))
  lacks := by
    intro program hm
    rcases lacks_of_mem_missing hm with hm | ⟨i, hi, hl⟩
    · exact h.lacks program hm
    · refine .inr fun t j hj => ?_
      have hj' : i.program = j.program := hi.trans hj.symm
      rw [← h.workingDirectory, hfiles t a.files]
      exact hu _ _ _ _ hj' hl

end Workshop

end CodeTidy
