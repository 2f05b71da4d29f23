import CodeTidy.Tool.Executor

/-!
# Programs that are not there

A tool reports its program as missing exactly when the program was missing before or cannot be
launched for that reason (`Executor.run_eq_notFound_iff`).  Where that depends on the program
alone (`Toolbox.Uniform`), a tool that is missing for one input is missing for all.
-/

namespace CodeTidy

/-- Whether a program is there does not depend on what it is given. -/
def Toolbox.Uniform (launch : Toolbox) : Prop :=
  ∀ t cwd i j, i.program = j.program → launch t cwd i = .refused .notFound →
    launch t cwd j = .refused .notFound

/-! ### What tools report -/

namespace Executor

variable {x : Executor} {site : Site} {words : CommandWords} {filename : Path}
  {input program : String}

theorem execute_eq_notFound_iff :
    x.execute site words filename input = .error (.notFound program) ↔
      words.program? = some program ∧
        (program ∈ site.missing ∨
          x.launch site.files site.workingDirectory
            ⟨program, words.arguments filename.display, Utf8.encode input⟩
              = .refused .notFound) := by
  unfold execute
  cases words.program? with
  | none => simp
  | some program' =>
    simp only [Option.some.injEq]
    split
    · rename_i hm
      simp only [Except.error.injEq, ToolError.notFound.injEq]
      constructor
      · rintro rfl
        exact ⟨rfl, .inl (List.contains_iff_mem.1 hm)⟩
      · exact fun h => h.1
    · rename_i hm
      have hm' : program' ∉ site.missing := fun h => hm (List.contains_iff_mem.2 h)
      split
      · rename_i hl
        simp only [Except.error.injEq, ToolError.notFound.injEq]
        constructor
        · rintro rfl
          exact ⟨rfl, .inr hl⟩
        · exact fun h => h.1
      · rename_i reason hr hl
        simp only [Except.error.injEq, reduceCtorEq, false_iff]
        rintro ⟨rfl, h | h⟩
        · exact hm' h
        · exact hr (Launch.refused.inj (hl.symm.trans h))
      · rename_i c hl
        have hne : ∀ program, ¬ (program' = program ∧ (program ∈ site.missing ∨
            x.launch site.files site.workingDirectory
              ⟨program, words.arguments filename.display, Utf8.encode input⟩
                = .refused .notFound)) := by
          rintro program ⟨rfl, h | h⟩
          · exact hm' h
          · simp [hl] at h
        split <;> simp [hne]

theorem run_eq_notFound_iff :
    x.run site words filename input = .error (.notFound program) ↔
      x.execute site words filename input = .error (.notFound program) := by
  unfold run
  cases x.execute site words filename input with
  | error e => simp
  | ok output =>
    dsimp only
    split <;> simp [ToolOutput.failure]

/-- A tool that is missing for one input is missing for all. -/
theorem run_notFound_of_uniform (hu : x.launch.Uniform)
    (h : x.run site words filename input = .error (.notFound program)) (input' : String) :
    x.run site words filename input' = .error (.notFound program) := by
  rw [run_eq_notFound_iff, execute_eq_notFound_iff] at h ⊢
  obtain ⟨hp, hm | hl⟩ := h
  · exact ⟨hp, .inl hm⟩
  · refine ⟨hp, .inr (hu _ _ _ _ ?_ hl)⟩
    rfl

/-- The program is known to be missing, or cannot be launched because it is. -/
def Lacks (x : Executor) (site : Site) (program : String) : Prop :=
  program ∈ site.missing ∨
    ∃ i, i.program = program ∧
      x.launch site.files site.workingDirectory i = .refused .notFound

theorem lacks_of_execute (h : x.execute site words filename input = .error (.notFound program)) :
    x.Lacks site program :=
  (execute_eq_notFound_iff.1 h).2.imp_right fun hl => ⟨_, rfl, hl⟩

theorem lacks_of_run (h : x.run site words filename input = .error (.notFound program)) :
    x.Lacks site program :=
  lacks_of_execute (run_eq_notFound_iff.1 h)

end Executor

/-! ### What is remembered -/

theorem MissingTools.mem_note_iff {missing : MissingTools} {error? : Option ToolError}
    {program : String} :
    program ∈ missing.note error? ↔
      program ∈ missing ∨ error? = some (.notFound program) := by
  unfold note
  split
  · rename_i program'
    split
    · rename_i h
      have hm := List.contains_iff_mem.1 h
      constructor
      · exact .inl
      · rintro (h | h)
        · exact h
        · rwa [← ToolError.notFound.inj (Option.some.inj h)]
    · simp [eq_comm]
  · rename_i h
    constructor
    · exact .inl
    · rintro (h' | h')
      · exact h'
      · exact absurd h' (h program)

end CodeTidy
