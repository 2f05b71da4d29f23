import CodeTidy.Proofs.Tool.Missing

/-!
# The memory of missing programs is transparent

Calls of tools are made on one executor, one after another, each at its own moment: with the files,
the directory and the programs that are there then (`ToolCall`).  As long as no program comes or goes,
every call is answered as if nothing were remembered (`ToolCall.answersFrom_eq_map`), although a
program that is remembered as missing is not looked for again (`ToolCall.error?_of_mem`).  Remembered are
exactly the programs that were reported as missing (`ToolCall.mem_memory_iff`).
-/

namespace CodeTidy

/-! ### Calls -/

/-- A call of a tool, and what is around it at that moment. -/
structure ToolCall where
  toolbox : Toolbox
  files : FileTree
  workingDirectory : Location
  words : CommandWords
  filename : Path
  input : String
  /-- Whether the tool has to succeed. -/
  strict : Bool

/-- How a call is answered. -/
inductive ToolAnswer where
  /-- The tool may have failed. -/
  | output (result : Except ToolError ToolOutput)
  /-- The tool had to succeed. -/
  | printed (result : Except ToolError String)

def ToolAnswer.error? : ToolAnswer → Option ToolError
  | output (.error e) => some e
  | output (.ok _) => none
  | printed (.error e) => some e
  | printed (.ok _) => none

namespace ToolCall

/-- The invocation that the call is about, of the program of its command. -/
def invocation (c : ToolCall) (program : String) : Invocation :=
  ⟨program, c.words.arguments c.filename.display, Utf8.encode c.input⟩

/-- The answer to the call, when some programs are known to be missing. -/
def answer (timeout : Nat) (missing : MissingTools) (c : ToolCall) : ToolAnswer :=
  let x : Executor := ⟨c.toolbox, timeout⟩
  let site : Site := ⟨c.files, c.workingDirectory, missing⟩
  if c.strict then .printed (x.run site c.words c.filename c.input)
  else .output (x.execute site c.words c.filename c.input)

/-- What is known after the call. -/
def remember (timeout : Nat) (missing : MissingTools) (c : ToolCall) : MissingTools :=
  missing.note (c.answer timeout missing).error?

/-- What is known after some calls on a fresh executor. -/
def memory (timeout : Nat) (calls : List ToolCall) : MissingTools :=
  calls.foldl (remember timeout) []

/-- The answers to calls on one executor, one after another. -/
def answersFrom (timeout : Nat) : MissingTools → List ToolCall → List ToolAnswer
  | _, [] => []
  | missing, c :: calls =>
    c.answer timeout missing :: answersFrom timeout (c.remember timeout missing) calls

/-- The answers to calls on a fresh executor. -/
def answers (timeout : Nat) (calls : List ToolCall) : List ToolAnswer :=
  answersFrom timeout [] calls

/-- At the moment of the call its program cannot be found exactly if it is one of the absent. -/
def Misses (absent : String → Prop) (c : ToolCall) : Prop :=
  ∀ program, c.words.program? = some program →
    (c.toolbox c.files c.workingDirectory (c.invocation program) = .refused .notFound ↔
      absent program)

/-! ### One call -/

variable {timeout : Nat} {missing : MissingTools} {c : ToolCall} {calls : List ToolCall}
  {program : String} {absent : String → Prop}

theorem error?_eq_notFound_iff :
    (c.answer timeout missing).error? = some (.notFound program) ↔
      c.words.program? = some program ∧ (program ∈ missing ∨
        c.toolbox c.files c.workingDirectory (c.invocation program) = .refused .notFound) := by
  have hiff : Executor.execute ⟨c.toolbox, timeout⟩ ⟨c.files, c.workingDirectory, missing⟩
        c.words c.filename c.input = .error (.notFound program) ↔
      c.words.program? = some program ∧ (program ∈ missing ∨
        c.toolbox c.files c.workingDirectory (c.invocation program) = .refused .notFound) :=
    Executor.execute_eq_notFound_iff
  unfold answer
  dsimp only
  split
  · rw [← Executor.run_eq_notFound_iff] at hiff
    refine Iff.trans ?_ hiff
    cases Executor.run _ _ _ _ _ <;> simp [ToolAnswer.error?]
  · refine Iff.trans ?_ hiff
    cases Executor.execute _ _ _ _ _ <;> simp [ToolAnswer.error?]

/-- A program that is known to be missing is not looked for: whatever the toolbox does, the answer is
that the program is missing. -/
theorem error?_of_mem (hm : program ∈ missing) (hp : c.words.program? = some program)
    (toolbox : Toolbox) :
    (({ c with toolbox := toolbox } : ToolCall).answer timeout missing).error?
      = some (.notFound program) :=
  error?_eq_notFound_iff.2 ⟨hp, .inl hm⟩

/-- **What is known changes no answer, if it is true.** -/
theorem answer_eq_fresh (h : c.Misses absent) (hmissing : ∀ program ∈ missing, absent program) :
    c.answer timeout missing = c.answer timeout [] := by
  have hexecute : Executor.execute ⟨c.toolbox, timeout⟩ ⟨c.files, c.workingDirectory, missing⟩
      c.words c.filename c.input
        = Executor.execute ⟨c.toolbox, timeout⟩ ⟨c.files, c.workingDirectory, []⟩
          c.words c.filename c.input := by
    unfold Executor.execute
    cases hp : c.words.program? with
    | none => rfl
    | some program =>
      by_cases hm : program ∈ missing
      · -- looking for it again would have been in vain
        have hrefused := (h program hp).2 (hmissing program hm)
        rw [invocation] at hrefused
        simp [hm, hrefused]
      · simp [hm]
  simp only [answer, Executor.run, hexecute]

theorem mem_remember_iff :
    program ∈ c.remember timeout missing ↔
      program ∈ missing ∨ (c.answer timeout missing).error? = some (.notFound program) :=
  MissingTools.mem_note_iff

theorem remember_of_nil (h : c.words = []) : c.remember timeout missing = missing := by
  have hanswer : (c.answer timeout missing).error? = some (.failed "unknown" "Empty command") := by
    unfold answer Executor.run Executor.execute
    rw [h]
    cases c.strict <;> rfl
  rw [remember, hanswer]
  rfl

/-! ### Calls one after another -/

theorem memory_append_singleton (calls : List ToolCall) (c : ToolCall) :
    memory timeout (calls ++ [c]) = c.remember timeout (memory timeout calls) := by
  rw [memory, List.foldl_append]
  rfl

/-- One of the calls on a fresh executor was of this program, and was answered that a program is
missing. -/
def Reported (timeout : Nat) (calls : List ToolCall) (program : String) : Prop :=
  ∃ c a, (c, a) ∈ calls.zip (answers timeout calls) ∧ c.words.program? = some program ∧
    ∃ name, a.error? = some (.notFound name)

/-- Every answer is that to its call, whatever was known then. -/
theorem exists_answer_of_mem_zip {a : ToolAnswer}
    (h : (c, a) ∈ calls.zip (answersFrom timeout missing calls)) :
    ∃ known, a = c.answer timeout known := by
  induction calls generalizing missing with
  | nil => cases h
  | cons d calls ih =>
    rw [answersFrom, List.zip_cons_cons] at h
    rcases List.mem_cons.1 h with h | h
    · obtain ⟨rfl, rfl⟩ := Prod.mk.inj h
      exact ⟨missing, rfl⟩
    · exact ih h

theorem mem_foldl_remember_iff :
    program ∈ calls.foldl (remember timeout) missing ↔
      program ∈ missing ∨ ∃ c a, (c, a) ∈ calls.zip (answersFrom timeout missing calls) ∧
        a.error? = some (.notFound program) := by
  induction calls generalizing missing with
  | nil => simp
  | cons c calls ih =>
    rw [List.foldl_cons, ih, mem_remember_iff, or_assoc, answersFrom, List.zip_cons_cons]
    refine or_congr_right ?_
    constructor
    · rintro (h | ⟨c', a, hmem, h⟩)
      · exact ⟨c, _, List.mem_cons_self, h⟩
      · exact ⟨c', a, List.mem_cons_of_mem _ hmem, h⟩
    · rintro ⟨c', a, hmem, h⟩
      rcases List.mem_cons.1 hmem with hfirst | hmem
      · obtain ⟨rfl, rfl⟩ := Prod.mk.inj hfirst
        exact .inl h
      · exact .inr ⟨c', a, hmem, h⟩

/-- **Remembered are the programs that were reported as missing.** -/
theorem mem_memory_iff : program ∈ memory timeout calls ↔ Reported timeout calls program := by
  rw [memory, mem_foldl_remember_iff]
  constructor
  · rintro (h | ⟨c, a, hmem, h⟩)
    · cases h
    · obtain ⟨known, rfl⟩ := exists_answer_of_mem_zip hmem
      exact ⟨c, _, hmem, (error?_eq_notFound_iff.1 h).1, program, h⟩
  · rintro ⟨c, a, hmem, hp, name, h⟩
    obtain ⟨known, rfl⟩ := exists_answer_of_mem_zip hmem
    obtain rfl : program = name :=
      Option.some.inj (hp.symm.trans (error?_eq_notFound_iff.1 h).1)
    exact .inr ⟨c, _, hmem, h⟩

/-- Only absent programs are remembered. -/
theorem absent_of_mem_remember (h : c.Misses absent) (hmissing : ∀ program ∈ missing, absent program)
    (hm : program ∈ c.remember timeout missing) : absent program := by
  rcases mem_remember_iff.1 hm with hm | hreport
  · exact hmissing program hm
  · obtain ⟨hp, hm | hrefused⟩ := error?_eq_notFound_iff.1 hreport
    · exact hmissing program hm
    · exact (h program hp).1 hrefused

/-- **The answers are those of fresh executors.** -/
theorem answersFrom_eq_map (h : ∀ c ∈ calls, c.Misses absent)
    (hmissing : ∀ program ∈ missing, absent program) :
    answersFrom timeout missing calls = calls.map (answer timeout []) := by
  induction calls generalizing missing with
  | nil => rfl
  | cons c calls ih =>
    obtain ⟨hc, hcalls⟩ := List.forall_mem_cons.1 h
    have hknown : ∀ program ∈ c.remember timeout missing, absent program := fun program hm =>
      absent_of_mem_remember hc hmissing hm
    rw [answersFrom, List.map_cons, answer_eq_fresh hc hmissing, ih hcalls hknown]

/-- **The memory is transparent.**  While no program comes or goes, calls on one executor are answered
as each would be on a fresh one.  At every point a program is remembered exactly if it has been
reported as missing; an empty command changes nothing that is remembered; and what is remembered is
not looked for again, so that no toolbox has a part in the answer. -/
theorem memory_transparent (timeout : Nat) (absent : String → Prop) (calls : List ToolCall)
    (h : ∀ c ∈ calls, c.Misses absent) :
    answers timeout calls = calls.map (answer timeout []) ∧
      (∀ done, done <+: calls → ∀ program,
        program ∈ memory timeout done ↔ Reported timeout done program) ∧
      ∀ done c, done ++ [c] <+: calls →
        (c.words = [] → memory timeout (done ++ [c]) = memory timeout done) ∧
          ∀ program ∈ memory timeout done, c.words.program? = some program → ∀ toolbox : Toolbox,
            (({ c with toolbox := toolbox } : ToolCall).answer timeout (memory timeout done)).error?
              = some (.notFound program) := by
  refine ⟨answersFrom_eq_map h (by simp), fun done _ program => mem_memory_iff, ?_⟩
  intro done c _
  constructor
  · intro hempty
    rw [memory_append_singleton, remember_of_nil hempty]
  · intro program hm hp toolbox
    exact error?_of_mem hm hp toolbox

/-- A toolbox with one program that works and one that cannot be started. -/
def sparseToolbox : Toolbox := fun _ _ i =>
  if i.program = "cat" then .completed ⟨i.input, [], some 0, 5⟩
  else if i.program = "locked" then .refused .permissionDenied
  else .refused .notFound

/-- A call in a directory without files. -/
def plainCall (words : CommandWords) (strict : Bool) : ToolCall :=
  ⟨sparseToolbox, .empty, [], words, Path.ofString "a.py", "x = 1\n", strict⟩

/-- A missing program is called twice; between the calls others work, are locked or are not named. -/
def mixedCalls : List ToolCall :=
  [plainCall ["isort", "-"] true, plainCall ["cat"] true, plainCall [] false,
    plainCall ["locked"] false, plainCall ["isort"] false]

theorem memory_transparent_mixed :
    (∀ c ∈ mixedCalls, c.Misses (· = "isort")) ∧
      answers 0 mixedCalls = mixedCalls.map (answer 0 []) ∧ memory 0 mixedCalls = ["isort"] := by
  have hmisses : ∀ c ∈ mixedCalls, c.Misses (· = "isort") := by
    simp [mixedCalls, plainCall, Misses, sparseToolbox, invocation, CommandWords.program?]
  exact ⟨hmisses, (memory_transparent 0 (· = "isort") mixedCalls hmisses).1, by decide +kernel⟩

end ToolCall

end CodeTidy
