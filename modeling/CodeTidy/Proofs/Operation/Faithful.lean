import CodeTidy.Proofs.Endings.Bytes
import CodeTidy.Proofs.Operation.Cellwise
import CodeTidy.Proofs.Operation.Settled

/-!
# What is stored of the output of a tool

The output of a tool is bytes, and they are read as text whatever they are.  Of an output that is
UTF-8 the file gets the text with its own line endings; of any other output it gets a text that the
tool has not printed, with U+FFFD in it, and the operation does not fail
(`Workshop.tool_output_written`).
-/

namespace CodeTidy

open CodeTidy.LineEnding

/-! ### Characters of an output -/

namespace LineEnding

variable {c : Char} {text : List Char}

theorem mem_toLf (hc : c ≠ '\r') (h : c ∈ text) : c ∈ toLf text := by
  induction text with
  | nil => exact h
  | cons d ds ih =>
    rw [toLf_cons]
    rcases List.mem_cons.1 h with rfl | h
    · rw [if_neg fun hcrlf => hc hcrlf.1]
      exact List.mem_cons_self
    · split
      · exact ih h
      · exact List.mem_cons_of_mem _ (ih h)

theorem mem_expandLf (h : c ∈ text) : c ∈ expandLf text := by
  refine List.mem_flatMap.2 ⟨c, h, ?_⟩
  split <;> simp [*]

/-- No character of an output is lost but carriage returns. -/
theorem mem_reapply (hc : c ≠ '\r') (h : c ∈ text) (source : List Char) :
    c ∈ reapply source text := by
  unfold reapply
  dsimp only
  split
  · exact h
  · split
    · exact h
    · cases detect source with
      | lf => exact mem_toLf hc h
      | crlf => exact mem_expandLf (mem_toLf hc h)
      | mixed => exact h

end LineEnding

/-! ### Running a tool -/

theorem Executor.run_of_completed {x : Executor} {site : Site} {words : CommandWords}
    {filename : Path} {input program : String} {c : Completion}
    (hprogram : words.program? = some program) (hmissing : program ∉ site.missing)
    (hlaunch : x.launch site.files site.workingDirectory
      ⟨program, words.arguments filename.display, Utf8.encode input⟩ = .completed c)
    (htime : x.overruns c.duration = false) (hstatus : c.status = some 0) :
    x.run site words filename input = .ok (Utf8.decodeLossy c.stdout) := by
  simp [run, execute, hprogram, hmissing, hlaunch, htime, ToolOutput.ofCompletion,
    ToolOutput.success, hstatus]

namespace Workshop

variable {w : Workshop} {s : Site} {path : Path} {op : Operation} {tool : Tool}
  {select : Cell → Bool} {source program : String} {c : Completion}

/-- **The file gets the output of the tool, up to line endings, exactly when the output is text.**
The operation never fails on an output: one that is no UTF-8 is stored as well, with a replacement
character in the place of what cannot be read.  (A text with LF breaks also turns two carriage
returns before a line feed into a CRLF break.) -/
theorem tool_output_written (hop : op.cellTool? = some (tool, select))
    (hp : path.hasExtension "py" = true)
    (hr : s.files.readText s.workingDirectory path = .ok source)
    (hprogram : (w.settings.command tool).program? = some program) (hmissing : program ∉ s.missing)
    (hlaunch : w.executor.launch s.files s.workingDirectory
      ⟨program, (w.settings.command tool).arguments path.display, Utf8.encode source⟩
        = .completed c)
    (htime : w.executor.overruns c.duration = false) (hstatus : c.status = some 0) :
    let outcome := (w.perform .apply op path s).1
    let done := (w.perform .apply op path s).2
    ∃ text, done.files.readText s.workingDirectory path = .ok text ∧
      (text = source → outcome.status = .clean ∧ done.files = s.files) ∧
      (text ≠ source → outcome.status = .modified) ∧
      (Alike (Utf8.encode text) c.stdout ↔ ∃ output, c.stdout = Utf8.encode output ∧
        (detect source.toList = .lf → ¬ ['\r', '\r', '\n'] <:+: output.toList)) ∧
      ((∀ output, c.stdout ≠ Utf8.encode output) → Utf8.replacement ∈ text.toList) := by
  intro outcome done
  have hnb := Path.isNotebook_of_python hp
  have hread := FileTree.readText_eq_ok_iff.1 hr
  have hrun : w.transformer s tool path source = .ok (Utf8.decodeLossy c.stdout) := by
    rw [transformer, sourceName, if_neg (by simp [hnb])]
    exact Executor.run_of_completed hprogram hmissing hlaunch htime hstatus
  have hpropose := (propose_of_cellTool? hop).trans
    (proposeTransform_of_transformer hnb hread hrun select)
  refine ⟨transformed source (Utf8.decodeLossy c.stdout),
    FileTree.readText_eq_ok_iff.2 (read_perform_of_ofContents hpropose hread), fun h => ?_,
    fun h => ?_, alike_reapply_iff source.toList c.stdout, fun h => ?_⟩
  · rw [h, Proposal.ofContents, if_pos rfl] at hpropose
    exact ⟨congrArg Outcome.status (outcome_perform hpropose _), files_perform_of_none hpropose rfl⟩
  · rw [Proposal.ofContents, if_neg fun e => h (encode_injective e)] at hpropose
    exact congrArg Outcome.status (outcome_perform hpropose _)
  · rw [transformed, String.toList_ofList]
    refine mem_reapply (by decide) ?_ _
    by_contra hnot
    obtain ⟨output, ho⟩ := Option.isSome_iff_exists.1 (Utf8.isSome_decode?_of_notMem hnot)
    exact h output (Utf8.encode_of_decode? ho).symm

/-! A file with CRLF breaks, and formatters that print LF breaks, in UTF-8 and in Latin-1. -/

def soundPath : Path :=
  .ofString "a.py"

def soundSite : Site :=
  ⟨⟨[([Utf8.encode "a.py"], .file (Utf8.encode "x\r\n") false)], by decide⟩, [], []⟩

def encodingWorkshop (output : Bytes) : Workshop :=
  ⟨{}, ⟨fun _ _ _ => .completed ⟨output, [], some 0, 0⟩, 0⟩⟩

theorem tool_output_written_crlf :
    let w := encodingWorkshop (Utf8.encode "é\n")
    let done := (w.perform .apply .codeFormat soundPath soundSite).2
    soundPath.hasExtension "py" = true ∧
      soundSite.files.readText [] soundPath = .ok "x\r\n" ∧
      ∃ text, done.files.readText [] soundPath = .ok text ∧
        Alike (Utf8.encode text) (Utf8.encode "é\n") := by
  intro w done
  have hp : soundPath.hasExtension "py" = true := by decide
  have hr : soundSite.files.readText [] soundPath = .ok "x\r\n" := rfl
  obtain ⟨text, hdone, -, -, halike, -⟩ := tool_output_written (w := w) (s := soundSite)
    (show Operation.codeFormat.cellTool? = some (.black, Cell.hasText) from rfl) hp hr
    (show _ = some "black" from rfl) List.not_mem_nil rfl rfl rfl
  have hcrlf : detect "x\r\n".toList ≠ .lf := by decide
  exact ⟨hp, hr, text, hdone, halike.2 ⟨"é\n", rfl, fun hlf => absurd hlf hcrlf⟩⟩

/-- Latin-1 is stored with a character that the tool has not printed, and reported as modified. -/
theorem tool_output_replaced :
    let outcome := ((encodingWorkshop [120, 233, 10]).perform .apply .codeFormat soundPath
      soundSite).1
    let done := ((encodingWorkshop [120, 233, 10]).perform .apply .codeFormat soundPath
      soundSite).2
    (∀ output, [120, 233, 10] ≠ Utf8.encode output) ∧ outcome.status = .modified ∧
      done.files.readText [] soundPath = .ok "x\ufffd\r\n" ∧
      ¬ Alike (Utf8.encode "x\ufffd\r\n") [120, 233, 10] := by
  refine ⟨fun output h => ?_, rfl, rfl, by unfold Alike; decide⟩
  have hnone : Utf8.decode? [120, 233, 10] = none := by decide
  rw [h, Utf8.decode?_encode] at hnone
  exact Option.some_ne_none _ hnone

end Workshop

end CodeTidy
