import CodeTidy.Operation.Perform
import CodeTidy.Proofs.Text.Utf8

/-!
# One proposal behind both modes

The two modes of an operation are functions of their own.  A `Proposal` says what should become of
a file, whatever the mode, and settling it (`Proposal.settle`) is what either mode does
(`Workshop.check_eq_settle`, `Workshop.apply_eq_settle`).  So a run of an operation is its proposal,
settled (`Workshop.perform_eq`).
-/

namespace CodeTidy

/-- What should become of a file. -/
inductive Proposal where
  /-- The file is as it should be. -/
  | keep
  | replace (content : Bytes)
  /-- Somebody has to look at these findings. -/
  | findings (diagnostics : List Diagnostic)
  | failed (error : OperationError)
  /-- A tool failed on some cells, and others may have changed. -/
  | partly (failures : List (Nat × ToolError)) (content? : Option Bytes)

namespace Proposal

/-- The proposal to put new content in the place of the old one. -/
def ofContents (old new : Bytes) : Proposal :=
  if new = old then keep else replace new

def ofDiagnostics (diagnostics : List Diagnostic) : Proposal :=
  if diagnostics.isEmpty then keep else findings diagnostics

/-- What is proposed for a value that has to be there. -/
def ofExcept {α : Type} (x : Except OperationError α) (k : α → Proposal) : Proposal :=
  match x with
  | .error error => failed error
  | .ok a => k a

def content? (mode : Mode) : Proposal → Option Bytes
  | replace content => if mode = .apply then some content else none
  | partly _ content? => if mode = .apply then content? else none
  | _ => none

def toolError? : Proposal → Option ToolError
  | failed error => error.tool?
  | _ => none

def outcome (op : Operation) (mode : Mode) (path : Path) : Proposal → Outcome
  | keep => ⟨path, op.name, .clean, none, []⟩
  | replace _ =>
    match mode with
    | .check => ⟨path, op.name, .violation, some op.pendingMessage, []⟩
    | .apply => ⟨path, op.name, .modified, some op.doneMessage, []⟩
  | findings diagnostics => ⟨path, op.name, .violation, none, diagnostics⟩
  | failed error => ⟨path, op.name, .error, some error.message, []⟩
  | partly failures _ => ⟨path, op.name, .error, (Finding.ofFailures failures).message, []⟩

/-- What comes of a proposal in a mode. -/
def settle (op : Operation) (mode : Mode) (path : Path) (s : Site) : Proposal → OperationResult
  | keep => .ok (.clean, s)
  | replace content =>
    match mode with
    | .check => .ok (.violation op.pendingMessage, s)
    | .apply => .ok (.modified op.doneMessage, s.write path content)
  | findings diagnostics => .ok (⟨.violation, none, diagnostics⟩, s)
  | failed error => .error error
  | partly failures content? =>
    match mode with
    | .check => .ok (.ofFailures failures, s)
    | .apply => .ok (.ofFailures failures, content?.elim s (s.write path))

variable {op : Operation} {mode : Mode} {path : Path} {s : Site}

/-- What is done with a value settles what is proposed for it. -/
theorem bind_eq_settle {α : Type} {x : Except OperationError α} {k : α → Proposal}
    {f : α → OperationResult} (h : ∀ a, f a = (k a).settle op mode path s) :
    x >>= f = (ofExcept x k).settle op mode path s := by
  cases x with
  | error error => rfl
  | ok a => exact h a

theorem settle_ofDiagnostics (diagnostics : List Diagnostic) :
    (ofDiagnostics diagnostics).settle op mode path s
      = .ok (Finding.ofDiagnostics diagnostics, s) := by
  unfold ofDiagnostics Finding.ofDiagnostics
  split <;> rfl

end Proposal

/-! ### Proposals of the operations -/

theorem Path.isNotebook_of_python {p : Path} (h : p.hasExtension "py" = true) :
    p.isNotebook = false := by
  have hpy : p.extension? = some (Utf8.encode "py") := by simpa [hasExtension] using h
  rw [isNotebook, hasExtension, hpy]
  decide

def proposeNewline (content : Bytes) : Proposal :=
  if needsNewline content then .replace (content ++ LineEnding.dominantBytes content) else .keep

def proposeCleaning (keys : List String) (n : Notebook) : Proposal :=
  if n.isDirty keys then .replace (Utf8.encode (n.clean keys).render) else .keep

def proposeReflow (lineLength : Nat) (source : String) : Proposal :=
  .ofContents (Utf8.encode source) (Utf8.encode (reflowed lineLength source))

namespace Transformer

variable (tool : Transformer) (select : Cell → Bool) (n : Notebook)

def proposeSource (source : String) : Proposal :=
  .ofExcept ((tool source).mapError .tool) fun output =>
    .ofContents (Utf8.encode source) (Utf8.encode (transformed source output))

/-- The content that is proposed for the cells that a tool changed. -/
def content? : Option Bytes :=
  if (tool.cellResults select n).any CellResult.isChanged then
    some (Utf8.encode (tool.transformCells select n).render)
  else none

def proposeCells : Proposal :=
  match CellResult.failures 1 (tool.cellResults select n) with
  | [] => (tool.content? select n).elim .keep .replace
  | failures => .partly failures (tool.content? select n)

def proposeNotebook : Proposal :=
  match (tool.cellResults select n).findSome? CellResult.missing? with
  | some error => .failed (.tool error)
  | none => tool.proposeCells select n

end Transformer

namespace Workshop

def proposeTransform (w : Workshop) (s : Site) (tool : Tool) (select : Cell → Bool)
    (path : Path) : Proposal :=
  if path.isNotebook then
    .ofExcept (s.readNotebook path) ((w.transformer s tool path).proposeNotebook select)
  else .ofExcept (s.readText path) (w.transformer s tool path).proposeSource

def styleFindings (w : Workshop) (s : Site) (path : Path) :
    Except OperationError (List Diagnostic) :=
  let program := ((w.settings.command .flake8).program?).getD ""
  if path.isNotebook then
    s.readNotebook path >>= fun n =>
      ((w.checker s path).notebookFindings program n).mapError .tool
  else
    s.readText path >>= fun source => ((w.checker s path).findings program source).mapError .tool

def proposeCheck (w : Workshop) (s : Site) (path : Path) : Proposal :=
  .ofExcept (w.styleFindings s path) fun found =>
    .ofDiagnostics (found.filter fun d => !w.settings.flake8.ignores path d.code)

/-- What an operation makes of the file at a path. -/
def propose (w : Workshop) (s : Site) (op : Operation) (path : Path) : Proposal :=
  match op with
  | .sortImports => w.proposeTransform s .isort Cell.hasCode path
  | .codeFormat => w.proposeTransform s .black Cell.hasText path
  | .grammarCheck => w.proposeCheck s path
  | .newlineFix => .ofExcept (s.readBytes path) proposeNewline
  | .cleanNotebook =>
    .ofExcept (s.readNotebook path) (proposeCleaning w.settings.general.stripMetadataKeys)
  | .docformat => .ofExcept (s.readText path) (proposeReflow w.settings.black.lineLength)

end Workshop

/-! ### Both modes settle the proposal -/

theorem Proposal.settle_ofContents {op : Operation} {mode : Mode} {path : Path} {s : Site}
    (old new : String) :
    (ofContents (Utf8.encode old) (Utf8.encode new)).settle op mode path s
      = if new = old then .ok (.clean, s)
        else
          match mode with
          | .check => .ok (.violation op.pendingMessage, s)
          | .apply => .ok (.modified op.doneMessage, s.writeText path new) := by
  unfold ofContents
  by_cases h : new = old
  · rw [if_pos h, if_pos (congrArg _ h)]
    rfl
  · rw [if_neg h, if_neg fun e => h (encode_injective e)]
    rfl

namespace Site

variable (s : Site) (path : Path)

theorem checkNewline_eq_settle :
    s.checkNewline path
      = (Proposal.ofExcept (s.readBytes path) proposeNewline).settle .newlineFix .check path s := by
  refine Proposal.bind_eq_settle fun content => ?_
  unfold proposeNewline
  cases needsNewline content <;> rfl

theorem applyNewline_eq_settle :
    s.applyNewline path
      = (Proposal.ofExcept (s.readBytes path) proposeNewline).settle .newlineFix .apply path s := by
  refine Proposal.bind_eq_settle fun content => ?_
  unfold proposeNewline
  cases needsNewline content <;> rfl

theorem checkCleaning_eq_settle (keys : List String) :
    s.checkCleaning path keys
      = (Proposal.ofExcept (s.readNotebook path) (proposeCleaning keys)).settle .cleanNotebook
          .check path s := by
  refine Proposal.bind_eq_settle fun n => ?_
  unfold proposeCleaning
  cases n.isDirty keys <;> rfl

theorem applyCleaning_eq_settle (keys : List String) :
    s.applyCleaning path keys
      = (Proposal.ofExcept (s.readNotebook path) (proposeCleaning keys)).settle .cleanNotebook
          .apply path s := by
  refine Proposal.bind_eq_settle fun n => ?_
  unfold proposeCleaning
  cases n.isDirty keys <;> rfl

theorem checkReflow_eq_settle (lineLength : Nat) :
    s.checkReflow path lineLength
      = (Proposal.ofExcept (s.readText path) (proposeReflow lineLength)).settle .docformat
          .check path s := by
  refine Proposal.bind_eq_settle fun original => ?_
  rw [proposeReflow, Proposal.settle_ofContents]
  rfl

theorem applyReflow_eq_settle (lineLength : Nat) :
    s.applyReflow path lineLength
      = (Proposal.ofExcept (s.readText path) (proposeReflow lineLength)).settle .docformat
          .apply path s := by
  refine Proposal.bind_eq_settle fun original => ?_
  rw [proposeReflow, Proposal.settle_ofContents]
  rfl

end Site

namespace Transformer

variable (tool : Transformer) (select : Cell → Bool) (op : Operation) (mode : Mode) (s : Site)
  (path : Path)

theorem runSource_eq_settle :
    tool.runSource op mode s path
      = (Proposal.ofExcept (s.readText path) tool.proposeSource).settle op mode path s := by
  refine Proposal.bind_eq_settle fun original => Proposal.bind_eq_settle fun output => ?_
  rw [Proposal.settle_ofContents]
  cases mode <;> rfl

theorem runNotebook_eq_settle :
    tool.runNotebook select op mode s path
      = (Proposal.ofExcept (s.readNotebook path) (tool.proposeNotebook select)).settle op mode
          path s := by
  refine Proposal.bind_eq_settle fun n => ?_
  unfold proposeNotebook
  dsimp only
  cases (tool.cellResults select n).findSome? CellResult.missing? with
  | some error => rfl
  | none =>
    unfold proposeCells content?
    cases hc : (tool.cellResults select n).any CellResult.isChanged <;>
      cases hf : CellResult.failures 1 (tool.cellResults select n) <;> cases mode <;> rfl

end Transformer

namespace Workshop

variable (w : Workshop) (s : Site) (path : Path)

theorem runTool_eq_settle (tool : Tool) (select : Cell → Bool) (op : Operation) (mode : Mode) :
    w.runTool tool select op mode s path
      = (w.proposeTransform s tool select path).settle op mode path s := by
  unfold runTool proposeTransform
  split
  · exact Transformer.runNotebook_eq_settle _ _ _ _ _ _
  · exact Transformer.runSource_eq_settle _ _ _ _ _

theorem checkStyle_eq_settle (mode : Mode) :
    w.checkStyle s path = (w.proposeCheck s path).settle .grammarCheck mode path s := by
  have h : w.checkStyle s path
      = w.styleFindings s path >>= fun found => .ok (w.settings.flake8.finding path found, s) := by
    unfold checkStyle styleFindings
    dsimp only
    split <;> exact (bind_assoc _ _ _).symm
  rw [h]
  exact Proposal.bind_eq_settle fun found => (Proposal.settle_ofDiagnostics _).symm

/-- **A check settles the proposal without writing.** -/
theorem check_eq_settle (op : Operation) :
    w.check op s path = (w.propose s op path).settle op .check path s := by
  cases op with
  | sortImports => exact w.runTool_eq_settle s path _ _ _ _
  | codeFormat => exact w.runTool_eq_settle s path _ _ _ _
  | grammarCheck => exact w.checkStyle_eq_settle s path _
  | newlineFix => exact s.checkNewline_eq_settle path
  | cleanNotebook => exact s.checkCleaning_eq_settle path _
  | docformat => exact s.checkReflow_eq_settle path _

/-- **Applying an operation settles the same proposal.** -/
theorem apply_eq_settle (op : Operation) :
    w.apply op s path = (w.propose s op path).settle op .apply path s := by
  cases op with
  | sortImports => exact w.runTool_eq_settle s path _ _ _ _
  | codeFormat => exact w.runTool_eq_settle s path _ _ _ _
  | grammarCheck => exact w.checkStyle_eq_settle s path _
  | newlineFix => exact s.applyNewline_eq_settle path
  | cleanNotebook => exact s.applyCleaning_eq_settle path _
  | docformat => exact s.applyReflow_eq_settle path _

theorem check_eq_apply {w : Workshop} {s : Site} {path : Path} {op : Operation}
    (h : op.fixable = false) : w.check op s path = w.apply op s path := by
  cases op with
  | grammarCheck => rfl
  | _ => simp [Operation.fixable] at h

end Workshop

end CodeTidy
