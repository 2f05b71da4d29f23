import CodeTidy.Comment.Reflow
import CodeTidy.Operation.Transform
import CodeTidy.Operation.StyleCheck

/-!
# Operations on files

Every operation has two modes: `Workshop.check` says what the operation would do to the file at a
path, and `Workshop.apply` does it.  `Workshop.perform` runs an operation in a mode and turns the
result into an outcome; an operation that cannot change files is only ever checked.
-/

namespace CodeTidy

/-- Whether content has a last line that is not ended; empty content has no line to end. -/
def needsNewline (content : Bytes) : Bool :=
  match content.getLast? with
  | none => false
  | some last => last != 10

def reflowed (lineLength : Nat) (source : String) : String :=
  String.ofList (Comment.reflow lineLength source.toList)

/-! ### Operations that need no tool -/

namespace Site

variable (s : Site) (path : Path)

def checkNewline : OperationResult := do
  let content ← s.readBytes path
  if needsNewline content then
    return (.violation Operation.newlineFix.pendingMessage, s)
  return (.clean, s)

def applyNewline : OperationResult := do
  let content ← s.readBytes path
  if !needsNewline content then
    return (.clean, s)
  return (.modified Operation.newlineFix.doneMessage,
    s.write path (content ++ LineEnding.dominantBytes content))

def checkCleaning (keys : List String) : OperationResult := do
  let n ← s.readNotebook path
  if n.isDirty keys then
    return (.violation Operation.cleanNotebook.pendingMessage, s)
  return (.clean, s)

def applyCleaning (keys : List String) : OperationResult := do
  let n ← s.readNotebook path
  if !n.isDirty keys then
    return (.clean, s)
  return (.modified Operation.cleanNotebook.doneMessage, s.writeNotebook path (n.clean keys))

def checkReflow (lineLength : Nat) : OperationResult := do
  let original ← s.readText path
  if reflowed lineLength original = original then
    return (.clean, s)
  return (.violation Operation.docformat.pendingMessage, s)

def applyReflow (lineLength : Nat) : OperationResult := do
  let original ← s.readText path
  let new := reflowed lineLength original
  if new = original then
    return (.clean, s)
  return (.modified Operation.docformat.doneMessage, s.writeText path new)

end Site

/-! ### Operations -/

/-- The settings that operations work with, and what runs their tools. -/
structure Workshop where
  settings : Sections
  executor : Executor

namespace Workshop

/-- The name under which a tool hears of a notebook: tools choose their parser by the
extension. -/
def sourceName (path : Path) : Path :=
  if path.isNotebook then path.withExtension "py" else path

/-- A tool of the settings as a function on texts. -/
def transformer (w : Workshop) (s : Site) (tool : Tool) (path : Path) : Transformer :=
  w.executor.run s (w.settings.command tool) (sourceName path)

/-- The style checker as a function on texts. -/
def checker (w : Workshop) (s : Site) (path : Path) : Checker :=
  w.executor.execute s (w.settings.command .flake8) (sourceName path)

def runTool (w : Workshop) (tool : Tool) (select : Cell → Bool) (op : Operation) (mode : Mode)
    (s : Site) (path : Path) : OperationResult :=
  if path.isNotebook then (w.transformer s tool path).runNotebook select op mode s path
  else (w.transformer s tool path).runSource op mode s path

def checkStyle (w : Workshop) (s : Site) (path : Path) : OperationResult := do
  let program := ((w.settings.command .flake8).program?).getD ""
  let checker := w.checker s path
  let found ←
    if path.isNotebook then do
      let n ← s.readNotebook path
      (checker.notebookFindings program n).mapError OperationError.tool
    else do
      let source ← s.readText path
      (checker.findings program source).mapError OperationError.tool
  return (w.settings.flake8.finding path found, s)

/-- Says what an operation would do to the file at a path. -/
def check (w : Workshop) (op : Operation) (s : Site) (path : Path) : OperationResult :=
  match op with
  | .sortImports => w.runTool .isort Cell.hasCode .sortImports .check s path
  | .codeFormat => w.runTool .black Cell.hasText .codeFormat .check s path
  | .grammarCheck => w.checkStyle s path
  | .newlineFix => s.checkNewline path
  | .cleanNotebook => s.checkCleaning path w.settings.general.stripMetadataKeys
  | .docformat => s.checkReflow path w.settings.black.lineLength

/-- Brings the file at a path in line with the rule of an operation. -/
def apply (w : Workshop) (op : Operation) (s : Site) (path : Path) : OperationResult :=
  match op with
  | .sortImports => w.runTool .isort Cell.hasCode .sortImports .apply s path
  | .codeFormat => w.runTool .black Cell.hasText .codeFormat .apply s path
  | .grammarCheck => w.checkStyle s path
  | .newlineFix => s.applyNewline path
  | .cleanNotebook => s.applyCleaning path w.settings.general.stripMetadataKeys
  | .docformat => s.applyReflow path w.settings.black.lineLength

/-- Runs an operation on the file at a path.  A program that was not there is remembered. -/
def perform (w : Workshop) (mode : Mode) (op : Operation) (path : Path) (s : Site) :
    Outcome × Site :=
  let result := if mode = .check || !op.fixable then w.check op s path else w.apply op s path
  match result with
  | .ok (finding, done) =>
    (⟨path, op.name, finding.status, finding.message, finding.diagnostics⟩, done)
  | .error error =>
    (⟨path, op.name, .error, some error.message, []⟩,
      { s with missing := s.missing.note error.tool? })

end Workshop

end CodeTidy
