import CodeTidy.Notebook
import CodeTidy.Report.Outcome
import CodeTidy.Tool.Executor

/-!
# What an operation says about a file

An operation works on one file: it either fails with an `OperationError`, or ends with a
`Finding` and the site as it left it (`OperationResult`).  When some cells of a notebook fail
and others do not, that is a finding too, since the cells that did not fail may have been
stored.
-/

namespace CodeTidy

/-! ### Errors -/

/-- Why an operation gave no result for a file. -/
inductive OperationError where
  /-- The file cannot be read. -/
  | unreadable (path : Path) (reason : OsError)
  /-- The file is not text. -/
  | notText (path : Path)
  /-- The file is a notebook and cannot be read. -/
  | unreadableNotebook (path : Path) (reason : OsError)
  | notebook (error : NotebookError)
  | tool (error : ToolError)
  deriving Repr

namespace OperationError

def message : OperationError → String
  | unreadable path reason => "Failed to access " ++ path.display ++ ": " ++ reason.text
  | notText path => path.display ++ " is not valid UTF-8"
  | unreadableNotebook path reason =>
    "failed to access notebook " ++ path.display ++ ": " ++ reason.text
  | notebook error => error.message
  | tool error => error.message

/-- The error of a tool that stopped the operation. -/
def tool? : OperationError → Option ToolError
  | tool error => some error
  | _ => none

end OperationError

/-! ### Findings -/

structure Finding where
  status : Status
  message : Option String := none
  diagnostics : List Diagnostic := []
  deriving DecidableEq, Repr

namespace Finding

def clean : Finding :=
  ⟨.clean, none, []⟩

def modified (message : String) : Finding :=
  ⟨.modified, some message, []⟩

def violation (message : String) : Finding :=
  ⟨.violation, some message, []⟩

def error (message : String) : Finding :=
  ⟨.error, some message, []⟩

/-- The finding that carries diagnostics; without any the file is clean. -/
def ofDiagnostics (diagnostics : List Diagnostic) : Finding :=
  if diagnostics.isEmpty then clean else ⟨.violation, none, diagnostics⟩

def cellText (number : Nat) (error : ToolError) : String :=
  "cell " ++ toString number ++ ": " ++ error.message

def ofFailures (failures : List (Nat × ToolError)) : Finding :=
  error ("Failed to process " ++ toString failures.length ++ " cell(s): "
    ++ String.intercalate "; " (failures.map fun (number, error) => cellText number error))

end Finding

def Operation.pendingMessage : Operation → String
  | sortImports => "Imports are incorrectly sorted and/or formatted."
  | codeFormat => "would have been reformatted."
  | grammarCheck => ""
  | newlineFix => "No newline at end of file"
  | cleanNotebook => "has not been cleared of its outputs."
  | docformat => "comments would have been reflowed."

def Operation.doneMessage : Operation → String
  | sortImports => "Imports have been sorted."
  | codeFormat => "has been reformatted."
  | grammarCheck => ""
  | newlineFix => "Added newline at end of file"
  | cleanNotebook => "has been cleared of its outputs."
  | docformat => "comments have been reflowed."

/-- How an operation on a file ends: the finding and the site afterwards, or an error that leaves
the files as they were. -/
abbrev OperationResult := Except OperationError (Finding × Site)

/-! ### Files -/

namespace Site

def readBytes (s : Site) (path : Path) : Except OperationError Bytes :=
  (s.files.read s.workingDirectory path).mapError (.unreadable path)

def readText (s : Site) (path : Path) : Except OperationError String := do
  let content ← s.readBytes path
  match Utf8.decode? content with
  | none => throw (.notText path)
  | some text => return text

def readNotebook (s : Site) (path : Path) : Except OperationError Notebook := do
  let text ← (s.files.readText s.workingDirectory path).mapError (.unreadableNotebook path)
  (Notebook.parse text.toList).mapError .notebook

def write (s : Site) (path : Path) (content : Bytes) : Site :=
  match s.files.resolve s.workingDirectory path with
  | .error _ => s
  | .ok l => { s with files := s.files.write l content }

def writeText (s : Site) (path : Path) (text : String) : Site :=
  s.write path (Utf8.encode text)

def writeNotebook (s : Site) (path : Path) (n : Notebook) : Site :=
  s.writeText path n.render

end Site

end CodeTidy
