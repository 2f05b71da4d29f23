import CodeTidy.Operation.Finding

/-!
# Checking style with a tool

The checker reads a source and prints one finding a line.  Of a notebook it sees the cells with
code as one document, and `CheckedCell.locate` brings a line of that document back to the cell
that it came from.  Findings whose code starts with an ignored prefix are dropped.
-/

namespace CodeTidy

open CodeTidy.Text

/-! ### Notebooks as one document -/

/-- A cell as the checker sees it. -/
structure CheckedCell where
  /-- The number of the cell among all cells, from one. -/
  number : Nat
  /-- The source without line breaks at its end. -/
  source : String
  deriving DecidableEq, Repr

namespace CheckedCell

/-- The cells with code among cells of which the first has the given number. -/
def ofCells (number : Nat) : List Cell → List CheckedCell
  | [] => []
  | c :: cs =>
    if c.hasCode then ⟨number, trimBreaksString c.source⟩ :: ofCells (number + 1) cs
    else ofCells (number + 1) cs

def size (c : CheckedCell) : Nat :=
  (linesOf c.source).length

/-- The sources below each other. -/
def document (cells : List CheckedCell) : String :=
  String.intercalate "\n" (cells.map source) ++ "\n"

/-- The number of the cell from which a line of the document comes, and the line in that
cell. -/
def locate : List CheckedCell → Nat → Option (Nat × Nat)
  | [], _ => none
  | c :: cs, line => if line ≤ c.size then some (c.number, line) else locate cs (line - c.size)

end CheckedCell

/-- The finding at its place in the cells from which the document was built. -/
def Diagnostic.relocate (cells : List CheckedCell) (d : Diagnostic) : Diagnostic :=
  match CheckedCell.locate cells d.line with
  | none => d
  | some (number, line) => { d with cell := some number, line := line }

/-! ### Ignored findings -/

/-- Whether the settings say that a code does not matter in a file. -/
def Flake8Settings.ignores (settings : Flake8Settings) (path : Path) (code : String) : Bool :=
  let inFile :=
    match path.fileName? >>= Utf8.decode? with
    | none => []
    | some name => settings.perFileIgnores.codesFor name
  (settings.extendIgnore ++ inFile).any (startsWith code)

/-! ### Checking -/

/-- A tool that prints findings: what it prints, whatever its exit status. -/
abbrev Checker := String → Except ToolError ToolOutput

namespace Checker

/-- What a checker with the given program finds in a document.  A checker that fails has to
find something. -/
def findings (checker : Checker) (program : String) (document : String) :
    Except ToolError (List Diagnostic) :=
  match checker document with
  | .error error => .error error
  | .ok output =>
    let found := Diagnostic.parseAll output.stdout.toList
    if !output.success && found.isEmpty then .error (output.failure program) else .ok found

def notebookFindings (checker : Checker) (program : String) (n : Notebook) :
    Except ToolError (List Diagnostic) :=
  match CheckedCell.ofCells 1 n.cells with
  | [] => .ok []
  | cells =>
    match checker.findings program (CheckedCell.document cells) with
    | .error error => .error error
    | .ok found => .ok (found.map (·.relocate cells))

end Checker

def Flake8Settings.finding (settings : Flake8Settings) (path : Path) (found : List Diagnostic) :
    Finding :=
  .ofDiagnostics (found.filter fun d => !settings.ignores path d.code)

end CodeTidy
