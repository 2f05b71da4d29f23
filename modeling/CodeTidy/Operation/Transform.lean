import CodeTidy.LineEnding
import CodeTidy.Operation.Finding

/-!
# What a tool makes of a source

A tool that changes source is a function from texts to texts that may fail.  A file is handed
to it as a whole, and its output is given the line endings of the file; of a notebook it sees
one selected cell after another, and a cell on which it fails stays as it is.
-/

namespace CodeTidy

open CodeTidy.Text

/-- A tool that changes a text. -/
abbrev Transformer := String → Except ToolError String

/-! ### Files -/

/-- What a tool's output makes of a text. -/
def transformed (source output : String) : String :=
  String.ofList (LineEnding.reapply source.toList output.toList)

/-- Runs a tool on a source file; a check only says that the file would change. -/
def Transformer.runSource (tool : Transformer) (op : Operation) (mode : Mode) (s : Site)
    (path : Path) : OperationResult := do
  let original ← s.readText path
  let output ← (tool original).mapError .tool
  let new := transformed original output
  if new = original then
    return (.clean, s)
  match mode with
  | .check => return (.violation op.pendingMessage, s)
  | .apply => return (.modified op.doneMessage, s.writeText path new)

/-! ### Notebooks -/

/-- What a tool makes of a cell. -/
inductive CellResult where
  | unchanged
  | changed (c : Cell)
  | failed (error : ToolError)
  deriving Repr

namespace CellResult

/-- What a tool makes of a cell that is handed to it when it is selected.  Line breaks at the
end count for nothing. -/
def ofCell (select : Cell → Bool) (tool : Transformer) (c : Cell) : CellResult :=
  if select c then
    match tool c.source with
    | .error error => failed error
    | .ok output =>
      if trimBreaksString output = trimBreaksString c.source then unchanged
      else changed (c.setSource (trimBreaksString output))
  else unchanged

def cell (old : Cell) : CellResult → Cell
  | changed c => c
  | unchanged => old
  | failed _ => old

def isChanged : CellResult → Bool
  | changed _ => true
  | _ => false

/-- The failure because of which no other cell is tried: the tool is not there. -/
def missing? : CellResult → Option ToolError
  | failed (.notFound program) => some (.notFound program)
  | _ => none

/-- The failures among results, the first of which is for cell `number`. -/
def failures (number : Nat) : List CellResult → List (Nat × ToolError)
  | [] => []
  | failed error :: rest => (number, error) :: failures (number + 1) rest
  | _ :: rest => failures (number + 1) rest

end CellResult

namespace Transformer

def cellResults (tool : Transformer) (select : Cell → Bool) (n : Notebook) : List CellResult :=
  n.cells.map (CellResult.ofCell select tool)

def transformCells (tool : Transformer) (select : Cell → Bool) (n : Notebook) : Notebook :=
  { n with cells := n.cells.map fun c => (CellResult.ofCell select tool c).cell c }

/-- Runs a tool on the cells of a notebook.  The cells that changed are stored even when others
failed, but nothing is when the tool is not there. -/
def runNotebook (tool : Transformer) (select : Cell → Bool) (op : Operation) (mode : Mode)
    (s : Site) (path : Path) : OperationResult := do
  let n ← s.readNotebook path
  let results := tool.cellResults select n
  match results.findSome? CellResult.missing? with
  | some error => throw (.tool error)
  | none =>
    let changed := results.any CellResult.isChanged
    let done :=
      if changed && mode = .apply then s.writeNotebook path (tool.transformCells select n) else s
    match CellResult.failures 1 results with
    | [] =>
      match changed, mode with
      | false, _ => return (.clean, done)
      | true, .check => return (.violation op.pendingMessage, done)
      | true, .apply => return (.modified op.doneMessage, done)
    | failures => return (.ofFailures failures, done)

end Transformer

end CodeTidy
