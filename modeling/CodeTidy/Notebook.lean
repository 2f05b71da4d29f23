import CodeTidy.Json.Parser
import CodeTidy.Json.Printer
import CodeTidy.Text.Lines

/-!
# Jupyter notebooks

A notebook is a JSON object whose `cells` are taken out, checked and kept apart; everything else
stays as it was read, in its order.  `Notebook.parse` reads one, `toJson` puts the cells back
where they stood, and `render` writes the document with an indentation of one space.
-/

namespace CodeTidy

open CodeTidy.Text

/-! ### Cells -/

inductive CellKind where
  | code
  | markdown
  | raw
  | other (name : String)
  deriving DecidableEq, Repr

def CellKind.ofName (name : String) : CellKind :=
  if name = "code" then .code
  else if name = "markdown" then .markdown
  else if name = "raw" then .raw
  else .other name

/-- A notebook cell: its kind and all members of its object. -/
structure Cell where
  kind : CellKind
  data : Json.Members
  deriving DecidableEq, Repr

inductive CellError where
  | notAnObject
  | missingType
  | badSource
  | missingSource
  | missingOutputs
  deriving DecidableEq, Repr

def CellError.text : CellError → String
  | notAnObject => "cell is not an object"
  | missingType => "missing 'cell_type'"
  | badSource => "'source' must be a string or a list of strings"
  | missingSource => "missing 'source'"
  | missingOutputs => "code cell without 'outputs'"

namespace Cell

def isSource : Json → Bool
  | .string _ => true
  | .array lines => lines.all (·.string?.isSome)
  | _ => false

def ofJson? (value : Json) : Except CellError Cell :=
  match value.members? with
  | none => .error .notAnObject
  | some data =>
    match data.get? "cell_type" >>= Json.string? with
    | none => .error .missingType
    | some name =>
      match data.get? "source" with
      | none => .error .missingSource
      | some source =>
        if !isSource source then .error .badSource
        else if CellKind.ofName name = .code ∧ (data.get? "outputs" >>= Json.items?).isNone then
          .error .missingOutputs
        else .ok ⟨CellKind.ofName name, data⟩

def toJson (c : Cell) : Json :=
  .object c.data

def isCode (c : Cell) : Bool :=
  c.kind == .code

/-- The source, whether it is stored as one string or as a list of lines. -/
def source (c : Cell) : String :=
  match c.data.get? "source" with
  | some (.string text) => text
  | some (.array lines) => String.join (lines.filterMap Json.string?)
  | _ => ""

/-- Replaces the source and keeps the way in which it is stored. -/
def setSource (c : Cell) (text : String) : Cell :=
  let value : Json :=
    match c.data.get? "source" with
    | some (.string _) => .string text
    | _ => .array ((pieces text.toList).map fun p => .string (String.ofList p))
  { c with data := c.data.insert "source" value }

/-- Whether a line is neither blank nor a comment. -/
def isCodeLine (line : List Char) : Bool :=
  match trim line with
  | [] => false
  | c :: _ => c != '#'

/-- Whether a code cell holds anything but blank lines and comments. -/
def hasCode (c : Cell) : Bool :=
  c.isCode && (lines c.source.toList).any isCodeLine

/-- Whether a code cell holds anything but blanks. -/
def hasText (c : Cell) : Bool :=
  c.isCode && !isBlankString c.source

def outputCount (c : Cell) : Nat :=
  ((c.data.get? "outputs" >>= Json.items?).getD []).length

/-- The execution count, if it is present and not null. -/
def executionCount (c : Cell) : Option Json :=
  (c.data.get? "execution_count").filter (!·.isNull)

/-- Whether the cell has outputs or an execution count. -/
def hasOutput (c : Cell) : Bool :=
  0 < c.outputCount || c.executionCount.isSome

/-- The members of the metadata, if they are an object. -/
def metadata (c : Cell) : Option Json.Members :=
  c.data.get? "metadata" >>= Json.members?

/-! ### Cleaning -/

/-- Empties the outputs of a code cell. -/
def dropOutputs (c : Cell) : Cell :=
  if c.isCode ∧ 0 < c.outputCount then { c with data := c.data.insert "outputs" (.array []) } else c

def dropExecutionCount (c : Cell) : Cell :=
  if c.isCode ∧ c.executionCount.isSome then
    { c with data := c.data.insert "execution_count" .null }
  else c

def stripMetadata (keys : List String) (c : Cell) : Cell :=
  match c.metadata with
  | none => c
  | some ms =>
    { c with data := c.data.insert "metadata" (.object (ms.eraseAll keys)) }

/-- Whether cleaning would change the cell. -/
def isDirty (keys : List String) (c : Cell) : Bool :=
  c.isCode && c.hasOutput || (c.metadata.getD []).any fun m => keys.contains m.1

/-- Removes the outputs and the execution count of a code cell, and the keys from the metadata
of any cell. -/
def clean (keys : List String) (c : Cell) : Cell :=
  if c.isDirty keys then (c.dropOutputs.dropExecutionCount).stripMetadata keys else c

end Cell

/-! ### Notebooks -/

inductive NotebookError where
  | json (fault : Json.Fault) (text : List Char)
  | notAnObject
  | missingCells
  | invalidCell (index : Nat) (reason : CellError)
  deriving DecidableEq, Repr

def NotebookError.message : NotebookError → String
  | json fault text => "invalid notebook JSON: " ++ fault.describe text
  | notAnObject => "notebook document is not a JSON object"
  | missingCells => "cannot find 'cells' in notebook"
  | invalidCell index reason => "invalid cell " ++ toString index ++ ": " ++ reason.text

/-- A notebook: the members of its object, in which `cells` only marks a place, and its
cells. -/
structure Notebook where
  root : Json.Members
  cells : List Cell
  deriving DecidableEq, Repr

namespace Notebook

def empty : Notebook :=
  ⟨[], []⟩

/-- The cells of a list of values, the first of which has number `index`. -/
def cellsOf (index : Nat) : List Json → Except NotebookError (List Cell)
  | [] => .ok []
  | value :: values =>
    match Cell.ofJson? value with
    | .error reason => .error (.invalidCell index reason)
    | .ok cell => (cellsOf (index + 1) values).map (cell :: ·)

def ofJson (document : Json) : Except NotebookError Notebook :=
  match document.members? with
  | none => .error .notAnObject
  | some root =>
    match root.get? "cells" >>= Json.items? with
    | none => .error .missingCells
    | some values => (cellsOf 0 values).map fun cells => ⟨root.insert "cells" .null, cells⟩

/-- Reads a notebook; a text of blanks is one without content. -/
def parse (text : List Char) : Except NotebookError Notebook :=
  if text.all isBlank then .ok empty
  else
    match Json.parse text with
    | .error fault => .error (.json fault text)
    | .ok document => ofJson document

def toJson (n : Notebook) : Json :=
  .object (n.root.insert "cells" (.array (n.cells.map Cell.toJson)))

def render (n : Notebook) : String :=
  n.toJson.pretty 1 ++ "\n"

def isDirty (keys : List String) (n : Notebook) : Bool :=
  n.cells.any (·.isDirty keys)

def clean (keys : List String) (n : Notebook) : Notebook :=
  { n with cells := n.cells.map (·.clean keys) }

end Notebook

end CodeTidy
