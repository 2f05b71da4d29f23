/-!
# Commands and the operations they run

A command is what the user asks for, an operation what is done to one file after another.
`Command.plan` lists the operations of a command in the order in which they run.
-/

namespace CodeTidy

/-! ### Modes and filters -/

/-- Whether files may be changed. -/
inductive Mode where
  | apply
  | check
  deriving DecidableEq, Repr

def Mode.name : Mode → String
  | apply => "apply"
  | check => "check"

/-- Which files an operation wants to see. -/
inductive FileFilter where
  /-- Files with the extension `py`. -/
  | python
  /-- Files with the extension `ipynb`. -/
  | notebook
  /-- Files with either extension. -/
  | pythonOrNotebook
  /-- Files that do not look binary. -/
  | text
  deriving DecidableEq, Repr

/-! ### Operations -/

/-- What can be done to a file. -/
inductive Operation where
  | sortImports
  | codeFormat
  | grammarCheck
  | newlineFix
  | cleanNotebook
  | docformat
  deriving DecidableEq, Repr

namespace Operation

/-- The name under which reports list the operation. -/
def name : Operation → String
  | sortImports => "sort-libraries"
  | codeFormat => "code-format"
  | grammarCheck => "grammar-check"
  | newlineFix => "newline-fix"
  | cleanNotebook => "clean-jupyter"
  | docformat => "docformat"

def description : Operation → String
  | sortImports => "Sort imports with isort"
  | codeFormat => "Format code with black"
  | grammarCheck => "Check code style with flake8"
  | newlineFix => "Ensure files end with a newline"
  | cleanNotebook => "Clear notebook outputs and execution counts"
  | docformat => "Reflow over-long comments (experimental)"

def filter : Operation → FileFilter
  | sortImports => .pythonOrNotebook
  | codeFormat => .pythonOrNotebook
  | grammarCheck => .pythonOrNotebook
  | newlineFix => .text
  | cleanNotebook => .notebook
  | docformat => .python

/-- Whether the operation can change files; one that cannot does the same in both modes. -/
def fixable : Operation → Bool
  | grammarCheck => false
  | _ => true

end Operation

/-! ### Commands -/

/-- What the user can ask for. -/
inductive Command where
  | sortLibraries
  | codeFormat
  | grammarCheck
  | newlineFix
  | cleanJupyter
  | lint
  | docformat
  deriving DecidableEq, Repr

namespace Command

def all : List Command :=
  [sortLibraries, codeFormat, grammarCheck, newlineFix, cleanJupyter, lint, docformat]

def name : Command → String
  | sortLibraries => "sort-libraries"
  | codeFormat => "code-format"
  | grammarCheck => "grammar-check"
  | newlineFix => "newline-fix"
  | cleanJupyter => "clean-jupyter"
  | lint => "lint"
  | docformat => "docformat"

def ofName? (name : String) : Option Command :=
  all.find? (·.name == name)

/-- What is said about a name that no command has. -/
def unknownMessage (name : String) : String :=
  "Unknown command '" ++ name ++ "'. Expected one of: "
    ++ String.intercalate ", " (all.map Command.name)

/-- The operations of a command, in order.  Cleaning notebooks is an option of `lint`. -/
def plan (c : Command) (cleanNotebooks : Bool) : List Operation :=
  match c with
  | sortLibraries => [.sortImports]
  | codeFormat => [.codeFormat]
  | grammarCheck => [.grammarCheck]
  | newlineFix => [.newlineFix]
  | cleanJupyter => [.cleanNotebook]
  | docformat => [.docformat]
  | lint =>
    (if cleanNotebooks then [.cleanNotebook] else [])
      ++ [.sortImports, .codeFormat, .grammarCheck, .newlineFix]

end Command

end CodeTidy
