import CodeTidy.Tool.Command
import CodeTidy.Tool.Launch

/-!
# Running tools

`Executor.execute` hands a text to a tool and returns what the tool prints, whatever its exit
status; `Executor.run` also wants the tool to succeed.  A program that is not there is
remembered, and nobody looks for it again: `MissingTools.note` is all that an execution leaves
behind.
-/

namespace CodeTidy

open CodeTidy.Text

/-! ### Errors and output -/

/-- Why a tool gave no result. -/
inductive ToolError where
  /-- There is no such program. -/
  | notFound (program : String)
  | failed (program detail : String)
  | timedOut (program : String) (limit : Nat)
  /-- The program is there and cannot be started. -/
  | refused (program : String) (reason : OsError)
  deriving DecidableEq, Repr

def ToolError.message : ToolError → String
  | notFound program => "Tool '" ++ program ++ "' not found in PATH"
  | failed program detail => "Tool '" ++ program ++ "' failed: " ++ detail
  | timedOut program limit => "Tool '" ++ program ++ "' timed out after " ++ toString limit ++ "ms"
  | refused program reason => "I/O error: Failed to spawn '" ++ program ++ "': " ++ reason.text

/-- What a tool printed, and how it exited. -/
structure ToolOutput where
  stdout : String
  stderr : String
  status : Option Nat
  deriving DecidableEq, Repr

namespace ToolOutput

/-- Reads what a program left as text. -/
def ofCompletion (c : Completion) : ToolOutput :=
  ⟨Utf8.decodeLossy c.stdout, Utf8.decodeLossy c.stderr, c.status⟩

def success (o : ToolOutput) : Bool :=
  o.status == some 0

/-- The exit code; a tool that a signal ended has -1. -/
def exitCode (o : ToolOutput) : Int :=
  o.status.elim (-1) Int.ofNat

/-- The failure of a tool with this output: its error output tells why, or else its output. -/
def failure (program : String) (o : ToolOutput) : ToolError :=
  let told := if isBlankString o.stderr then o.stdout else o.stderr
  .failed program ("Exit code " ++ toString o.exitCode ++ ": " ++ trimString told)

end ToolOutput

/-! ### Programs that are not there -/

/-- The programs that were looked for in vain. -/
abbrev MissingTools := List String

/-- What is known about missing programs after an execution. -/
def MissingTools.note (missing : MissingTools) (error? : Option ToolError) : MissingTools :=
  match error? with
  | some (.notFound program) => if missing.contains program then missing else missing ++ [program]
  | _ => missing

/-- Where a run works: the files, the working directory, and the programs known to be missing. -/
structure Site where
  files : FileTree
  workingDirectory : Location
  missing : MissingTools := []
  deriving Repr

/-! ### Execution -/

/-- What runs the tools of a run. -/
structure Executor where
  launch : Toolbox
  /-- How many milliseconds a tool may take; zero sets no limit. -/
  timeout : Nat

namespace Executor

/-- Whether a program that ran so long was stopped. -/
def overruns (x : Executor) (duration : Nat) : Bool :=
  0 < x.timeout && x.timeout ≤ duration

/-- The output of a tool that is given a text to work on. -/
def execute (x : Executor) (site : Site) (words : CommandWords) (filename : Path)
    (input : String) : Except ToolError ToolOutput :=
  match words.program? with
  | none => .error (.failed "unknown" "Empty command")
  | some program =>
    if site.missing.contains program then .error (.notFound program)
    else
      match x.launch site.files site.workingDirectory
          ⟨program, words.arguments filename.display, Utf8.encode input⟩ with
      | .refused .notFound => .error (.notFound program)
      | .refused reason => .error (.refused program reason)
      | .completed c =>
        if x.overruns c.duration then .error (.timedOut program x.timeout)
        else .ok (ToolOutput.ofCompletion c)

/-- What a tool that succeeds prints. -/
def run (x : Executor) (site : Site) (words : CommandWords) (filename : Path)
    (input : String) : Except ToolError String :=
  match x.execute site words filename input with
  | .error e => .error e
  | .ok output =>
    if output.success then .ok output.stdout
    else .error (output.failure (words.program?.getD ""))

end Executor

end CodeTidy
