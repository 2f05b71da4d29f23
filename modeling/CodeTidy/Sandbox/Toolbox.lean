import CodeTidy.Sandbox.Interpreter
import CodeTidy.Tool.Launch

/-!
# The sandbox as a toolbox

Tools run in a sandbox: the utilities, shell scripts, and executable files of the tree.  A
program that is named without a slash is a utility or is not there.
-/

namespace CodeTidy.Sandbox

/-- Whether a word can be handed to a program. -/
def isPassable (word : String) : Bool :=
  !word.toList.contains '\x00'

/-- How a program's last state looks from outside. -/
def Interpreter.State.completion (m : Interpreter.State) : Completion :=
  { stdout := (m.stream 1).toBytes
    stderr := (m.stream 2).toBytes
    status := if m.halt = some .killed then none else some m.status
    duration := m.duration }

/-- The last state of a program that is launched, or why it is not. -/
def launch (files : FileTree) (cwd : Location) (i : Invocation) :
    Except OsError Interpreter.State :=
  let s : Surroundings := ⟨files, cwd⟩
  let word := Octets.ofString i.program
  if !(i.program :: i.arguments).all isPassable then .error .nulByte
  else
    (Interpreter.findProgram s word).map fun program =>
      Interpreter.start s Interpreter.depthLimit program word
        (i.arguments.map Octets.ofString) (Octets.ofBytes i.input)

/-- Launches programs in the sandbox.  The files that a program writes are its own; they are not
there for others. -/
def toolbox : Toolbox := fun files cwd i =>
  match launch files cwd i with
  | .error reason => .refused reason
  | .ok m => .completed m.completion

/-- The files after a program has run that writes into the same tree. -/
def filesAfter (files : FileTree) (cwd : Location) (i : Invocation) : FileTree :=
  match launch files cwd i with
  | .error _ => files
  | .ok m => m.surroundings.files

end CodeTidy.Sandbox
